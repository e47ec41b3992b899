import Osl.Arena.Basic
import Osl.Word.Lemmas

/-!
# Reading after writing

An access is granted exactly if it stays inside the arena, by unbounded arithmetic (`Layout.range_eq`), and
then it is to the bytes asked for: `slice_eq_ite`, `write_eq_ite` and the others.

What each change of an arena does to its bytes. `byte_set` and `byte_overlay` say which bytes
change and to what, `wordAt_overlay_bytes` that a word written is the word read, and
`wordAt_overlay_of_disjoint` that a write elsewhere leaves a word alone. By `ext_byte` an arena is
determined by its bytes.
-/

namespace Osl
set_option autoImplicit false

/-- The way from the base to an address is given exactly for a range inside the arena. -/
theorem Layout.offset?_eq_some_iff {L : Layout} {p : Word} {n i : Nat} :
    L.offset? p n = some i ↔ L.Within p.toNat n ∧ p.toNat = L.base + i := by
  have whole := L.stop_eq
  have bound := L.stop_lt
  have base : (UInt64.ofNat L.base).toNat = L.base := Word.toNat_ofNat_of_lt (by omega)
  unfold Layout.offset? Layout.Within
  constructor
  · intro granted
    obtain ⟨start, first, granted⟩ := Option.bind_eq_some_iff.1 granted
    obtain ⟨length, sized, granted⟩ := Option.bind_eq_some_iff.1 granted
    obtain ⟨stop, last, granted⟩ := Option.bind_eq_some_iff.1 granted
    rw [Word.sub?_eq_some_iff, base] at first
    rw [Word.ofNat?_eq_some_iff] at sized
    rw [Word.add?_eq_some_iff] at last
    split at granted
    · cases granted
    · cases granted
      omega
  · rintro ⟨⟨low, high⟩, place⟩
    have start : (UInt64.ofNat i).toNat = i := Word.toNat_ofNat_of_lt (by omega)
    have length : (UInt64.ofNat n).toNat = n := Word.toNat_ofNat_of_lt (by omega)
    have stop : (UInt64.ofNat (i + n)).toNat = i + n := Word.toNat_ofNat_of_lt (by omega)
    have first : Word.sub? p (.ofNat L.base) = some (.ofNat i) :=
      Word.sub?_eq_some_iff.2 (by rw [base, start, place])
    have sized : Word.ofNat? n = some (.ofNat n) := Word.ofNat?_eq_some_iff.2 length
    have last : Word.add? (.ofNat i) (.ofNat n) = some (.ofNat (i + n)) :=
      Word.add?_eq_some_iff.2 (by rw [start, length, stop])
    simp only [first, sized, last, Option.bind_eq_bind, Option.bind_some, start, stop]
    exact if_neg (by omega)

/-- An access starts at the address asked for, if it stays inside the arena. -/
theorem Layout.range_eq (L : Layout) (p : Word) (n : Nat) :
    L.range p n = if L.Within p.toNat n then .ok p.toNat else .error (.memory p n) := by
  unfold Layout.range
  by_cases within : L.Within p.toNat n
  · have low := within.1
    have granted : L.offset? p n = some (p.toNat - L.base) :=
      Layout.offset?_eq_some_iff.2 ⟨within, by omega⟩
    rw [granted, if_pos within]
    exact congrArg Except.ok (by omega)
  · have refused : L.offset? p n = none := by
      cases granted : L.offset? p n with
      | none => rfl
      | some i => exact absurd (Layout.offset?_eq_some_iff.1 granted).1 within
    rw [refused, if_neg within]

namespace Arena

variable {L : Layout}

section Access

variable (a : Arena L) (p : Word)

theorem slice_eq_ite (n : Nat) :
    a.slice p n = if L.Within p.toNat n then .ok (a.bytes p.toNat n) else .error (.memory p n) := by
  rw [slice, L.range_eq]
  split <;> rfl

theorem readByte_eq_ite :
    a.readByte p = if L.Within p.toNat 1 then .ok (a.byte p.toNat) else .error (.memory p 1) := by
  rw [readByte, L.range_eq]
  split <;> rfl

theorem readWord_eq_ite :
    a.readWord p = if L.Within p.toNat 8 then .ok (a.wordAt p.toNat) else .error (.memory p 8) := by
  rw [readWord, L.range_eq]
  split <;> rfl

theorem write_eq_ite (bs : List Byte) :
    write p bs a = if L.Within p.toNat bs.length then .ok () (a.overlay p.toNat bs)
      else .error (.memory p bs.length) a := by
  rw [write, L.range_eq]
  by_cases within : L.Within p.toNat bs.length
  · simp only [if_pos within]
  · simp only [if_neg within]

theorem copy_eq_ite (src dst : Word) (n : Nat) :
    copy src dst n a = if ¬ L.Within src.toNat n then .error (.memory src n) a
      else if ¬ L.Within dst.toNat n then .error (.memory dst n) a
      else .ok () (a.forwardCopy src.toNat dst.toNat n) := by
  rw [copy, L.range_eq, L.range_eq]
  by_cases read : L.Within src.toNat n
  · by_cases written : L.Within dst.toNat n
    · simp only [read, written, not_true_eq_false, if_true, if_false]
    · simp only [read, written, not_true_eq_false, not_false_eq_true, if_true, if_false]
  · simp only [read, not_false_eq_true, if_true, if_false]

end Access

theorem within_one {p : Nat} : L.Within p 1 ↔ L.base ≤ p ∧ p - L.base < L.size := by
  have := L.stop_eq
  unfold Layout.Within
  omega

/-- The bytes of the memory in the order of their addresses. -/
theorem byte_base_add (a : Arena L) {i : Nat} (h : i < L.size) :
    a.byte (L.base + i) = a.memory[i] := by
  unfold byte
  rw [dif_pos ⟨Nat.le_add_right _ _, by omega⟩]
  simp

/-- An address in the arena is its base and the place of a byte. -/
theorem exists_eq_base_add {p : Nat} (h : L.Within p 1) : ∃ i, i < L.size ∧ p = L.base + i := by
  have := within_one.1 h
  exact ⟨p - L.base, by omega, by omega⟩

/-- Outside the arena every byte reads as zero. -/
theorem byte_of_not_within (a : Arena L) {p : Nat} (h : ¬ L.Within p 1) : a.byte p = 0 :=
  dif_neg (mt within_one.2 h)

/-- An arena is determined by its bytes. -/
theorem ext_byte {a b : Arena L} (h : ∀ p, L.Within p 1 → a.byte p = b.byte p) : a = b := by
  cases a with | mk m
  cases b with | mk n
  congr
  apply Vector.ext
  intro i hi
  have := h (L.base + i) (within_one.2 (by omega))
  rwa [byte_base_add _ hi, byte_base_add _ hi] at this

/-- Changing one byte changes that byte only. -/
theorem byte_set (a : Arena L) (p q : Nat) (b : Byte) (hq : L.Within q 1) :
    (a.set p b).byte q = if q = p then b else a.byte q := by
  obtain ⟨i, hi, rfl⟩ := exists_eq_base_add hq
  unfold set
  split
  · rw [byte_base_add _ hi, byte_base_add _ hi, Vector.getElem_setIfInBounds]
    by_cases same : L.base + i = p
    · rw [if_pos (by omega), if_pos same]
    · rw [if_neg (by omega), if_neg same]
  · rw [if_neg (by omega)]

/-- An overlay replaces the bytes it covers and no others. -/
theorem byte_overlay (a : Arena L) (p q : Nat) (bs : List Byte) (hq : L.Within q 1) :
    (a.overlay p bs).byte q =
      if h : p ≤ q ∧ q - p < bs.length then bs[q - p] else a.byte q := by
  induction bs generalizing a p with
  | nil => simp [overlay]
  | cons b bs ih =>
    rw [overlay, ih, byte_set _ _ _ _ hq]
    by_cases same : q = p
    · subst same
      rw [dif_neg (by omega), if_pos rfl, dif_pos (by simp)]
      simp
    · by_cases later : p + 1 ≤ q ∧ q - (p + 1) < bs.length
      · rw [dif_pos later, dif_pos (by simp only [List.length_cons]; omega)]
        have : q - p = q - (p + 1) + 1 := by omega
        simp [this]
      · rw [dif_neg later, if_neg same, dif_neg (by simp only [List.length_cons]; omega)]

@[simp] theorem length_bytes (a : Arena L) (p n : Nat) : (a.bytes p n).length = n := by
  simp [bytes]

@[simp] theorem getElem_bytes (a : Arena L) (p n i : Nat) (h : i < (a.bytes p n).length) :
    (a.bytes p n)[i] = a.byte (p + i) := by simp [bytes]

/-- Ranges are equal if they are byte by byte. -/
theorem bytes_eq_iff {a b : Arena L} {p q n : Nat} :
    a.bytes p n = b.bytes q n ↔ ∀ i < n, a.byte (p + i) = b.byte (q + i) := by
  simp only [bytes, List.map_inj_left, List.mem_range]

theorem within_byte {p n i : Nat} (h : L.Within p n) (hi : i < n) : L.Within (p + i) 1 := by
  unfold Layout.Within at *
  omega

/-- Bytes written inside the arena are read back. -/
theorem bytes_overlay (a : Arena L) {p : Nat} {bs : List Byte} (h : L.Within p bs.length) :
    (a.overlay p bs).bytes p bs.length = bs := by
  apply List.ext_getElem (by simp)
  intro i h₁ h₂
  rw [getElem_bytes, byte_overlay _ _ _ _ (within_byte h h₂), dif_pos (by omega)]
  simp

/-- A write leaves the bytes of a range apart from it alone. -/
theorem bytes_overlay_of_disjoint (a : Arena L) {p q n : Nat} {bs : List Byte}
    (h : q + n ≤ p ∨ p + bs.length ≤ q) : (a.overlay p bs).bytes q n = a.bytes q n := by
  apply bytes_eq_iff.2
  intro i less
  by_cases inside : L.Within (q + i) 1
  · rw [byte_overlay _ _ _ _ inside, dif_neg (by omega)]
  · rw [byte_of_not_within _ inside, byte_of_not_within _ inside]

/-- The word written is the word read. -/
theorem wordAt_overlay_bytes (a : Arena L) {p : Nat} (h : L.Within p 8) (w : Word) :
    (a.overlay p (Word.bytes w)).wordAt p = w := by
  have whole : L.Within p (Word.bytes w).length := by simpa using h
  have := bytes_overlay a whole
  rw [Word.length_bytes] at this
  rw [wordAt, this, Word.ofBytes_bytes]

/-- A write apart from a word leaves it alone. -/
theorem wordAt_overlay_of_disjoint (a : Arena L) {p q : Nat} {bs : List Byte}
    (h : q + 8 ≤ p ∨ p + bs.length ≤ q) : (a.overlay p bs).wordAt q = a.wordAt q := by
  rw [wordAt, bytes_overlay_of_disjoint a h, wordAt]

end Arena
end Osl
