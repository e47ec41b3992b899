import Osl.Arena.Lemmas

/-!
# What a change leaves alone

`SameOutside a b lo hi` says that going from `a` to `b` touched no address outside `lo ≤ p < hi`.
Overlays and copies are confined to the range they write, and whatever is read apart from the range
reads the same. `Holds a p ws` says that the words `ws` lie one after another from `p` on.
-/

namespace Osl.Arena
set_option autoImplicit false

variable {L : Layout} {a b c : Arena L} {lo hi : Nat}

/-- Both arenas hold the same bytes, except perhaps at the addresses from `lo` up to `hi`. -/
def SameOutside (a b : Arena L) (lo hi : Nat) : Prop :=
  ∀ p, p < lo ∨ hi ≤ p → b.byte p = a.byte p

namespace SameOutside

theorem refl (a : Arena L) (lo hi : Nat) : a.SameOutside a lo hi := fun _ _ => rfl

theorem trans (h : a.SameOutside b lo hi) (h' : b.SameOutside c lo hi) : a.SameOutside c lo hi :=
  fun p outside => (h' p outside).trans (h p outside)

/-- A change confined to a range is confined to every larger one. -/
theorem mono {lo' hi' : Nat} (h : a.SameOutside b lo hi) (low : lo' ≤ lo) (high : hi ≤ hi') :
    a.SameOutside b lo' hi' :=
  fun p outside => h p (by omega)

/-- Bytes apart from the range are the same. -/
theorem bytes {q n : Nat} (h : a.SameOutside b lo hi) (apart : q + n ≤ lo ∨ hi ≤ q) :
    b.bytes q n = a.bytes q n := by
  apply bytes_eq_iff.2
  intro i less
  exact h _ (by omega)

/-- A word apart from the range is the same. -/
theorem wordAt {q : Nat} (h : a.SameOutside b lo hi) (apart : q + 8 ≤ lo ∨ hi ≤ q) :
    b.wordAt q = a.wordAt q := by
  rw [Arena.wordAt, h.bytes apart, Arena.wordAt]

end SameOutside

/-- Both arenas hold the same bytes at the addresses from `lo` up to `hi`. -/
def SameInside (a b : Arena L) (lo hi : Nat) : Prop :=
  ∀ p, lo ≤ p → p < hi → b.byte p = a.byte p

/-- A change confined to one range leaves every range apart from it alone. -/
theorem SameOutside.inside {lo' hi' : Nat} (h : a.SameOutside b lo hi)
    (apart : hi' ≤ lo ∨ hi ≤ lo') : a.SameInside b lo' hi' :=
  fun p low high => h p (by omega)

namespace SameInside

theorem refl (a : Arena L) (lo hi : Nat) : a.SameInside a lo hi := fun _ _ _ => rfl

theorem trans (h : a.SameInside b lo hi) (h' : b.SameInside c lo hi) : a.SameInside c lo hi :=
  fun p low high => (h' p low high).trans (h p low high)

theorem mono {lo' hi' : Nat} (h : a.SameInside b lo hi) (low : lo ≤ lo') (high : hi' ≤ hi) :
    a.SameInside b lo' hi' :=
  fun p low' high' => h p (by omega) (by omega)

/-- Bytes in the range are the same. -/
theorem bytes {q n : Nat} (h : a.SameInside b lo hi) (low : lo ≤ q) (high : q + n ≤ hi) :
    b.bytes q n = a.bytes q n := by
  apply bytes_eq_iff.2
  intro i less
  exact h _ (by omega) (by omega)

/-- A word in the range is the same. -/
theorem wordAt {q : Nat} (h : a.SameInside b lo hi) (low : lo ≤ q) (high : q + 8 ≤ hi) :
    b.wordAt q = a.wordAt q := by
  rw [Arena.wordAt, h.bytes low high, Arena.wordAt]

end SameInside

/-- Changing one byte touches no other. -/
theorem sameOutside_set (a : Arena L) (p : Nat) (x : Byte) : a.SameOutside (a.set p x) p (p + 1) := by
  intro q outside
  by_cases inside : L.Within q 1
  · rw [byte_set _ _ _ _ inside, if_neg (by omega)]
  · rw [byte_of_not_within _ inside, byte_of_not_within _ inside]

/-- An overlay is confined to the bytes it writes. -/
theorem sameOutside_overlay (a : Arena L) (p : Nat) (bs : List Byte) :
    a.SameOutside (a.overlay p bs) p (p + bs.length) := by
  intro q outside
  by_cases inside : L.Within q 1
  · rw [byte_overlay _ _ _ _ inside, dif_neg (by omega)]
  · rw [byte_of_not_within _ inside, byte_of_not_within _ inside]

theorem sameOutside_overlay_word (a : Arena L) (p : Nat) (w : Word) :
    a.SameOutside (a.overlay p (Word.bytes w)) p (p + 8) := by
  simpa using sameOutside_overlay a p (Word.bytes w)

/-- A copy is confined to its target, also where it overlaps the source. -/
theorem sameOutside_forwardCopy (a : Arena L) (src dst n : Nat) :
    a.SameOutside (a.forwardCopy src dst n) dst (dst + n) := by
  induction n generalizing a src dst with
  | zero => exact .refl a _ _
  | succ n ih =>
    have first := (sameOutside_set a dst (a.byte src)).mono (Nat.le_refl dst)
      (by omega : dst + 1 ≤ dst + (n + 1))
    have rest := (ih (a.set dst (a.byte src)) (src + 1) (dst + 1)).mono
      (by omega : dst ≤ dst + 1) (by omega : dst + 1 + n ≤ dst + (n + 1))
    exact first.trans rest

theorem copy_of_within {src dst : Word} {n : Nat} (read : L.Within src.toNat n)
    (written : L.Within dst.toNat n) :
    copy src dst n a = .ok () (a.forwardCopy src.toNat dst.toNat n) := by
  simp only [copy_eq_ite, read, written, not_true_eq_false, if_false]

/-- A copy between ranges that do not both lie in the arena faults and changes nothing. The fault tells of
the source first. -/
theorem copy_eq_error {src dst : Word} {n : Nat}
    (outside : ¬ (L.Within src.toNat n ∧ L.Within dst.toNat n)) :
    copy src dst n a = .error (.memory (if L.Within src.toNat n then dst else src) n) a := by
  rw [copy_eq_ite]
  by_cases read : L.Within src.toNat n
  · have written : ¬ L.Within dst.toNat n := fun within => outside ⟨read, within⟩
    simp only [read, written, not_true_eq_false, not_false_eq_true, if_true, if_false]
  · simp only [read, not_false_eq_true, if_true, if_false]

theorem copy_of_not_within {src dst : Word} {n : Nat}
    (outside : ¬ (L.Within src.toNat n ∧ L.Within dst.toNat n)) :
    ∃ f, copy src dst n a = .error f a := ⟨_, copy_eq_error outside⟩

theorem bytes_succ (a : Arena L) (p n : Nat) : a.bytes p (n + 1) = a.byte p :: a.bytes (p + 1) n := by
  apply List.ext_getElem (by simp)
  intro i hi₁ hi₂
  cases i with
  | zero => simp
  | succ i =>
    rw [getElem_bytes, List.getElem_cons_succ, getElem_bytes]
    congr 1
    omega

/-- Two ranges that follow each other. -/
theorem bytes_add (a : Arena L) (p n k : Nat) :
    a.bytes p (n + k) = a.bytes p n ++ a.bytes (p + n) k := by
  induction n generalizing p with
  | zero => simp [bytes]
  | succ n ih =>
    have next : p + 1 + n = p + (n + 1) := by omega
    rw [Nat.succ_add, bytes_succ, ih, bytes_succ, next, List.cons_append]

/-- The `n` words from `p` on. -/
def words (a : Arena L) (p : Nat) : Nat → List Word
  | 0 => []
  | n + 1 => a.wordAt p :: a.words (p + 8) n

@[simp] theorem length_words (a : Arena L) (p n : Nat) : (a.words p n).length = n := by
  induction n generalizing p with
  | zero => rfl
  | succ n ih => simp [words, ih]

/-- Words apart from the range of a change are the same. -/
theorem SameOutside.words {p n : Nat} (h : a.SameOutside b lo hi)
    (apart : p + 8 * n ≤ lo ∨ hi ≤ p) : b.words p n = a.words p n := by
  induction n generalizing p with
  | zero => rfl
  | succ n ih => rw [Arena.words, Arena.words, h.wordAt (by omega), ih (by omega)]

/-- The words `ws` lie one after another from `p` on. -/
def Holds (a : Arena L) : Nat → List Word → Prop
  | _, [] => True
  | p, w :: ws => a.wordAt p = w ∧ a.Holds (p + 8) ws

theorem holds_append {p : Nat} {vs ws : List Word} :
    a.Holds p (vs ++ ws) ↔ a.Holds p vs ∧ a.Holds (p + 8 * vs.length) ws := by
  induction vs generalizing p with
  | nil => simp [Holds]
  | cons v vs ih =>
    have shift : p + 8 + 8 * vs.length = p + 8 * (v :: vs).length := by
      simp only [List.length_cons]
      omega
    simp only [List.cons_append, Holds, ih, and_assoc, shift]

/-- Words apart from the range of a change stay where they lie. -/
theorem Holds.sameOutside {p : Nat} {ws : List Word} (h : a.Holds p ws)
    (same : a.SameOutside b lo hi) (apart : p + 8 * ws.length ≤ lo ∨ hi ≤ p) : b.Holds p ws := by
  induction ws generalizing p with
  | nil => trivial
  | cons w ws ih =>
    simp only [List.length_cons] at apart
    exact ⟨(same.wordAt (by omega)).trans h.1, ih h.2 (by omega)⟩

end Osl.Arena
