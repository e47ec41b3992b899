/-!
# Machine words

A word is 64 bits. In memory it lies as eight bytes, lowest first. `Word.bytes` writes it that
way and `Word.ofBytes` reads it back.
-/

namespace Osl
set_option autoImplicit false

/-- A machine word; arithmetic on it wraps modulo `2 ^ 64`. -/
abbrev Word := UInt64

/-- A byte of memory, of code or of text. -/
abbrev Byte := UInt8

namespace Word

/-- The number of bytes in a word. -/
abbrev size : Nat := 8

/-- The lowest `n` bytes of `w`, lowest first. -/
def lowBytes : Nat → Word → List Byte
  | 0, _ => []
  | n + 1, w => w.toUInt8 :: lowBytes n (w >>> 8)

/-- The bytes of a word as memory holds them, lowest first. -/
def bytes (w : Word) : List Byte := lowBytes size w

/-- The word whose lowest bytes are `bs`, lowest first. -/
def ofBytes : List Byte → Word
  | [] => 0
  | b :: bs => b.toUInt64 + 256 * ofBytes bs

/-- The sum of two words, if a word can hold it. -/
def add? (v w : Word) : Option Word :=
  if v.toNat + w.toNat < UInt64.size then some (v + w) else none

/-- The difference of two words, unless it is negative. -/
def sub? (v w : Word) : Option Word := if w ≤ v then some (v - w) else none

/-- A number as a word, if a word can hold it. -/
def ofNat? (n : Nat) : Option Word := if n < UInt64.size then some (.ofNat n) else none

/-- The sign of a word read as a signed number: set from `2 ^ 63` on. -/
def isNegative (w : Word) : Bool := 0x8000000000000000 ≤ w

/-- The order of words read as signed numbers. -/
def signedLe (v w : Word) : Bool := v.toInt64 ≤ w.toInt64

theorem isNegative_iff {w : Word} : isNegative w ↔ 0x8000000000000000 ≤ w.toNat := by
  simp only [isNegative, decide_eq_true_eq, UInt64.le_iff_toNat_le, UInt64.reduceToNat]

theorem length_lowBytes (n : Nat) (w : Word) : (lowBytes n w).length = n := by
  induction n generalizing w with
  | zero => rfl
  | succ n ih => simp [lowBytes, ih]

@[simp] theorem length_bytes (w : Word) : (bytes w).length = 8 := length_lowBytes 8 w

/-- A sum that is given is the exact one. -/
theorem add?_eq_some_iff {v w s : Word} : add? v w = some s ↔ s.toNat = v.toNat + w.toNat := by
  have size := s.toNat_lt
  unfold add?
  split
  case isTrue fits =>
    have exact : (v + w).toNat = v.toNat + w.toNat := by
      rw [UInt64.toNat_add]
      exact Nat.mod_eq_of_lt fits
    rw [Option.some.injEq, ← UInt64.toNat_inj, exact, eq_comm]
  case isFalse large =>
    constructor
    · intro h
      cases h
    · intro h
      exact absurd (h ▸ size) large

/-- A difference that is given is the exact one. -/
theorem sub?_eq_some_iff {v w d : Word} : sub? v w = some d ↔ v.toNat = w.toNat + d.toNat := by
  unfold sub?
  split
  case isTrue order =>
    have exact := UInt64.toNat_sub_of_le v w order
    have : w.toNat ≤ v.toNat := UInt64.le_iff_toNat_le.1 order
    rw [Option.some.injEq, ← UInt64.toNat_inj, exact]
    omega
  case isFalse order =>
    have : ¬ w.toNat ≤ v.toNat := mt UInt64.le_iff_toNat_le.2 order
    constructor
    · intro h
      cases h
    · omega

theorem ofNat?_eq_some_iff {n : Nat} {w : Word} : ofNat? n = some w ↔ w.toNat = n := by
  have size := w.toNat_lt
  unfold ofNat?
  split
  case isTrue fits =>
    have exact : (UInt64.ofNat n).toNat = n := by
      rw [UInt64.toNat_ofNat']
      exact Nat.mod_eq_of_lt fits
    rw [Option.some.injEq, ← UInt64.toNat_inj, exact, eq_comm]
  case isFalse large =>
    constructor
    · intro h
      cases h
    · rintro rfl
      exact absurd size large

/-- Words are added up one after another exactly if a word can hold the whole sum: no sum on the way is
larger. -/
theorem foldlM_add?_eq_some_iff {ws : List Word} {v s : Word} :
    ws.foldlM add? v = some s ↔ s.toNat = v.toNat + ws.foldr (fun w n => w.toNat + n) 0 := by
  induction ws generalizing v with
  | nil =>
    rw [List.foldlM_nil, List.foldr_nil, Nat.add_zero, eq_comm (a := s.toNat)]
    exact Option.some_inj.trans UInt64.toNat_inj.symm
  | cons w ws ih =>
    have size := s.toNat_lt
    rw [List.foldlM_cons, List.foldr_cons, ← Nat.add_assoc]
    constructor
    · intro h
      obtain ⟨u, first, rest⟩ := Option.bind_eq_some_iff.1 h
      rw [ih.1 rest, add?_eq_some_iff.1 first]
    · intro h
      have fits : v.toNat + w.toNat < UInt64.size := by
        have : UInt64.size = 0x10000000000000000 := rfl
        omega
      have first : add? v w = some (v + w) := if_pos fits
      have exact := add?_eq_some_iff.1 first
      exact Option.bind_eq_some_iff.2 ⟨_, first, ih.2 (by rw [exact, h])⟩

end Word
end Osl
