import Osl.Proofs.Arena.Content
import Osl.Proofs.Arena.Initial
import Osl.Proofs.Integer.LaidOut
import Osl.Proofs.Isolation.Extent

/-!
# Cells that carry values

`Arena.Carries a next slot v`: the cell at `slot` holds `v`, and the content of a string is where it
stays until the cell itself is written: a content of up to sixteen bytes in the cell, a longer one among
the literals below `next`. Such a cell reads as `v` (`Carries.read_eq`) and is as wide as it looks
(`Carries.shapeAt_eq`). A window that is `Vacant` looks free and keeps no length.
-/

namespace Osl
set_option autoImplicit false

variable {L : Layout} {a b : Arena L} {next slot : Nat} {v : Value} {content : List Byte}

/-- The free sentinel is not taken for an integer. -/
theorem Word.not_isPlain_freeSentinel : ¬ freeSentinel.IsPlain := by decide

namespace Arena

/-- The cell at a slot holds a string. -/
structure CarriesString (a : Arena L) (next slot : Nat) (content : List Byte) : Prop where
  fits : slot + 32 ≤ L.data
  pos : 0 < content.length
  length : a.wordAt (L.dataBase + slot + 8) = .ofNat content.length
  bytes : a.bytes (a.wordAt (L.dataBase + slot)).toNat content.length = content
  place : (content.length ≤ inlineCapacity ∧
      (a.wordAt (L.dataBase + slot)).toNat = L.dataBase + slot + 16) ∨
    (inlineCapacity < content.length ∧ L.literalBase ≤ (a.wordAt (L.dataBase + slot)).toNat ∧
      (a.wordAt (L.dataBase + slot)).toNat + content.length ≤ next)

/-- The cell at a slot holds a value: an integer that is taken for one, or a string. -/
def Carries (a : Arena L) (next slot : Nat) : Value → Prop
  | .integer n => a.Holds (L.dataBase + slot) [n, 0] ∧ n.IsPlain
  | .string content => a.CarriesString next slot content

/-- The window at a slot looks free, and as a string it would be empty. -/
structure Vacant (a : Arena L) (slot : Nat) : Prop where
  first : ¬ (a.wordAt (L.dataBase + slot)).IsPlain
  second : a.wordAt (L.dataBase + slot + 8) = 0

/-- The data sections agree, and so do the literals below `next`: all that values are stored in. -/
structure SameValues (a b : Arena L) (next : Nat) : Prop where
  data : a.SameInside b L.dataBase L.stackBase
  literals : a.SameInside b L.literalBase next

namespace SameValues

theorem refl (a : Arena L) (next : Nat) : a.SameValues a next := ⟨.refl _ _ _, .refl _ _ _⟩

theorem trans {c : Arena L} (h : a.SameValues b next) (h' : b.SameValues c next) : a.SameValues c next :=
  ⟨h.data.trans h'.data, h.literals.trans h'.literals⟩

theorem mono {next' : Nat} (h : a.SameValues b next) (fewer : next' ≤ next) : a.SameValues b next' :=
  ⟨h.data, h.literals.mono (Nat.le_refl _) fewer⟩

end SameValues

namespace CarriesString

variable (h : a.CarriesString next slot content)

include h

/-- The whole content lies in the arena. -/
theorem within (used : next ≤ L.stop) :
    L.Within (a.wordAt (L.dataBase + slot)).toNat content.length := by
  have := L.ordered
  have := L.stackBase_eq
  have fits := h.fits
  unfold Layout.Within
  rcases h.place with ⟨short, address⟩ | ⟨-, low, high⟩
  · unfold inlineCapacity at short
    omega
  · omega

/-- The second word is the length, without a sign. -/
theorem toNat_length (used : next ≤ L.stop) :
    (a.wordAt (L.dataBase + slot + 8)).toNat = content.length ∧
      content.length < 0x8000000000000000 := by
  have within := h.within used
  have := L.stop_lt
  unfold Layout.Within at within
  rw [h.length]
  exact ⟨Word.toNat_ofNat_of_lt (by omega), by omega⟩

theorem second_ne (used : next ≤ L.stop) : a.wordAt (L.dataBase + slot + 8) ≠ 0 := by
  intro zero
  have length := (h.toNat_length used).1
  have pos := h.pos
  rw [zero] at length
  have none : (0 : Word).toNat = 0 := rfl
  omega

/-- A string stays while its cell and the literals do. -/
theorem sameInside {next' : Nat} (grown : next ≤ next')
    (cell : a.SameInside b (L.dataBase + slot) (L.dataBase + slot + 32))
    (literals : a.SameInside b L.literalBase next) : b.CarriesString next' slot content := by
  have first := cell.wordAt (q := L.dataBase + slot) (by omega) (by omega)
  have second := cell.wordAt (q := L.dataBase + slot + 8) (by omega) (by omega)
  refine ⟨h.fits, h.pos, by rw [second, h.length], ?_, ?_⟩
  · rw [first]
    refine Eq.trans ?_ h.bytes
    rcases h.place with ⟨short, address⟩ | ⟨-, low, high⟩
    · unfold inlineCapacity at short
      exact cell.bytes (by omega) (by omega)
    · exact literals.bytes low high
  · rw [first]
    refine h.place.imp_right ?_
    rintro ⟨long, low, high⟩
    exact ⟨long, low, by omega⟩

end CarriesString

/-- A value stays while its cell and the literals do. -/
theorem Carries.sameInside {next' : Nat} (h : a.Carries next slot v) (grown : next ≤ next')
    (cell : a.SameInside b (L.dataBase + slot) (L.dataBase + slot + v.span))
    (literals : a.SameInside b L.literalBase next) : b.Carries next' slot v := by
  cases v with
  | integer n =>
    obtain ⟨⟨first, second, -⟩, plain⟩ := h
    have cell : a.SameInside b (L.dataBase + slot) (L.dataBase + slot + 16) := cell
    obtain ⟨first', second'⟩ := cell.head (Nat.le_refl _)
    exact ⟨⟨first'.trans first, second'.trans second, trivial⟩, plain⟩
  | string content => exact CarriesString.sameInside h grown cell literals

/-- A cell that carries a value lies in the data section. -/
theorem Carries.fits (h : a.Carries next slot v) (isSlot : L.IsSlot slot) :
    slot + v.span ≤ L.data := by
  cases v with
  | integer n => exact isSlot.fits
  | string content => exact CarriesString.fits h

/-- The value that a cell carries is read from it. -/
theorem Carries.read_eq (h : a.Carries next slot v) (isSlot : L.IsSlot slot) (used : next ≤ L.stop) :
    Value.read a (L.cell slot) = .ok v := by
  rw [Value.read_eq a isSlot]
  cases v with
  | integer n =>
    obtain ⟨⟨first, second, -⟩, -⟩ := h
    rw [if_pos second, first]
  | string content =>
    have string : a.CarriesString next slot content := h
    rw [if_neg (string.second_ne used), (string.toNat_length used).1, Arena.slice_eq_ite,
      if_pos (string.within used), string.bytes]
    rfl

/-- A cell that carries a value is as wide as it looks, and it does not look free. -/
theorem Carries.shapeAt_eq (h : a.Carries next slot v) (isSlot : L.IsSlot slot)
    (used : next ≤ L.stop) :
    ∃ shape, Slots.shapeAt a slot = some shape ∧ shape ≠ .free ∧ shape.span = v.span := by
  rw [Slots.shapeAt_eq a isSlot]
  cases v with
  | integer n =>
    obtain ⟨⟨first, second, -⟩, plain⟩ := h
    rw [first, second, plain.classify]
    exact ⟨.integer, rfl, by decide, rfl⟩
  | string content =>
    have string : a.CarriesString next slot content := h
    have nonzero := string.second_ne used
    have := L.base_high
    have := L.ordered
    have high : addressThreshold < (a.wordAt (L.dataBase + slot)).toNat := by
      rcases string.place with ⟨-, address⟩ | ⟨-, low, -⟩ <;> omega
    rw [Shape.classify_of_ne_zero high nonzero]
    exact ⟨.string, rfl, by decide, rfl⟩

theorem Vacant.shapeAt_eq (h : a.Vacant slot) (isSlot : L.IsSlot slot) :
    Slots.shapeAt a slot = some .free := by
  have first := h.first
  unfold Word.IsPlain at first
  rw [Slots.shapeAt_eq a isSlot, h.second, Shape.classify_zero (by omega) (by omega)]

theorem Vacant.sameInside (h : a.Vacant slot)
    (same : a.SameInside b (L.dataBase + slot) (L.dataBase + slot + 16)) : b.Vacant slot := by
  obtain ⟨first, second⟩ := same.head (Nat.le_refl _)
  exact ⟨by rw [first]; exact h.first, by rw [second]; exact h.second⟩

/-- The windows of a new arena are vacant. -/
theorem vacant_initial (isSlot : L.IsSlot slot) : (initial L).Vacant slot := by
  obtain ⟨first, second, -⟩ := holds_initial isSlot
  refine ⟨?_, second⟩
  rw [first]
  exact Word.not_isPlain_freeSentinel

end Arena
end Osl
