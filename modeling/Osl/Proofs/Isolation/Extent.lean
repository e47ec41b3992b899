import Osl.Proofs.Machine.Stack
import Osl.Proofs.Slots.Placement

/-!
# How far a cell extends

The value of a cell is read from its first two words, and of a string from its content as well.
`Arena.Extent a slot n` says that these bytes are the first `n` of the cell, so that the value stays as
long as they do (`Extent.read_eq`). Small integers, strings that lie in their own cell and windows that
look free have extents.
-/

namespace Osl
set_option autoImplicit false

variable {L : Layout} {a b : Arena L} {slot n : Nat}

/-- The number of bytes that the cell of a value takes up. -/
def Value.span : Value → Nat
  | .integer _ => 16
  | .string _ => 32

namespace Arena

/-- The cell at a slot holds an integer that is too small for an address. -/
structure IntegerAt (a : Arena L) (slot : Nat) : Prop where
  tag : a.wordAt (L.dataBase + slot + 8) = 0
  small : (a.wordAt (L.dataBase + slot)).toNat < addressThreshold

/-- The cell at a slot holds a string whose content lies in the cell. -/
structure StringAt (a : Arena L) (slot : Nat) : Prop where
  fits : slot + 32 ≤ L.data
  address : (a.wordAt (L.dataBase + slot)).toNat = L.dataBase + slot + 16
  pos : 0 < (a.wordAt (L.dataBase + slot + 8)).toNat
  short : (a.wordAt (L.dataBase + slot + 8)).toNat ≤ inlineCapacity

/-- What the cell at a slot holds takes up `n` bytes: an integer, a string in its own cell, or
something that is no value because its address is none. -/
inductive Extent (a : Arena L) (slot : Nat) : Nat → Prop
  | integer : a.wordAt (L.dataBase + slot + 8) = 0 → Extent a slot 16
  | string : a.StringAt slot → Extent a slot 32
  | dangling : a.wordAt (L.dataBase + slot + 8) ≠ 0 →
      (a.wordAt (L.dataBase + slot)).toNat < L.base → Extent a slot 16

theorem StringAt.tag (h : a.StringAt slot) : a.wordAt (L.dataBase + slot + 8) ≠ 0 := by
  intro zero
  have pos := h.pos
  rw [zero] at pos
  cases pos

theorem IntegerAt.extent (h : a.IntegerAt slot) : a.Extent slot 16 := .integer h.tag

/-- The first two words of a cell stay as long as its first sixteen bytes do. -/
theorem SameInside.head (same : a.SameInside b (L.dataBase + slot) (L.dataBase + slot + n))
    (two : 16 ≤ n) : b.wordAt (L.dataBase + slot) = a.wordAt (L.dataBase + slot) ∧
      b.wordAt (L.dataBase + slot + 8) = a.wordAt (L.dataBase + slot + 8) :=
  ⟨same.wordAt (by omega) (by omega), same.wordAt (by omega) (by omega)⟩

theorem IntegerAt.sameInside (h : a.IntegerAt slot)
    (same : a.SameInside b (L.dataBase + slot) (L.dataBase + slot + 16)) : b.IntegerAt slot := by
  obtain ⟨first, second⟩ := same.head (Nat.le_refl _)
  exact ⟨by rw [second, h.tag], by rw [first]; exact h.small⟩

theorem StringAt.sameInside (h : a.StringAt slot)
    (same : a.SameInside b (L.dataBase + slot) (L.dataBase + slot + 16)) : b.StringAt slot := by
  obtain ⟨first, second⟩ := same.head (Nat.le_refl _)
  exact ⟨h.fits, by rw [first, h.address], by rw [second]; exact h.pos, by rw [second]; exact h.short⟩

/-- An extent stays as long as its bytes do. -/
theorem Extent.sameInside (h : a.Extent slot n)
    (same : a.SameInside b (L.dataBase + slot) (L.dataBase + slot + n)) : b.Extent slot n := by
  cases h with
  | integer zero => exact .integer (by rw [(same.head (Nat.le_refl _)).2, zero])
  | string string => exact .string (string.sameInside (same.mono (Nat.le_refl _) (by omega)))
  | dangling tagged low =>
    obtain ⟨first, second⟩ := same.head (Nat.le_refl _)
    exact .dangling (by rwa [second]) (by rwa [first])

/-- A window that looks free holds an integer or nothing. -/
theorem extent_of_free (isSlot : L.IsSlot slot) (free : Slots.shapeAt a slot = some .free) :
    a.Extent slot 16 := by
  have := L.base_high
  rw [Slots.shapeAt_eq a isSlot, Option.some.injEq] at free
  by_cases zero : a.wordAt (L.dataBase + slot + 8) = 0
  · exact .integer zero
  · refine .dangling zero (Nat.lt_of_not_le fun high => ?_)
    rw [Shape.classify_of_ne_zero (by omega) zero] at free
    cases free

/-- An integer looks like one. -/
theorem IntegerAt.shapeAt_eq (h : a.IntegerAt slot) (isSlot : L.IsSlot slot) :
    Slots.shapeAt a slot = some .integer := by
  rw [Slots.shapeAt_eq a isSlot, Shape.classify, if_pos ⟨h.tag, .inl h.small⟩]

theorem IntegerAt.ne_free (h : a.IntegerAt slot) (isSlot : L.IsSlot slot) :
    Slots.shapeAt a slot ≠ some .free := by
  rw [h.shapeAt_eq isSlot]
  intro same
  cases same

/-- A string looks like one. -/
theorem StringAt.shapeAt_eq (h : a.StringAt slot) (isSlot : L.IsSlot slot) :
    Slots.shapeAt a slot = some .string := by
  have := L.base_high
  have := L.ordered
  have address := h.address
  rw [Slots.shapeAt_eq a isSlot, Shape.classify_of_ne_zero (by omega) h.tag]

theorem StringAt.ne_free (h : a.StringAt slot) (isSlot : L.IsSlot slot) :
    Slots.shapeAt a slot ≠ some .free := by
  rw [h.shapeAt_eq isSlot]
  intro same
  cases same

end Arena

/-- Reading the cell at a slot. -/
theorem Value.read_eq (a : Arena L) (isSlot : L.IsSlot slot) :
    Value.read a (L.cell slot) =
      if a.wordAt (L.dataBase + slot + 8) = 0 then .ok (.integer (a.wordAt (L.dataBase + slot)))
      else (a.slice (a.wordAt (L.dataBase + slot)) (a.wordAt (L.dataBase + slot + 8)).toNat).map
        .string := by
  have place := isSlot.toNat_cell
  have fits := isSlot.fits
  have := L.ordered
  have := L.stackBase_eq
  have := L.stop_lt
  have second : (L.cell slot + 8).toNat = L.dataBase + slot + 8 := by
    rw [Word.toNat_add_eight (by omega), place]
  have first' : a.readWord (L.cell slot) = .ok (a.wordAt (L.dataBase + slot)) := by
    rw [Arena.readWord_eq_ite, place, if_pos (by unfold Layout.Within; omega)]
  have second' : a.readWord (L.cell slot + 8) = .ok (a.wordAt (L.dataBase + slot + 8)) := by
    rw [Arena.readWord_eq_ite, second, if_pos (by unfold Layout.Within; omega)]
  by_cases zero : a.wordAt (L.dataBase + slot + 8) = 0
  · simp only [Value.read, first', second', zero, if_true]
    rfl
  · simp only [Value.read, first', second', Tag.of_ne_zero zero, if_neg zero, bind, Except.bind, pure,
      Except.pure, Except.map]

namespace Arena.Extent

/-- The value of a cell stays as long as its extent stays the same. -/
theorem read_eq (h : a.Extent slot n) (isSlot : L.IsSlot slot)
    (same : a.SameInside b (L.dataBase + slot) (L.dataBase + slot + n)) :
    Value.read b (L.cell slot) = Value.read a (L.cell slot) := by
  rw [Value.read_eq a isSlot, Value.read_eq b isSlot]
  cases h with
  | integer zero =>
    obtain ⟨first, second⟩ := same.head (Nat.le_refl _)
    rw [first, second, if_pos zero, if_pos zero]
  | string string =>
    obtain ⟨first, second⟩ := same.head (by omega)
    have short := string.short
    unfold inlineCapacity at short
    rw [first, second, slice_eq_ite, slice_eq_ite, string.address, same.bytes (by omega) (by omega)]
  | dangling tagged low =>
    obtain ⟨first, second⟩ := same.head (Nat.le_refl _)
    have outside (k : Nat) : ¬ L.Within (a.wordAt (L.dataBase + slot)).toNat k := by
      unfold Layout.Within
      omega
    rw [first, second, slice_eq_ite, slice_eq_ite, if_neg (outside _), if_neg (outside _)]

/-- The extent of a cell is the span of its value; without a value it is two words. -/
theorem span_eq (h : a.Extent slot n) (isSlot : L.IsSlot slot) :
    ((Value.read a (L.cell slot)).toOption.elim 16 Value.span) = n := by
  rw [Value.read_eq a isSlot]
  cases h with
  | integer zero =>
    rw [if_pos zero]
    rfl
  | string string =>
    have := L.ordered
    have := L.stackBase_eq
    have fits := string.fits
    have short := string.short
    unfold inlineCapacity at short
    rw [if_neg string.tag, slice_eq_ite, if_pos]
    · rfl
    · rw [string.address]
      unfold Layout.Within
      omega
  | dangling tagged low =>
    rw [if_neg tagged, slice_eq_ite, if_neg]
    · rfl
    · unfold Layout.Within
      omega

end Arena.Extent
end Osl
