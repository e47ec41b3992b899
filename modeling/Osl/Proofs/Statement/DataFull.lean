import Osl.Proofs.Isolation.Tidy
import Osl.Proofs.Statement.Compiling

/-!
# When the data section is full

Compiling complains that the data section has no room for a name only if the name has no slot and no
window looks free (`Statement.noRoomFor_of_exhausted`). What the value of an assignment will be plays no
part in it.
-/

namespace Osl
set_option autoImplicit false

variable {L : Layout}

namespace Slots

variable {a b : Arena L} {t : Slots} {name : String}

/-- The search for a free window looks at the data section only. -/
theorem firstFreeFrom_sameInside (same : a.SameInside b L.dataBase L.stackBase) (windows : Nat)
    {offset : Nat} (aligned : offset % 16 = 0) :
    firstFreeFrom b windows offset = firstFreeFrom a windows offset := by
  induction windows generalizing offset with
  | zero => rfl
  | succ windows ih =>
    rw [firstFreeFrom, firstFreeFrom]
    by_cases past : L.data ≤ offset
    · rw [if_pos past, if_pos past]
    · have whole := L.data_aligned
      have isSlot : L.IsSlot offset := ⟨aligned, by omega⟩
      have inData := isSlot.fits
      have window : a.SameInside b (L.dataBase + offset) (L.dataBase + offset + 16) :=
        same.mono (by omega) (by rw [L.stackBase_eq]; omega)
      rw [if_neg past, if_neg past, shapeAt_sameInside isSlot window]
      cases shapeAt a offset with
      | none => rfl
      | some shape =>
        have span := span_mod shape
        cases shape with
        | free => rfl
        | integer | string => exact ih (by omega)

theorem firstFree_sameInside (same : a.SameInside b L.dataBase L.stackBase) :
    firstFree b = firstFree a :=
  firstFreeFrom_sameInside same _ (Nat.zero_mod 16)

/-- So does asking for a slot. -/
theorem slotFor_sameInside (same : a.SameInside b L.dataBase L.stackBase) :
    t.slotFor b name = t.slotFor a name := by
  rw [slotFor, slotFor, firstFree_sameInside same]

end Slots

/-- The name has no slot, and no window looks free. -/
def Workspace.NoRoomFor (name : String) (w : Workspace L) : Prop :=
  w.slots.lookup name = none ∧ Slots.firstFree w.arena = none

/-- Where there is no room after compiling has gone on, there was none before. -/
theorem Workspace.Extends.noRoomFor {w w' : Workspace L} {name : String} (h : w.Extends w')
    (full : w'.NoRoomFor name) : w.NoRoomFor name := by
  have := L.ordered
  have data : w.arena.SameInside w'.arena L.dataBase L.stackBase :=
    h.sameBelow.inside (.inl (by omega))
  refine ⟨?_, (Slots.firstFree_sameInside data).symm.trans full.2⟩
  cases bound : w.slots.lookup name with
  | none => rfl
  | some slot =>
    have kept := h.kept name slot bound
    rw [full.1] at kept
    cases kept

/-- Compiling complains that there is no room for a name only if there was none at its start. -/
theorem Statement.noRoomFor_of_exhausted {s : Statement} {w w' : Workspace L} {name : String}
    (failed : s.compile w = .error (.slot (.exhausted name)) w') : w.NoRoomFor name := by
  have asked := s.failsAtSlot_compile w w' _ failed
  apply (Statement.extends_of_error failed).noRoomFor
  rcases Slots.slotFor_error asked with ⟨-, other⟩ | ⟨unbound, full, -⟩
  · cases other
  · exact ⟨unbound, full⟩

end Osl
