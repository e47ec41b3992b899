import Osl.Compile
import Osl.Proofs.Arena.Frame
import Osl.Proofs.Effect
import Osl.Proofs.Slots.Placement

/-!
# What compiling does to the workspace

Compiling changes the arena in the literal section alone, above what was in use (`Workspace.Grows`).
As long as it gives up no cell, bound names keep their slots as well (`Workspace.Extends`). Both hold
as well of work that breaks off with an error.
-/

namespace Osl
set_option autoImplicit false

variable {L : Layout}

theorem Arena.overlay_append (a : Arena L) (p : Nat) (bs cs : List Byte) :
    a.overlay p (bs ++ cs) = (a.overlay p bs).overlay (p + bs.length) cs := by
  induction bs generalizing a p with
  | nil => rfl
  | cons b bs ih =>
    rw [List.cons_append, overlay, overlay, ih, List.length_cons, Nat.add_right_comm]
    rfl

namespace Literals

/-- A word can hold the address of the next literal. -/
theorem toNat_next (p : Literals L) : (UInt64.ofNat p.next).toNat = p.next := by
  have := p.high
  have := L.stop_lt
  exact Word.toNat_ofNat_of_lt (by omega)

/-- Where there is room, neither the write of the content nor that of the zero byte faults. -/
theorem store_eq (p : Literals L) (a : Arena L) {content : List Byte}
    (fits : p.next + (content.length + 1) ≤ L.stop) :
    store (.ofNat p.next) content a = .ok () (a.overlay p.next (content ++ [0])) := by
  have low := p.low
  have := L.ordered
  have := L.stop_lt
  have place := p.toNat_next
  have size : (UInt64.ofNat content.length).toNat = content.length :=
    Word.toNat_ofNat_of_lt (by omega)
  have behind : (UInt64.ofNat p.next + .ofNat content.length).toNat = p.next + content.length := by
    rw [Word.toNat_add_of_lt (by omega), place, size]
  have written : Arena.write (.ofNat p.next) content a = .ok () (a.overlay p.next content) := by
    rw [Arena.write_eq_ite, place, if_pos (by unfold Layout.Within; omega)]
  have ended : Arena.writeByte (.ofNat p.next + .ofNat content.length) 0 (a.overlay p.next content) =
      .ok () ((a.overlay p.next content).overlay (p.next + content.length) [0]) := by
    rw [Arena.writeByte, Arena.write_eq_ite, behind, List.length_singleton,
      if_pos (by unfold Layout.Within; omega)]
  rw [store, bind_ok written, ended, Arena.overlay_append]

theorem intern_of_le (p : Literals L) (a : Arena L) {content : List Byte}
    (fits : p.next + (content.length + 1) ≤ L.stop) :
    p.intern content a = .ok (Header.of (.ofNat p.next) content,
      ⟨p.next + (content.length + 1), Nat.le_trans p.low (Nat.le_add_right _ _), fits⟩)
        (a.overlay p.next (content ++ [0])) := by
  simp only [intern, dif_pos fits, p.store_eq a fits]

theorem intern_of_lt (p : Literals L) (a : Arena L) {content : List Byte}
    (large : L.stop < p.next + (content.length + 1)) :
    p.intern content a = .error ⟨content.length + 1, p.remaining⟩ a :=
  dif_neg (Nat.not_le_of_lt large)

end Literals

/-- From `w` to `w'` slots were given out or given up, literals were laid down, and nothing else
happened. -/
structure Workspace.Grows (w w' : Workspace L) : Prop where
  reachable : Slots.Reachable L w.slots → Slots.Reachable L w'.slots
  grown : w.literals.next ≤ w'.literals.next
  same : w.arena.SameOutside w'.arena w.literals.next w'.literals.next

namespace Workspace.Grows

theorem refl (w : Workspace L) : w.Grows w := ⟨id, Nat.le_refl _, .refl _ _ _⟩

theorem trans {w w' w'' : Workspace L} (h : w.Grows w') (h' : w'.Grows w'') : w.Grows w'' :=
  ⟨fun r => h'.reachable (h.reachable r), Nat.le_trans h.grown h'.grown,
    (h.same.mono (Nat.le_refl _) h'.grown).trans (h'.same.mono h.grown (Nat.le_refl _))⟩

/-- Compiling leaves everything below the literal section alone. -/
theorem sameBelow {w w' : Workspace L} (h : w.Grows w') :
    w.arena.SameOutside w'.arena L.literalBase L.stop :=
  h.same.mono w.literals.low w'.literals.high

end Workspace.Grows

/-- From `w` to `w'` the workspace has grown, and every name that was bound has kept its slot. -/
structure Workspace.Extends (w w' : Workspace L) : Prop extends Workspace.Grows w w' where
  kept : ∀ name slot, w.slots.lookup name = some slot → w'.slots.lookup name = some slot

namespace Workspace.Extends

theorem refl (w : Workspace L) : w.Extends w := ⟨.refl w, fun _ _ => id⟩

theorem trans {w w' w'' : Workspace L} (h : w.Extends w') (h' : w'.Extends w'') : w.Extends w'' :=
  ⟨h.toGrows.trans h'.toGrows, fun n s b => h'.kept n s (h.kept n s b)⟩

end Workspace.Extends

namespace Compile

theorem cellOf_eq {w : Workspace L} {name : String} {slot : Nat} {slots : Slots}
    (h : w.slots.slotFor w.arena name = .ok (slot, slots)) :
    cellOf name w = .ok (L.cell slot) { w with slots } := by
  rw [cellOf, bind_get, h]
  rfl

/-- A name that is bound has its cell, and the workspace stays as it is. -/
theorem cellOf_of_lookup {w : Workspace L} {name : String} {slot : Nat}
    (single : name.utf8ByteSize = 1) (bound : w.slots.lookup name = some slot) :
    cellOf name w = .ok (L.cell slot) w := by
  rw [cellOf_eq (Slots.slotFor_of_lookup single bound)]

/-- A name without a slot has no cell, and the workspace stays as it is. -/
theorem cellOf_of_error {w : Workspace L} {name : String} {e : SlotError}
    (h : w.slots.slotFor w.arena name = .error e) : cellOf name w = .error (.slot e) w := by
  rw [cellOf, bind_get, h]
  rfl

/-- A cell given out is that of the slot asked for. -/
theorem cellOf_eq_ok {w w' : Workspace L} {name : String} {cell : Word}
    (h : cellOf name w = .ok cell w') :
    ∃ slot slots, w.slots.slotFor w.arena name = .ok (slot, slots) ∧ cell = L.cell slot ∧
      w' = { w with slots } := by
  cases asked : w.slots.slotFor w.arena name with
  | error e =>
    rw [cellOf_of_error asked] at h
    cases h
  | ok r =>
    obtain ⟨slot, slots⟩ := r
    rw [cellOf_eq asked] at h
    cases h
    exact ⟨slot, slots, rfl, rfl, rfl⟩

theorem extends_cellOf (name : String) : Always Workspace.Extends (cellOf (L := L) name) := by
  intro w
  cases asked : w.slots.slotFor w.arena name with
  | error e =>
    rw [endState_error (cellOf_of_error asked)]
    exact .refl w
  | ok r =>
    obtain ⟨slot, slots⟩ := r
    rw [endState_ok (cellOf_eq asked)]
    exact ⟨⟨fun reach => .slotFor reach asked, Nat.le_refl _, .refl _ _ _⟩,
      fun _ _ bound => Slots.lookup_slotFor_of_some asked bound⟩

/-- A literal for which there is room is laid down. -/
theorem intern_of_le {w : Workspace L} {content : List Byte}
    (fits : w.literals.next + (content.length + 1) ≤ L.stop) :
    intern content w = .ok (Header.of (.ofNat w.literals.next) content)
      { w with
        literals := ⟨w.literals.next + (content.length + 1),
          Nat.le_trans w.literals.low (Nat.le_add_right _ _), fits⟩
        arena := w.arena.overlay w.literals.next (content ++ [0]) } := by
  rw [intern, bind_get, Literals.intern_of_le _ _ fits]
  rfl

/-- A literal for which there is no room changes nothing. -/
theorem intern_of_lt {w : Workspace L} {content : List Byte}
    (large : L.stop < w.literals.next + (content.length + 1)) :
    intern content w = .error (.literal ⟨content.length + 1, w.literals.remaining⟩) w := by
  rw [intern, bind_get, Literals.intern_of_lt _ _ large]
  rfl

theorem extends_intern (content : List Byte) :
    Always Workspace.Extends (intern (L := L) content) := by
  intro w
  by_cases fits : w.literals.next + (content.length + 1) ≤ L.stop
  · have written := Arena.sameOutside_overlay w.arena w.literals.next (content ++ [0])
    rw [endState_ok (intern_of_le fits)]
    refine ⟨⟨id, Nat.le_add_right _ _, ?_⟩, fun _ _ => id⟩
    simpa using written
  · rw [endState_error (intern_of_lt (Nat.lt_of_not_le fits))]
    exact .refl w

theorem releasedCellOf_eq {w : Workspace L} {name : String} {slot : Nat} {slots : Slots}
    (h : w.slots.release w.arena name = .ok (slot, slots)) :
    releasedCellOf name w = .ok (L.cell slot) { w with slots } := by
  rw [releasedCellOf, bind_get, h]
  rfl

/-- A name that is bound gives up its cell. -/
theorem releasedCellOf_of_lookup {w : Workspace L} {name : String} {slot : Nat}
    (single : name.utf8ByteSize = 1) (bound : w.slots.lookup name = some slot) :
    releasedCellOf name w = .ok (L.cell slot) { w with slots := w.slots.erase name } := by
  have released : w.slots.release w.arena name = .ok (slot, w.slots.erase name) := by
    rw [Slots.release, Slots.slotFor_of_lookup single bound]
    rfl
  rw [releasedCellOf_eq released]

/-- A name that cannot be bound has no cell to give up, and the workspace stays as it is. -/
theorem releasedCellOf_of_error {w : Workspace L} {name : String} {e : SlotError}
    (h : w.slots.release w.arena name = .error e) : releasedCellOf name w = .error (.slot e) w := by
  rw [releasedCellOf, bind_get, h]
  rfl

/-- A cell given up is that of the slot released. -/
theorem releasedCellOf_eq_ok {w w' : Workspace L} {name : String} {cell : Word}
    (h : releasedCellOf name w = .ok cell w') :
    ∃ slot slots, w.slots.release w.arena name = .ok (slot, slots) ∧ cell = L.cell slot ∧
      w' = { w with slots } := by
  cases released : w.slots.release w.arena name with
  | error e =>
    rw [releasedCellOf_of_error released] at h
    cases h
  | ok r =>
    obtain ⟨slot, slots⟩ := r
    rw [releasedCellOf_eq released] at h
    cases h
    exact ⟨slot, slots, rfl, rfl, rfl⟩

theorem releasedCellOf_eq_error {w w' : Workspace L} {name : String} {e : CompileError}
    (h : releasedCellOf name w = .error e w') : w' = w := by
  cases released : w.slots.release w.arena name with
  | error e =>
    rw [releasedCellOf_of_error released] at h
    cases h
    rfl
  | ok r =>
    rw [releasedCellOf_eq released] at h
    cases h

theorem grows_releasedCellOf (name : String) :
    Always Workspace.Grows (releasedCellOf name : Compile L Word) := by
  intro w
  cases run : releasedCellOf name w with
  | ok cell w' =>
    obtain ⟨slot, slots, released, -, rfl⟩ := releasedCellOf_eq_ok run
    rw [endState_ok run]
    exact ⟨fun reach => .release reach released, Nat.le_refl _, .refl _ _ _⟩
  | error e w' =>
    rw [endState_error run, releasedCellOf_eq_error run]
    exact .refl w

end Compile
end Osl
