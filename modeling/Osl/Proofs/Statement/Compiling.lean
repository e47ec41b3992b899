import Osl.Proofs.Statement.Located

/-!
# What compiling a statement leaves behind

Compiling may break off at any point, and what was done by then stays done. Whatever it comes to, it
writes no byte but those of the literals that it adds, takes no name from its slot except that deleting
a name takes it from its own, and leaves no name bound of which it complains
(`Statement.compilesWithin`).
-/

namespace Osl
set_option autoImplicit false

variable {L : Layout} {α β : Type}

/-- From `w` to `w'` the name has kept its slot, if it had one. -/
def Workspace.Keeps (name : String) (w w' : Workspace L) : Prop :=
  ∀ slot, w.slots.lookup name = some slot → w'.slots.lookup name = some slot

namespace Workspace.Keeps

variable {name : String}

theorem refl (w : Workspace L) : w.Keeps name w := fun _ => id

theorem trans {w w' w'' : Workspace L} (h : w.Keeps name w') (h' : w'.Keeps name w'') :
    w.Keeps name w'' := fun slot bound => h' slot (h slot bound)

end Workspace.Keeps

/-- The computation complains about a name only if it leaves a workspace where that name has no slot to
ask for. -/
def Compile.FailsAtSlot (c : Compile L α) : Prop :=
  ∀ w w' e, c w = .error (.slot e) w' → w'.slots.slotFor w'.arena e.name = .error e

namespace Compile

/-- Another name gives up its cell. -/
theorem keeps_releasedCellOf {name other : String} (ne : name ≠ other) :
    Always (Workspace.Keeps name) (releasedCellOf other : Compile L Word) := by
  intro w
  cases run : releasedCellOf other w with
  | ok cell w' =>
    obtain ⟨slot, slots, released, -, rfl⟩ := releasedCellOf_eq_ok run
    obtain ⟨u, asked, rfl⟩ := Slots.release_spec released
    rw [endState_ok run]
    intro s bound
    rw [Slots.lookup_erase, if_neg ne]
    exact Slots.lookup_slotFor_of_some asked bound
  | error e w' =>
    rw [endState_error run, releasedCellOf_eq_error run]
    exact .refl w

namespace FailsAtSlot

theorem pure (v : α) : FailsAtSlot (Pure.pure v : Compile L α) := by
  intro w w' e failed
  cases failed

theorem bind {c : Compile L α} {f : α → Compile L β} (first : FailsAtSlot c)
    (rest : ∀ v, FailsAtSlot (f v)) : FailsAtSlot (c >>= f) := by
  intro w w'' e failed
  rcases bind_eq_error failed with failed | ⟨v, w', -, failed⟩
  · exact first w w'' e failed
  · exact rest v w' w'' e failed

end FailsAtSlot

theorem failsAtSlot_cellOf (name : String) : FailsAtSlot (cellOf name : Compile L Word) := by
  intro w w' e failed
  cases asked : w.slots.slotFor w.arena name with
  | ok r =>
    rw [cellOf_eq asked] at failed
    cases failed
  | error e' =>
    rw [cellOf_of_error asked] at failed
    cases failed
    rwa [Slots.slotFor_error_name asked]

theorem failsAtSlot_releasedCellOf (name : String) :
    FailsAtSlot (releasedCellOf name : Compile L Word) := by
  intro w w' e failed
  cases released : w.slots.release w.arena name with
  | ok r =>
    rw [releasedCellOf_eq released] at failed
    cases failed
  | error e' =>
    rw [releasedCellOf_of_error released] at failed
    cases failed
    have asked := Slots.release_error released
    rwa [Slots.slotFor_error_name asked]

/-- A literal that finds no room has a complaint of its own. -/
theorem failsAtSlot_intern (content : List Byte) :
    FailsAtSlot (intern content : Compile L Header) := by
  intro w w' e failed
  by_cases fits : w.literals.next + (content.length + 1) ≤ L.stop
  · rw [intern_of_le fits] at failed
    cases failed
  · rw [intern_of_lt (Nat.lt_of_not_le fits)] at failed
    cases failed

end Compile

open Compile

theorem Expr.failsAtSlot_locate (e : Expr) : FailsAtSlot (e.locate : Compile L Located) := by
  induction e with
  | int n => exact .pure _
  | str content => exact .bind (failsAtSlot_intern content) fun _ => .pure _
  | var name => exact .bind (failsAtSlot_cellOf name) fun _ => .pure _
  | arith op l r ihl ihr => exact .bind ihr fun _ => .bind ihl fun _ => .pure _
  | neg e ih => exact .bind ih fun _ => .pure _

namespace Statement

variable {s : Statement} {w w' : Workspace L} {name : String}

theorem failsAtSlot_locate (s : Statement) : FailsAtSlot (s.locate : Compile L Task) := by
  cases s with
  | assign target e =>
    exact .bind e.failsAtSlot_locate fun _ => .bind (failsAtSlot_cellOf target) fun _ => .pure _
  | print name => exact .bind (failsAtSlot_cellOf name) fun _ => .pure _
  | delete name => exact .bind (failsAtSlot_releasedCellOf name) fun _ => .pure _
  | printLog => exact .pure _

/-- Compiling adds one complaint of its own, that the routine does not fit. -/
theorem failsAtSlot_compile (s : Statement) : FailsAtSlot (s.compile : Compile L Routine) := by
  intro w w' e failed
  cases located : s.locate w with
  | error e' w₁ =>
    rw [compile_of_error located] at failed
    cases failed
    exact s.failsAtSlot_locate w _ e located
  | ok task w₁ =>
    by_cases fits : s.codeSize ≤ L.code
    · rw [compile_of_locate located fits] at failed
      cases failed
    · rw [compile_of_large located (Nat.lt_of_not_le fits)] at failed
      cases failed

/-- Only deleting a name takes a slot away. -/
theorem extends_locate (other : ∀ name, s ≠ .delete name) :
    Always Workspace.Extends (s.locate : Compile L Task) := by
  cases s with
  | assign target e =>
    exact Always.bind .trans e.extends_locate fun _ =>
      Always.bind .trans (extends_cellOf target) fun _ => Always.pure .refl _
  | print name => exact Always.bind .trans (extends_cellOf name) fun _ => Always.pure .refl _
  | delete name => exact absurd rfl (other name)
  | printLog => exact Always.pure .refl _

/-- The places of a deletion are all or nothing. -/
theorem locate_delete_eq_error {e : CompileError} (h : (delete name).locate w = .error e w') :
    w' = w := by
  rcases bind_eq_error h with failed | ⟨cell, w₁, -, last⟩
  · exact releasedCellOf_eq_error failed
  · cases last

/-- Compiling that fails takes no slot away. The routine of a deletion always fits. -/
theorem extends_of_error {e : CompileError} (failed : s.compile w = .error e w') : w.Extends w' := by
  by_cases deletes : ∃ name, s = .delete name
  · obtain ⟨name, rfl⟩ := deletes
    cases located : (delete name).locate w with
    | ok task w₁ =>
      rw [compile_of_locate located L.twelve_le_code] at failed
      cases failed
    | error e' w₁ =>
      rw [compile_of_error located] at failed
      cases failed
      rw [locate_delete_eq_error located]
      exact .refl w
  · have grown := s.always_compile .refl .trans
      (extends_locate fun name same => deletes ⟨name, same⟩) w
    rwa [endState_error failed] at grown

/-- Every statement but its own deletion keeps a name bound. -/
theorem keeps_locate (other : s ≠ .delete name) :
    Always (Workspace.Keeps name) (s.locate : Compile L Task) := by
  by_cases deletes : ∃ deleted, s = .delete deleted
  · obtain ⟨deleted, rfl⟩ := deletes
    have ne : name ≠ deleted := by
      rintro rfl
      exact other rfl
    exact Always.bind .trans (keeps_releasedCellOf ne) fun _ => Always.pure .refl _
  · intro w
    exact (extends_locate (fun deleted same => deletes ⟨deleted, same⟩) w).kept name

theorem keeps_compile (other : s ≠ .delete name) :
    Always (Workspace.Keeps name) (s.compile : Compile L Routine) :=
  s.always_compile .refl .trans (keeps_locate other)

/-- Deleting a name that is bound compiles. -/
theorem compile_delete {slot : Nat} (placed : w.slots.Placed L)
    (bound : w.slots.lookup name = some slot) :
    (delete name).compile w = .ok (Routine.assemble (framed [.release (L.cell slot)]))
      { w with slots := w.slots.erase name } :=
  compile_of_locate (locate_delete (placed name slot bound).1 bound) L.twelve_le_code

/-- A name whose deletion compiles is not bound after that. -/
theorem lookup_of_compile_delete {r : Routine} (compiled : (delete name).compile w = .ok r w') :
    w'.slots.lookup name = none := by
  obtain ⟨task, located, -⟩ := compile_eq_ok compiled
  obtain ⟨cell, w₁, given, last⟩ := bind_eq_ok located
  cases last
  obtain ⟨slot, slots, released, -, rfl⟩ := releasedCellOf_eq_ok given
  obtain ⟨u, -, rfl⟩ := Slots.release_spec released
  rw [Slots.lookup_erase, if_pos rfl]

/-- A name of which compiling complains is not bound after that. -/
theorem lookup_of_compile_error {e : SlotError} (reach : Slots.Reachable L w.slots)
    (failed : s.compile w = .error (.slot e) w') : w'.slots.lookup e.name = none := by
  have reach' := (extends_of_error failed).reachable reach
  exact reach'.placed.lookup_of_error (s.failsAtSlot_compile w w' e failed)

/-- What compiling a statement does to the workspace, whether there is a routine or not. -/
structure CompilesWithin (s : Statement) (w w' : Workspace L) : Prop where
  /-- The bytes that are written are those of the literals added. -/
  arena : w.arena.SameOutside w'.arena w.literals.next w'.literals.next
  literals : L.literalBase ≤ w.literals.next ∧ w.literals.next ≤ w'.literals.next ∧
    w'.literals.next ≤ L.stop
  /-- A name keeps its slot, unless its deletion compiles. -/
  kept : ∀ name slot, w.slots.lookup name = some slot → w'.slots.lookup name = some slot ∨
    (s = .delete name ∧ ∃ r, s.compile w = .ok r w')
  deleted : ∀ name r, s = .delete name → s.compile w = .ok r w' → w'.slots.lookup name = none
  /-- A name that is complained of has no slot. -/
  unbound : ∀ e, s.compile w = .error (.slot e) w' → w'.slots.lookup e.name = none

theorem compilesWithin (s : Statement) (reach : Slots.Reachable L w.slots) :
    s.CompilesWithin w (endState s.compile w) where
  arena := (s.grows_compile w).same
  literals := ⟨w.literals.low, (s.grows_compile w).grown, (endState s.compile w).literals.high⟩
  kept name slot bound := by
    by_cases own : s = .delete name
    · subst own
      have compiled := compile_delete reach.placed bound
      rw [endState_ok compiled]
      exact .inr ⟨rfl, _, compiled⟩
    · exact .inl (keeps_compile own w slot bound)
  deleted name r same compiled := by
    subst same
    exact lookup_of_compile_delete compiled
  unbound e failed := lookup_of_compile_error reach failed

end Statement
end Osl
