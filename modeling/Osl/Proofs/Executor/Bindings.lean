import Osl.Proofs.Executor.SavedStack
import Osl.Proofs.Statement.Compiling

/-!
# Bindings

Whatever was executed before and whatever the arena holds, names are bound to slots that start windows
of the data section, a binding lasts until deleting its name compiles, and the cells that compiled
instructions name have room for a string below the code section (`bindingsHold_executeEach`).

Compiling alone gives out slots and takes them back, and never looks at what a routine did but to find
a window that looks free. So the induction is on the statements executed, and what their routines do
to the arena does not matter for it.
-/

namespace Osl
set_option autoImplicit false

variable {L : Layout} {σ : Type}

/-- The cell that an instruction names. -/
def Instr.cell? : Instr → Option Word
  | .load cell | .store cell | .print cell | .release cell => some cell
  | .enter | .leave | .ret | .push _ | .arith _ | .printLog => none

/-- From the address on there is room for the four words of a string, from the start of the data section
to the top of the scratch stack, so that no access to them leaves the arena or comes to the code. -/
structure Layout.HasRoomAt (L : Layout) (cell : Word) : Prop where
  low : L.dataBase ≤ cell.toNat
  high : cell.toNat + 32 ≤ L.stackTop
  access : ∀ k n, k + n ≤ 32 → (cell + .ofNat k).toNat = cell.toNat + k ∧
    L.Within (cell.toNat + k) n ∧ cell.toNat + k + n ≤ L.codeBase

/-- Sixteen bytes of the scratch stack at least follow the data section. -/
theorem Layout.IsCell.hasRoomAt {cell : Word} (isCell : L.IsCell cell) : L.HasRoomAt cell := by
  have bounds := isCell.bounds
  have := L.ordered
  have := L.stop_lt
  have := L.stackBase_add_le
  have code : L.codeBase = L.stackTop := rfl
  refine ⟨bounds.1, by omega, fun k n inside => ⟨?_, ?_, by omega⟩⟩
  · have small : (UInt64.ofNat k).toNat = k := Word.toNat_ofNat_of_lt (by omega)
    rw [UInt64.toNat_add, small]
    exact Nat.mod_eq_of_lt (by omega)
  · unfold Layout.Within
    omega

/-- The cell that work names is that of a slot. -/
theorem Instr.IsWork.isCell {i : Instr} {cell : Word} (work : i.IsWork L) (names : i.cell? = some cell) :
    L.IsCell cell := by
  cases i <;> cases names <;> exact work

/-- Of the instructions of a routine only those of its body name cells. -/
theorem mem_of_mem_framed {body : List Instr} {i : Instr} {cell : Word} (member : i ∈ framed body)
    (names : i.cell? = some cell) : i ∈ body := by
  simp only [framed, List.mem_cons, List.mem_append, List.not_mem_nil, or_false] at member
  rcases member with rfl | work | rfl | rfl
  · cases names
  · exact work
  · cases names
  · cases names

namespace Statement

/-- The cells that a compiled statement names have room for a string. -/
theorem hasRoomAt_of_body {s : Statement} {w w' : Workspace L} {body : List Instr} {i : Instr} {cell : Word}
    (compiled : s.body w = .ok body w') (reach : Slots.Reachable L w.slots) (member : i ∈ framed body)
    (names : i.cell? = some cell) : L.HasRoomAt cell := by
  obtain ⟨task, located, rfl⟩ := body_eq_ok compiled
  have work := Task.isWork_code (cells_locate located reach) i (mem_of_mem_framed member names)
  exact (work.isCell names).hasRoomAt

end Statement

namespace Executor

variable {x : Executor L σ} {s : Statement} {name : String} {slot : Nat}

/-- What holds of the bindings of an executor, however the execution goes on from there. -/
structure BindingsHold [Sink σ] (x : Executor L σ) : Prop where
  placed : ∀ name slot, x.slotOf name = some slot →
    name.utf8ByteSize = 1 ∧ slot % 16 = 0 ∧ slot + 16 ≤ L.data
  /-- A name has its slot at the end of a program, or some statement of it is the deletion of the name
  and compiles, and until then the name has its slot. -/
  kept : ∀ name slot, x.slotOf name = some slot → ∀ p : Program,
    (x.executeEach p).slotOf name = some slot ∨
      ∃ before after routine w', p = before ++ .delete name :: after ∧
        (x.executeEach before).slotOf name = some slot ∧
        (Statement.delete name).compile (x.executeEach before).workspace = .ok routine w'
  operands : ∀ (s : Statement) (body : List Instr) (w' : Workspace L), s.body x.workspace = .ok body w' →
    ∀ i ∈ framed body, ∀ cell, i.cell? = some cell → L.HasRoomAt cell

variable [Sink σ]

/-- Slots stay where cells can be, whatever is executed. -/
theorem reachable_slots_execute (s : Statement) (reach : Slots.Reachable L x.slots) :
    Slots.Reachable L (endState (execute s) x).slots := by
  rw [slots_execute]
  exact (s.grows_compile x.workspace).reachable reach

theorem reachable_slots_executeEach (p : Program) (reach : Slots.Reachable L x.slots) :
    Slots.Reachable L (x.executeEach p).slots := by
  induction p generalizing x with
  | nil => exact reach
  | cons s rest ih => exact ih (reachable_slots_execute s reach)

/-- Executing a statement other than its deletion keeps a name bound. -/
theorem slotOf_execute (other : s ≠ .delete name) (bound : x.slotOf name = some slot) :
    (endState (execute s) x).slotOf name = some slot := by
  have kept := Statement.keeps_compile other x.workspace slot bound
  rwa [slotOf, slots_execute]

/-- Executing the statements of a program keeps a name bound as long as its deletion does not
compile. -/
theorem slotOf_executeEach (reach : Slots.Reachable L x.slots) (bound : x.slotOf name = some slot)
    (p : Program) :
    (x.executeEach p).slotOf name = some slot ∨
      ∃ before after routine w', p = before ++ .delete name :: after ∧
        (x.executeEach before).slotOf name = some slot ∧
        (Statement.delete name).compile (x.executeEach before).workspace = .ok routine w' := by
  induction p generalizing x with
  | nil => exact .inl bound
  | cons s rest ih =>
    by_cases own : s = .delete name
    · subst own
      exact .inr ⟨[], rest, _, _, rfl, bound, Statement.compile_delete reach.placed bound⟩
    · rcases ih (reachable_slots_execute s reach) (slotOf_execute own bound) with
        kept | ⟨before, after, routine, w', rfl, here, compiled⟩
      · exact .inl kept
      · exact .inr ⟨s :: before, after, routine, w', rfl, here, compiled⟩

/-- All that matters is how the table of slots has come about. -/
theorem BindingsHold.of_reachable (reach : Slots.Reachable L x.slots) : x.BindingsHold where
  placed name slot bound :=
    have ⟨single, isSlot⟩ := reach.placed name slot bound
    ⟨single, isSlot.aligned, isSlot.fits⟩
  kept _ _ bound p := slotOf_executeEach reach bound p
  operands _ _ _ compiled _ member _ names := Statement.hasRoomAt_of_body compiled reach member names

/-- After every program, whatever became of its statements, and whatever the arena holds. -/
theorem bindingsHold_executeEach (L : Layout) (sink : σ) (log : Log) (p : Program) (a : Arena L) :
    BindingsHold { (start L sink log).executeEach p with arena := a } := by
  have reach : Slots.Reachable L ((start L sink log).executeEach p).slots :=
    reachable_slots_executeEach p .empty
  exact .of_reachable reach

end Executor
end Osl
