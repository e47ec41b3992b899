import Osl.Proofs.Executor.CodeIntegrity

/-!
# The saved stack pointer

Between statements the cell of the saved stack pointer holds a stack pointer that routines may work
with, whatever became of the statements before (`stackPointer_saved`). While a routine runs the cell
holds the caller's stack pointer instead, and a store may copy a string over it; then leaving the
scratch stack faults, but it has put the stack pointer of the routine into the cell by then
(`stackPointer_saved_overwritten`).
-/

namespace Osl.Executor
set_option autoImplicit false

variable {L : Layout} {σ : Type} [Sink σ] {x : Executor L σ} {p q : Program}

/-- The stack pointer on which the next routine will work. -/
def savedSp (x : Executor L σ) : Word := x.arena.wordAt L.savedSp

/-- The executor after the statements of a program were executed one after another, whatever became of
each of them. -/
def executeEach (p : Program) (x : Executor L σ) : Executor L σ :=
  p.foldl (fun x s => endState (execute s) x) x

@[simp] theorem executeEach_nil (x : Executor L σ) : executeEach [] x = x := rfl

@[simp] theorem executeEach_cons (s : Statement) (p : Program) (x : Executor L σ) :
    executeEach (s :: p) x = executeEach p (endState (execute s) x) := rfl

/-- Executing the statements one after another copies no string into the code section. -/
def SparesThroughout : Program → Executor L σ → Prop
  | [], _ => True
  | s :: rest, x => x.SparesCode s ∧ SparesThroughout rest (endState (execute s) x)

/-- What spares the code section to its end does so on the way. -/
theorem SparesThroughout.left (spares : x.SparesThroughout (p ++ q)) : x.SparesThroughout p := by
  induction p generalizing x with
  | nil => trivial
  | cons s rest ih => exact ⟨spares.1, ih spares.2⟩

/-- Whole programs lead from reached executors to reached ones. -/
theorem Reached.executeEach (reached : x.Reached) (spares : x.SparesThroughout p) :
    (x.executeEach p).Reached := by
  induction p generalizing x with
  | nil => exact reached
  | cons s rest ih => exact ih (.execute s reached spares.1) spares.2

/-- In a new executor and after every statement of a program, whatever became of it and of those
before it, the saved stack pointer lies on the scratch stack, whole words above its lowest address. -/
theorem stackPointer_saved (L : Layout) (sink : σ) (log : Log) (p : Program)
    (spares : (start L sink log).SparesThroughout p) :
    ∀ before after, p = before ++ after →
      L.StackPointer ((start L sink log).executeEach before).savedSp := by
  rintro before after rfl
  have reached := (Reached.start sink log).executeEach spares.left
  exact reached.inOrder.stack

/-- Why a statement fails, if it does. -/
def failure (s : Statement) (x : Executor L σ) : Option ExecError :=
  match execute s x with
  | .ok _ _ => none
  | .error e _ => some e

theorem execute_of_failure {s : Statement} {e : ExecError} (h : x.failure s = some e) :
    execute s x = .error e (endState (execute s) x) := by
  unfold failure at h
  unfold endState
  cases executed : execute s x with
  | ok routine x' =>
    rw [executed] at h
    cases h
  | error e' x' =>
    rw [executed] at h
    cases h
    rfl

theorem exists_execute_of_failure {s : Statement} (h : x.failure s = none) :
    ∃ routine, execute s x = .ok routine (endState (execute s) x) := by
  unfold failure at h
  unfold endState
  cases executed : execute s x with
  | ok routine x' => exact ⟨routine, rfl⟩
  | error e x' =>
    rw [executed] at h
    cases h

/-- A new executor of the small layout. -/
def small : Executor .small Spool := start .small ⟨some {}⟩ .missing

/-- `t = "\x40\xff..." + 0;`: a string of seventeen bytes at the address of the saved stack pointer. -/
def aimAtSavedSp : Statement :=
  .assign "t" (.arith .add (.str (0x40 :: (List.replicate 7 0xff ++ [17]))) (.int 0))

/-- The executor before `t = "ab";` is to copy its two bytes to the saved stack pointer. -/
def aimed : Executor .small Spool :=
  endState (execute aimAtSavedSp) (start .small ⟨some {}⟩ .missing)

theorem failure_aimed :
    sparesFor 12 aimAtSavedSp (start .small (⟨some {}⟩ : Spool) .missing) = true ∧
      sparesFor 12 (.assign "t" (.str [97, 98])) aimed = true ∧
      failure (.assign "t" (.str [97, 98])) aimed = some (.fault 1 (.stackSwitch 0 0x6261)) := by
  decide +kernel

/-- The copy replaces the caller's stack pointer, so that leaving does not find it, but the saved stack
pointer is in order afterwards. -/
theorem stackPointer_saved_overwritten :
    ∃ x', execute (.assign "t" (.str [97, 98])) aimed = .error (.fault 1 (.stackSwitch 0 0x6261)) x' ∧
      Layout.small.StackPointer x'.savedSp := by
  obtain ⟨first, second, failed⟩ := failure_aimed
  have saved := stackPointer_saved .small (⟨some {}⟩ : Spool) .missing
    [aimAtSavedSp, .assign "t" (.str [97, 98])]
    ⟨sparesCode_of_sparesFor first, sparesCode_of_sparesFor second, trivial⟩ _ [] (List.append_nil _).symm
  rw [executeEach_cons, executeEach_cons, executeEach_nil] at saved
  exact ⟨_, execute_of_failure failed, saved⟩

end Osl.Executor
