import Osl.Executor
import Osl.Proofs.Arena.Initial
import Osl.Proofs.Machine.Routine
import Osl.Proofs.Statement.Located

/-!
# Executing a statement

Executing a statement gives it its places over the workspace of the executor, lays the routine into
the code section and runs it. `execute_ok` and `execute_fault` put together what is known of these
steps; `execute_cases` says which of them an execution has come through.
-/

namespace Osl
set_option autoImplicit false

variable {L : Layout} {σ : Type}

/-- Zeroing the code section touches no byte outside it. -/
theorem Arena.sameOutside_clearCode (a : Arena L) :
    a.SameOutside a.clearCode L.codeBase L.literalBase := by
  have cleared := a.sameOutside_overlay L.codeBase (List.replicate L.code 0)
  rwa [List.length_replicate] at cleared

/-- The workspace with the routine of a task laid into the code section. -/
def Workspace.withRoutine (w : Workspace L) (task : Task) : Arena L :=
  w.arena.overlay L.codeBase (codeBytes (framed task.code))

namespace Executor

variable {x x' : Executor L σ} {s : Statement} {w w' : Workspace L} {task : Task}

/-- What compiling the next statement works on. -/
def workspace (x : Executor L σ) : Workspace L := ⟨x.arena.clearCode, x.slots, x.literals⟩

/-- The executor after compiling a statement, with the given arena. -/
def compiled (x : Executor L σ) (w : Workspace L) (arena : Arena L) : Executor L σ :=
  { x with arena, slots := w.slots, literals := w.literals, executed := x.executed + 1 }

/-- What holds between statements: slots lie where cells can be, and routines find a stack. -/
structure InOrder (x : Executor L σ) : Prop where
  slots : Slots.Reachable L x.slots
  stack : x.arena.StackSaved

/-- A new executor is in order. -/
theorem inOrder_start (L : Layout) (sink : σ) (log : Log) : (start L sink log).InOrder := by
  have := L.ordered
  have := L.stackTop_lt
  have := L.stack_aligned
  have top : L.stackTop = L.stackBase + L.stack := rfl
  refine ⟨.empty, ?_⟩
  show L.StackPointer ((Arena.initial L).wordAt L.savedSp)
  rw [Arena.wordAt_savedSp_initial]
  have place : (UInt64.ofNat L.stackTop).toNat = L.stackTop := Word.toNat_ofNat_of_lt (by omega)
  constructor <;> omega

/-- The routine of a statement lies at the start of the code section. -/
theorem codeAt_withRoutine (located : s.locate w = .ok task w') (fits : s.codeSize ≤ L.code) :
    CodeAt (w'.withRoutine task) L.codeBase (framed task.code) := by
  have := L.ordered
  have size := Statement.length_code located
  have end' : L.literalBase = L.codeBase + L.code := rfl
  have within : L.Within L.codeBase (codeBytes (framed task.code)).length := by
    unfold Layout.Within
    omega
  exact ⟨Nat.le_refl _, by omega, Arena.bytes_overlay w'.arena within⟩

theorem toNat_codeBase (L : Layout) : (UInt64.ofNat L.codeBase).toNat = L.codeBase :=
  Machine.toNat_codeBase L (Nat.zero_le 1)

/-- A routine that fits can be written to the code section. -/
theorem write_routine (located : s.locate w = .ok task w') (fits : s.codeSize ≤ L.code) :
    Arena.write (.ofNat L.codeBase) (Routine.assemble (framed task.code)).code w'.arena =
      .ok () (w'.withRoutine task) := by
  have := L.ordered
  have size := Statement.length_code located
  have end' : L.literalBase = L.codeBase + L.code := rfl
  have within : L.Within L.codeBase (codeBytes (framed task.code)).length := by
    unfold Layout.Within
    omega
  rw [Routine.code_assemble, Arena.write_eq_ite, toNat_codeBase]
  exact if_pos within

theorem install_of_locate (located : s.locate x.workspace = .ok task w')
    (fits : s.codeSize ≤ L.code) :
    install s x = .ok (Routine.assemble (framed task.code)) { x with
      arena := w'.withRoutine task, slots := w'.slots, literals := w'.literals } := by
  have written := write_routine located fits
  have compiled := Statement.compile_of_locate located fits
  unfold workspace at compiled
  simp only [install, compiled, written]

/-- A statement that is installed has got its places, and its routine lies in the code section. -/
theorem install_eq_ok {routine : Routine} (h : install s x = .ok routine x') :
    ∃ task w', s.locate x.workspace = .ok task w' ∧ s.codeSize ≤ L.code ∧
      routine = Routine.assemble (framed task.code) ∧ x' = { x with
        arena := w'.withRoutine task, slots := w'.slots, literals := w'.literals } := by
  cases compiled : s.compile x.workspace with
  | error e w' =>
    unfold workspace at compiled
    simp only [install, compiled] at h
    cases h
  | ok r w' =>
    obtain ⟨task, located, -, fits⟩ := Statement.compile_eq_ok compiled
    rw [install_of_locate located fits] at h
    injection h with made same
    exact ⟨task, w', located, fits, made.symm, same.symm⟩

theorem install_of_error {e : CompileError} (failed : s.compile x.workspace = .error e w') :
    install s x = .error e { x with
      arena := w'.arena, slots := w'.slots, literals := w'.literals } := by
  unfold workspace at failed
  simp only [install, failed]

/-- Laying a routine down that fits touches no byte outside the code section. -/
theorem sameOutside_withRoutine (located : s.locate w = .ok task w') (fits : s.codeSize ≤ L.code) :
    w'.arena.SameOutside (w'.withRoutine task) L.codeBase L.literalBase := by
  have size := Statement.length_code located
  have written := w'.arena.sameOutside_overlay L.codeBase (codeBytes (framed task.code))
  rw [size] at written
  exact written.mono (Nat.le_refl _) (Nat.add_le_add_left fits _)

/-- Compiling and laying the routine down touches no byte below the code section. -/
theorem sameInside_withRoutine (located : s.locate x.workspace = .ok task w') :
    x.arena.SameInside (w'.withRoutine task) L.base L.codeBase := by
  have := L.ordered
  have cleared := x.arena.sameOutside_clearCode
  have written := Arena.sameOutside_overlay w'.arena L.codeBase (codeBytes (framed task.code))
  have grown := s.grows_locate x.workspace
  rw [endState_ok located] at grown
  have compiled : Arena.SameInside _ w'.arena L.base L.codeBase :=
    grown.sameBelow.inside (.inl (by omega))
  exact ((cleared.inside (.inl (Nat.le_refl _))).trans compiled).trans
    (written.inside (.inl (Nat.le_refl _)))

/-- Compiling without success touches no byte below the code section either. -/
theorem sameInside_of_compileError {e : CompileError}
    (failed : s.compile x.workspace = .error e w') :
    x.arena.SameInside w'.arena L.base L.codeBase := by
  have := L.ordered
  have grown := s.grows_compile x.workspace
  rw [endState_error failed] at grown
  have cleared := x.arena.sameOutside_clearCode
  exact (cleared.inside (.inl (Nat.le_refl _))).trans (grown.sameBelow.inside (.inl (by omega)))

/-- The machine at the start of the body of the routine of a statement. -/
def atBody (x : Executor L σ) (w : Workspace L) (task : Task) : Machine L σ :=
  Machine.inside (w.withRoutine task) x.sink

@[simp] theorem atBody_sink (x : Executor L σ) (w : Workspace L) (task : Task) :
    (x.atBody w task).sink = x.sink := rfl

/-- The body works on the scratch stack that was saved. -/
theorem atBody_sp (located : s.locate x.workspace = .ok task w') :
    (x.atBody w' task).sp = x.arena.wordAt L.savedSp := by
  have := L.ordered
  have same := sameInside_withRoutine located
  exact same.wordAt (Nat.le_refl _) (by simp only [Layout.savedSp, Layout.dataBase] at *; omega)

/-- The body finds cells and scratch stack as they were before the statement. -/
theorem sameInside_atBody (located : s.locate x.workspace = .ok task w') :
    x.arena.SameInside (x.atBody w' task).arena L.dataBase L.codeBase := by
  have := L.ordered
  have entered := Machine.sameOutside_inside (w'.withRoutine task) x.sink
  exact ((sameInside_withRoutine located).mono (by omega) (Nat.le_refl _)).trans
    (entered.inside (.inr (Nat.le_refl _)))

theorem codeAt_atBody (located : s.locate x.workspace = .ok task w') (fits : s.codeSize ≤ L.code) :
    CodeAt (x.atBody w' task).arena (x.atBody w' task).ip.toNat (task.code ++ [.leave, .ret]) :=
  Machine.codeAt_inside x.sink (codeAt_withRoutine located fits)

/-- The slots stay in order as names are bound and forgotten. -/
theorem InOrder.slots_of_locate (order : x.InOrder) (located : s.locate x.workspace = .ok task w') :
    Slots.Reachable L w'.slots := by
  have grown := s.grows_locate x.workspace
  rw [endState_ok located] at grown
  exact grown.reachable order.slots

variable [Sink σ]

/-- A statement whose routine runs to its end is executed. -/
theorem execute_ok {m : Machine L σ} {status : Word} (located : s.locate x.workspace = .ok task w')
    (fits : s.codeSize ≤ L.code)
    (run : Machine.run x.log { arena := w'.withRoutine task, sink := x.sink } = .ok status m) :
    execute s x = .ok (Routine.assemble (framed task.code))
      { x.compiled w' m.arena with sink := m.sink } := by
  have installed := install_of_locate (x := { x with executed := x.executed + 1 }) located fits
  simp only [execute, installed, runInstalled, compiled, run]

/-- A statement whose routine comes to a fault fails with it. -/
theorem execute_fault {m : Machine L σ} {f : Fault}
    (located : s.locate x.workspace = .ok task w') (fits : s.codeSize ≤ L.code)
    (run : Machine.run x.log { arena := w'.withRoutine task, sink := x.sink } = .error f m) :
    execute s x = .error (.fault x.executed f) { x.compiled w' m.arena with sink := m.sink } := by
  have installed := install_of_locate (x := { x with executed := x.executed + 1 }) located fits
  simp only [execute, installed, runInstalled, compiled, run]

/-- A statement that has no routine fails, and nothing is run. -/
theorem execute_compileError {e : CompileError} (failed : s.compile x.workspace = .error e w') :
    execute s x = .error (.compile x.executed e) (x.compiled w' w'.arena) := by
  have installed := install_of_error (x := { x with executed := x.executed + 1 }) failed
  simp only [execute, installed, compiled]

/-- A statement whose code comes to its end, where the routine is left and the caller's stack pointer is
found, is executed. -/
theorem execute_of_steps {m : Machine L σ} (located : s.locate x.workspace = .ok task w')
    (fits : s.codeSize ≤ L.code) (body : Machine.Steps x.log task.code.length (x.atBody w' task) m)
    (rest : CodeAt m.arena m.ip.toNat [.leave, .ret])
    (caller : m.arena.wordAt L.savedSp = Machine.callerSp) :
    execute s x = .ok (Routine.assemble (framed task.code))
      { x.compiled w' (m.arena.overlay L.savedSp (Word.bytes m.sp)) with sink := m.sink } := by
  obtain ⟨m', run, arena, sink⟩ := Machine.run_framed_of_steps
    (m := { arena := w'.withRoutine task, sink := x.sink }) (codeAt_withRoutine located fits) body rest
    caller
  rw [← arena, ← sink]
  exact execute_ok located fits run

/-- A statement whose code runs to its end is executed. -/
theorem execute_of_ran {m : Machine L σ} (located : s.locate x.workspace = .ok task w')
    (fits : s.codeSize ≤ L.code) (ran : Machine.Ran x.log task.code (x.atBody w' task) m) :
    execute s x = .ok (Routine.assemble (framed task.code))
      { x.compiled w' (m.arena.overlay L.savedSp (Word.bytes m.sp)) with sink := m.sink } := by
  obtain ⟨m', run, arena, sink⟩ := Machine.run_framed
    (m := { arena := w'.withRoutine task, sink := x.sink }) (codeAt_withRoutine located fits) ran
  rw [← arena, ← sink]
  exact execute_ok located fits run

namespace InOrder

/-- A statement whose code runs to its end is executed and leaves the executor in order. -/
theorem of_ran {m : Machine L σ} (order : x.InOrder) (located : s.locate x.workspace = .ok task w')
    (fits : s.codeSize ≤ L.code) (ran : Machine.Ran x.log task.code (x.atBody w' task) m)
    (pointer : L.StackPointer m.sp) :
    ∃ routine x', execute s x = .ok routine x' ∧ x'.InOrder ∧ x'.slots = w'.slots ∧
      m.arena.SameInside x'.arena L.dataBase L.stackBase := by
  have saved := m.arena.stackSaved_save pointer
  have same := m.arena.sameOutside_save m.sp
  exact ⟨_, _, execute_of_ran located fits ran, ⟨order.slots_of_locate located, saved⟩, rfl,
    same.inside (.inr (Nat.le_refl _))⟩

/-- A statement whose code comes to a fault fails and leaves the executor in order. -/
theorem of_fault {m m' : Machine L σ} {n : Nat} {f : Fault} (order : x.InOrder)
    (located : s.locate x.workspace = .ok task w') (fits : s.codeSize ≤ L.code)
    (steps : Machine.Steps x.log n (x.atBody w' task) m) (bound : n < task.code.length)
    (last : Machine.step x.log m = .error f m') (pointer : L.StackPointer m'.sp)
    (entered : m'.entered = true) :
    ∃ e x', execute s x = .error e x' ∧ x'.InOrder ∧ x'.slots = w'.slots ∧
      m'.arena.SameInside x'.arena L.dataBase L.stackBase := by
  have saved := m'.arena.stackSaved_save pointer
  have same := m'.arena.sameOutside_save m'.sp
  have run := Machine.run_framed_fault (m := { arena := w'.withRoutine task, sink := x.sink })
    (codeAt_withRoutine located fits) steps bound last
  rw [Machine.unwind, if_pos entered] at run
  exact ⟨_, _, execute_fault located fits run, ⟨order.slots_of_locate located, saved⟩, rfl,
    same.inside (.inr (Nat.le_refl _))⟩

/-- A statement that has no routine fails and leaves the executor in order. -/
theorem of_compileError {e : CompileError} (order : x.InOrder)
    (failed : s.compile x.workspace = .error e w') :
    ∃ e x', execute s x = .error e x' ∧ x'.InOrder ∧ x'.slots = w'.slots ∧
      x.arena.SameInside x'.arena L.dataBase L.stackBase := by
  have := L.ordered
  have grown := s.grows_compile x.workspace
  rw [endState_error failed] at grown
  have same := sameInside_of_compileError failed
  have saved : w'.arena.wordAt L.savedSp = x.arena.wordAt L.savedSp :=
    same.wordAt (Nat.le_refl _) (by simp only [Layout.savedSp, Layout.dataBase] at *; omega)
  have stack := order.stack
  unfold Arena.StackSaved at stack
  rw [← saved] at stack
  exact ⟨_, _, execute_compileError failed, ⟨grown.reachable order.slots, stack⟩, rfl,
    same.mono (by omega) (by omega)⟩

end InOrder

/-- Every execution has come to one of these ends. -/
theorem execute_cases (s : Statement) (x : Executor L σ) :
    (∃ e w', s.compile x.workspace = .error e w' ∧
      execute s x = .error (.compile x.executed e) (x.compiled w' w'.arena)) ∨
    ∃ task w', s.locate x.workspace = .ok task w' ∧ s.codeSize ≤ L.code ∧
      ((∃ status m,
          Machine.run x.log { arena := w'.withRoutine task, sink := x.sink } = .ok status m ∧
          execute s x = .ok (Routine.assemble (framed task.code))
            { x.compiled w' m.arena with sink := m.sink }) ∨
        ∃ f m, Machine.run x.log { arena := w'.withRoutine task, sink := x.sink } = .error f m ∧
          execute s x =
            .error (.fault x.executed f) { x.compiled w' m.arena with sink := m.sink }) := by
  cases compiled : s.compile x.workspace with
  | error e w' => exact .inl ⟨e, w', rfl, execute_compileError compiled⟩
  | ok r w' =>
    obtain ⟨task, located, -, fits⟩ := Statement.compile_eq_ok compiled
    refine .inr ⟨task, w', located, fits, ?_⟩
    cases run : Machine.run x.log { arena := w'.withRoutine task, sink := x.sink } with
    | ok status m => exact .inl ⟨status, m, rfl, execute_ok located fits run⟩
    | error f m => exact .inr ⟨f, m, rfl, execute_fault located fits run⟩

/-- A statement that is executed has got its places, and its routine has returned. -/
theorem execute_eq_ok {routine : Routine} (h : execute s x = .ok routine x') :
    ∃ task w' status m, s.locate x.workspace = .ok task w' ∧ s.codeSize ≤ L.code ∧
      Machine.run x.log { arena := w'.withRoutine task, sink := x.sink } = .ok status m ∧
      x' = { x.compiled w' m.arena with sink := m.sink } := by
  rcases execute_cases s x with
    ⟨e, w', -, done⟩ | ⟨task, w', located, fits, ⟨status, m, run, done⟩ | ⟨f, m, -, done⟩⟩
  · rw [h] at done
    cases done
  · rw [h] at done
    cases done
    exact ⟨task, w', status, m, located, fits, run, rfl⟩
  · rw [h] at done
    cases done

/-- A compile error of an execution is one of compiling the statement. -/
theorem execute_eq_compileError {k : Nat} {e : CompileError}
    (h : execute s x = .error (.compile k e) x') :
    ∃ w', s.compile x.workspace = .error e w' ∧ x' = x.compiled w' w'.arena := by
  rcases execute_cases s x with
    ⟨e', w', failed, done⟩ | ⟨task, w', -, -, ⟨status, m, -, done⟩ | ⟨f, m, -, done⟩⟩
  · rw [h] at done
    cases done
    exact ⟨w', failed, rfl⟩
  · rw [h] at done
    cases done
  · rw [h] at done
    cases done

/-- A fault of an execution is one of the routine of the statement. -/
theorem execute_eq_fault {k : Nat} {f : Fault} (h : execute s x = .error (.fault k f) x') :
    ∃ task w' m, s.locate x.workspace = .ok task w' ∧ s.codeSize ≤ L.code ∧
      Machine.run x.log { arena := w'.withRoutine task, sink := x.sink } = .error f m ∧
      x' = { x.compiled w' m.arena with sink := m.sink } := by
  rcases execute_cases s x with
    ⟨e, w', -, done⟩ | ⟨task, w', located, fits, ⟨status, m, -, done⟩ | ⟨f', m, run, done⟩⟩
  · rw [h] at done
    cases done
  · rw [h] at done
    cases done
  · rw [h] at done
    cases done
    exact ⟨task, w', m, located, fits, run, rfl⟩

/-- The slots after executing a statement are those after compiling it. -/
theorem slots_execute (s : Statement) (x : Executor L σ) :
    (endState (execute s) x).slots = (endState s.compile x.workspace).slots := by
  rcases execute_cases s x with ⟨e, w', failed, done⟩ | ⟨task, w', located, fits, outcome⟩
  · rw [endState_error done, endState_error failed]
    rfl
  · rw [endState_ok (Statement.compile_of_locate located fits)]
    rcases outcome with ⟨status, m, -, done⟩ | ⟨f, m, -, done⟩
    · rw [endState_ok done]
      rfl
    · rw [endState_error done]
      rfl

end Executor
end Osl
