import Osl.Proofs.Executor.Execution
import Osl.Proofs.Machine.Stage

/-!
# Routines run as they were compiled

As long as no store has copied a string into the code section, the machine fetches exactly the
instructions that the compiler has written, in their order, and is done with them after as many steps
at most (`Reached.code_integrity`). A store can do so: it copies to where the cell says, and that can
be the result of arithmetic on addresses (`exists_tampering`).
-/

namespace Osl
set_option autoImplicit false

variable {L : Layout} {σ : Type}

/-- The code of an expression is work. -/
theorem Located.isWork_code {t : Located} (cells : ∀ cell ∈ t.cells, L.IsCell cell) :
    ∀ i ∈ t.code, i.IsWork L := by
  intro i member
  rcases mem_code member with ⟨w, rfl⟩ | ⟨cell, read, rfl⟩ | ⟨op, rfl⟩
  · trivial
  · exact cells cell read
  · trivial

/-- The code of a statement is work. -/
theorem Task.isWork_code {task : Task} (cells : ∀ cell ∈ task.cells, L.IsCell cell) :
    ∀ i ∈ task.code, i.IsWork L := by
  cases task with
  | assign value cell =>
    intro i member
    rcases List.mem_append.1 member with inValue | store
    · exact Located.isWork_code (fun c read => cells c (List.mem_cons_of_mem _ read)) i inValue
    · rw [List.mem_singleton.1 store]
      exact cells cell List.mem_cons_self
  | print cell | release cell =>
    intro i member
    rw [List.mem_singleton.1 member]
    exact cells cell (List.mem_singleton_self cell)
  | printLog =>
    intro i member
    rw [List.mem_singleton.1 member]
    trivial

namespace Executor

variable {x x' : Executor L σ} {s : Statement} {routine : Routine}

/-- The machine in front of the routine that lies in the code section. -/
def atStart (x : Executor L σ) : Machine L σ := Machine.atStart { arena := x.arena, sink := x.sink }

/-- The routine of a statement at its start. -/
theorem InOrder.stage {task : Task} {w' : Workspace L} (order : x.InOrder)
    (located : s.locate x.workspace = .ok task w') :
    Machine.Stage (framed task.code)
      (Machine.atStart { arena := w'.withRoutine task, sink := x.sink }) := by
  have := L.ordered
  have same := sameInside_withRoutine located
  have saved : (w'.withRoutine task).wordAt L.savedSp = x.arena.wordAt L.savedSp :=
    same.wordAt (Nat.le_refl _) (by simp only [Layout.savedSp, Layout.dataBase] at *; omega)
  have stack := order.stack
  unfold Arena.StackSaved at stack
  rw [← saved] at stack
  exact .before (Task.isWork_code (Statement.cells_locate located order.slots)) stack rfl

variable [Sink σ]

/-- Executing the statement copies no string into the code section. -/
def SparesCode (x : Executor L σ) (s : Statement) : Prop :=
  ∀ routine x', install s x = .ok routine x' → Machine.SparesCode x.log x'.atStart

/-- The executors that come from a new one by executing statements, whatever becomes of them, none of
which copies a string into the code section. -/
inductive Reached : Executor L σ → Prop
  | start (sink : σ) (log : Log) : Reached (start L sink log)
  | execute {x : Executor L σ} (s : Statement) :
      Reached x → x.SparesCode s → Reached (endState (execute s) x)

/-- Executing a statement keeps the executor in order, whatever becomes of the statement. -/
theorem InOrder.execute (order : x.InOrder) (spares : x.SparesCode s) :
    (endState (execute s) x).InOrder := by
  rcases execute_cases s x with ⟨e, w', failed, -⟩ | ⟨task, w', located, fits, outcome⟩
  · obtain ⟨e', x', done, order', -⟩ := order.of_compileError failed
    rwa [endState_error done]
  · have slots := order.slots_of_locate located
    have saved := Machine.stackSaved_run (order.stage located) (codeAt_withRoutine located fits)
      (spares _ _ (install_of_locate located fits))
    rcases outcome with ⟨status, m, run, done⟩ | ⟨f, m, run, done⟩
    · rw [endState_ok run] at saved
      rw [endState_ok done]
      exact ⟨slots, saved⟩
    · rw [endState_error run] at saved
      rw [endState_error done]
      exact ⟨slots, saved⟩

theorem Reached.inOrder (reached : x.Reached) : x.InOrder := by
  induction reached with
  | start sink log => exact inOrder_start L sink log
  | execute s _ spares ih => exact ih.execute spares

/-- Instruction `i` of a routine comes next, with `done` in front of it: it is fetched from code that
is as `laid` has it, and its step leads right behind it and changes no code. -/
structure AtInstr (log : Log) (laid : Arena L) (done : List Instr) (i : Instr) (m : Machine L σ) :
    Prop where
  kept : laid.SameInside m.arena L.codeBase L.literalBase
  ip : m.ip.toNat = L.codeBase + (codeBytes done).length
  fetched : Machine.fetch m = .ok i (m.past i)
  next : (endState (Machine.step log) m).ip.toNat = L.codeBase + (codeBytes (done ++ [i])).length
  keeps : m.arena.SameInside (endState (Machine.step log) m).arena L.codeBase L.literalBase

/-- The code in the code section is run as it is written: the machine fetches its instructions one
after another, never goes past it, and is done with it after as many steps at most as the section has
bytes. -/
structure RunsAsWritten (log : Log) (x : Executor L σ) (code : List Instr) : Prop where
  inOrder : ∀ n m, Machine.Steps log n x.atStart m → ∃ done i rest,
    code = done ++ i :: rest ∧ done.length = n ∧ AtInstr log x.arena done i m
  inside : ∀ n m, Machine.Steps log n x.atStart m →
    (endState (Machine.step log) m).ip.toNat ≤ L.codeBase + (codeBytes code).length
  ends : ∃ n m, n < code.length ∧ Machine.Steps log n x.atStart m ∧
    ∀ m', Machine.step log m ≠ .ok none m'
  few : code.length ≤ L.code

/-- The routine of a statement runs as it was compiled. -/
theorem Reached.code_integrity (reached : x.Reached) (spares : x.SparesCode s)
    (installed : install s x = .ok routine x') :
    ∃ body w', s.body x.workspace = .ok body w' ∧ routine = Routine.assemble (framed body) ∧
      RunsAsWritten x.log x' (framed body) := by
  obtain ⟨task, w', located, fits, rfl, rfl⟩ := install_eq_ok installed
  have spared := spares _ _ installed
  have stage := reached.inOrder.stage located
  have size := Statement.length_code located
  have count := length_le_codeBytes (framed task.code)
  have start : (Machine.atStart { arena := w'.withRoutine task, sink := x.sink }).ip.toNat =
      L.codeBase := toNat_codeBase L
  have code : CodeAt (w'.withRoutine task)
      (Machine.atStart { arena := w'.withRoutine task, sink := x.sink }).ip.toNat
      (framed task.code) := by
    rw [start]
    exact codeAt_withRoutine located fits
  have atInstr {n : Nat} {m : Machine L σ} (steps : Machine.Steps x.log n
      (Machine.atStart { arena := w'.withRoutine task, sink := x.sink }) m) :
      ∃ done i rest, framed task.code = done ++ i :: rest ∧ done.length = n ∧
        AtInstr x.log (w'.withRoutine task) done i m := by
    obtain ⟨done, i, rest, split, length, stage', spared', code', place, same⟩ :=
      stage.steps code spared steps
    have step := stage'.stepsOn code' spared'
    refine ⟨done, i, rest, split, length, same, by rw [place, start], Machine.fetch_eq code', ?_,
      step.code⟩
    rw [step.ip, Machine.toNat_ip_past code', place, start, codeBytes_append, List.length_append,
      codeBytes_cons, codeBytes_nil, List.append_nil, Nat.add_assoc]
  refine ⟨task.code, w', Statement.body_of_locate located, rfl, fun n m => atInstr, ?_,
    stage.exists_last code spared, by omega⟩
  intro n m steps
  obtain ⟨done, i, rest, split, -, now⟩ := atInstr steps
  rw [now.next, split]
  simp only [codeBytes_append, codeBytes_cons, codeBytes_nil, List.length_append, List.append_nil]
  omega

/-- Whether the routine of a statement ends within `n` steps and copies no string into the code
section. -/
def sparesFor (n : Nat) (s : Statement) (x : Executor L σ) : Bool :=
  match install s x with
  | .ok _ x' => x'.atStart.sparesFor x.log n
  | .error _ _ => false

theorem sparesCode_of_sparesFor {n : Nat} (h : x.sparesFor n s = true) : x.SparesCode s := by
  intro routine x' installed
  rw [sparesFor, installed] at h
  exact Machine.sparesCode_of_sparesFor h

/-- The executor after `x = "ab";`. -/
def withPair : Executor .small Spool :=
  endState (execute (.assign "x" (.str [97, 98]))) (start .small ⟨some {}⟩ .missing)

/-- A store may copy over the old content of the cell: `x = "c";` after `x = "ab";`. -/
theorem Reached.code_integrity_in_place :
    ∃ routine x', install (.assign "x" (.str [99])) withPair = .ok routine x' ∧
      ∃ body w', (Statement.assign "x" (.str [99])).body withPair.workspace = .ok body w' ∧
        routine = Routine.assemble (framed body) ∧
        RunsAsWritten withPair.log x' (framed body) := by
  have first : sparesFor 8 (.assign "x" (.str [97, 98]))
      (Executor.start .small (⟨some {}⟩ : Spool) .missing) = true := by
    decide +kernel
  have second : withPair.sparesFor 8 (.assign "x" (.str [99])) = true := by
    decide +kernel
  have reached : withPair.Reached := .execute _ (.start _ _) (sparesCode_of_sparesFor first)
  cases installed : install (.assign "x" (.str [99])) withPair with
  | error e x' =>
    rw [sparesFor, installed] at second
    cases second
  | ok routine x' =>
    exact ⟨routine, x', rfl, reached.code_integrity (sparesCode_of_sparesFor second) installed⟩

/-- The sum of a string and a number, taken of the address and the third word of the string: it leaves
a string of seventeen bytes, 34 bytes below the literal and so in the code section. -/
def aim : Statement :=
  .assign "t" (.arith .add (.str (0xde :: (List.replicate 7 0xff ++ [17]))) (.int 0))

/-- The byte at an address when the routine of a second statement is laid down, and after `n` steps
of it. -/
def byteAfter (first s : Statement) (n p : Nat) (x : Executor L σ) : Option (Byte × Byte) :=
  match execute first x with
  | .ok _ x =>
    match install s x with
    | .ok _ x' => (x'.atStart.after x.log n).map fun m => (x'.arena.byte p, m.arena.byte p)
    | .error _ _ => none
  | .error _ _ => none

theorem exists_steps_of_byteAfter {first : Statement} {n p : Nat} {b b' : Byte}
    (h : x.byteAfter first s n p = some (b, b')) :
    ∃ r y routine x' m, execute first x = .ok r y ∧ install s y = .ok routine x' ∧
      Machine.Steps y.log n x'.atStart m ∧ x'.arena.byte p = b ∧ m.arena.byte p = b' := by
  rw [byteAfter] at h
  cases executed : execute first x with
  | error e y =>
    rw [executed] at h
    cases h
  | ok r y =>
    cases installed : install s y with
    | error e x' =>
      rw [executed] at h
      simp only [installed] at h
      cases h
    | ok routine x' =>
      rw [executed] at h
      simp only [installed] at h
      obtain ⟨m, gone, same⟩ := Option.map_eq_some_iff.1 h
      injection same with before now
      exact ⟨r, y, routine, x', m, rfl, installed, Machine.steps_of_after gone, before, now⟩

/-- A routine can change itself: the store of `t = "\x0c\x0c";` lays the two bytes over the last two
instructions of its own routine. -/
theorem exists_tampering :
    ∃ (r : Routine) (x : Executor .small Spool) (routine : Routine) (x' : Executor .small Spool)
      (m : Machine .small Spool) (p : Nat),
      execute aim (start .small ⟨some {}⟩ (.file [120])) = .ok r x ∧
      install (.assign "t" (.str [12, 12])) x = .ok routine x' ∧
      Machine.Steps x.log 6 x'.atStart m ∧
      Layout.small.codeBase ≤ p ∧ p < Layout.small.literalBase ∧
      x'.arena.byte p ≠ m.arena.byte p := by
  have changed : byteAfter aim (.assign "t" (.str [12, 12])) 6 0x1000ae
      (start .small (⟨some {}⟩ : Spool) (.file [120])) = some (2, 12) := by
    decide +kernel
  obtain ⟨r, x, routine, x', m, executed, installed, steps, before, now⟩ :=
    exists_steps_of_byteAfter changed
  refine ⟨r, x, routine, x', m, 0x1000ae, executed, installed, steps, by decide, by decide, ?_⟩
  rw [before, now]
  decide

end Executor
end Osl
