import Osl.Proofs.Executor.SavedStack
import Osl.Proofs.Machine.Lockstep

/-!
# What the log can do

Nothing but appear in the output. Two executors that differ in their logs give the same result for every
statement and have the same arena, slots and literals after it, whatever became of the statements before
and whatever code their routines ran into; their outputs are the same but for the bytes that `printLog`
has appended (`log_unseen`).
-/

namespace Osl.Executor
set_option autoImplicit false

open Sink (Collector)

variable {L : Layout} {σ : Type} [Sink σ] {c : Collector σ} {x : Executor L σ} {s : Statement} {t : σ}

/-- What executing a statement gives. -/
def result (s : Statement) (x : Executor L σ) : Except ExecError Routine :=
  match execute s x with
  | .ok routine _ => .ok routine
  | .error e _ => .error e

/-- The instructions that are executed for a statement, each with what it appends to the sink; none if
the statement does not compile. -/
def transcript (c : Collector σ) (s : Statement) (x : Executor L σ) : List Written :=
  match install s x with
  | .error _ _ => []
  | .ok _ x =>
    let m : Machine L σ := { arena := x.arena, sink := x.sink }
    m.atStart.transcript c x.log (Machine.stepBound L)

/-- The transcript of a program, whatever becomes of its statements. -/
def transcriptEach (c : Collector σ) : Program → Executor L σ → List Written
  | [], _ => []
  | s :: p, x => transcript c s x ++ transcriptEach c p (endState (execute s) x)

/-- The executor with another log, and another sink. -/
def withLog (x : Executor L σ) (log : Log) (sink : σ) : Executor L σ := { x with log, sink }

section Equations

variable {w' : Workspace L} {task : Task}

theorem transcript_of_error {e : CompileError} (failed : s.compile x.workspace = .error e w') :
    transcript c s x = [] := by
  rw [transcript, install_of_error failed]

theorem transcript_of_locate (located : s.locate x.workspace = .ok task w')
    (fits : s.codeSize ≤ L.code) :
    transcript c s x = Machine.transcript c x.log (Machine.stepBound L)
      (Machine.atStart { arena := w'.withRoutine task, sink := x.sink }) := by
  rw [transcript, install_of_locate located fits]

end Equations

/-- One statement has the same result with either log, and the executors after it still differ in their
logs and sinks only. -/
theorem execute_lockstep (s : Statement) (log : Log) (ready : c.ready x.sink) (ready' : c.ready t) :
    ∃ u, endState (execute s) (x.withLog log t) = (endState (execute s) x).withLog log u ∧
      result s (x.withLog log t) = result s x ∧
      transcript c s (x.withLog log t) = (transcript c s x).map (Written.relog log) ∧
      c.Took x.sink (Written.output (transcript c s x)) (endState (execute s) x).sink ∧
      c.Took t (Written.output (transcript c s (x.withLog log t))) u := by
  cases compiled : s.compile x.workspace with
  | error e w' =>
    have failed := execute_compileError compiled
    have failed' := execute_compileError (x := x.withLog log t) compiled
    rw [transcript_of_error compiled, transcript_of_error (x := x.withLog log t) compiled,
      endState_error failed, endState_error failed', result, result, failed, failed']
    exact ⟨t, rfl, rfl, rfl, .nothing ready, .nothing ready'⟩
  | ok r w' =>
    obtain ⟨task, located, -, fits⟩ := Statement.compile_eq_ok compiled
    let m : Machine L σ := { arena := w'.withRoutine task, sink := x.sink }
    have relogged := (Machine.runFor_lockstep (m := m.atStart) x.log log (Machine.stepBound L) ready
      ready').1
    have alike := Machine.run_lockstep (m := m) x.log log ready ready'
    rw [transcript_of_locate located fits, transcript_of_locate (x := x.withLog log t) located fits]
    generalize ran : Machine.run x.log m = r at alike
    generalize ran' : Machine.run log { m with sink := t } = r' at alike
    cases alike with
    | ok status took took' =>
      have done := execute_ok located fits ran
      have done' := execute_ok (x := x.withLog log t) located fits ran'
      rw [endState_ok done, endState_ok done', result, result, done, done']
      exact ⟨_, rfl, rfl, relogged, took, took'⟩
    | error f took took' =>
      have failed := execute_fault located fits ran
      have failed' := execute_fault (x := x.withLog log t) located fits ran'
      rw [endState_error failed, endState_error failed', result, result, failed, failed']
      exact ⟨_, rfl, rfl, relogged, took, took'⟩

/-- A sink that takes writes goes on to do so, whatever becomes of a statement. -/
theorem ready_execute (s : Statement) (ready : c.ready x.sink) :
    c.ready (endState (execute s) x).sink := by
  obtain ⟨_, _, _, _, took, _⟩ := execute_lockstep s x.log ready ready
  exact took.ready

/-- Whole programs. -/
theorem executeEach_lockstep (p : Program) (log : Log) (ready : c.ready x.sink) (ready' : c.ready t) :
    ∃ u, (x.withLog log t).executeEach p = (x.executeEach p).withLog log u ∧
      transcriptEach c p (x.withLog log t) = (transcriptEach c p x).map (Written.relog log) ∧
      c.Took x.sink (Written.output (transcriptEach c p x)) (x.executeEach p).sink ∧
      c.Took t (Written.output (transcriptEach c p (x.withLog log t))) u := by
  induction p generalizing x t with
  | nil => exact ⟨t, rfl, rfl, .nothing ready, .nothing ready'⟩
  | cons s p ih =>
    obtain ⟨u, after, -, transcripts, took, took'⟩ := execute_lockstep s log ready ready'
    obtain ⟨v, afterEach, rest, tookEach, tookEach'⟩ := ih took.ready took'.ready
    rw [← after] at afterEach rest tookEach'
    refine ⟨v, ?_, ?_, ?_, ?_⟩
    · rw [executeEach_cons, executeEach_cons, afterEach]
    · rw [transcriptEach, transcriptEach, transcripts, rest, List.map_append]
    · rw [transcriptEach, Written.output_append, executeEach_cons]
      exact took.trans tookEach
    · rw [transcriptEach, Written.output_append]
      exact took'.trans tookEach'

/-- Two executors that differ in their logs, with sinks that take every write, execute the same
statements. After every program they have the same arena, slots and literals, and every next statement
has the same result. Their outputs are what the executed instructions have appended, and these are the
same, in the same order, for both but for what `printLog` has appended. -/
theorem log_unseen (c : Collector σ) (x : Executor L σ) (ready : c.ready x.sink) (log : Log) (p : Program) :
    let y := x.withLog log x.sink
    (y.executeEach p).arena = (x.executeEach p).arena ∧
      (y.executeEach p).slots = (x.executeEach p).slots ∧
      (y.executeEach p).literals = (x.executeEach p).literals ∧
      (∀ s, result s (y.executeEach p) = result s (x.executeEach p)) ∧
      c.collected (x.executeEach p).sink =
        c.collected x.sink ++ Written.output (transcriptEach c p x) ∧
      c.collected (y.executeEach p).sink =
        c.collected x.sink ++ Written.output (transcriptEach c p y) ∧
      Written.besidesLog (transcriptEach c p y) = Written.besidesLog (transcriptEach c p x) := by
  intro y
  obtain ⟨u, after, transcripts, took, took'⟩ := executeEach_lockstep p log ready ready
  rw [after, transcripts, Written.besidesLog_map_relog, ← transcripts]
  refine ⟨rfl, rfl, rfl, fun s => ?_, took.collected, took'.collected, rfl⟩
  obtain ⟨_, _, same, _⟩ := execute_lockstep s log took.ready took'.ready
  exact same

/-- A new executor that finds no log. -/
def logless : Executor .tiny Spool := start .tiny ⟨some {}⟩ .missing

/-- `v = 7; print_log; print v;` -/
def logged : Program := [.assign "v" (.int 7), .printLog, .print "v"]

/-- The log is in the output of one of two executors only. -/
theorem log_unseen_logged :
    let y := logless.withLog (.file [65, 66]) logless.sink
    (logless.executeEach logged).sink.toList = [55, 10] ∧
      (y.executeEach logged).sink.toList = [65, 66, 55, 10] ∧
      (y.executeEach logged).arena = (logless.executeEach logged).arena ∧
      Written.besidesLog (transcriptEach Spool.collector logged y) =
        Written.besidesLog (transcriptEach Spool.collector logged logless) := by
  intro y
  have printed : (logless.executeEach logged).sink.toList = [55, 10] ∧
      (y.executeEach logged).sink.toList = [65, 66, 55, 10] := by
    decide +kernel
  have ⟨arena, _, _, _, _, _, written⟩ := log_unseen Spool.collector logless rfl (.file [65, 66]) logged
  exact ⟨printed.1, printed.2, arena, written⟩

end Osl.Executor
