import Osl.Proofs.Executor.LogIndependence
import Osl.Session

/-!
# What a session tells its handler

There are three ways to run a program: by executing its statements one by one (`Executor.OneByOne`), by
`Program.run`, and as part of a session, which has a handler that may fail to react. They come to the
same end. `Program.Performs` takes the first way from the making of the executor to the output, and
`exists_performs` says that the second and the third follow it, whatever is observed on the way.

To tell what calls a handler gets, and in which order, it is wrapped so that it writes them down
(`Recorded`). The wrapped handler reacts as the handler does, and `run_recorded` puts the calls of a
session together.
-/

namespace Osl
set_option autoImplicit false

/-! ## Statements one by one -/

namespace Executor

variable {L : Layout} {σ : Type} [Sink σ] {p : Program} {x y : Executor L σ} {rs : List Routine}
  {e : Option ExecError}

/-- Executing the statements one by one, up to the first error if there is one, gives the routines of
those that succeed. -/
inductive OneByOne : Program → Executor L σ → List Routine → Option ExecError → Executor L σ → Prop
  | done (x : Executor L σ) : OneByOne [] x [] none x
  | failed {s : Statement} {rest : Program} {x x' : Executor L σ} {e : ExecError} :
      execute s x = .error e x' → OneByOne (s :: rest) x [] (some e) x'
  | next {s : Statement} {rest : Program} {x x' y : Executor L σ} {r : Routine} {rs : List Routine}
      {e : Option ExecError} :
      execute s x = .ok r x' → OneByOne rest x' rs e y → OneByOne (s :: rest) x (r :: rs) e y

theorem exists_oneByOne (p : Program) (x : Executor L σ) : ∃ rs e y, OneByOne p x rs e y := by
  induction p generalizing x with
  | nil => exact ⟨[], none, x, .done x⟩
  | cons s rest ih =>
    cases run : execute s x with
    | error e x' => exact ⟨[], some e, x', .failed run⟩
    | ok r x' =>
      obtain ⟨rs, e, y, ran⟩ := ih x'
      exact ⟨r :: rs, e, y, .next run ran⟩

/-- A statement that is executed counts. -/
theorem executed_of_execute {s : Statement} {r : Routine} (h : execute s x = .ok r y) :
    y.executed = x.executed + 1 := by
  obtain ⟨task, w, status, m, -, -, -, rfl⟩ := execute_eq_ok h
  rfl

/-- Tells of routines in their order, each with its number. -/
def tellEach {η : Type} (observe : Nat → Routine → η → η) (told : List (Routine × Nat)) (seen : η) : η :=
  told.foldl (fun seen r => observe r.2 r.1 seen) seen

/-- `executeAll` executes the statements one by one. It tells of the routines in their order, counting
from the statements that were executed before. -/
theorem OneByOne.executeAll_eq {η : Type} (h : OneByOne p x rs e y) (observe : Nat → Routine → η → η)
    (seen : η) :
    executeAll observe p x seen = (e, y, tellEach observe (rs.zipIdx x.executed) seen) := by
  induction h generalizing seen with
  | done x => rfl
  | failed run => rw [executeAll, run]; rfl
  | next run _ ih =>
    rw [executeAll, run, List.zipIdx_cons, ← executed_of_execute run]
    exact ih _

/-- A new executor has executed no statement, and the file for its output is there. -/
theorem create_eq_ok {c : Config} {world : Surroundings} {x : Executor L Spool}
    (h : create c world = .ok ⟨L, x⟩) : x.executed = 0 ∧ x.sink.isOpen = true := by
  unfold create at h
  split at h
  · cases h
  · split at h
    · cases h
    · rename_i opened
      cases h
      exact ⟨rfl, Spool.isOpen_of_open? opened⟩

section Output

variable {x y : Executor L Spool}

/-- The file for the output is there as long as statements are executed. -/
theorem OneByOne.isOpen (h : OneByOne p x rs e y) (ready : x.sink.isOpen = true) :
    y.sink.isOpen = true := by
  induction h with
  | done x => exact ready
  | @failed s _ x _ _ run =>
    have ended : (endState (execute s) x).sink.isOpen := ready_execute (c := Spool.collector) s ready
    rwa [endState_error run] at ended
  | @next s _ x _ _ _ _ _ run _ ih =>
    have ended : (endState (execute s) x).sink.isOpen := ready_execute (c := Spool.collector) s ready
    rw [endState_ok run] at ended
    exact ih ended

end Output
end Executor

namespace Program

/-- Performing the program: an executor is made, the statements are executed one by one up to the first
error, and the output is taken out. -/
inductive Performs (p : Program) (c : Config) (world : Surroundings) :
    List Routine → Except RunFailure (List Byte) → Prop
  | refused {e : ExecError} : Executor.create c world = .error e →
      Performs p c world [] (.error ⟨e, []⟩)
  | completed {L : Layout} {x y : Executor L Spool} {rs : List Routine} :
      Executor.create c world = .ok ⟨L, x⟩ → Executor.OneByOne p x rs none y →
      Performs p c world rs (.ok y.sink.finish.1)
  | stopped {L : Layout} {x y : Executor L Spool} {rs : List Routine} {e : ExecError} :
      Executor.create c world = .ok ⟨L, x⟩ → Executor.OneByOne p x rs (some e) y →
      Performs p c world rs (.error ⟨e, y.sink.finish.1⟩)

/-- A performance is what a run gives that is observed, whoever observes it: of each routine it tells
once, in their order. -/
theorem Performs.runObserved_eq {p : Program} {c : Config} {world : Surroundings} {rs : List Routine}
    {result : Except RunFailure (List Byte)} {η : Type} (h : Performs p c world rs result)
    (observe : Nat → Routine → η → η) (seen : η) :
    runObserved p c world observe seen =
      (result, Executor.tellEach observe rs.zipIdx seen) := by
  cases h with
  | refused created =>
    rw [runObserved, created]
    rfl
  | completed created ran =>
    obtain ⟨first, ready⟩ := Executor.create_eq_ok created
    have all := ran.executeAll_eq observe seen
    rw [first] at all
    simp only [runObserved, created, all, Executor.finish_of_isOpen (ran.isOpen ready)]
  | stopped created ran =>
    obtain ⟨first, ready⟩ := Executor.create_eq_ok created
    have all := ran.executeAll_eq observe seen
    rw [first] at all
    simp only [runObserved, created, all, Executor.fail_of_isOpen (ran.isOpen ready)]

/-- `Program.run` gives what performing the program gives, and so does every observed run. -/
theorem exists_performs (p : Program) (c : Config) (world : Surroundings) :
    ∃ rs, Performs p c world rs (run p c world) := by
  have observed {rs : List Routine} {result : Except RunFailure (List Byte)}
      (performs : Performs p c world rs result) : run p c world = result := by
    rw [run, performs.runObserved_eq]
  cases created : Executor.create c world with
  | error e =>
    have performs : Performs p c world [] _ := .refused created
    exact ⟨[], by rwa [observed performs]⟩
  | ok made =>
    obtain ⟨L, x⟩ := made
    obtain ⟨rs, e, y, ran⟩ := Executor.exists_oneByOne p x
    cases e with
    | none =>
      have performs : Performs p c world rs _ := .completed created ran
      exact ⟨rs, by rwa [observed performs]⟩
    | some e =>
      have performs : Performs p c world rs _ := .stopped created ran
      exact ⟨rs, by rwa [observed performs]⟩

end Program

/-! ## Handlers that write down their calls -/

/-- A call that a handler gets. -/
inductive Call
  | parseFailed (fileName : String) (source : List Char) (e : Parse.Failure)
  | routine (index : Nat) (r : Routine)
  | output (bs : List Byte)

/-- A handler, and the calls that it has got, the first one first. -/
structure Recorded (η : Type) where
  handler : η
  calls : List Call

variable {η : Type} {h h' : η} {calls : List Call}

namespace Recorded

/-- Writes down a call and has the handler react to it. -/
def tell (call : Call) (react : Reaction η Unit) : Reaction (Recorded η) Unit := fun r =>
  match react r.handler with
  | .ok () h => .ok () ⟨h, r.calls ++ [call]⟩
  | .error reason h => .error reason ⟨h, r.calls ++ [call]⟩

theorem tell_ok {call : Call} {react : Reaction η Unit} (done : react h = .ok () h') :
    tell call react ⟨h, calls⟩ = .ok () ⟨h', calls ++ [call]⟩ := by
  simp only [tell, done]

/-- A call is written down whether the handler fails or not. -/
theorem endState_tell (call : Call) (react : Reaction η Unit) (h : η) (calls : List Call) :
    endState (tell call react) ⟨h, calls⟩ = ⟨endState react h, calls ++ [call]⟩ := by
  cases run : react h <;> simp only [endState, tell, run]

end Recorded

variable [Handler η]

/-- A handler is told of a routine, and it does not matter whether it fails to react. -/
theorem Session.observe_eq_endState (i : Nat) (r : Routine) (h : η) :
    observe i r h = endState (Handler.routine i r) h := by
  unfold observe endState
  cases Handler.routine i r h <;> rfl

namespace Recorded

instance : Handler (Recorded η) where
  parseFailed fileName source e :=
    tell (.parseFailed fileName source e) (Handler.parseFailed fileName source e)
  routine i r := tell (.routine i r) (Handler.routine i r)
  output bs := tell (.output bs) (Handler.output bs)

theorem observe_eq (i : Nat) (r : Routine) (h : η) (calls : List Call) :
    Session.observe i r (⟨h, calls⟩ : Recorded η) =
      ⟨Session.observe i r h, calls ++ [.routine i r]⟩ := by
  rw [Session.observe_eq_endState, Session.observe_eq_endState]
  exact endState_tell _ _ h calls

theorem tellEach_eq (told : List (Routine × Nat)) (h : η) (calls : List Call) :
    Executor.tellEach Session.observe told (⟨h, calls⟩ : Recorded η) =
      ⟨Executor.tellEach Session.observe told h,
        calls ++ told.map fun r => .routine r.2 r.1⟩ := by
  induction told generalizing h calls with
  | nil =>
    rw [List.map_nil, List.append_nil]
    rfl
  | cons r rest ih =>
    show Executor.tellEach Session.observe rest
      (Session.observe r.2 r.1 (⟨h, calls⟩ : Recorded η)) = _
    rw [observe_eq, ih, List.append_assoc, List.singleton_append, List.map_cons]
    rfl

end Recorded

/-- In states that are ready, the handler takes parse failures and output; and it stays ready when it
is told of routines, even if it fails to react. -/
structure Handler.Reports (ready : η → Prop) : Prop where
  parseFailed : ∀ fileName source e h, ready h →
    ∃ h', Handler.parseFailed fileName source e h = .ok () h'
  output : ∀ bs h, ready h → ∃ h', Handler.output bs h = .ok () h'
  routine : ∀ i r h, ready h → ready (Session.observe i r h)

theorem Handler.Reports.ready_tellEach {ready : η → Prop} (reports : Handler.Reports ready)
    (told : List (Routine × Nat)) (start : ready h) :
    ready (Executor.tellEach Session.observe told h) := by
  induction told generalizing h with
  | nil => exact start
  | cons r rest ih => exact ih (reports.routine r.2 r.1 h start)

/-! ## The console -/

namespace Console

/-- Both streams take what is written. -/
structure Intact (c : Console) : Prop where
  stdout : c.stdoutDefect = none
  stderr : c.stderrDefect = none

theorem note_of_intact {c : Console} (intact : c.Intact) (n : Note) :
    note n c = .ok () { c with stderr := c.stderr.push n } := by
  rw [note, bind_get, intact.stderr]
  rfl

/-- A console takes reports and output as long as its streams do. -/
theorem reports_intact : Handler.Reports Intact := by
  constructor
  · intro fileName source e c intact
    exact ⟨_, note_of_intact intact _⟩
  · intro bs c intact
    change ∃ c', print bs c = .ok () c'
    rw [print, bind_get, intact.stdout]
    cases bs with
    | nil => exact ⟨c, rfl⟩
    | cons b bs => exact ⟨_, rfl⟩
  · intro i r c intact
    rw [Session.observe_eq_endState]
    change Intact (endState (showRoutine i r) c)
    unfold showRoutine endState
    rw [bind_get]
    cases c.listing with
    | false => exact intact
    | true =>
      rw [if_pos rfl, note_of_intact intact]
      exact ⟨intact.stdout, intact.stderr⟩

end Console

/-! ## Sessions -/

/-- What was printed by a run that came to this end. -/
def RunFailure.printed : Except RunFailure (List Byte) → List Byte
  | .ok output => output
  | .error failure => failure.output

/-- How a session ends whose program came to this end. -/
def Outcome.ofRun : Except RunFailure (List Byte) → Outcome
  | .ok _ => .completed
  | .error failure => .runFailed failure

namespace Session

variable {s : Session} {p : Program} {e : Parse.Failure}

theorem run_of_error (rejected : Parse.run s.source = .error e) (h : η) :
    run s h = (Handler.parseFailed s.fileName s.source e >>= fun _ => pure .parseFailed) h := by
  unfold run
  rw [rejected]

theorem run_of_not_running (parsed : Parse.run s.source = .ok p) (still : s.running = false) (h : η) :
    run s h = .ok .parsed h := by
  unfold run
  rw [parsed, still]
  rfl

/-- A session that runs its program tells of the routines first and then hands over the output. -/
theorem run_of_performs {rs : List Routine} {result : Except RunFailure (List Byte)}
    (parsed : Parse.run s.source = .ok p) (running : s.running = true)
    (performs : Program.Performs p s.config s.world rs result) (h : η) :
    run s h = (Handler.output (RunFailure.printed result) >>= fun _ => pure (Outcome.ofRun result))
      (Executor.tellEach observe rs.zipIdx h) := by
  unfold run
  rw [parsed]
  simp only [running, Bool.not_true, Bool.false_eq_true, if_false]
  rw [bind_get, performs.runObserved_eq]
  cases result with
  | ok output => rfl
  | error failure => rfl

/-- How a session ends, and which calls it makes: it reports that its source does not parse, or it is
done when it has parsed it, or it tells of the routines of the statements that have succeeded and hands
over what was printed, once and last. -/
inductive Accounts (s : Session) : Outcome → List Call → Prop
  | rejected {e : Parse.Failure} : Parse.run s.source = .error e →
      Accounts s .parseFailed [.parseFailed s.fileName s.source e]
  | parsed {p : Program} : Parse.run s.source = .ok p → s.running = false → Accounts s .parsed []
  | ran {p : Program} {rs : List Routine} : Parse.run s.source = .ok p → s.running = true →
      Program.Performs p s.config s.world rs (Program.run p s.config s.world) →
      Accounts s (.ofRun (Program.run p s.config s.world))
        (rs.zipIdx.map (fun told => .routine told.2 told.1) ++
          [.output (RunFailure.printed (Program.run p s.config s.world))])

/-- A session whose handler takes parse failures and output comes to its end. It makes the calls that
it should and no others, the handler being in the state in which those calls leave it; and if the source
does not parse, nothing else in the session matters. -/
theorem run_recorded {ready : η → Prop} (reports : Handler.Reports ready) (s : Session)
    (start : ready h) :
    (∃ outcome h' calls, run s (⟨h, []⟩ : Recorded η) = .ok outcome ⟨h', calls⟩ ∧
        run s h = .ok outcome h' ∧ s.Accounts outcome calls) ∧
      ∀ e, Parse.run s.source = .error e → ∀ config world,
        run { s with config, world } (⟨h, []⟩ : Recorded η) = run s (⟨h, []⟩ : Recorded η) := by
  refine ⟨?_, fun e rejected config world => ?_⟩
  · cases parsed : Parse.run s.source with
    | error e =>
      obtain ⟨h', done⟩ := reports.parseFailed s.fileName s.source e h start
      refine ⟨.parseFailed, h', _, ?_, ?_, .rejected parsed⟩
      · rw [run_of_error parsed]
        exact bind_ok (Recorded.tell_ok done)
      · rw [run_of_error parsed]
        exact bind_ok done
    | ok p =>
      cases running : s.running with
      | false =>
        exact ⟨.parsed, h, [], run_of_not_running parsed running _,
          run_of_not_running parsed running h, .parsed parsed running⟩
      | true =>
        obtain ⟨rs, performs⟩ := Program.exists_performs p s.config s.world
        obtain ⟨h', done⟩ := reports.output
          (RunFailure.printed (Program.run p s.config s.world)) _
          (reports.ready_tellEach rs.zipIdx start)
        refine ⟨_, h', _, ?_, ?_, .ran parsed running performs⟩
        · rw [run_of_performs parsed running performs, Recorded.tellEach_eq]
          exact bind_ok (Recorded.tell_ok done)
        · rw [run_of_performs parsed running performs]
          exact bind_ok done
  · rw [run_of_error rejected]
    exact run_of_error (s := { s with config, world }) rejected (⟨h, []⟩ : Recorded η)

/-- A session that assigns, prints and ends with an error: the name in its third statement has two
letters. -/
def printX : Session := { fileName := "x.osl", source := "x = 1; print x; print xx;".toList }

theorem run_recorded_printX :
    Handler.Reports Console.Intact ∧ Console.Intact { listing := true } ∧
      (∃ outcome c calls,
        run printX (⟨{ listing := true }, []⟩ : Recorded Console) = .ok outcome ⟨c, calls⟩ ∧
          run printX ({ listing := true } : Console) = .ok outcome c ∧
            printX.Accounts outcome calls) ∧
      ∀ e, Parse.run printX.source = .error e → ∀ config world,
        run { printX with config, world } (⟨{ listing := true }, []⟩ : Recorded Console) =
          run printX (⟨{ listing := true }, []⟩ : Recorded Console) :=
  ⟨Console.reports_intact, ⟨rfl, rfl⟩, run_recorded Console.reports_intact printX ⟨rfl, rfl⟩⟩

end Session
end Osl
