import Osl.Arena.Initial
import Osl.Compile
import Osl.Machine

/-!
# Executing programs

An executor keeps the arena, the bound names, the literals and the sink from one statement to the
next. `Executor.execute` compiles a statement into the code section and runs it. After an error the
executor can go on with the next statement; `Program.run` stops at the first one.
-/

namespace Osl
set_option autoImplicit false

/-- What a run finds outside: the log, and which directories are there. -/
structure Surroundings where
  log : Log := .missing
  hasDirectory : String → Bool := fun _ => true

/-- Why a run ended. Statements count from zero. -/
inductive ExecError
  | arena (e : ArenaError)
  | sink (e : SinkError)
  | compile (index : Nat) (e : CompileError)
  | fault (index : Nat) (f : Fault)
  deriving DecidableEq

/-- The text of an execution error. -/
def ExecError.message : ExecError → String
  | .arena e => e.message
  | .sink e => e.message
  | .compile index e => "statement " ++ Numeral.decimal index ++ ": " ++ e.message
  | .fault index f => "statement " ++ Numeral.decimal index ++ ": " ++ f.message

/-- The state between statements. -/
structure Executor (L : Layout) (σ : Type) where
  arena : Arena L
  slots : Slots
  literals : Literals L
  sink : σ
  log : Log
  /-- How many statements were taken on. -/
  executed : Nat

namespace Executor

variable {L : Layout} {σ : Type}

/-- An executor before its first statement. -/
def start (L : Layout) (sink : σ) (log : Log) : Executor L σ where
  arena := Arena.initial L
  slots := {}
  literals := Literals.empty L
  sink
  log
  executed := 0

/-- The executor that a configuration asks for, its arena set up for the first statement. -/
def create (c : Config) (world : Surroundings) :
    Except ExecError ((L : Layout) × Executor L Spool) :=
  match Arena.create c with
  | .error e => .error (.arena e)
  | .ok ⟨L, arena⟩ =>
    match Spool.open? (c.sinkDir.all world.hasDirectory) with
    | .error e => .error (.sink e)
    | .ok sink => .ok ⟨L, { start L sink world.log with arena := arena.reset }⟩

/-- Compiles a statement into the code section, zeroed before. -/
def install (s : Statement) : EStateM CompileError (Executor L σ) Routine :=
  fun ⟨arena, slots, literals, sink, log, executed⟩ =>
    match s.compile ⟨arena.clearCode, slots, literals⟩ with
    | .error e ⟨arena, slots, literals⟩ => .error e ⟨arena, slots, literals, sink, log, executed⟩
    | .ok routine ⟨arena, slots, literals⟩ =>
      match Arena.write (.ofNat L.codeBase) routine.code arena with
      | .error _ arena =>
        .error (.codeOverflow routine.size L.code) ⟨arena, slots, literals, sink, log, executed⟩
      | .ok () arena => .ok routine ⟨arena, slots, literals, sink, log, executed⟩

/-- Runs the routine in the code section. -/
def runInstalled [Sink σ] : EStateM Fault (Executor L σ) Word :=
  fun ⟨arena, slots, literals, sink, log, executed⟩ =>
    match Machine.run log { arena, sink } with
    | .error f m => .error f ⟨m.arena, slots, literals, m.sink, log, executed⟩
    | .ok status m => .ok status ⟨m.arena, slots, literals, m.sink, log, executed⟩

/-- Compiles a statement and runs its routine. -/
def execute [Sink σ] (s : Statement) : EStateM ExecError (Executor L σ) Routine := fun x =>
  let index := x.executed
  match install s { x with executed := index + 1 } with
  | .error e x => .error (.compile index e) x
  | .ok routine x =>
    match runInstalled x with
    | .error f x => .error (.fault index f) x
    | .ok _ x => .ok routine x

/-- The slot bound to a name. -/
def slotOf (x : Executor L σ) (name : String) : Option Nat := x.slots.lookup name

/-- The value of the variable bound to a name, if its content lies in the arena. -/
def valueOf (x : Executor L σ) (name : String) : Option Value := do
  let slot ← x.slotOf name
  (Value.read x.arena (L.cell slot)).toOption

/-- Executes statements up to the first error. `observe` is told the number and the routine of each
statement that succeeds. -/
def executeAll {η : Type} [Sink σ] (observe : Nat → Routine → η → η) :
    List Statement → Executor L σ → η → Option ExecError × Executor L σ × η
  | [], x, seen => (none, x, seen)
  | s :: rest, x, seen =>
    let index := x.executed
    match execute s x with
    | .error e x => (some e, x, seen)
    | .ok routine x => executeAll observe rest x (observe index routine seen)

/-- The output of an executor that executes nothing more. -/
def finish (x : Executor L Spool) : Except SinkError (List Byte) := x.sink.finish?

end Executor

/-- A failed run, with what was printed before. -/
structure RunFailure where
  error : ExecError
  output : List Byte

/-- The failure of an executor's run. Output that cannot be read back is left out. -/
def Executor.fail {L : Layout} (x : Executor L Spool) (error : ExecError) : RunFailure where
  error
  output := x.finish.toOption.getD []

namespace Executor

variable {L : Layout} {x : Executor L Spool}

theorem finish_of_isOpen (h : x.sink.isOpen = true) : x.finish = .ok x.sink.finish.1 :=
  Spool.finish?_of_isOpen h

theorem fail_of_isOpen (h : x.sink.isOpen = true) (error : ExecError) :
    x.fail error = ⟨error, x.sink.finish.1⟩ := by
  rw [fail, finish_of_isOpen h]
  rfl

end Executor

namespace Program

/-- Runs a program and gives its output, telling `observe` of each statement that succeeds. -/
def runObserved {η : Type} (p : Program) (c : Config) (world : Surroundings)
    (observe : Nat → Routine → η → η) (seen : η) : Except RunFailure (List Byte) × η :=
  match Executor.create c world with
  | .error error => (.error { error, output := [] }, seen)
  | .ok ⟨_, x⟩ =>
    match Executor.executeAll observe p x seen with
    | (some error, x, seen) => (.error (x.fail error), seen)
    | (none, x, seen) =>
      match x.finish with
      | .ok output => (.ok output, seen)
      | .error e => (.error { error := .sink e, output := [] }, seen)

/-- Runs a program and gives its output. -/
def run (p : Program) (c : Config) (world : Surroundings) : Except RunFailure (List Byte) :=
  (runObserved p c world (fun _ _ seen => seen) ()).1

end Program
end Osl
