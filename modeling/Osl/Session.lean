import Osl.Executor
import Osl.Parse.Grammar
import Osl.Parse.Report

/-!
# Sessions

A session takes a source text through parsing and running and tells a handler what happens: that
the source does not parse, which routines ran, and what was printed. `Console` is the handler that
writes to standard output and standard error.
-/

namespace Osl
set_option autoImplicit false

/-- A reaction that may fail, with the reason of the failure. -/
abbrev Reaction (η : Type) := EStateM String η

/-- What is told about a session. -/
class Handler (η : Type) where
  /-- The source does not parse. -/
  parseFailed : (fileName : String) → (source : List Char) → Parse.Failure → Reaction η Unit
  /-- The statement with the given number succeeded. -/
  routine : Nat → Routine → Reaction η Unit
  /-- The program ended after printing the given bytes. -/
  output : List Byte → Reaction η Unit

/-- A source text and what to do with it. -/
structure Session where
  fileName : String
  source : List Char
  config : Config := {}
  world : Surroundings := {}
  /-- Whether to run the program; otherwise it is parsed only. -/
  running : Bool := true

/-- How a session ended. -/
inductive Outcome
  | parsed
  | completed
  | parseFailed
  | runFailed (failure : RunFailure)

namespace Session

variable {η : Type} [Handler η]

/-- Tells the handler of a routine, whose failure to react changes nothing. -/
def observe (i : Nat) (r : Routine) (h : η) : η :=
  match Handler.routine i r h with
  | .ok _ h | .error _ h => h

/-- Parses the source and runs the program. Only a failing reaction to a parse failure or to the
output makes the session itself fail. -/
def run (s : Session) : Reaction η Outcome := do
  match Parse.run s.source with
  | .error e =>
    Handler.parseFailed s.fileName s.source e
    return .parseFailed
  | .ok program =>
    if ! s.running then return .parsed
    let (result, h) := Program.runObserved program s.config s.world observe (← get)
    set h
    match result with
    | .ok output =>
      Handler.output output
      return .completed
    | .error failure =>
      Handler.output failure.output
      return .runFailed failure

end Session

/-- Something written to standard error. -/
inductive Note
  | text (s : String)
  | report (r : Parse.Report)
  deriving DecidableEq

/-- The text of a note. -/
def Note.toText : Note → String
  | .text s => s
  | .report r => r.text

/-- Standard output and standard error. A stream with a defect refuses every write, giving the
defect as the reason; writing nothing always succeeds. -/
structure Console where
  stdout : Array Byte := #[]
  stderr : Array Note := #[]
  /-- Whether to show the routines that ran. -/
  listing : Bool := false
  stdoutDefect : Option String := none
  stderrDefect : Option String := none

namespace Console

/-- Writes to standard error. -/
def note (n : Note) : Reaction Console Unit := do
  let c ← get
  match c.stderrDefect with
  | some reason => throw reason
  | none => set { c with stderr := c.stderr.push n }

/-- Writes to standard output. -/
def print (bs : List Byte) : Reaction Console Unit := do
  let c ← get
  if bs.isEmpty then return
  match c.stdoutDefect with
  | some reason => throw reason
  | none => set { c with stdout := c.stdout ++ bs }

/-- Shows the routine of the statement with the given number, if routines are shown. -/
def showRoutine (i : Nat) (r : Routine) : Reaction Console Unit := do
  if (← get).listing then note (.text (r.listing ("statement " ++ Numeral.decimal i)))

instance : Handler Console where
  parseFailed fileName source e := note (.report (e.report fileName source))
  routine := showRoutine
  output := print

end Console
end Osl
