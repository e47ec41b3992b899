import Osl.Config.Load
import Osl.Session

/-!
# The command line

What a call of the program does, given the contents of the files it names: the configuration is
read first, then the source, and then a session runs whose reports go to the console. The exit code
is 0 after success, 2 if the program failed while running, and 1 after any other error.
-/

namespace Osl.CommandLine
set_option autoImplicit false

/-- What a call asks for. -/
structure Call where
  source : String
  log : String
  config : Option String := none
  /-- Whether to show the routines that ran. -/
  listing : Bool := false
  deriving DecidableEq

/-- The path that an argument gives together with the option `--config`. -/
def configPath? (arg : String) : Option String :=
  if "--config=".toList.isPrefixOf arg.toList then
    some (.ofList (arg.toList.drop "--config=".length))
  else none

/-- The call with a configuration named, unless one was named before. -/
def Call.withConfig? (c : Call) (path : String) : Option Call :=
  if c.config.isSome then none else some { c with config := some path }

/-- The call that arguments spell: a source file, a log file and options in any order. `files`
holds the files named so far, the last one first. -/
def Call.ofArgs? (args : List String) (c : Call := { source := "", log := "" })
    (files : List String := []) : Option Call :=
  match args with
  | [] =>
    match files with
    | [log, source] => some { c with source, log }
    | _ => none
  | "--config" :: path :: rest => do Call.ofArgs? rest (← c.withConfig? path) files
  | "--dump-routines" :: rest =>
    if c.listing then none else Call.ofArgs? rest { c with listing := true } files
  | arg :: rest =>
    match configPath? arg with
    | some path => do Call.ofArgs? rest (← c.withConfig? path) files
    | none =>
      if arg.startsWith "-" && arg != "-" then none else Call.ofArgs? rest c (arg :: files)

/-- The files that a call names: their bytes, or why they cannot be read. -/
structure Files where
  source : Except String (List Byte)
  config : Except String (List Byte)
  log : Log

/-- Why a file that is not there cannot be read. -/
def notFound : String := "No such file or directory (os error 2)"

/-- A line that reports an error. -/
def errorLine (text : String) : Note := .text ("error: " ++ text ++ "\n")

/-- The console after an error that no session reported. -/
def refused (text : String) : Nat × Console := (1, { stderr := #[errorLine text] })

/-- The configuration that a call names; the default one if it names none. -/
def Call.configuration (c : Call) (files : Files) : Except Config.LoadError Config :=
  match c.config with
  | none => .ok {}
  | some path => Config.load path files.config

/-- What a call does: its exit code and what it wrote. -/
def Call.run (c : Call) (files : Files) (hasDirectory : String → Bool) : Nat × Console :=
  match c.configuration files with
  | .error e => refused e.message
  | .ok config =>
    match Config.textOf files.source with
    | .error reason => refused ("cannot read " ++ c.source ++ ": " ++ reason)
    | .ok source =>
      let session : Session :=
        { fileName := c.source, source, config, world := { log := files.log, hasDirectory } }
      match session.run { listing := c.listing : Console } with
      | .ok .completed console | .ok .parsed console => (0, console)
      | .ok .parseFailed console => (1, console)
      | .ok (.runFailed failure) console =>
        (2, { console with stderr := console.stderr.push (errorLine failure.error.message) })
      | .error reason console =>
        (1, { console with stderr := console.stderr.push (errorLine reason) })

end Osl.CommandLine
