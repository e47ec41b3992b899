import Osl.CommandLine

/-!
# The program

Reads the files that the command line names, makes the call and writes what it wrote.
-/

namespace Osl
set_option autoImplicit false

/-- The bytes of a file, or why they cannot be read. -/
def readFile (path : String) : IO (Except String (List Byte)) := do
  try
    return .ok (← IO.FS.readBinFile path).toList
  catch
    | .noFileOrDirectory .. => return .error CommandLine.notFound
    | e => return .error (toString e)

/-- The log at a path. -/
def readLog (path : String) : IO Log := do
  match ← readFile path with
  | .ok content => return .file content
  | .error reason => return if reason = CommandLine.notFound then .missing else .unreadable

/-- Whether there is a directory at a path. -/
def isDirectory (path : String) : IO Bool := do
  try (← IO.FS.realPath path).isDir
  catch _ => return false

/-- Makes the call that arguments spell. -/
def execute (args : List String) : IO UInt32 := do
  let some call := CommandLine.Call.ofArgs? args
    | IO.eprintln "usage: oslexec [--config FILE] [--dump-routines] OSL_FILE LOG_FILE"
      return 2
  let config ← match call.config with
    | some path => readFile path
    | none => pure (.error CommandLine.notFound)
  let files : CommandLine.Files :=
    { source := ← readFile call.source, config, log := ← readLog call.log }
  let directory := (call.configuration files).toOption.bind (·.sinkDir)
  let present ← directory.mapM isDirectory
  let (code, console) := call.run files fun _ => present.getD true
  (← IO.getStdout).write ⟨console.stdout⟩
  for note in console.stderr do
    IO.eprint note.toText
  return code.toUInt32

end Osl

/-- Makes the call that arguments spell. -/
def main (args : List String) : IO UInt32 := Osl.execute args
