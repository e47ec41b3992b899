import Osl.Config.Basic
import Osl.Config.Toml
import Osl.Text.Utf8

/-!
# Reading configurations

A configuration is read from a settings file. Settings that are left out keep their defaults;
unknown or repeated settings and values of the wrong kind are refused, and so is a configuration
that asks for no sound arena.
-/

namespace Osl.Config
set_option autoImplicit false

/-- Why no configuration could be read. -/
inductive LoadError
  | unreadable (path reason : String)
  | malformed
  | invalid (flaw : Flaw)
  deriving DecidableEq

/-- The text of a load error. -/
def LoadError.message : LoadError → String
  | .unreadable path reason => "cannot read config file " ++ path ++ ": " ++ reason
  | .malformed => "malformed config: not a list of known settings"
  | .invalid flaw => "invalid config: " ++ flaw.message

/-- The word that a value stands for. -/
def word? : Toml.Value → Option Word
  | .integer n => if 0 ≤ n then some (.ofNat n.toNat) else none
  | .string _ => none

/-- The string that a value stands for. -/
def string? : Toml.Value → Option String
  | .string s => some s
  | .integer _ => none

/-- The configuration with one setting changed. -/
def set? (c : Config) (key : String) (v : Toml.Value) : Option Config :=
  if key = "base_address" then return { c with base := ← word? v }
  else if key = Section.data.setting then return { c with data := ← word? v }
  else if key = Section.stack.setting then return { c with stack := ← word? v }
  else if key = Section.code.setting then return { c with code := ← word? v }
  else if key = Section.literal.setting then return { c with literal := ← word? v }
  else if key = "sink_dir" then return { c with sinkDir := some (← string? v) }
  else none

/-- The configuration with all settings changed; a repeated one is refused. -/
def setAll? (c : Config) : List (String × Toml.Value) → Option Config
  | [] => some c
  | (key, v) :: rest => do
    if rest.any (·.1 == key) then none
    setAll? (← c.set? key v) rest

/-- The configuration that the text of a settings file gives. -/
def ofText (s : List Char) : Except LoadError Config :=
  match Toml.settings s >>= setAll? {} with
  | none => .error .malformed
  | some c =>
    match c.layout with
    | .error flaw => .error (.invalid flaw)
    | .ok _ => .ok c

/-- Why bytes are no text. -/
def notText : String := "stream did not contain valid UTF-8"

/-- The text of a file, given its bytes or why they could not be read. -/
def textOf (file : Except String (List Byte)) : Except String (List Char) := do
  match Utf8.decode? (← file) with
  | some s => return s
  | none => throw notText

/-- The configuration that a file gives. -/
def load (path : String) (file : Except String (List Byte)) : Except LoadError Config :=
  match textOf file with
  | .error reason => .error (.unreadable path reason)
  | .ok s => ofText s

end Osl.Config
