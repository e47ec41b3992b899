/-!
# Parse failures

A failure says at which position parsing stuck, which stretch of the source is to blame, what was
found there and what would have been accepted. When alternatives fail at different positions the
furthest failure wins; at the same position their expectations are united.
-/

namespace Osl.Parse
set_option autoImplicit false

/-- Why parsing stuck. -/
inductive Reason
  | unexpected
  | custom (message : String)
  deriving DecidableEq

/-- What would have been accepted: a character, or the end of the source. -/
abbrev Expected := Option Char

/-- A parse failure. Positions count characters, and the span ends before `last`. -/
structure Failure where
  pos : Nat
  first : Nat
  last : Nat
  reason : Reason := .unexpected
  found : Option Char := none
  expected : List Expected := []
  label : Option String := none
  deriving DecidableEq

namespace Failure

/-- The failure with the expectations of another one added. -/
def merge (e f : Failure) : Failure :=
  { e with expected := e.expected ++ f.expected.filter fun x => x ∉ e.expected }

/-- The failure that got further; expectations at the same position are united. -/
def furthest (e : Failure) : Option Failure → Failure
  | none => e
  | some f => if e.pos < f.pos then f else if f.pos < e.pos then e else e.merge f

/-- Of two failures that may be absent the one that got further, the second one leading. -/
def later : Option Failure → Option Failure → Option Failure
  | e, none => e
  | none, some f => some f
  | some e, some f => some (f.furthest (some e))

/-- The failure with a label, unless it has one. -/
def labelled (e : Failure) (label : String) : Failure := { e with label := e.label <|> some label }

end Failure
end Osl.Parse
