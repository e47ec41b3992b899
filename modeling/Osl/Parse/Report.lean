import Osl.Parse.Failure
import Osl.Text.Numeral

/-!
# Reports of parse failures

What a user is told about a failure: the file, the line and column, and a message.
-/

namespace Osl.Parse
set_option autoImplicit false

/-- A report of a parse failure. Lines and columns count from one. -/
structure Report where
  header : String
  line : Nat
  column : Nat
  message : String
  deriving DecidableEq

/-- An expectation in a message. -/
def Expected.text : Expected → String
  | some c => String.singleton c
  | none => "end of input"

namespace Failure

/-- The expectations of a failure in order. -/
def expectations (e : Failure) : List String :=
  (e.expected.map Expected.text).mergeSort fun x y => decide (x ≤ y)

/-- What was found where parsing stuck. -/
def foundText (e : Failure) : String :=
  match e.found with
  | some c => "found '" ++ String.singleton c ++ "'"
  | none => "found end of input"

/-- The message of a failure. -/
def message (e : Failure) : String :=
  match e.reason with
  | .custom message => message
  | .unexpected =>
    match e.expectations with
    | [] => e.foundText
    | [x] => e.foundText ++ " but " ++ x ++ " was expected"
    | xs => e.foundText ++ " but one of " ++ String.intercalate ", " xs ++ " was expected"

end Failure

/-- The line and column of the character with the given number. -/
def placeOf (source : List Char) (i : Nat) : Nat × Nat :=
  let before := source.take i
  (before.count '\n' + 1, (before.reverse.takeWhile (· != '\n')).length + 1)

/-- The line and column of a position. The end of the source lies right after its last character,
even if that ends a line. -/
def locate (source : List Char) (pos : Nat) : Nat × Nat :=
  if pos < source.length ∨ pos = 0 then placeOf source pos
  else
    let (line, column) := placeOf source (pos - 1)
    (line, column + 1)

/-- The report of a failure in a file. -/
def Failure.report (e : Failure) (fileName : String) (source : List Char) : Report where
  header := fileName ++ ": cannot parse OSL program"
  line := (locate source e.first).1
  column := (locate source e.first).2
  message := e.message

/-- A report as text. -/
def Report.text (r : Report) : String :=
  "Error: " ++ r.header ++ "\n  at " ++ Numeral.decimal r.line ++ ":" ++ Numeral.decimal r.column ++ ": " ++
    r.message ++ "\n"

end Osl.Parse
