import Osl.Parse.Failure
import Osl.Text.Blank

/-!
# Parsers

A parser reads a prefix of the source that is left. It succeeds with a value and the source after
it, or fails. A success may carry along the furthest failure met on the way, so that a later
failure at the same place can name everything that would have been accepted there.
-/

namespace Osl.Parse
set_option autoImplicit false

/-- A place in the source: how many characters lie before it, and those that follow. -/
structure Cursor where
  pos : Nat
  rest : List Char
  deriving DecidableEq

/-- The end of a parse. -/
inductive Result (α : Type)
  | ok (value : α) (next : Cursor) (missed : Option Failure)
  | failed (e : Failure)

/-- A parser for values of a type. -/
abbrev Parser (α : Type) := Cursor → Result α

variable {α β γ : Type}

/-- The failure of expecting something else than what follows. -/
def Cursor.unexpected (s : Cursor) (expected : List Expected) : Failure :=
  match s.rest with
  | [] => { pos := s.pos, first := s.pos, last := s.pos, expected }
  | c :: _ => { pos := s.pos, first := s.pos, last := s.pos + 1, found := some c, expected }

/-- One character that passes a test; `expected` is what a failure says. -/
def charWhere (test : Char → Bool) (expected : List Expected) : Parser Char := fun s =>
  match s.rest with
  | c :: rest => if test c then .ok c ⟨s.pos + 1, rest⟩ none else .failed (s.unexpected expected)
  | [] => .failed (s.unexpected expected)

/-- One character of a class that failures do not name. -/
def satisfy (test : Char → Bool) : Parser Char := charWhere test []

/-- The given character. -/
def just (c : Char) : Parser Char := charWhere (· == c) [some c]

/-- The end of the source. -/
def endOfSource : Parser Unit := fun s =>
  match s.rest with
  | [] => .ok () s none
  | _ :: _ => .failed (s.unexpected [none])

/-- Applies a function to the value. -/
def map (f : α → β) (p : Parser α) : Parser β := fun s =>
  match p s with
  | .ok a next missed => .ok (f a) next missed
  | .failed e => .failed e

/-- One parser after another. -/
def both (p : Parser α) (q : Parser β) : Parser (α × β) := fun s =>
  match p s with
  | .failed e => .failed e
  | .ok a next missed =>
    match q next with
    | .failed e => .failed (e.furthest missed)
    | .ok b next missed' => .ok (a, b) next (Failure.later missed missed')

/-- One parser after another, keeping the second value. -/
def right (p : Parser α) (q : Parser β) : Parser β := map Prod.snd (both p q)

/-- One parser after another, keeping the first value. -/
def left (p : Parser α) (q : Parser β) : Parser α := map Prod.fst (both p q)

/-- A parser between two characters. -/
def between (opening closing : Char) (p : Parser α) : Parser α :=
  left (right (just opening) p) (just closing)

/-- The second parser where the first one fails. -/
def orElse (p q : Parser α) : Parser α := fun s =>
  match p s with
  | .ok a next missed => .ok a next missed
  | .failed e =>
    match q s with
    | .ok a next missed => .ok a next (Failure.later missed (some e))
    | .failed f => .failed (e.furthest (some f))

/-- The first of several parsers that succeeds, after `failed` is known from others. -/
def choiceAfter (failed : Option Failure) : List (Parser α) → Parser α
  | [], s => .failed (failed.getD (s.unexpected []))
  | p :: ps, s =>
    match p s with
    | .ok a next missed => .ok a next missed
    | .failed e => choiceAfter (Failure.later failed (some e)) ps s

/-- The first of several parsers that succeeds; what failed before it is forgotten. -/
def choice (ps : List (Parser α)) : Parser α := choiceAfter none ps

/-- One element more than characters are left: a bound for what takes a character each time. -/
def Cursor.budget (s : Cursor) : List Char := ' ' :: s.rest

/-- A parser again and again, at most as often as `budget` has elements, while `missed` is known
from before. -/
def manyWithin (p : Parser α) : (budget : List Char) → (missed : Option Failure) → Cursor →
    List α × Cursor × Option Failure
  | [], missed, s => ([], s, missed)
  | _ :: budget, missed, s =>
    match p s with
    | .failed e => ([], s, Failure.later missed (some e))
    | .ok a next missed' =>
      let (as, last, missed) := manyWithin p budget (Failure.later missed missed') next
      (a :: as, last, missed)

/-- A parser again and again until it fails. As every success takes a character at least, the budget
suffices. -/
def many (p : Parser α) : Parser (List α) := fun s =>
  let (as, next, missed) := manyWithin p s.budget none s
  .ok as next missed

/-- Refuses values that do not convert; the whole stretch read is to blame. -/
def refine (f : α → Except Reason β) (p : Parser α) : Parser β := fun s =>
  match p s with
  | .failed e => .failed e
  | .ok a next missed =>
    match f a with
    | .ok b => .ok b next missed
    | .error reason => .failed { pos := next.pos, first := s.pos, last := next.pos, reason }

/-- The source after leading white space. -/
def Cursor.skipBlanks (s : Cursor) : Cursor :=
  let blanks := s.rest.takeWhile Blank.isBlank
  ⟨s.pos + blanks.length, s.rest.drop blanks.length⟩

/-- A parser with white space around it. -/
def padded (p : Parser α) : Parser α := fun s =>
  match p s.skipBlanks with
  | .failed e => .failed e
  | .ok a next missed => .ok a next.skipBlanks missed

/-- Labels the failures of a parser. -/
def labelled (label : String) (p : Parser α) : Parser α := fun s =>
  match p s with
  | .failed e => .failed (e.labelled label)
  | r => r

/-- A first operand and the operands that follow it, combined from the left. -/
def chain (f : α → β → α) (p : Parser α) (q : Parser β) : Parser α :=
  map (fun (a, bs) => bs.foldl f a) (both p (many q))

end Osl.Parse
