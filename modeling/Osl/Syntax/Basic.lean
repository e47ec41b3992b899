import Osl.Word

/-!
# Programs

A program is a list of statements. A statement assigns the value of an expression to a variable,
prints or deletes one, or prints the log. A value is a word or a byte string, and variables have
no declared type.
-/

namespace Osl
set_option autoImplicit false

/-- The arithmetic operators; all wrap at the word size. -/
inductive Arith
  | add
  | sub
  | mul
  deriving DecidableEq

/-- What an operator does to two words. -/
def Arith.apply : Arith → Word → Word → Word
  | .add, l, r => l + r
  | .sub, l, r => l - r
  | .mul, l, r => l * r

/-- How an operator is written. -/
def Arith.symbol : Arith → Char
  | .add => '+'
  | .sub => '-'
  | .mul => '*'

/-- Expressions. The content of a string is bytes, not characters. -/
inductive Expr
  | int (n : Word)
  | str (content : List Byte)
  | var (name : String)
  | arith (op : Arith) (l r : Expr)
  | neg (e : Expr)
  deriving DecidableEq

/-- Statements. -/
inductive Statement
  | assign (target : String) (e : Expr)
  | print (name : String)
  | delete (name : String)
  | printLog
  deriving DecidableEq

/-- A program runs its statements in order. -/
abbrev Program := List Statement

/-- The names that occur in an expression. -/
def Expr.names : Expr → List String
  | .int _ | .str _ => []
  | .var name => [name]
  | .arith _ l r => l.names ++ r.names
  | .neg e => e.names

/-- The names that occur in a statement. -/
def Statement.names : Statement → List String
  | .assign target e => target :: e.names
  | .print name | .delete name => [name]
  | .printLog => []

end Osl
