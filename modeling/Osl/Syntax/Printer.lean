import Osl.Syntax.Basic
import Osl.Text.Quoted
import Osl.Text.Utf8

/-!
# Source text of programs

The canonical text of statements: every operation in parentheses, one blank around an operator
with two operands, strings quoted.
-/

namespace Osl
set_option autoImplicit false

/-- The text of an expression. -/
def Expr.source : Expr → List Char
  | .int n => Numeral.digits 10 n.toNat
  | .str content => Quoted.encode (Utf8.lossy content)
  | .var name => name.toList
  | .arith op l r => ['('] ++ l.source ++ [' ', op.symbol, ' '] ++ r.source ++ [')']
  | .neg e => ['(', '-'] ++ e.source ++ [')']

/-- The text of a statement, its semicolon included. -/
def Statement.source : Statement → List Char
  | .assign target e => target.toList ++ [' ', '=', ' '] ++ e.source ++ [';']
  | .print name => "print ".toList ++ name.toList ++ [';']
  | .delete name => "del ".toList ++ name.toList ++ [';']
  | .printLog => "print_log;".toList

/-- The text of a statement as a string. -/
def Statement.text (s : Statement) : String := String.ofList s.source

end Osl
