import Osl.Parse.Combinator
import Osl.Syntax.Basic
import Osl.Text.Numeral

/-!
# The grammar

    program    = statement*
    statement  = "print_log" ";" | "print" name ";" | "del" name ";" | name "=" expression ";"
    expression = product (("+" | "-") product)*
    product    = unary ("*" unary)*
    unary      = "-" unary | atom
    atom       = integer | string | name | "(" expression ")"

White space may stand between any two tokens. Operators group from the left, `*` binds tighter than
`+` and `-`, and a sign tighter than `*`.
-/

namespace Osl.Parse
set_option autoImplicit false

/-- The letters and the underscore, which start a name. -/
def isNameStart (c : Char) : Bool := c.isAlpha || c == '_'

/-- The characters that go on with a name. -/
def isNamePart (c : Char) : Bool := c.isAlphanum || c == '_'

/-- A name: as many characters as can belong to it. -/
def name : Parser String :=
  map (fun (c, cs) => String.ofList (c :: cs))
    (both (satisfy isNameStart) (many (satisfy isNamePart)))

/-- A name that is the given word. -/
def keyword (word : String) : Parser Unit :=
  refine (fun found => if found = word then .ok () else .error .unexpected) name

/-- The digits of an integer, without leading zeros. -/
def digits : Parser (List Char) :=
  orElse
    (map (fun (c, cs) => c :: cs)
      (both (satisfy fun c => c.isDigit && c != '0') (many (satisfy Char.isDigit))))
    (map (fun c => [c]) (just '0'))

/-- Why an integer is refused. -/
def tooLarge : Reason := .custom "bad integer literal: number too large to fit in target type"

/-- An integer that fits into a word. -/
def integer : Parser Expr :=
  refine (fun ds =>
    let n := Numeral.value 10 ds
    if n < UInt64.size then .ok (.int (.ofNat n)) else .error tooLarge) digits

/-- A digit of a byte given in hexadecimal. -/
def hexDigit : Parser Nat :=
  map (fun c => (Numeral.digitValue? c).getD 0) (satisfy (Numeral.isDigit 16))

/-- What follows the backslash of an escape, and the bytes it stands for. -/
def escaped : Parser (List Byte) :=
  choice [
    map (fun _ => [0x5c]) (just '\\'),
    map (fun _ => [0x22]) (just '"'),
    map (fun _ => [0x0a]) (just 'n'),
    map (fun _ => [0x09]) (just 't'),
    map (fun _ => [0x0d]) (just 'r'),
    map (fun _ => [0x00]) (just '0'),
    right (just 'x') (map (fun (high, low) => [.ofNat (high * 16 + low)]) (both hexDigit hexDigit))]

/-- A character of a string that stands for itself, in UTF-8. -/
def plain : Parser (List Byte) :=
  map String.utf8EncodeChar (satisfy fun c => c != '"' && c != '\\')

/-- The content of a string between its quotes. -/
def content : Parser (List Byte) :=
  map List.flatten (many (orElse (right (just '\\') escaped) plain))

/-- A string. -/
def string : Parser Expr :=
  map .str (labelled "string literal" (between '"' '"' content))

/-- An operand, given how an expression in parentheses is read. -/
def atom (inner : Parser Expr) : Parser Expr :=
  padded (orElse (choice [integer, string, map .var name]) (between '(' ')' inner))

/-- An operand with at most as many signs before it as `budget` has elements. -/
def unary (operand : Parser Expr) : (budget : List Char) → Parser Expr
  | [], s => operand s
  | _ :: budget, s => orElse (map .neg (right (padded (just '-')) (unary operand budget))) operand s

/-- An operand with any number of signs before it; every sign takes a character. -/
def signed (operand : Parser Expr) : Parser Expr := fun s => unary operand s.budget s

/-- Factors combined from the left. -/
def product (factor : Parser Expr) : Parser Expr :=
  chain (.arith .mul) factor (right (padded (just '*')) factor)

/-- The operators of a sum. -/
def sumOperator : Parser Arith :=
  map (fun c => if c = '+' then .add else .sub) (orElse (just '+') (just '-'))

/-- Terms combined from the left. -/
def sum (term : Parser Expr) : Parser Expr :=
  chain (fun l (op, r) => .arith op l r) term (both (padded sumOperator) term)

/-- An expression with fewer pairs of parentheses around any of its parts than `budget` has
elements. -/
def nested : (budget : List Char) → Parser Expr
  | [], s => .failed (s.unexpected [])
  | _ :: budget, s => sum (product (signed (atom (nested budget)))) s

/-- An expression. Every pair of parentheses takes a character, so no more of them can be open
than characters are left. -/
def expression : Parser Expr := fun s => nested s.budget s

/-- A statement without its semicolon. -/
def simple : Parser Statement :=
  choice [
    map (fun _ => .printLog) (padded (keyword "print_log")),
    map .print (right (padded (keyword "print")) (padded name)),
    map .delete (right (padded (keyword "del")) (padded name)),
    map (fun (target, e) => .assign target e) (both (left (padded name) (padded (just '='))) expression)]

/-- A statement. -/
def statement : Parser Statement := left simple (padded (just ';'))

/-- A program. -/
def program : Parser Program := left (padded (many statement)) endOfSource

/-- The program that a source text spells, or why it spells none. -/
def run (source : List Char) : Except Failure Program :=
  match program ⟨0, source⟩ with
  | .ok p _ _ => .ok p
  | .failed e => .error e

end Osl.Parse
