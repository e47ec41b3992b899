import Osl.Text.Numeral

/-!
# Settings files

The part of TOML that a flat file of settings uses: lines `key = value` with bare or quoted keys,
integers and strings as values, comments, and line ends with or without a carriage return. Tables,
dotted keys and every other kind of value are refused, as no setting takes them.
-/

namespace Osl.Toml
set_option autoImplicit false

/-- A value. -/
inductive Value
  | integer (n : Int)
  | string (s : String)
  deriving DecidableEq

/-- A reader takes a value off the front of a text, or refuses the text. -/
abbrev Reader (α : Type) := List Char → Option (α × List Char)

/-- The characters that may stand in comments and in strings: all but control characters, except
that the tab is one of them. -/
def isText (c : Char) : Bool := c == '\t' || (0x20 ≤ c.toNat && c.toNat != 0x7f)

/-- The blanks within a line. -/
def isSpace (c : Char) : Bool := c == ' ' || c == '\t'

/-- The text after leading blanks. -/
def skipSpaces (s : List Char) : List Char := s.dropWhile isSpace

/-- The text after a line end; none if the text does not start with one. -/
def newline? : List Char → Option (List Char)
  | '\n' :: rest | '\r' :: '\n' :: rest => some rest
  | _ => none

/-- The rest of a line that holds nothing but blanks and a comment, its end included. -/
def lineEnd (s : List Char) : Option (List Char) :=
  let rest := match skipSpaces s with
    | '#' :: rest => rest.dropWhile isText
    | rest => rest
  match rest with
  | [] => some []
  | rest => newline? rest

/-- The character with a code point given in hexadecimal. -/
def codePoint? (ds : List Char) : Option Char :=
  let n := Numeral.value 16 ds
  if ds.all (Numeral.isDigit 16) ∧ n.isValidChar then some (Char.ofNat n) else none

/-- The characters that a one-letter escape stands for. -/
def escape? : Char → Option Char
  | 'b' => some '\x08'
  | 't' => some '\t'
  | 'n' => some '\n'
  | 'f' => some '\x0c'
  | 'r' => some '\r'
  | '"' => some '"'
  | '\\' => some '\\'
  | _ => none

/-- An escape after its backslash. -/
def escape : Reader Char
  | 'u' :: rest =>
    if 4 ≤ rest.length then (codePoint? (rest.take 4)).map (·, rest.drop 4) else none
  | 'U' :: rest =>
    if 8 ≤ rest.length then (codePoint? (rest.take 8)).map (·, rest.drop 8) else none
  | c :: rest => (escape? c).map (·, rest)
  | [] => none

/-- The text after leading blanks and line ends. -/
def skipLines : List Char → List Char
  | '\r' :: '\n' :: rest => skipLines rest
  | c :: rest => if isSpace c || c == '\n' then skipLines rest else c :: rest
  | [] => []

/-- The text after a backslash that ends a line, without the white space that follows; none if more
than blanks stands between the backslash and the end of the line. -/
def continuation? (s : List Char) : Option (List Char) :=
  (newline? (skipSpaces s)).map skipLines

/-- The characters of a string on one line up to its closing quote, which is taken off too. Escapes
are read if `escapes` says so. Reading stops after `n` characters. -/
def line (quote : Char) (escapes : Bool) : (n : Nat) → Reader (List Char)
  | 0, _ | _, [] => none
  | n + 1, c :: rest =>
    if c = quote then some ([], rest)
    else if c = '\\' ∧ escapes then do
      let (c, rest) ← escape rest
      let (cs, rest) ← line quote escapes n rest
      return (c :: cs, rest)
    else if isText c then do
      let (cs, rest) ← line quote escapes n rest
      return (c :: cs, rest)
    else none

/-- The characters of a string on several lines up to its three closing quotes, which are taken off
too. Up to two more quotes right before them belong to the string. -/
def lines (quote : Char) (escapes : Bool) : (n : Nat) → Reader (List Char)
  | 0, _ | _, [] => none
  | n + 1, c :: rest =>
    if c = quote then
      let quotes := ((c :: rest).takeWhile (· == quote)).length
      if 3 ≤ quotes then
        if quotes ≤ 5 then some (List.replicate (quotes - 3) quote, (c :: rest).drop quotes)
        else none
      else do
        let (cs, rest) ← lines quote escapes n rest
        return (c :: cs, rest)
    else if c = '\\' ∧ escapes then
      match continuation? rest with
      | some rest => lines quote escapes n rest
      | none => do
        let (c, rest) ← escape rest
        let (cs, rest) ← lines quote escapes n rest
        return (c :: cs, rest)
    else match newline? (c :: rest) with
      | some rest => do
        let (cs, rest) ← lines quote escapes n rest
        return ('\n' :: cs, rest)
      | none =>
        if isText c then do
          let (cs, rest) ← lines quote escapes n rest
          return (c :: cs, rest)
        else none

/-- A string on several lines after its opening quotes; a line end right after them is left out. -/
def block (quote : Char) (escapes : Bool) (s : List Char) : Option (List Char × List Char) :=
  lines quote escapes (s.length + 1) ((newline? s).getD s)

/-- A string of any kind. -/
def string : Reader String
  | '"' :: '"' :: '"' :: rest => (block '"' true rest).map fun (cs, rest) => (.ofList cs, rest)
  | '\'' :: '\'' :: '\'' :: rest =>
    (block '\'' false rest).map fun (cs, rest) => (.ofList cs, rest)
  | '"' :: rest =>
    (line '"' true (rest.length + 1) rest).map fun (cs, rest) => (.ofList cs, rest)
  | '\'' :: rest =>
    (line '\'' false (rest.length + 1) rest).map fun (cs, rest) => (.ofList cs, rest)
  | _ => none

/-- Digits of a base with single underscores between them. -/
def digits? (base : Nat) : List Char → Option (List Char)
  | [] => none
  | [c] => if Numeral.isDigit base c then some [c] else none
  | c :: '_' :: rest =>
    if Numeral.isDigit base c then (digits? base rest).map (c :: ·) else none
  | c :: rest => if Numeral.isDigit base c then (digits? base rest).map (c :: ·) else none

/-- A number in decimal, without leading zeros. -/
def decimal? (cs : List Char) : Option Nat := do
  let ds ← digits? 10 cs
  if ds.head? = some '0' ∧ 1 < ds.length then none
  return Numeral.value 10 ds

/-- The integer that a word spells; it must be a signed number of 64 bits. -/
def integer? (cs : List Char) : Option Int := do
  let n : Int ← match cs with
    | '+' :: ds => (decimal? ds).map Int.ofNat
    | '-' :: ds => (decimal? ds).map fun n => - Int.ofNat n
    | '0' :: 'x' :: ds => (digits? 16 ds).map (Int.ofNat <| Numeral.value 16 ·)
    | '0' :: 'o' :: ds => (digits? 8 ds).map (Int.ofNat <| Numeral.value 8 ·)
    | '0' :: 'b' :: ds => (digits? 2 ds).map (Int.ofNat <| Numeral.value 2 ·)
    | ds => (decimal? ds).map Int.ofNat
  if -0x8000000000000000 ≤ n ∧ n < 0x8000000000000000 then return n else none

/-- The characters that can belong to a number. -/
def isNumberPart (c : Char) : Bool := c.isAlphanum || c == '_' || c == '+' || c == '-'

/-- A value. -/
def value (s : List Char) : Option (Value × List Char) :=
  match string s with
  | some (x, rest) => some (.string x, rest)
  | none => do
    let n ← integer? (s.takeWhile isNumberPart)
    return (.integer n, s.dropWhile isNumberPart)

/-- The characters of bare keys. -/
def isKeyPart (c : Char) : Bool := c.isAlphanum || c == '_' || c == '-'

/-- A key. -/
def key (s : List Char) : Option (String × List Char) :=
  match s with
  | '"' :: _ | '\'' :: _ => if s.take 3 = ['"', '"', '"'] ∨ s.take 3 = ['\'', '\'', '\''] then none
    else string s
  | _ =>
    let cs := s.takeWhile isKeyPart
    if cs.isEmpty then none else some (.ofList cs, s.dropWhile isKeyPart)

/-- The settings of a text of at most `n` lines, in order. -/
def settingsFor : (n : Nat) → List Char → Option (List (String × Value))
  | 0, _ => none
  | n + 1, s =>
    if s.isEmpty then some []
    else match lineEnd s with
      | some rest => settingsFor n rest
      | none => do
        let (k, rest) ← key (skipSpaces s)
        match skipSpaces rest with
        | '=' :: rest =>
          let (v, rest) ← value (skipSpaces rest)
          let settings ← settingsFor n (← lineEnd rest)
          return (k, v) :: settings
        | _ => none

/-- The mark that may stand at the start of a text. -/
def byteOrderMark : Char := '\ufeff'

/-- The settings of a text, in order. -/
def settings (s : List Char) : Option (List (String × Value)) :=
  let s := if s.head? = some byteOrderMark then s.drop 1 else s
  settingsFor (s.length + 1) s

end Osl.Toml
