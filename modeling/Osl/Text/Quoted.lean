import Osl.Text.GraphemeExtend
import Osl.Text.Invisible
import Osl.Text.Numeral

/-!
# Quoted text

Text between double quotes, as messages and listings of a program show it, so that every character
can be told from it. A quote, a backslash and the common control characters have short escapes. Any
other character that a reader would not see, or would see as a part of the one before it, is given
by its code point, and all else stands for itself.
-/

namespace Osl.Quoted
set_option autoImplicit false

/-- Whether a character stands for itself between quotes: it is seen, and seen on its own. From the
blank to the tilde every character is. -/
def isPlain (c : Char) : Bool :=
  if c.toNat < 0x20 then false
  else if c.toNat < 0x7f then true
  else ! GraphemeExtend.isExtending c && ! Invisible.isInvisible c

/-- One character as it stands between the quotes. -/
def escape (c : Char) : List Char :=
  if c = '\x00' then ['\\', '0']
  else if c = '\t' then ['\\', 't']
  else if c = '\n' then ['\\', 'n']
  else if c = '\r' then ['\\', 'r']
  else if c = '"' then ['\\', '"']
  else if c = '\\' then ['\\', '\\']
  else if isPlain c then [c]
  else ['\\', 'u', '\x7b'] ++ Numeral.digits 16 c.toNat ++ ['\x7d']

/-- A text between double quotes. -/
def encode (cs : List Char) : List Char := ['"'] ++ cs.flatMap escape ++ ['"']

/-- A string between double quotes. -/
def quote (s : String) : String := String.ofList (encode s.toList)

end Osl.Quoted
