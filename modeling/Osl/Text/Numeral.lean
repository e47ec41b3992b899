import Osl.Word

/-!
# Numerals

The ways a number is written: decimal, decimal filled up with zeros, and hexadecimal with the sign
`0x`. `value?` reads the digits of any base back.
-/

namespace Osl.Numeral
set_option autoImplicit false

/-- The digits of a number in a base, highest first; zero has one digit. -/
def digits (base n : Nat) : List Char := Nat.toDigits base n

/-- A number in decimal. -/
def decimal (n : Nat) : String := String.ofList (digits 10 n)

/-- A number in decimal, as the bytes a program prints. -/
def decimalBytes (n : Nat) : List Byte := (digits 10 n).map (·.toUInt8)

/-- Text filled up with `fill` on the left to at least `width` characters. -/
def padLeft (width : Nat) (fill : Char) (cs : List Char) : List Char :=
  List.replicate (width - cs.length) fill ++ cs

/-- Text filled up with blanks on the right to at least `width` characters. -/
def padRight (width : Nat) (cs : List Char) : List Char :=
  cs ++ List.replicate (width - cs.length) ' '

/-- A number in decimal with at least `width` digits. -/
def decimalPadded (width n : Nat) : String := String.ofList (padLeft width '0' (digits 10 n))

/-- A number in hexadecimal with at least `width` digits, after `0x`. -/
def hexPadded (width n : Nat) : String :=
  "0x" ++ String.ofList (padLeft width '0' (digits 16 n))

/-- A number in hexadecimal, after `0x`. -/
def hex (n : Nat) : String := hexPadded 1 n

/-- The value of a digit of any base up to sixteen. -/
def digitValue? (c : Char) : Option Nat :=
  if '0' ≤ c ∧ c ≤ '9' then some (c.toNat - '0'.toNat)
  else if 'a' ≤ c ∧ c ≤ 'f' then some (c.toNat - 'a'.toNat + 10)
  else if 'A' ≤ c ∧ c ≤ 'F' then some (c.toNat - 'A'.toNat + 10)
  else none

/-- Whether a character is a digit of the base. -/
def isDigit (base : Nat) (c : Char) : Bool := (digitValue? c).any (· < base)

/-- The number that digits spell in a base, a character that is no digit counting as zero. -/
def value (base : Nat) (cs : List Char) : Nat :=
  cs.foldl (fun n c => n * base + (digitValue? c).getD 0) 0

end Osl.Numeral
