import Osl.Layout
import Osl.Word

/-!
# Cells

A variable lives in a cell of the data section. A cell has no tag of its own: its first two words
say what it holds. An integer cell is `{value, 0}`, 16 bytes; a string cell is
`{address, length, first sixteen bytes}`, 32 bytes. Two readings of those words are in use. `Tag`
decides what a load, a store or a print does and looks at the second word only; `Shape` decides
whether a window of the data section is free and looks at both.
-/

namespace Osl
set_option autoImplicit false

/-- The first word of a window that never held a value: neither a small integer, nor negative. -/
def freeSentinel : Word := 0x7fffffffffffffff

/-- What a window of the data section looks like. -/
inductive Shape
  | integer
  | string
  | free
  deriving DecidableEq

/-- The shape of a window with the given first two words. A large positive integer looks free. -/
def Shape.classify (first second : Word) : Shape :=
  if second = 0 ∧ (first.toNat < addressThreshold ∨ Word.isNegative first) then .integer
  else if addressThreshold < first.toNat ∧ second ≠ 0 then .string
  else .free

/-- The number of bytes that a window of this shape takes up. -/
def Shape.span : Shape → Nat
  | .string => 32
  | .integer | .free => 16

/-- What a cell holds, judged from its second word. -/
inductive Tag
  | integer
  | string (length : Word)
  deriving DecidableEq

/-- The tag that a second word stands for. -/
def Tag.of (second : Word) : Tag := if second = 0 then .integer else .string second

/-- The longest string whose content fits into its cell. -/
def inlineCapacity : Nat := 16

/-- The four words of a string cell. -/
structure Header where
  address : Word
  length : Word
  low : Word
  high : Word
  deriving DecidableEq

/-- The header of a string whose content lies at `address`. Its first sixteen bytes are repeated
in the header, filled up with zeros. -/
def Header.of (address : Word) (content : List Byte) : Header where
  address
  length := .ofNat content.length
  low := Word.ofBytes (content.take 8)
  high := Word.ofBytes ((content.take inlineCapacity).drop 8)

/-- The words in the order of their addresses. -/
def Header.words (h : Header) : List Word := [h.address, h.length, h.low, h.high]

/-- A value as it is seen from outside the arena. -/
inductive Value
  | integer (n : Word)
  | string (content : List Byte)
  deriving DecidableEq

theorem Tag.of_zero : Tag.of 0 = .integer := rfl

theorem Tag.of_ne_zero {w : Word} (h : w ≠ 0) : Tag.of w = .string w := if_neg h

/-- A large word in front of anything but zero is taken for the address of a string. -/
theorem Shape.classify_of_ne_zero {first second : Word} (high : addressThreshold < first.toNat)
    (nonzero : second ≠ 0) : classify first second = .string := by
  rw [classify, if_neg (fun both => nonzero both.1), if_pos ⟨high, nonzero⟩]

/-- A large word without a sign in front of zero is taken for nothing. -/
theorem Shape.classify_zero {first : Word} (high : addressThreshold ≤ first.toNat)
    (plain : first.toNat < 0x8000000000000000) : classify first 0 = .free := by
  rw [classify, if_neg, if_neg]
  · exact fun both => both.2 rfl
  · rw [Word.isNegative_iff]
    omega

theorem Shape.classify_freeSentinel : Shape.classify freeSentinel 0 = .free := by decide

end Osl
