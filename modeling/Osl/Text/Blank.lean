import Osl.Text.CodePoint

/-!
# White space

The characters that may stand between tokens: those with the Unicode property `White_Space`.
-/

namespace Osl.Blank
set_option autoImplicit false

/-- The ranges of code points with the property `White_Space`, ends included. -/
def ranges : CodePoint.Ranges :=
  [(0x09, 0x0d), (0x20, 0x20), (0x85, 0x85), (0xa0, 0xa0), (0x1680, 0x1680), (0x2000, 0x200a),
    (0x2028, 0x2029), (0x202f, 0x202f), (0x205f, 0x205f), (0x3000, 0x3000)]

/-- Whether a character is white space. -/
def isBlank (c : Char) : Bool := ranges.holds c

theorem isBlank_of_isWhitespace {c : Char} (h : c.isWhitespace = true) : isBlank c = true := by
  simp only [Char.isWhitespace, Bool.or_eq_true, decide_eq_true_eq] at h
  rcases h with ((h | h) | h) | h <;> subst h <;> decide

end Osl.Blank
