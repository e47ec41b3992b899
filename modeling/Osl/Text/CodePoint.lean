/-!
# Ranges of code points

Properties of characters are given as tables of ranges, lowest first.
-/

namespace Osl.CodePoint
set_option autoImplicit false

/-- A table of ranges of code points, the ends of each included. -/
abbrev Ranges := List (Nat × Nat)

/-- Whether a character lies in one of the ranges. -/
def Ranges.holds (rs : Ranges) (c : Char) : Bool :=
  rs.any fun (low, high) => low ≤ c.toNat && c.toNat ≤ high

/-- A character lies in a table exactly if it lies in one of its ranges. -/
theorem Ranges.holds_iff {rs : Ranges} {c : Char} :
    rs.holds c = true ↔ ∃ r ∈ rs, r.1 ≤ c.toNat ∧ c.toNat ≤ r.2 := by
  simp [holds]

end Osl.CodePoint
