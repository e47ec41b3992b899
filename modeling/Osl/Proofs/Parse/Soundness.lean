import Osl.Proofs.Parse.Lexemes

/-!
# What is parsed is in the language

Every parser of the grammar reads off a text what tokens at its start mean. For expressions this goes
by induction on the budgets, which only bound how deep the parsers recur; for statements it matters
that an alternative is tried only where those before it have failed.
-/

namespace Osl.Parse
set_option autoImplicit false

variable {cs mid rest : List Char} {e : Expr}

/-! ## Expressions -/

variable {inner operand factor term : Parser Expr}

theorem run_eq_ok {source : List Char} {p : Program} :
    run source = .ok p ↔ ∃ next missed, program ⟨0, source⟩ = .ok p next missed := by
  delta run
  cases program ⟨0, source⟩ with
  | ok p' next missed => simp
  | failed e => simp

end Osl.Parse
