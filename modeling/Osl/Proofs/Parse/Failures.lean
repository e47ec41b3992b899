import Osl.Proofs.Parse.Blame
import Osl.Proofs.Parse.Lexemes
import Osl.Proofs.Session.Calls

/-!
# Parse failures point into the source

Every parser of the grammar tells only of failures that are about a place in the source. Keywords and
integers are the parsers that blame a longer stretch, and they are tried only where no name goes on: a
keyword at the start of a statement, an integer at the start of an operand. So the stretch is a whole name
or a whole number. Expressions go by induction on the budgets; a budget that is used up is a failure at the
cursor like any other.
-/

namespace Osl
set_option autoImplicit false

namespace Parse

variable {source : List Char} {p q : Spot}

/-! ## Tokens -/

theorem points_name : Points source p .anywhere name :=
  (points_satisfy.both points_satisfy.many).map _

/-- A name that is not the word wanted is blamed as a whole. -/
theorem points_keyword (word : String) : Points source .fresh .anywhere (keyword word) := by
  apply points_name.refine
  intro s next n missed reason start stop read refused
  have plain : reason = .unexpected := by
    split at refused
    · cases refused
    · cases refused
      rfl
  obtain ⟨body, split, spells, ends⟩ := lexeme_of_name ⟨s.pos, next.pos, missed, read⟩
  have place := start.pos_eq stop split
  obtain ⟨before, fresh, whole, pos⟩ := start
  cases spells with
  | @name c cs first part =>
    have parts : ∀ d ∈ c :: cs, isNamePart d = true := by
      intro d member
      rcases List.mem_cons.1 member with rfl | later
      · exact isNamePart_of_isNameStart first
      · exact part d later
    rw [plain]
    apply Blame.name first
    refine ⟨before, next.rest, ?_, pos, ?_, parts, fresh, ends⟩
    · rw [whole, split]
    · rw [place, pos]

theorem points_digits : Points source p .anywhere digits := by
  apply Points.orElse
  · exact (points_satisfy.both points_satisfy.many).map _
  · exact points_just.map _

/-- The digits of a number that is not zero are read as far as they go. -/
theorem stops_of_digits {c : Char} {cs more rest : List Char} (nonzero : c ≠ '0')
    (h : MayRead digits cs (c :: more) rest) : Stops Char.isDigit rest := by
  obtain ⟨d, ds, same, split, digit, -, -⟩ := digits_of_mayRead h
  cases same
  subst split
  obtain ⟨-, last⟩ := h.unique (reads_digits digit nonzero (more ++ rest))
  rw [last]
  exact stops_dropWhile _ _

/-- A number that is too large is blamed as a whole. -/
theorem points_integer : Points source .fresh .anywhere integer := by
  apply points_digits.refine
  intro s next ds missed reason start stop read refused
  have large : UInt64.size ≤ Numeral.value 10 ds ∧ reason = tooLarge := by
    dsimp only at refused
    split at refused
    case isTrue => cases refused
    case isFalse size =>
      cases refused
      exact ⟨Nat.le_of_not_lt size, rfl⟩
  have mayRead : MayRead digits s.rest ds next.rest := ⟨s.pos, next.pos, missed, read⟩
  obtain ⟨c, more, rfl, split, digit, digits, zero⟩ := digits_of_mayRead mayRead
  have nonzero : c ≠ '0' := by
    rintro rfl
    rw [zero rfl] at large
    exact absurd large.1 (by decide)
  have place := start.pos_eq stop split
  obtain ⟨before, fresh, whole, pos⟩ := start
  rw [large.2]
  apply Blame.number _ large.1
  refine ⟨before, next.rest, ?_, pos, ?_, ?_, ?_, stops_of_digits nonzero mayRead⟩
  · rw [whole, split]
  · rw [place, pos]
  · intro d member
    rcases List.mem_cons.1 member with rfl | later
    · exact digit
    · exact digits d later
  · intro d last
    cases isDigit : d.isDigit with
    | false => rfl
    | true =>
      have part := fresh d last
      rw [isNamePart_of_isDigit isDigit] at part
      cases part

theorem points_escaped : Points source p .anywhere escaped := by
  have byte {b : Byte} {c : Char} : Points source p .anywhere (map (fun _ => [b]) (just c)) :=
    points_just.map _
  have digit {p : Spot} : Points source p .anywhere hexDigit := points_satisfy.map _
  apply Points.choice
  simp only [List.mem_cons, List.not_mem_nil, or_false, forall_eq_or_imp, forall_eq]
  refine ⟨byte, byte, byte, byte, byte, byte, ?_⟩
  exact points_just.right ((digit.both digit).map _)

theorem points_content : Points source .anywhere .anywhere content := by
  have part : Points source .anywhere .anywhere (orElse (right (just '\\') escaped) plain) :=
    (points_just.right points_escaped).orElse (points_satisfy.map _)
  exact part.many.map _

theorem points_string : Points source p .anywhere string :=
  (((points_just.right points_content).left points_just).labelled _).map _

/-! ## Expressions -/

variable {x : Parser Expr}

theorem points_atom (inner : Points source .fresh .anywhere x) :
    Points source .fresh .anywhere (atom x) := by
  apply Points.padded
  apply Points.orElse
  · apply Points.choice
    simp only [List.mem_cons, List.not_mem_nil, or_false, forall_eq_or_imp, forall_eq]
    exact ⟨points_integer, points_string, points_name.map _⟩
  · exact ((points_symbol (by decide)).right inner).left points_just

theorem points_unary (operand : Points source .fresh .anywhere x) (budget : List Char) :
    Points source .fresh .anywhere (unary x budget) := by
  induction budget with
  | nil => exact operand
  | cons c budget ih =>
    have sign : Points source .fresh .fresh (padded (just '-')) := (points_symbol (by decide)).padded
    exact ((sign.right ih).map _).orElse operand

theorem points_signed (operand : Points source .fresh .anywhere x) :
    Points source .fresh .anywhere (signed x) :=
  fun s start => points_unary operand s.budget s start

theorem points_product (factor : Points source .fresh .anywhere x) :
    Points source .fresh .anywhere (product x) := by
  have sign : Points source .anywhere .fresh (padded (just '*')) := (points_symbol (by decide)).padded
  exact factor.chain (sign.right factor)

theorem points_sum (term : Points source .fresh .anywhere x) :
    Points source .fresh .anywhere (sum x) := by
  have sign : Points source .anywhere .fresh sumOperator :=
    ((points_symbol (by decide)).orElse (points_symbol (by decide))).map _
  exact term.chain (sign.padded.both term)

theorem points_nested (budget : List Char) : Points source .fresh .anywhere (nested budget) := by
  induction budget with
  | nil => exact fun s start => start.unexpected []
  | cons c budget ih => exact points_sum (points_product (points_signed (points_atom ih)))

theorem points_expression : Points source .fresh .anywhere expression :=
  fun s start => points_nested s.budget s start

/-! ## Programs -/

theorem points_simple : Points source .fresh .anywhere simple := by
  have verb (word : String) : Points source .fresh .anywhere (padded (keyword word)) :=
    (points_keyword word).padded
  have named : Points source .anywhere .anywhere (padded name) := points_name.padded
  have sign : Points source .anywhere .fresh (padded (just '=')) := (points_symbol (by decide)).padded
  apply Points.choice
  simp only [List.mem_cons, List.not_mem_nil, or_false, forall_eq_or_imp, forall_eq]
  refine ⟨?_, ?_, ?_, ?_⟩
  · exact (verb _).map _
  · exact ((verb _).right named).map _
  · exact ((verb _).right named).map _
  · exact ((named.start.left sign).both points_expression).map _

/-- Behind its semicolon a statement leaves the cursor where no name goes on. -/
theorem points_statement : Points source .fresh .fresh statement :=
  points_simple.left (points_symbol (by decide)).padded

theorem points_program : Points source .fresh .fresh program :=
  points_statement.many.padded.left points_endOfSource

/-- A source that is rejected is rejected for something that stands in it, or for its end. -/
theorem pointsInto_of_run {e : Failure} (rejected : run source = .error e) : e.PointsInto source := by
  have start : Cursor.At source .fresh ⟨0, source⟩ := ⟨[], stops_nil _, rfl, rfl⟩
  unfold run at rejected
  cases read : program ⟨0, source⟩ with
  | ok program next missed =>
    rw [read] at rejected
    cases rejected
  | failed f =>
    rw [read] at rejected
    cases rejected
    exact points_program.failed start read

/-- A session whose source is rejected tells its handler of the failure and of nothing else, whether the
handler fails or not. The failure spans a stretch of the source: the one character that was found; or, if
none was found, the empty one at the end, a whole name, or a whole number that no word can hold. -/
theorem failure_points_into_source {source : List Char} {e : Failure} (rejected : run source = .error e) :
    (∀ {η : Type} [Handler η] (s : Session) (h : η), s.source = source →
        (endState s.run (⟨h, []⟩ : Recorded η)).calls = [.parseFailed s.fileName source e]) ∧
      e.first ≤ e.last ∧ e.last ≤ source.length ∧
      (∀ c, e.found = some c → e.last = e.first + 1 ∧ source[e.first]? = some c) ∧
      (e.found = none →
        e.first = source.length ∧ e.last = source.length ∨
          (∃ c cs, isNameStart c ∧ WholeRun isNamePart source (c :: cs) e.first e.last) ∨
          e.reason = tooLarge ∧
            ∃ ds, WholeRun Char.isDigit source ds e.first e.last ∧ UInt64.size ≤ Numeral.value 10 ds) := by
  have blame : Blame source e.first e.last e.found e.reason := pointsInto_of_run rejected
  refine ⟨?_, blame.bounds.1, blame.bounds.2, ?_, ?_⟩
  · rintro η _ s h rfl
    have told : endState s.run (⟨h, []⟩ : Recorded η) =
        endState (Handler.parseFailed s.fileName s.source e) (⟨h, []⟩ : Recorded η) := by
      rw [← endState_bind_pure (Handler.parseFailed s.fileName s.source e) Outcome.parseFailed]
      unfold endState
      rw [Session.run_of_error rejected]
    rw [told]
    exact congrArg Recorded.calls (Recorded.endState_tell _ _ h [])
  · intro c found
    rw [found] at blame
    generalize e.first = first, e.last = last, e.reason = reason at blame
    cases blame with
    | character here => exact ⟨rfl, here⟩
  · intro absent
    rw [absent] at blame
    generalize e.first = first, e.last = last, e.reason = reason at blame ⊢
    cases blame with
    | ending => exact .inl ⟨rfl, rfl⟩
    | name start whole => exact .inr (.inl ⟨_, _, start, whole⟩)
    | number whole large => exact .inr (.inr ⟨rfl, _, whole, large⟩)

/-- The first number that is too large for a word, in the place of an operand. -/
theorem failure_points_into_source_large : ∃ e, run "x=-18446744073709551616+1;".toList = .error e ∧
    (∀ {η : Type} [Handler η] (s : Session) (h : η), s.source = "x=-18446744073709551616+1;".toList →
        (endState s.run (⟨h, []⟩ : Recorded η)).calls =
          [.parseFailed s.fileName "x=-18446744073709551616+1;".toList e]) ∧
      e.first = 3 ∧ e.last = 23 ∧ e.found = none ∧ e.reason = tooLarge := by
  refine ⟨_, rfl, ?_, rfl, rfl, rfl, rfl⟩
  exact (failure_points_into_source rfl).1

end Parse
end Osl
