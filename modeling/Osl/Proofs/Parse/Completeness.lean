import Osl.Proofs.Parse.Soundness

/-!
# What is in the language is parsed

A text that tokens derive is read to the end of the derivation, whatever budgets the parsers have as
long as they are not exceeded. The parsers never take back an alternative that has read, so it matters
which character comes next: behind an operand it is one that no operand goes on with (`Follows`). The
derivation of a chain grows to the right while its parser reads the first operand and then the others,
so for chains it is shown that operand after operand is read (`ReadsAt`).
-/

namespace Osl.Parse
set_option autoImplicit false

variable {cs mid rest budget : List Char} {level : Level} {ts us : List Token} {e l r : Expr}

/-! ## What comes next -/

/-- The next character behind white space is one of those given. -/
def Follows (set : List Char) (rest : List Char) : Prop := ∃ c more, skip rest = c :: more ∧ c ∈ set

/-- The characters that follow an expression of a kind. -/
def Level.follow : Level → List Char
  | .sum => ['+', '-', ')', ';']
  | .product | .unary | .atom => ['*', '+', '-', ')', ';']

theorem Follows.mono {set set' : List Char} (h : Follows set rest) (subset : set ⊆ set') :
    Follows set' rest := by
  obtain ⟨c, more, next, member⟩ := h
  exact ⟨c, more, next, subset member⟩

/-- A token that is a symbol comes next. -/
theorem Scans.follows {s : Char} {set : List Char} (h : Scans cs (.symbol s :: ts) rest)
    (member : s ∈ set) : Follows set cs := by
  obtain ⟨mid, lexeme, -⟩ := h.exists_lexeme
  exact ⟨s, mid, (lexeme_symbol_iff.1 lexeme).1, member⟩

/-- No digit comes next. -/
theorem Follows.stops (h : Follows level.follow rest) : Stops Char.isDigit rest := by
  obtain ⟨c, more, next, member⟩ := h
  intro d first
  cases digit : d.isDigit with
  | false => rfl
  | true =>
    have ascii := ascii_of_isDigit digit
    have visible : Stops Blank.isBlank rest := by
      intro d' first'
      rw [Option.mem_def.1 first] at first'
      cases first'
      exact isBlank_of_ascii (by omega) (by omega)
    rw [skip_of_stops visible] at next
    rw [next] at first
    cases first
    cases level <;> simp only [Level.follow, List.mem_cons, List.not_mem_nil, or_false] at member
    all_goals
      rcases member with rfl | rfl | rfl | rfl | rfl <;> exact absurd digit (by decide)

/-- A symbol that does not come next is refused. -/
theorem Follows.refuses {set : List Char} {s : Char} (h : Follows set rest) (other : s ∉ set) :
    Refuses (padded (just s)) (skip rest) := by
  obtain ⟨c, more, next, member⟩ := h
  refine .padded (refuses_just ?_)
  rw [skip_skip, next]
  intro same
  cases same
  exact other member

/-! ## Expressions -/

theorem Derives.nonempty (h : Derives level ts e) : ts ≠ [] := by
  induction h with
  | int | str | var | parens | neg => exact List.cons_ne_nil _ _
  | atom _ ih | unary _ ih | product _ ih => exact ih
  | mul | addSub => simp

/-- An operand does not start with a sign. -/
theorem Derives.head_ne_sign (h : Derives .atom ts e) (scans : Scans cs ts rest) :
    (skip cs).head? ≠ some '-' := by
  obtain ⟨t, us, rfl, ne⟩ : ∃ t us, ts = t :: us ∧ t ≠ .symbol '-' := by
    cases h with
    | int | str | var | parens => exact ⟨_, _, rfl, by simp⟩
  obtain ⟨mid, lexeme, -⟩ := scans.exists_lexeme
  obtain ⟨c, more, start, starts, -⟩ := lexeme.exists_cons
  rw [start]
  intro same
  cases same
  exact ne (starts.eq_symbol (by decide))

/-- The parser of operands between signs. -/
abbrev operand (budget : List Char) : Parser Expr := atom (nested budget)

/-- The parsers read an expression of a kind: a chain operand after operand. -/
def ReadsAt (budget : List Char) : Level → List Char → Expr → List Char → Prop
  | .atom, cs, e, rest => Reads (operand budget) cs e rest
  | .unary, cs, e, rest =>
    ∀ signs : List Char, cs.length < signs.length → Reads (unary (operand budget) signs) cs e rest
  | .product, cs, e, rest => ∃ first factors mid, Reads (signed (operand budget)) cs first mid ∧
      Leads (right (padded (just '*')) (signed (operand budget))) mid factors rest ∧
      e = factors.foldl (.arith .mul) first
  | .sum, cs, e, rest => ∃ first terms mid, Reads (product (signed (operand budget))) cs first mid ∧
      Leads (both (padded sumOperator) (product (signed (operand budget)))) mid terms rest ∧
      e = terms.foldl (fun l (op, r) => .arith op l r) first

theorem ReadsAt.signed (h : ReadsAt budget .unary cs e rest) :
    Reads (signed (operand budget)) cs e rest :=
  fun pos => h (' ' :: cs) (Nat.lt_succ_self _) pos

/-- What does not start with a sign is read where signs may stand. -/
theorem ReadsAt.unary (h : ReadsAt budget .atom cs e rest) (noSign : (skip cs).head? ≠ some '-') :
    ReadsAt budget .unary cs e rest := by
  intro signs long
  cases signs with
  | nil => simp at long
  | cons c signs =>
    have refuses : Refuses (padded (just '-')) cs := .padded (refuses_just noSign)
    exact (refuses.both.map _).map _ |>.reads_orElse h

/-- A sign is read, and then what stands behind it. -/
theorem ReadsAt.neg (sign : Lexeme (skip cs) (.symbol '-') mid)
    (h : ReadsAt budget .unary (skip mid) e rest) : ReadsAt budget .unary cs (.neg e) rest := by
  intro signs long
  have shorter := sign.length_lt
  have shorter' := length_skip_le cs
  have shorter'' := length_skip_le mid
  cases signs with
  | nil => simp at long
  | cons c signs =>
    rw [List.length_cons] at long
    exact (((reads_symbol sign).right (h signs (by omega))).map _).orElse

/-- A chain of a single factor. -/
theorem ReadsAt.factor (h : ReadsAt budget .unary cs e rest) : ReadsAt budget .product cs e rest :=
  ⟨_, [], _, h.signed, .nil _, rfl⟩

/-- A product is read whole if no factor follows. -/
theorem ReadsAt.product (h : ReadsAt budget .product cs e (skip rest))
    (follows : Follows Level.sum.follow rest) :
    Reads (product (Parse.signed (operand budget))) cs e (skip rest) := by
  obtain ⟨first, factors, mid, read, leads, rfl⟩ := h
  exact read.chain leads ((follows.refuses (by decide)).both.map _)

/-- A chain of a single term. -/
theorem ReadsAt.term (h : ReadsAt budget .product cs e (skip rest))
    (follows : Follows Level.sum.follow rest) : ReadsAt budget .sum cs e (skip rest) :=
  ⟨_, [], _, h.product follows, .nil _, rfl⟩

/-- A sum is read whole if no term follows. -/
theorem ReadsAt.sum (h : ReadsAt budget .sum cs e (skip rest)) (follows : Follows [')', ';'] rest) :
    Reads (sum (Parse.product (Parse.signed (operand budget)))) cs e (skip rest) := by
  obtain ⟨first, terms, mid, read, leads, rfl⟩ := h
  obtain ⟨c, more, next, member⟩ := follows
  refine read.chain leads (.both (.padded (.map _ ?_)))
  rw [skip_skip, next]
  simp only [List.mem_cons, List.not_mem_nil, or_false] at member
  rcases member with rfl | rfl <;> exact .orElse (refuses_just (by simp)) (refuses_just (by simp))

theorem reads_integer_operand {inner : Parser Expr} {w : Word} (h : Lexeme (skip cs) (.decimal w) rest)
    (ends : Stops Char.isDigit rest) : Reads (atom inner) cs (.int w) (skip rest) :=
  ((h.reads_integer ends).choiceAfter.orElse).padded

theorem reads_string_operand {inner : Parser Expr} {content : List Byte}
    (h : Lexeme (skip cs) (.string content) rest) : Reads (atom inner) cs (.str content) (skip rest) := by
  obtain ⟨c, tail, start, quote, -⟩ := h.exists_cons
  have same : c = '"' := quote
  have noInteger : Refuses integer (skip cs) := by
    rw [start, same]
    exact refuses_integer (stops_cons.2 (by decide))
  exact (noInteger.reads_choiceAfter fun _ => h.reads_string.choiceAfter).orElse.padded

theorem reads_name_operand {inner : Parser Expr} {n : String} (h : Lexeme (skip cs) (.name n) rest) :
    Reads (atom inner) cs (.var n) (skip rest) := by
  obtain ⟨c, tail, start, letter, -⟩ := h.exists_cons
  have ascii := ascii_of_isNameStart letter
  have noInteger : Refuses integer (skip cs) := by
    rw [start]
    refine refuses_integer (stops_cons.2 ?_)
    cases digit : c.isDigit with
    | false => rfl
    | true =>
      have ascii' := ascii_of_isDigit digit
      omega
  have noString : Refuses string (skip cs) := by
    rw [start]
    refine refuses_string fun same => ?_
    cases same
    exact absurd ascii.1 (by decide)
  exact (noInteger.reads_choiceAfter fun _ => noString.reads_choiceAfter fun _ =>
    (h.reads_name.map Expr.var).choiceAfter).orElse.padded

/-- An operand in parentheses. -/
theorem reads_parens {inner : Parser Expr} {tail : List Char}
    (opening : Lexeme (skip cs) (.symbol '(') mid) (read : Reads inner mid e (')' :: tail)) :
    Reads (atom inner) cs e (skip tail) := by
  have start := (lexeme_symbol_iff.1 opening).1
  have refuses : Refuses (choice [integer, string, map .var name]) (skip cs) := by
    rw [start]
    refine refuses_choiceAfter ?_
    simp only [List.mem_cons, List.not_mem_nil, or_false, forall_eq_or_imp, forall_eq]
    exact ⟨refuses_integer (stops_cons.2 (by decide)), refuses_string (by simp),
      (refuses_name (stops_cons.2 (by decide))).map _⟩
  have inside : Reads (between '(' ')' inner) (skip cs) e tail := by
    rw [start]
    exact read.between
  exact (refuses.reads_orElse inside).padded

theorem reads_sumOperator {op : Arith} (additive : op ≠ .mul)
    (h : Lexeme (skip cs) (.symbol op.symbol) rest) : Reads (padded sumOperator) cs op (skip rest) := by
  have start := (lexeme_symbol_iff.1 h).1
  refine Reads.padded ?_
  rw [start]
  cases op with
  | mul => exact absurd rfl additive
  | add =>
    have plus : Reads (orElse (just '+') (just '-')) ('+' :: rest) '+' rest := reads_just.orElse
    exact plus.map fun c => if c = '+' then Arith.add else .sub
  | sub =>
    have minus : Reads (orElse (just '+') (just '-')) ('-' :: rest) '-' rest :=
      (refuses_just (by simp)).reads_orElse reads_just
    exact minus.map fun c => if c = '+' then Arith.add else .sub

theorem reads_symbol_skip {s : Char} (h : Lexeme (skip cs) (.symbol s) rest) :
    Reads (padded (just s)) (skip cs) s (skip rest) := reads_symbol (by rwa [skip_skip])

theorem reads_name_skip {n : String} (h : Lexeme (skip cs) (.name n) rest) :
    Reads (padded name) (skip cs) n (skip rest) := by
  have again : Lexeme (skip (skip cs)) (.name n) rest := by rwa [skip_skip]
  exact again.reads_name.padded

/-- The text of a first operand, of the operator, and of the operand behind it, which is no longer than
the whole and of which there is some. -/
theorem Scans.operator {s : Char} (h : Scans cs (ts ++ .symbol s :: us) rest) (nonempty : us ≠ []) :
    ∃ mid mid', Scans cs ts mid ∧ Scans mid (.symbol s :: us) rest ∧
      Lexeme (skip mid) (.symbol s) mid' ∧ Scans (skip mid') us rest ∧
      (skip mid').length ≤ cs.length ∧ (skip rest).length < (skip mid).length := by
  obtain ⟨mid, before, behind⟩ := h.split
  obtain ⟨mid', symbol, more⟩ := behind.exists_lexeme
  have shorter := before.length_le
  have shorter' := symbol.length_lt
  have shorter'' := more.length_le
  have skipped := length_skip_le mid
  have skipped' := length_skip_le mid'
  have skipped'' := length_skip_le rest
  exact ⟨mid, mid', before, behind, symbol, more.from_skip nonempty, by omega, by omega⟩

/-- The chain of a left operand goes on with one factor more. -/
theorem ReadsAt.mul {mid' : List Char} (left : ReadsAt budget .product cs l (skip mid))
    (star : Lexeme (skip mid) (.symbol '*') mid') (right : ReadsAt budget .unary (skip mid') r rest)
    (shorter : rest.length < (skip mid).length) :
    ReadsAt budget .product cs (.arith .mul l r) rest := by
  obtain ⟨first, factors, start, read, leads, rfl⟩ := left
  have next := (reads_symbol_skip star).right right.signed
  refine ⟨first, factors ++ [_], start, read, leads.concat ⟨next, shorter⟩, ?_⟩
  rw [List.foldl_append]
  rfl

/-- The chain of a left operand goes on with one term more. -/
theorem ReadsAt.addSub {mid' : List Char} {op : Arith} (additive : op ≠ .mul)
    (left : ReadsAt budget .sum cs l (skip mid))
    (symbol : Lexeme (skip mid) (.symbol op.symbol) mid')
    (right : ReadsAt budget .product (skip mid') r (skip rest))
    (follows : Follows Level.sum.follow rest) (shorter : (skip rest).length < (skip mid).length) :
    ReadsAt budget .sum cs (.arith op l r) (skip rest) := by
  obtain ⟨first, terms, start, read, leads, rfl⟩ := left
  have operator : Reads (padded sumOperator) (skip mid) op (skip mid') :=
    reads_sumOperator additive (by rwa [skip_skip])
  have next := operator.both (right.product follows)
  refine ⟨first, terms ++ [(op, _)], start, read, leads.concat ⟨next, shorter⟩, ?_⟩
  rw [List.foldl_append]
  rfl

/-- What is derived is read. -/
theorem Derives.readsAt (h : Derives level ts e) (budget cs rest : List Char)
    (enough : cs.length ≤ budget.length) (scans : Scans cs ts rest)
    (follows : Follows level.follow rest) : ReadsAt budget level cs e (skip rest) := by
  induction h generalizing budget cs rest with
  | int w =>
    obtain ⟨mid, lexeme, more⟩ := scans.exists_lexeme
    have follows' : Follows Level.atom.follow mid := by rwa [Follows, more.skip_eq]
    rw [← more.skip_eq]
    exact reads_integer_operand lexeme follows'.stops
  | str content =>
    obtain ⟨mid, lexeme, more⟩ := scans.exists_lexeme
    rw [← more.skip_eq]
    exact reads_string_operand lexeme
  | var n =>
    obtain ⟨mid, lexeme, more⟩ := scans.exists_lexeme
    rw [← more.skip_eq]
    exact reads_name_operand lexeme
  | parens derives ih =>
    obtain ⟨mid, opening, more⟩ := scans.exists_lexeme
    obtain ⟨mid', inside, last⟩ := more.split
    obtain ⟨tail, closing, none⟩ := last.exists_lexeme
    have shorter := opening.length_lt
    have shorter' := length_skip_le cs
    cases budget with
    | nil =>
      rw [List.length_nil] at enough
      omega
    | cons c budget =>
      -- the parentheses take up a character of the text and one of the budget
      rw [List.length_cons] at enough
      have ends : Follows [')', ';'] mid' := last.follows (by decide)
      have read := (ih budget mid mid' (by omega) inside (ends.mono (by simp [Level.follow]))).sum ends
      rw [(lexeme_symbol_iff.1 closing).1] at read
      rw [← none.skip_eq]
      exact reads_parens opening read
  | atom derives ih => exact (ih budget cs rest enough scans follows).unary (derives.head_ne_sign scans)
  | neg derives ih =>
    obtain ⟨mid, sign, more⟩ := scans.exists_lexeme
    have shorter := sign.length_lt
    have shorter' := length_skip_le cs
    have shorter'' := length_skip_le mid
    exact .neg sign
      (ih budget (skip mid) rest (by omega) (more.from_skip derives.nonempty) follows)
  | unary derives ih => exact (ih budget cs rest enough scans follows).factor
  | mul left right ihl ihr =>
    obtain ⟨mid, mid', before, behind, star, more, fits, shorter⟩ := scans.operator right.nonempty
    have first := ihl budget cs mid enough before (behind.follows (by decide))
    have factor := ihr budget (skip mid') rest (by omega) more follows
    exact first.mul star factor shorter
  | product derives ih =>
    exact (ih budget cs rest enough scans (follows.mono (by simp [Level.follow]))).term follows
  | @addSub op _ _ _ _ additive left right ihl ihr =>
    obtain ⟨mid, mid', before, behind, symbol, more, fits, shorter⟩ := scans.operator right.nonempty
    have next : op.symbol ∈ Level.sum.follow := by
      cases op with
      | mul => exact absurd rfl additive
      | add | sub => decide
    have first := ihl budget cs mid enough before (behind.follows next)
    have term := ihr budget (skip mid') rest (by omega) more
      (follows.mono (by simp [Level.follow]))
    exact first.addSub additive symbol term follows shorter

/-- An expression is read if one of the characters comes next that end expressions. -/
theorem Derives.reads (h : Derives .sum ts e) (scans : Scans cs ts rest) (ends : Follows [')', ';'] rest) :
    Reads expression cs e (skip rest) :=
  fun pos => (h.readsAt cs cs rest (Nat.le_refl _) scans (ends.mono (by simp [Level.follow]))).sum ends pos

/-! ## Programs -/

/-- A name that the given word could be is not read as a keyword in front of another name. -/
theorem refuses_verb {target : String} {tail : List Char} (word : String)
    (first : Lexeme (skip cs) (.name target) mid) (equals : Lexeme (skip mid) (.symbol '=') tail) :
    Refuses (right (padded (keyword word)) (padded name)) cs := by
  by_cases same : target = word
  · subst same
    have read : Reads (padded (keyword target)) cs () (skip mid) := first.reads_keyword.padded
    refine (read.refuses_both (.padded (refuses_name ?_))).map _
    rw [skip_skip, (lexeme_symbol_iff.1 equals).1]
    exact stops_cons.2 (by decide)
  · exact ((first.refuses_keyword same).padded.both).map _

/-- A name that is not the keyword is refused. -/
theorem refuses_other {n word : String} (h : Lexeme (skip cs) (.name n) mid) (ne : n ≠ word) :
    Refuses (padded (keyword word)) cs := (h.refuses_keyword ne).padded

/-- A statement without its semicolon. -/
theorem IsStatement.reads_simple {s : Statement} (h : IsStatement ts s) (scans : Scans cs ts rest) :
    ∃ mid, Reads simple cs s (skip mid) ∧ Scans mid [.symbol ';'] rest := by
  cases h with
  | printLog =>
    obtain ⟨mid, first, more⟩ := scans.exists_lexeme
    exact ⟨mid, (first.reads_keyword.padded.map _).choiceAfter, more⟩
  | print n =>
    obtain ⟨mid, first, more⟩ := scans.exists_lexeme
    obtain ⟨mid', second, last⟩ := more.exists_lexeme
    have read := (first.reads_keyword.padded.right (reads_name_skip second)).map Statement.print
    exact ⟨mid', ((refuses_other first (by decide)).map _).reads_choiceAfter fun _ => read.choiceAfter,
      last⟩
  | delete n =>
    obtain ⟨mid, first, more⟩ := scans.exists_lexeme
    obtain ⟨mid', second, last⟩ := more.exists_lexeme
    have read := (first.reads_keyword.padded.right (reads_name_skip second)).map Statement.delete
    exact ⟨mid', ((refuses_other first (by decide)).map _).reads_choiceAfter fun _ =>
      ((refuses_other first (by decide)).both.map _ |>.map _).reads_choiceAfter fun _ =>
        read.choiceAfter, last⟩
  | @assign target us e other derives =>
    obtain ⟨mid, first, more⟩ := scans.exists_lexeme
    obtain ⟨mid', equals, more'⟩ := more.exists_lexeme
    obtain ⟨mid'', value, last⟩ := more'.split
    have expr := derives.reads (value.from_skip derives.nonempty) (last.follows (by decide))
    have read := (first.reads_name.padded.left (reads_symbol_skip equals)).both expr
    exact ⟨mid'', ((refuses_other first other).map _).reads_choiceAfter fun _ =>
      ((refuses_verb "print" first equals).map _).reads_choiceAfter fun _ =>
        ((refuses_verb "del" first equals).map _).reads_choiceAfter fun _ => (read.map _).choiceAfter,
      last⟩

theorem IsStatement.reads {s : Statement} (h : IsStatement ts s) (scans : Scans cs ts rest) :
    Reads statement cs s (skip rest) := by
  obtain ⟨mid, read, last⟩ := h.reads_simple scans
  obtain ⟨mid', semicolon, none⟩ := last.exists_lexeme
  rw [← none.skip_eq]
  exact read.left (reads_symbol_skip semicolon)

theorem IsStatement.nonempty {s : Statement} (h : IsStatement ts s) : ts ≠ [] := by
  cases h with
  | printLog | print | delete | assign => exact List.cons_ne_nil _ _

theorem refuses_statement : Refuses statement [] := by
  refine ((refuses_choiceAfter ?_).both.map _)
  simp only [List.mem_cons, List.not_mem_nil, or_false, forall_eq_or_imp, forall_eq]
  have noName : Refuses name (skip []) := refuses_name (stops_nil _)
  have noKeyword (word : String) : Refuses (padded (keyword word)) [] := noName.refine.padded
  exact ⟨(noKeyword _).map _, ((noKeyword _).both.map _).map _, ((noKeyword _).both.map _).map _,
    ((noName.padded.both.map _).both).map _⟩

/-- One statement after another is read. -/
theorem IsProgram.leads {p : Program} (h : IsProgram ts p) (scans : Scans cs ts []) :
    Leads statement (skip cs) p [] := by
  induction h generalizing cs with
  | nil =>
    rw [scans.skip_eq]
    exact .nil []
  | cons isStatement _ ih =>
    obtain ⟨mid, first, more⟩ := scans.split
    have here := first.from_skip isStatement.nonempty
    have shorter := here.length_le
    have some := List.length_pos_iff.2 isStatement.nonempty
    have skipped := length_skip_le mid
    exact .cons ⟨isStatement.reads here, by omega⟩ (ih more)

/-- The program that a text spells is parsed. -/
theorem run_of_spelling {source : List Char} {p : Program} (h : Spelling source p) :
    run source = .ok p := by
  obtain ⟨ts, scans, isProgram⟩ := h
  have statements := ((isProgram.leads scans).many refuses_statement).padded
  obtain ⟨pos, missed, read⟩ := (statements.left reads_endOfSource) 0
  exact run_eq_ok.2 ⟨⟨pos, []⟩, missed, read⟩

end Osl.Parse
