import Osl.Proofs.Parse.Derivation

/-!
# Reading tokens

The parsers of names, integers and strings read exactly the tokens of these kinds; each is given in
both directions, with the texts that it refuses. An integer is read as long as it goes on, which is no
matter as no digit follows an integer in a program.
-/

namespace Osl.Parse
set_option autoImplicit false

variable {cs rest : List Char} {n word : String} {e : Expr}

/-! ## Names -/

theorem reads_name {c : Char} (start : isNameStart c) (cs : List Char) :
    Reads name (c :: cs) (String.ofList (c :: cs.takeWhile isNamePart)) (cs.dropWhile isNamePart) :=
  ((reads_charWhere start).both (reads_many_satisfy isNamePart cs)).map _

theorem refuses_name (stops : Stops isNameStart cs) : Refuses name cs :=
  (refuses_charWhere stops).both.map _

theorem Lexeme.reads_name (h : Lexeme cs (.name n) rest) : Reads name cs n rest := by
  obtain ⟨body, rfl, spells, ends⟩ := h
  cases spells with
  | @name c ds start part =>
    have read := Parse.reads_name start (ds ++ rest)
    obtain ⟨taken, dropped⟩ := takeWhile_append_eq part ends
    rwa [taken, dropped] at read

theorem lexeme_of_name (h : MayRead name cs n rest) : Lexeme cs (.name n) rest := by
  cases cs with
  | nil => exact absurd (refuses_name (stops_nil _)) h.not_refuses
  | cons c cs =>
    by_cases start : isNameStart c = true
    · obtain ⟨rfl, rfl⟩ := h.unique (reads_name start cs)
      refine ⟨c :: cs.takeWhile isNamePart, ?_, .name start ?_, stops_dropWhile _ cs⟩
      · rw [List.cons_append, List.takeWhile_append_dropWhile]
      · exact List.all_eq_true.1 List.all_takeWhile
    · have stops : Stops isNameStart (c :: cs) := stops_cons.2 (by simpa using start)
      exact absurd (refuses_name stops) h.not_refuses

theorem Lexeme.reads_keyword (h : Lexeme cs (.name word) rest) : Reads (keyword word) cs () rest :=
  h.reads_name.refine (if_pos rfl)

theorem Lexeme.refuses_keyword (h : Lexeme cs (.name n) rest) (ne : n ≠ word) :
    Refuses (keyword word) cs :=
  h.reads_name.refuses_refine (if_neg ne)

/-- The digits of an integer, the first of which is not zero. -/
theorem reads_digits {c : Char} (digit : c.isDigit) (nonzero : c ≠ '0') (cs : List Char) :
    Reads digits (c :: cs) (c :: cs.takeWhile Char.isDigit) (cs.dropWhile Char.isDigit) := by
  have first : (c.isDigit && c != '0') = true := by simp [digit, nonzero]
  exact (((reads_charWhere first).both (reads_many_satisfy Char.isDigit cs)).map _).orElse

/-- Nothing is read after a zero. -/
theorem reads_digits_zero (cs : List Char) : Reads digits ('0' :: cs) ['0'] cs := by
  have refuses : Refuses (satisfy fun c => c.isDigit && c != '0') ('0' :: cs) :=
    refuses_charWhere (stops_cons.2 (by decide))
  exact (refuses.both.map _).reads_orElse (reads_just.map _)

theorem refuses_digits (stops : Stops Char.isDigit cs) : Refuses digits cs := by
  refine .orElse (.map _ (.both (refuses_charWhere fun c first => ?_))) (.map _ (refuses_just ?_))
  · simp [stops c first]
  · intro zero
    have digit : Char.isDigit '0' = false := stops '0' zero
    revert digit
    decide

theorem refuses_integer (stops : Stops Char.isDigit cs) : Refuses integer cs :=
  (refuses_digits stops).refine

theorem Lexeme.reads_integer {w : Word} (h : Lexeme cs (.decimal w) rest)
    (stops : Stops Char.isDigit rest) : Reads integer cs (.int w) rest := by
  obtain ⟨body, rfl, spells, -⟩ := h
  cases spells with
  | @decimal c ds digit more zero small =>
    have read : Reads digits (c :: (ds ++ rest)) (c :: ds) rest := by
      by_cases same : c = '0'
      · rw [zero same, same]
        exact reads_digits_zero rest
      · have read := reads_digits digit same (ds ++ rest)
        obtain ⟨taken, dropped⟩ := takeWhile_append_eq more stops
        rwa [taken, dropped] at read
    exact read.refine (if_pos small)

/-- The digits that are read spell a number without leading zeros. -/
theorem digits_of_mayRead {ds : List Char} (h : MayRead digits cs ds rest) :
    ∃ c more, ds = c :: more ∧ cs = ds ++ rest ∧ c.isDigit ∧ (∀ d ∈ more, d.isDigit) ∧
      (c = '0' → more = []) := by
  cases cs with
  | nil => exact absurd (refuses_digits (stops_nil _)) h.not_refuses
  | cons c cs =>
    by_cases digit : c.isDigit = true
    · by_cases zero : c = '0'
      · subst zero
        obtain ⟨rfl, rfl⟩ := h.unique (reads_digits_zero cs)
        exact ⟨'0', [], rfl, rfl, digit, List.forall_mem_nil _, fun _ => rfl⟩
      · obtain ⟨rfl, rfl⟩ := h.unique (reads_digits digit zero cs)
        refine ⟨c, _, rfl, ?_, digit, List.all_eq_true.1 List.all_takeWhile, fun same => absurd same zero⟩
        rw [List.cons_append, List.takeWhile_append_dropWhile]
    · have stops : Stops Char.isDigit (c :: cs) := stops_cons.2 (by simpa using digit)
      exact absurd (refuses_digits stops) h.not_refuses

theorem digitValue?_lt {c : Char} {n : Nat} (h : Numeral.digitValue? c = some n) : n < 16 := by
  unfold Numeral.digitValue? at h
  split at h
  · rename_i digit
    have high : c.toNat ≤ 0x39 := digit.2
    have value : c.toNat - 0x30 = n := Option.some.inj h
    omega
  · split at h
    · rename_i lower
      have high : c.toNat ≤ 0x66 := lower.2
      have value : c.toNat - 0x61 + 10 = n := Option.some.inj h
      omega
    · split at h
      · rename_i upper
        have high : c.toNat ≤ 0x46 := upper.2
        have value : c.toNat - 0x41 + 10 = n := Option.some.inj h
        omega
      · cases h

/-- The parser of an escape reads what may follow a backslash. -/
theorem Escape.reads {es : List Char} {b : Byte} (h : Escape es b) (rest : List Char) :
    Reads escaped (es ++ rest) [b] rest := by
  have passes {d c : Char} {bs : List Byte} {ps : List (Parser (List Byte))} {cs : List Char}
      {failed : Option Failure} (ne : c ≠ d)
      (more : ∀ failed, Reads (choiceAfter failed ps) (c :: cs) [b] rest) :
      Reads (choiceAfter failed (map (fun _ => bs) (just d) :: ps)) (c :: cs) [b] rest :=
    ((refuses_just (by simpa using ne)).map _).reads_choiceAfter more
  have hits {c : Char} {ps : List (Parser (List Byte))} {failed : Option Failure} :
      Reads (choiceAfter failed (map (fun _ => [b]) (just c) :: ps)) (c :: rest) [b] rest :=
    (reads_just.map _).choiceAfter
  cases h with
  | backslash => exact hits
  | quote => exact passes (by decide) fun _ => hits
  | newline => exact passes (by decide) fun _ => passes (by decide) fun _ => hits
  | tab =>
    exact passes (by decide) fun _ => passes (by decide) fun _ => passes (by decide) fun _ => hits
  | carriageReturn =>
    exact passes (by decide) fun _ => passes (by decide) fun _ => passes (by decide) fun _ =>
      passes (by decide) fun _ => hits
  | zero =>
    exact passes (by decide) fun _ => passes (by decide) fun _ => passes (by decide) fun _ =>
      passes (by decide) fun _ => passes (by decide) fun _ => hits
  | @hex c d high low first second =>
    have digit {c : Char} {n : Nat} (cs : List Char) (value : Numeral.digitValue? c = some n) :
        Reads hexDigit (c :: cs) n cs := by
      have small := digitValue?_lt value
      have read : Reads (satisfy (Numeral.isDigit 16)) (c :: cs) c cs :=
        reads_charWhere (by simp [Numeral.isDigit, value, small])
      have converted := read.map fun c => (Numeral.digitValue? c).getD 0
      rwa [value] at converted
    refine passes (by decide) fun _ => passes (by decide) fun _ => passes (by decide) fun _ =>
      passes (by decide) fun _ => passes (by decide) fun _ => passes (by decide) fun _ => ?_
    exact (reads_just.right (((digit _ first).both (digit _ second)).map _)).choiceAfter

/-- A character of a string, or an escape. -/
def part : Parser (List Byte) := orElse (right (just '\\') escaped) plain

theorem reads_part_plain {c : Char} (noQuote : c ≠ '"') (noEscape : c ≠ '\\') (rest : List Char) :
    Reads part (c :: rest) (String.utf8EncodeChar c) rest := by
  have refuses : Refuses (right (just '\\') escaped) (c :: rest) :=
    (refuses_just (by simpa using noEscape)).both.map _
  exact refuses.reads_orElse ((reads_charWhere (by simp [noQuote, noEscape])).map _)

theorem reads_part_escape {es : List Char} {b : Byte} (h : Escape es b) (rest : List Char) :
    Reads part ('\\' :: (es ++ rest)) [b] rest :=
  (reads_just.right (h.reads rest)).orElse

theorem refuses_part (rest : List Char) : Refuses part ('"' :: rest) :=
  .orElse ((refuses_just (by simp)).both.map _) ((refuses_charWhere (stops_cons.2 rfl)).map _)

/-- The characters in front of the closing quote. -/
theorem Content.leads {body : List Char} {content : List Byte} (h : Content body content)
    (rest : List Char) : ∃ parts, parts.flatten = content ∧
      Leads part (body ++ '"' :: rest) parts ('"' :: rest) := by
  induction h with
  | nil => exact ⟨[], rfl, .nil _⟩
  | @plain c cs bs noQuote noEscape _ ih =>
    obtain ⟨parts, rfl, leads⟩ := ih
    exact ⟨String.utf8EncodeChar c :: parts, rfl,
      .cons ⟨reads_part_plain noQuote noEscape _, by simp⟩ leads⟩
  | @escape es cs b bs escape _ ih =>
    obtain ⟨parts, rfl, leads⟩ := ih
    refine ⟨[b] :: parts, rfl, .cons ⟨?_, ?_⟩ leads⟩
    · rw [List.cons_append, List.append_assoc]
      exact reads_part_escape escape _
    · simp only [List.length_append, List.length_cons]
      omega

theorem refuses_string (other : cs.head? ≠ some '"') : Refuses string cs :=
  ((refuses_between other).labelled _).map _

theorem Lexeme.reads_string {content : List Byte} (h : Lexeme cs (.string content) rest) :
    Reads string cs (.str content) rest := by
  obtain ⟨body, rfl, spells, -⟩ := h
  cases spells with
  | @string ds _ inner =>
    obtain ⟨parts, rfl, leads⟩ := inner.leads rest
    have read : Reads Parse.content (ds ++ '"' :: rest) parts.flatten ('"' :: rest) :=
      (leads.many (refuses_part rest)).map List.flatten
    have quoted : '"' :: (ds ++ ['"']) ++ rest = '"' :: (ds ++ '"' :: rest) := by simp
    rw [quoted]
    exact (read.between.labelled _).map Expr.str

/-- A symbol with white space around it. -/
theorem reads_symbol {c : Char} (h : Lexeme (skip cs) (.symbol c) rest) :
    Reads (padded (just c)) cs c (skip rest) := by
  have split := (lexeme_symbol_iff.1 h).1
  have read : Reads (just c) (skip cs) c rest := split ▸ reads_just
  exact read.padded

end Osl.Parse
