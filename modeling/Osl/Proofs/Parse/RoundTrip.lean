import Osl.Proofs.Parse.Completeness
import Osl.Proofs.Text.Numeral
import Osl.Proofs.Text.Utf8
import Osl.Syntax.Printer

/-!
# Parsing undoes printing

The text of an expression is that of an operand, as every operation is printed in parentheses, and the
text of a statement that of a statement, provided that its names are names, that nothing is assigned to
`print_log`, and that its strings are text whose characters are printed as themselves or with a short
escape. So a program is read back from the texts of its statements, whatever white space stands between
them (`run_printed`).
-/

namespace Osl
set_option autoImplicit false

open Parse

variable {rest : List Char} {e : Expr} {s : Statement}

/-- The text is a name. -/
def IsName (name : String) : Prop :=
  ∃ c cs, name.toList = c :: cs ∧ isNameStart c ∧ ∀ d ∈ cs, isNamePart d

/-- The bytes are those of a text none of whose characters is printed by its code point. -/
def IsLegible (content : List Byte) : Prop :=
  ∃ cs, content = Utf8.encode cs ∧ ∀ c ∈ cs, ¬ ['\\', 'u'] <+: Quoted.escape c

/-- The names of the expression are names, and its strings are legible. -/
def Expr.IsLegible : Expr → Prop
  | .int _ => True
  | .str content => Osl.IsLegible content
  | .var name => IsName name
  | .arith _ l r => l.IsLegible ∧ r.IsLegible
  | .neg e => e.IsLegible

/-- The names of the statement are names, its strings are legible, and it does not assign to
`print_log`. -/
def Statement.IsLegible : Statement → Prop
  | .assign target e => IsName target ∧ target ≠ "print_log" ∧ e.IsLegible
  | .print name | .delete name => IsName name
  | .printLog => True

/-- The texts of statements, each with what stands behind it. -/
def sourceOf (parts : List (Statement × List Char)) : List Char :=
  parts.flatMap fun (s, gap) => s.source ++ gap

/-! ## Tokens -/

theorem IsName.lexeme {name : String} (h : IsName name) (ends : Stops isNamePart rest) :
    Lexeme (name.toList ++ rest) (.name name) rest := by
  obtain ⟨c, cs, split, start, part⟩ := h
  have spells := Spells.name start part
  rw [← split, String.ofList_toList] at spells
  exact ⟨name.toList, rfl, spells, ends⟩

theorem lexeme_decimal (w : Word) (rest : List Char) :
    Lexeme (Numeral.digits 10 w.toNat ++ rest) (.decimal w) rest := by
  obtain ⟨c, cs, split, zero⟩ := Numeral.exists_digits_eq_cons w.toNat
  have digits (d : Char) (member : d ∈ c :: cs) : d.isDigit :=
    Numeral.isDigit_of_mem_digits (split ▸ member)
  have value := Numeral.value_digits w.toNat
  rw [split] at value ⊢
  have spells := Spells.decimal (digits c List.mem_cons_self)
    (fun d member => digits d (List.mem_cons_of_mem _ member)) zero (by rw [value]; exact w.toNat_lt)
  rw [value, UInt64.ofNat_toNat] at spells
  exact ⟨c :: cs, rfl, spells, trivial⟩

/-- Printed characters spell their bytes. -/
theorem content_escape {cs : List Char} (legible : ∀ c ∈ cs, ¬ ['\\', 'u'] <+: Quoted.escape c) :
    Content (cs.flatMap Quoted.escape) (Utf8.encode cs) := by
  induction cs with
  | nil => exact .nil
  | cons c cs ih =>
    have here := legible c List.mem_cons_self
    have more := ih fun d member => legible d (List.mem_cons_of_mem _ member)
    have escape {es : List Char} {b : Byte} (short : Quoted.escape c = '\\' :: es) (means : Escape es b)
        (byte : String.utf8EncodeChar c = [b]) :
        Content ((c :: cs).flatMap Quoted.escape) (Utf8.encode (c :: cs)) := by
      rw [List.flatMap_cons, short, Utf8.encode, List.flatMap_cons, byte]
      exact .escape means more
    -- what has no short escape stands for itself, as it is not given by its code point
    by_cases zero : c = '\x00'
    · subst zero
      exact escape rfl .zero rfl
    by_cases tab : c = '\t'
    · subst tab
      exact escape rfl .tab rfl
    by_cases newline : c = '\n'
    · subst newline
      exact escape rfl .newline rfl
    by_cases carriage : c = '\r'
    · subst carriage
      exact escape rfl .carriageReturn rfl
    by_cases quote : c = '"'
    · subst quote
      exact escape rfl .quote rfl
    by_cases backslash : c = '\\'
    · subst backslash
      exact escape rfl .backslash rfl
    have itself : Quoted.escape c = [c] := by
      unfold Quoted.escape at here ⊢
      rw [if_neg zero, if_neg tab, if_neg newline, if_neg carriage, if_neg quote, if_neg backslash]
        at here ⊢
      split at here
      · rename_i plain
        rw [if_pos plain]
      · exact absurd ⟨_, rfl⟩ here
    rw [List.flatMap_cons, itself, Utf8.encode, List.flatMap_cons]
    exact .plain quote backslash more

theorem lexeme_string {content : List Byte} (h : IsLegible content) (rest : List Char) :
    Lexeme (Quoted.encode (Utf8.lossy content) ++ rest) (.string content) rest := by
  obtain ⟨cs, rfl, legible⟩ := h
  rw [Utf8.lossy_encode]
  exact ⟨_, rfl, .string (content_escape legible), trivial⟩

/-- A token in front of more text. -/
theorem Parse.Lexeme.scans {cs mid : List Char} {t : Token} {ts : List Token} (h : Lexeme cs t mid)
    (h' : Scans mid ts rest) : Scans cs (t :: ts) rest :=
  .of_lexeme (by rwa [h.skip_eq]) h'

theorem scans_symbol {c : Char} {cs : List Char} {ts : List Token} (member : c ∈ symbols)
    (h : Scans cs ts rest) : Scans (c :: cs) (.symbol c :: ts) rest :=
  (lexeme_symbol_iff.2 ⟨rfl, member⟩ : Lexeme (c :: cs) (.symbol c) cs).scans h

theorem scans_blank {cs : List Char} {ts : List Token} (h : Scans cs ts rest) :
    Scans (' ' :: cs) ts rest := by
  have blank : Blanks [' '] := by
    intro c member
    rw [List.mem_singleton.1 member]
    decide
  exact h.append_blanks blank

/-! ## Expressions and statements -/

/-- The text of an expression is that of an operand. -/
theorem Expr.exists_derives (h : e.IsLegible) :
    ∃ ts, Derives .atom ts e ∧ ∀ rest, Stops isNamePart rest → Scans (e.source ++ rest) ts rest := by
  induction e with
  | int w => exact ⟨_, .int w, fun rest _ => (lexeme_decimal w rest).scans (Scans.refl rest)⟩
  | str content => exact ⟨_, .str content, fun rest _ => (lexeme_string h rest).scans (Scans.refl rest)⟩
  | var name => exact ⟨_, .var name, fun rest ends => (h.lexeme ends).scans (Scans.refl rest)⟩
  | arith op l r ihl ihr =>
    obtain ⟨ts, left, scansLeft⟩ := ihl h.1
    obtain ⟨us, right, scansRight⟩ := ihr h.2
    have whole : Derives .sum (ts ++ .symbol op.symbol :: us) (.arith op l r) := by
      cases op with
      | mul => exact .product (.mul (.unary (.atom left)) (.atom right))
      | add => exact .addSub (by decide) (.product (.unary (.atom left))) (.unary (.atom right))
      | sub => exact .addSub (by decide) (.product (.unary (.atom left))) (.unary (.atom right))
    have symbol : op.symbol ∈ symbols := by cases op <;> decide
    refine ⟨_, .parens whole, fun rest _ => ?_⟩
    have text : (Expr.arith op l r).source ++ rest =
        '(' :: (l.source ++ ' ' :: op.symbol :: ' ' :: (r.source ++ ')' :: rest)) := by
      simp [source]
    have tokens : ts ++ .symbol op.symbol :: us ++ [.symbol ')'] =
        ts ++ (.symbol op.symbol :: (us ++ [.symbol ')'])) := by simp
    rw [text, tokens]
    refine scans_symbol (by decide) ((scansLeft _ (stops_cons.2 (by decide))).trans ?_)
    refine scans_blank (scans_symbol symbol (scans_blank ?_))
    refine (scansRight _ (stops_cons.2 (by decide))).trans ?_
    exact scans_symbol (by decide) (Scans.refl rest)
  | neg e ih =>
    obtain ⟨ts, derives, scans⟩ := ih h
    have whole : Derives .sum (.symbol '-' :: ts) (.neg e) :=
      .product (.unary (.neg (.atom derives)))
    refine ⟨_, .parens whole, fun rest _ => ?_⟩
    have text : e.neg.source ++ rest = '(' :: '-' :: (e.source ++ ')' :: rest) := by simp [source]
    rw [text]
    refine scans_symbol (by decide) (scans_symbol (by decide) ?_)
    refine (scans _ (stops_cons.2 (by decide))).trans ?_
    exact scans_symbol (by decide) (Scans.refl rest)

theorem isName_keyword : IsName "print" ∧ IsName "del" ∧ IsName "print_log" := by
  refine ⟨⟨_, _, rfl, ?_, List.all_eq_true.1 ?_⟩, ⟨_, _, rfl, ?_, List.all_eq_true.1 ?_⟩,
    ⟨_, _, rfl, ?_, List.all_eq_true.1 ?_⟩⟩ <;> decide

/-- The text of a statement is that of the statement. -/
theorem Statement.exists_isStatement (h : s.IsLegible) :
    ∃ ts, IsStatement ts s ∧ ∀ rest, Scans (s.source ++ rest) ts rest := by
  obtain ⟨isPrint, isDelete, isPrintLog⟩ := isName_keyword
  have named {word name : String} {rest : List Char} (isWord : IsName word) (isName : IsName name) :
      Scans (word.toList ++ ' ' :: (name.toList ++ ';' :: rest))
        [.name word, .name name, .symbol ';'] rest := by
    refine (isWord.lexeme (stops_cons.2 (by decide))).scans (scans_blank ?_)
    refine (isName.lexeme (stops_cons.2 (by decide))).scans ?_
    exact scans_symbol (by decide) (Scans.refl rest)
  cases s with
  | printLog =>
    refine ⟨_, .printLog, fun rest => ?_⟩
    have text : Statement.printLog.source = "print_log".toList ++ [';'] := by decide
    rw [text, List.append_assoc]
    refine (isPrintLog.lexeme (stops_cons.2 (by decide))).scans ?_
    exact scans_symbol (by decide) (Scans.refl rest)
  | print name =>
    refine ⟨_, .print name, fun rest => ?_⟩
    have word : "print ".toList = "print".toList ++ [' '] := by decide
    show Scans ("print ".toList ++ name.toList ++ [';'] ++ rest) _ rest
    simp only [word, List.append_assoc, List.cons_append, List.nil_append]
    exact named isPrint h
  | delete name =>
    refine ⟨_, .delete name, fun rest => ?_⟩
    have word : "del ".toList = "del".toList ++ [' '] := by decide
    show Scans ("del ".toList ++ name.toList ++ [';'] ++ rest) _ rest
    simp only [word, List.append_assoc, List.cons_append, List.nil_append]
    exact named isDelete h
  | assign target e =>
    obtain ⟨isName, other, legible⟩ := h
    obtain ⟨ts, derives, scans⟩ := e.exists_derives legible
    refine ⟨_, .assign other (.product (.unary (.atom derives))), fun rest => ?_⟩
    show Scans (target.toList ++ [' ', '=', ' '] ++ e.source ++ [';'] ++ rest) _ rest
    simp only [List.append_assoc, List.cons_append, List.nil_append]
    refine (isName.lexeme (stops_cons.2 (by decide))).scans (scans_blank ?_)
    refine scans_symbol (by decide) (scans_blank ((scans _ (stops_cons.2 (by decide))).trans ?_))
    exact scans_symbol (by decide) (Scans.refl rest)

/-- The texts of statements with white space between them spell the program. -/
theorem exists_isProgram {parts : List (Statement × List Char)}
    (legible : ∀ part ∈ parts, part.1.IsLegible) (blanks : ∀ part ∈ parts, Blanks part.2) :
    ∃ ts, IsProgram ts (parts.map Prod.fst) ∧ Scans (sourceOf parts) ts [] := by
  induction parts with
  | nil => exact ⟨[], .nil, Scans.refl []⟩
  | cons part parts ih =>
    obtain ⟨us, isProgram, scans⟩ := ih
      (fun other member => legible other (List.mem_cons_of_mem _ member))
      fun other member => blanks other (List.mem_cons_of_mem _ member)
    obtain ⟨ts, isStatement, first⟩ := part.1.exists_isStatement (legible part List.mem_cons_self)
    have behind := scans.append_blanks (blanks part List.mem_cons_self)
    refine ⟨ts ++ us, .cons isStatement isProgram, ?_⟩
    have text : sourceOf (part :: parts) = part.1.source ++ (part.2 ++ sourceOf parts) := by
      simp [sourceOf]
    rw [text]
    exact (first _).trans behind

/-- A program is read back from the texts of its statements, whatever white space stands in front of
them and behind each. -/
theorem run_printed (lead : List Char) (parts : List (Statement × List Char)) (blank : Blanks lead)
    (blanks : ∀ part ∈ parts, Blanks part.2) (legible : ∀ part ∈ parts, part.1.IsLegible) :
    Parse.run (lead ++ sourceOf parts) = .ok (parts.map Prod.fst) := by
  obtain ⟨ts, isProgram, scans⟩ := exists_isProgram legible blanks
  exact run_of_spelling ⟨ts, scans.append_blanks blank, isProgram⟩

/-- A program whose names are the words of statements, with and without white space between its
statements. -/
theorem run_printed_words :
    Parse.run "\nprint = (-(del * \"\\té\"));print print_log; \tprint_log;del print;".toList =
      .ok [.assign "print" (.neg (.arith .mul (.var "del") (.str [9, 0xc3, 0xa9]))), .print "print_log",
        .printLog, .delete "print"] := by
  obtain ⟨isPrint, isDelete, isPrintLog⟩ := isName_keyword
  have legible : IsLegible [9, 0xc3, 0xa9] := by
    refine ⟨['\t', 'é'], by decide, ?_⟩
    rw [List.forall_mem_cons, List.forall_mem_singleton]
    decide +kernel
  have text : "\nprint = (-(del * \"\\té\"));print print_log; \tprint_log;del print;".toList =
      ['\n'] ++ sourceOf
        [(.assign "print" (.neg (.arith .mul (.var "del") (.str [9, 0xc3, 0xa9]))), []),
          (.print "print_log", [' ', '\t']), (.printLog, []), (.delete "print", [])] := by
    decide +kernel
  rw [text]
  apply run_printed
  · simp [Blanks]
    decide
  · simp [Blanks]
    decide
  · simp [Statement.IsLegible, Expr.IsLegible, isPrint, isDelete, isPrintLog, legible]

end Osl
