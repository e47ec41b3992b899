import Osl.Parse.Grammar
import Osl.Proofs.Parse.Success

/-!
# The language of programs

What a source text means, without a parser: `Scans` cuts a text into tokens with white space between
them, `Derives` builds expressions from tokens, and `IsStatement` and `IsProgram` statements and
programs. Names are cut as long as they can be; operators group from the left because only the left
operand of an operator may be a chain of the same kind.
-/

namespace Osl.Parse
set_option autoImplicit false

/-! ## Tokens -/

/-- A token. -/
inductive Token
  | name (text : String)
  | decimal (n : Word)
  | string (content : List Byte)
  | symbol (c : Char)
  deriving DecidableEq

/-- The symbols of the language. -/
def symbols : List Char := [';', '=', '+', '-', '*', '(', ')']

/-- What may follow the backslash in a string, and the byte that it means. -/
inductive Escape : List Char → Byte → Prop
  | backslash : Escape ['\\'] 0x5c
  | quote : Escape ['"'] 0x22
  | newline : Escape ['n'] 0x0a
  | tab : Escape ['t'] 0x09
  | carriageReturn : Escape ['r'] 0x0d
  | zero : Escape ['0'] 0x00
  | hex {c d : Char} {high low : Nat} : Numeral.digitValue? c = some high →
      Numeral.digitValue? d = some low → Escape ['x', c, d] (.ofNat (high * 16 + low))

/-- What may stand between the quotes of a string, and the bytes that it means. -/
inductive Content : List Char → List Byte → Prop
  | nil : Content [] []
  | plain {c : Char} {cs : List Char} {bs : List Byte} : c ≠ '"' → c ≠ '\\' → Content cs bs →
      Content (c :: cs) (String.utf8EncodeChar c ++ bs)
  | escape {e cs : List Char} {b : Byte} {bs : List Byte} : Escape e b → Content cs bs →
      Content ('\\' :: (e ++ cs)) (b :: bs)

/-- How a token is spelled. -/
inductive Spells : List Char → Token → Prop
  | name {c : Char} {cs : List Char} : isNameStart c → (∀ d ∈ cs, isNamePart d) →
      Spells (c :: cs) (.name (String.ofList (c :: cs)))
  | decimal {c : Char} {cs : List Char} : c.isDigit → (∀ d ∈ cs, d.isDigit) → (c = '0' → cs = []) →
      Numeral.value 10 (c :: cs) < UInt64.size →
      Spells (c :: cs) (.decimal (.ofNat (Numeral.value 10 (c :: cs))))
  | string {cs : List Char} {content : List Byte} : Content cs content →
      Spells ('"' :: (cs ++ ['"'])) (.string content)
  | symbol {c : Char} : c ∈ symbols → Spells [c] (.symbol c)

/-- The token may end in front of the text: a name goes on as long as it can. -/
def Token.EndsAt : Token → List Char → Prop
  | .name _, rest => Stops isNamePart rest
  | .decimal _, _ | .string _, _ | .symbol _, _ => True

/-- The text starts with the token and goes on with `rest`. -/
def Lexeme (cs : List Char) (t : Token) (rest : List Char) : Prop :=
  ∃ body, cs = body ++ rest ∧ Spells body t ∧ t.EndsAt rest

/-- White space. -/
def Blanks (cs : List Char) : Prop := ∀ c ∈ cs, Blank.isBlank c

/-- The text starts with the tokens, white space around them, and goes on with `rest`. -/
inductive Scans : List Char → List Token → List Char → Prop
  | nil {bs rest : List Char} : Blanks bs → Scans (bs ++ rest) [] rest
  | cons {bs cs mid rest : List Char} {t : Token} {ts : List Token} : Blanks bs → Lexeme cs t mid →
      Scans mid ts rest → Scans (bs ++ cs) (t :: ts) rest

/-! ## Programs -/

/-- The kinds of expressions, those that bind tightest last. -/
inductive Level
  | sum
  | product
  | unary
  | atom

/-- The tokens are those of an expression of a kind. -/
inductive Derives : Level → List Token → Expr → Prop
  | int (n : Word) : Derives .atom [.decimal n] (.int n)
  | str (content : List Byte) : Derives .atom [.string content] (.str content)
  | var (name : String) : Derives .atom [.name name] (.var name)
  | parens {ts : List Token} {e : Expr} : Derives .sum ts e →
      Derives .atom (.symbol '(' :: (ts ++ [.symbol ')'])) e
  | atom {ts : List Token} {e : Expr} : Derives .atom ts e → Derives .unary ts e
  | neg {ts : List Token} {e : Expr} : Derives .unary ts e → Derives .unary (.symbol '-' :: ts) (.neg e)
  | unary {ts : List Token} {e : Expr} : Derives .unary ts e → Derives .product ts e
  | mul {ts us : List Token} {l r : Expr} : Derives .product ts l → Derives .unary us r →
      Derives .product (ts ++ .symbol '*' :: us) (.arith .mul l r)
  | product {ts : List Token} {e : Expr} : Derives .product ts e → Derives .sum ts e
  | addSub {op : Arith} {ts us : List Token} {l r : Expr} : op ≠ .mul → Derives .sum ts l →
      Derives .product us r → Derives .sum (ts ++ .symbol op.symbol :: us) (.arith op l r)

/-- The tokens are those of a statement. A name that is read as the statement `print_log` cannot be
assigned to. -/
inductive IsStatement : List Token → Statement → Prop
  | printLog : IsStatement [.name "print_log", .symbol ';'] .printLog
  | print (name : String) : IsStatement [.name "print", .name name, .symbol ';'] (.print name)
  | delete (name : String) : IsStatement [.name "del", .name name, .symbol ';'] (.delete name)
  | assign {target : String} {ts : List Token} {e : Expr} : target ≠ "print_log" → Derives .sum ts e →
      IsStatement (.name target :: .symbol '=' :: (ts ++ [.symbol ';'])) (.assign target e)

/-- The tokens are those of a program. -/
inductive IsProgram : List Token → Program → Prop
  | nil : IsProgram [] []
  | cons {ts us : List Token} {s : Statement} {p : Program} : IsStatement ts s → IsProgram us p →
      IsProgram (ts ++ us) (s :: p)

/-- The text is that of a program. -/
def Spelling (source : List Char) (p : Program) : Prop :=
  ∃ ts, Scans source ts [] ∧ IsProgram ts p

/-! ## White space -/

variable {cs mid rest bs : List Char} {t : Token} {ts us : List Token}

theorem skip_append (blanks : Blanks bs) (cs : List Char) : skip (bs ++ cs) = skip cs :=
  List.dropWhile_append_of_pos blanks

theorem exists_skip (cs : List Char) : ∃ bs, Blanks bs ∧ cs = bs ++ skip cs :=
  ⟨cs.takeWhile Blank.isBlank, List.all_eq_true.1 List.all_takeWhile,
    List.takeWhile_append_dropWhile.symm⟩

theorem skip_of_stops (stops : Stops Blank.isBlank cs) : skip cs = cs := stops.dropWhile_eq

theorem length_skip_le (cs : List Char) : (skip cs).length ≤ cs.length :=
  (List.dropWhile_sublist Blank.isBlank).length_le

theorem skip_skip (cs : List Char) : skip (skip cs) = skip cs :=
  skip_of_stops (stops_dropWhile Blank.isBlank cs)

theorem Blanks.append {bs' : List Char} (h : Blanks bs) (h' : Blanks bs') : Blanks (bs ++ bs') := by
  intro c member
  rcases List.mem_append.1 member with first | second
  · exact h c first
  · exact h' c second

/-- The characters from the first to the last that are printed in ASCII are no white space. -/
theorem isBlank_of_ascii {c : Char} (low : 0x20 < c.toNat) (high : c.toNat < 0x7f) :
    Blank.isBlank c = false := by
  simp [Blank.isBlank, Blank.ranges, CodePoint.Ranges.holds]
  omega

/-! ## The first character of a token -/

theorem ascii_of_isNameStart {c : Char} (h : isNameStart c = true) :
    0x40 < c.toNat ∧ c.toNat < 0x7b := by
  rcases Bool.or_eq_true_iff.1 h with letter | underscore
  · rcases Bool.or_eq_true_iff.1 letter with upper | lower
    · obtain ⟨first, last⟩ : 'A'.val ≤ c.val ∧ c.val ≤ 'Z'.val := of_decide_eq_true upper
      have low : 0x41 ≤ c.toNat := first
      have high : c.toNat ≤ 0x5a := last
      omega
    · obtain ⟨first, last⟩ := Bool.and_eq_true_iff.1 lower
      have low : 0x61 ≤ c.toNat := of_decide_eq_true first
      have high : c.toNat ≤ 0x7a := of_decide_eq_true last
      omega
  · rw [beq_iff_eq.1 underscore]
    decide

theorem ascii_of_isDigit {c : Char} (h : c.isDigit = true) : 0x2f < c.toNat ∧ c.toNat < 0x3a := by
  simp only [Char.isDigit, Bool.and_eq_true, decide_eq_true_eq, UInt32.le_iff_toNat_le] at h
  have low : 0x30 ≤ c.toNat := h.1
  have high : c.toNat ≤ 0x39 := h.2
  omega

/-- The characters a token may start with. -/
def Token.StartsWith : Token → Char → Prop
  | .name _, c => isNameStart c
  | .decimal _, c => c.isDigit
  | .string _, c => c = '"'
  | .symbol s, c => c = s ∧ s ∈ symbols

theorem Lexeme.exists_cons (h : Lexeme cs t rest) :
    ∃ c more, cs = c :: more ∧ t.StartsWith c ∧ rest.length ≤ more.length := by
  obtain ⟨body, rfl, spells, -⟩ := h
  cases spells with
  | name start _ => exact ⟨_, _, rfl, start, by simp⟩
  | decimal digit _ _ _ => exact ⟨_, _, rfl, digit, by simp⟩
  | string _ => exact ⟨_, _, rfl, rfl, by simp; omega⟩
  | symbol member => exact ⟨_, _, rfl, ⟨rfl, member⟩, by simp⟩

/-- No token starts with white space. -/
theorem Token.StartsWith.isBlank {c : Char} (h : t.StartsWith c) : Blank.isBlank c = false := by
  cases t with
  | name n =>
    have ascii := ascii_of_isNameStart h
    exact isBlank_of_ascii (by omega) (by omega)
  | decimal n =>
    have ascii := ascii_of_isDigit h
    exact isBlank_of_ascii (by omega) (by omega)
  | string content =>
    have same : c = '"' := h
    rw [same]
    decide
  | symbol s =>
    obtain ⟨rfl, member⟩ := h
    simp only [symbols, List.mem_cons, List.not_mem_nil, or_false] at member
    rcases member with rfl | rfl | rfl | rfl | rfl | rfl | rfl <;> decide

theorem Lexeme.skip_eq (h : Lexeme cs t rest) : skip cs = cs := by
  obtain ⟨c, more, rfl, starts, -⟩ := h.exists_cons
  exact skip_of_stops (stops_cons.2 starts.isBlank)

theorem Lexeme.length_lt (h : Lexeme cs t rest) : rest.length < cs.length := by
  obtain ⟨c, more, rfl, -, shorter⟩ := h.exists_cons
  exact Nat.lt_succ_of_le shorter

/-- Only a symbol starts as it does. -/
theorem Token.StartsWith.eq_symbol {c : Char} (h : t.StartsWith c) (member : c ∈ symbols) :
    t = .symbol c := by
  have small : c.toNat < 0x30 ∨ c = ';' ∨ c = '=' := by
    simp only [symbols, List.mem_cons, List.not_mem_nil, or_false] at member
    rcases member with rfl | rfl | rfl | rfl | rfl | rfl | rfl <;> decide
  cases t with
  | name n =>
    have ascii := ascii_of_isNameStart h
    rcases small with low | rfl | rfl
    · omega
    · exact absurd ascii.1 (by decide)
    · exact absurd ascii.1 (by decide)
  | decimal w =>
    have ascii := ascii_of_isDigit h
    rcases small with low | rfl | rfl
    · omega
    · exact absurd ascii.2 (by decide)
    · exact absurd ascii.2 (by decide)
  | string content =>
    have same : c = '"' := h
    subst same
    exact absurd member (by decide)
  | symbol s => rw [h.1]

/-- A symbol is followed by what is left. -/
theorem lexeme_symbol_iff {c : Char} : Lexeme cs (.symbol c) rest ↔ cs = c :: rest ∧ c ∈ symbols := by
  constructor
  · rintro ⟨body, rfl, spells, -⟩
    cases spells with
    | symbol member => exact ⟨rfl, member⟩
  · rintro ⟨rfl, member⟩
    exact ⟨[c], rfl, .symbol member, trivial⟩

/-! ## Scanning -/

namespace Scans

theorem refl (cs : List Char) : Scans cs [] cs := by
  have none : Scans ([] ++ cs) [] cs := .nil (List.forall_mem_nil _)
  exact none

theorem append_blanks (blanks : Blanks bs) (h : Scans cs ts rest) : Scans (bs ++ cs) ts rest := by
  cases h with
  | nil blanks' =>
    rw [← List.append_assoc]
    exact .nil (blanks.append blanks')
  | cons blanks' lexeme more =>
    rw [← List.append_assoc]
    exact .cons (blanks.append blanks') lexeme more

theorem trans (h : Scans cs ts mid) (h' : Scans mid us rest) : Scans cs (ts ++ us) rest := by
  induction h with
  | nil blanks => exact h'.append_blanks blanks
  | cons blanks lexeme _ ih => exact .cons blanks lexeme (ih h')

/-- White space in front of the text does not matter. -/
theorem of_skip (h : Scans (skip cs) ts rest) : Scans cs ts rest := by
  obtain ⟨bs, blanks, split⟩ := exists_skip cs
  rw [split]
  exact h.append_blanks blanks

theorem to_skip (h : Scans cs ts rest) : Scans cs ts (skip rest) := by
  obtain ⟨bs, blanks, split⟩ := exists_skip rest
  have trailing : Scans rest [] (skip rest) := by
    conv => arg 1; rw [split]
    exact .nil blanks
  have both := h.trans trailing
  rwa [List.append_nil] at both

/-- A token with white space in front of it. -/
theorem of_lexeme (h : Lexeme (skip cs) t mid) (h' : Scans mid ts rest) : Scans cs (t :: ts) rest := by
  have scans : Scans ([] ++ skip cs) (t :: ts) rest := .cons (List.forall_mem_nil _) h h'
  exact scans.of_skip

/-- A single token, white space around it. -/
theorem one (h : Lexeme (skip cs) t rest) : Scans cs [t] (skip rest) :=
  (of_lexeme h (.refl rest)).to_skip

theorem skip_eq (h : Scans cs [] rest) : skip cs = skip rest := by
  cases h with
  | nil blanks => exact skip_append blanks rest

/-- The first of several tokens. -/
theorem exists_lexeme (h : Scans cs (t :: ts) rest) :
    ∃ mid, Lexeme (skip cs) t mid ∧ Scans mid ts rest := by
  cases h with
  | cons blanks lexeme more =>
    rw [skip_append blanks, lexeme.skip_eq]
    exact ⟨_, lexeme, more⟩

theorem from_skip (h : Scans cs ts rest) (nonempty : ts ≠ []) : Scans (skip cs) ts rest := by
  cases ts with
  | nil => exact absurd rfl nonempty
  | cons t ts =>
    obtain ⟨mid, lexeme, more⟩ := h.exists_lexeme
    exact of_lexeme (by rwa [skip_skip]) more

theorem split (h : Scans cs (ts ++ us) rest) : ∃ mid, Scans cs ts mid ∧ Scans mid us rest := by
  induction ts generalizing cs with
  | nil => exact ⟨cs, .refl cs, h⟩
  | cons t ts ih =>
    cases h with
    | cons blanks lexeme more =>
      obtain ⟨mid, first, second⟩ := ih more
      exact ⟨mid, .cons blanks lexeme first, second⟩

theorem length_le (h : Scans cs ts rest) : ts.length + rest.length ≤ cs.length := by
  induction h with
  | nil blanks => simp
  | cons blanks lexeme _ ih =>
    have shorter := lexeme.length_lt
    simp only [List.length_cons, List.length_append]
    omega

end Scans

end Osl.Parse
