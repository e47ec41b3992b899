import Osl.Parse.Combinator

/-!
# What parsers read

Where a text stands in the source matters for failures only. `Reads p cs a rest` says that `p` reads
the value `a` off the text `cs` wherever that stands and leaves `rest`, `Refuses p cs` that it fails,
and `MayRead` that it has read so somewhere. There is a law for each combinator: what it reads if its
parts read, when it refuses, and what its parts have read if it has read.
-/

namespace Osl.Parse
set_option autoImplicit false

variable {α β γ : Type} {cs mid rest : List Char} {a : α} {b : β} {p p' : Parser α} {q : Parser β}

/-- Wherever `cs` stands, the parser reads `a` off it and leaves `rest`. -/
def Reads (p : Parser α) (cs : List Char) (a : α) (rest : List Char) : Prop :=
  ∀ pos, ∃ pos' missed, p ⟨pos, cs⟩ = .ok a ⟨pos', rest⟩ missed

/-- Wherever `cs` stands, the parser fails. -/
def Refuses (p : Parser α) (cs : List Char) : Prop := ∀ pos, ∃ e, p ⟨pos, cs⟩ = .failed e

/-- Somewhere the parser reads `a` off `cs` and leaves `rest`. -/
def MayRead (p : Parser α) (cs : List Char) (a : α) (rest : List Char) : Prop :=
  ∃ pos pos' missed, p ⟨pos, cs⟩ = .ok a ⟨pos', rest⟩ missed

theorem MayRead.unique {a' : α} {rest' : List Char} (h : MayRead p cs a rest)
    (h' : Reads p cs a' rest') : a = a' ∧ rest = rest' := by
  obtain ⟨pos, pos', missed, read⟩ := h
  obtain ⟨pos'', missed', read'⟩ := h' pos
  rw [read] at read'
  cases read'
  exact ⟨rfl, rfl⟩

theorem MayRead.not_refuses (h : MayRead p cs a rest) : ¬ Refuses p cs := by
  intro refuses
  obtain ⟨pos, pos', missed, read⟩ := h
  obtain ⟨e, failed⟩ := refuses pos
  rw [read] at failed
  cases failed

/-- The text behind leading white space. -/
def skip (cs : List Char) : List Char := cs.dropWhile Blank.isBlank

theorem Cursor.skipBlanks_eq (s : Cursor) : ∃ pos, s.skipBlanks = ⟨pos, skip s.rest⟩ := by
  have split : s.rest.takeWhile Blank.isBlank ++ skip s.rest = s.rest :=
    List.takeWhile_append_dropWhile
  have dropped : (s.rest.takeWhile Blank.isBlank ++ skip s.rest).drop
      (s.rest.takeWhile Blank.isBlank).length = skip s.rest := List.drop_left
  rw [split] at dropped
  exact ⟨_, by rw [skipBlanks, dropped]⟩

/-- The text does not go on with a character of the class. -/
def Stops (test : Char → Bool) (cs : List Char) : Prop := ∀ c ∈ cs.head?, test c = false

theorem stops_nil (test : Char → Bool) : Stops test [] := by
  intro c first
  cases first

theorem stops_cons {test : Char → Bool} {c : Char} : Stops test (c :: cs) ↔ test c = false := by
  simp [Stops]

theorem stops_dropWhile (test : Char → Bool) (cs : List Char) : Stops test (cs.dropWhile test) := by
  intro c first
  have head := List.head?_dropWhile_not test cs
  rw [Option.mem_def.1 first] at head
  exact head

theorem Stops.dropWhile_eq {test : Char → Bool} (stops : Stops test cs) : cs.dropWhile test = cs := by
  cases cs with
  | nil => rfl
  | cons c cs => exact List.dropWhile_cons_of_neg (by simpa using stops_cons.1 stops)

/-- The characters of a class in front of a text. -/
theorem takeWhile_append_eq {test : Char → Bool} {ds : List Char} (all : ∀ d ∈ ds, test d)
    (stops : Stops test rest) :
    (ds ++ rest).takeWhile test = ds ∧ (ds ++ rest).dropWhile test = rest := by
  have dropped : (ds ++ rest).dropWhile test = rest := by
    rw [List.dropWhile_append_of_pos all, stops.dropWhile_eq]
  have whole := (List.takeWhile_append_dropWhile : (ds ++ rest).takeWhile test ++ _ = ds ++ rest)
  rw [dropped] at whole
  exact ⟨List.append_cancel_right whole, dropped⟩

/-! ## Characters -/

section Characters

variable {test : Char → Bool} {expected : List Expected} {c : Char}

theorem reads_charWhere (holds : test c = true) : Reads (charWhere test expected) (c :: cs) c cs :=
  fun pos => ⟨pos + 1, none, by simp only [charWhere, holds, if_true]⟩

theorem refuses_charWhere (stops : Stops test cs) : Refuses (charWhere test expected) cs := by
  intro pos
  cases cs with
  | nil => exact ⟨_, rfl⟩
  | cons c cs =>
    have failed : test c = false := stops c rfl
    exact ⟨_, by simp only [charWhere, failed, Bool.false_eq_true, if_false]; rfl⟩

theorem reads_just : Reads (just c) (c :: cs) c cs := reads_charWhere (beq_self_eq_true c)

theorem refuses_just (other : cs.head? ≠ some c) : Refuses (just c) cs := by
  refine refuses_charWhere fun d first => ?_
  rw [Option.mem_def] at first
  rw [first, ne_eq, Option.some.injEq] at other
  exact beq_false_of_ne other

end Characters

theorem reads_endOfSource : Reads endOfSource [] () [] := fun pos => ⟨pos, none, rfl⟩

theorem Reads.map (f : α → β) (h : Reads p cs a rest) : Reads (map f p) cs (f a) rest := by
  intro pos
  obtain ⟨pos', missed, read⟩ := h pos
  exact ⟨pos', missed, by simp only [Parse.map, read]⟩

theorem Refuses.map (f : α → β) (h : Refuses p cs) : Refuses (map f p) cs := by
  intro pos
  obtain ⟨e, failed⟩ := h pos
  exact ⟨e, by simp only [Parse.map, failed]⟩

theorem Reads.refine {f : α → Except Reason β} (h : Reads p cs a rest) (done : f a = .ok b) :
    Reads (refine f p) cs b rest := by
  intro pos
  obtain ⟨pos', missed, read⟩ := h pos
  exact ⟨pos', missed, by simp only [Parse.refine, read, done]⟩

theorem Refuses.refine {f : α → Except Reason β} (h : Refuses p cs) : Refuses (refine f p) cs := by
  intro pos
  obtain ⟨e, failed⟩ := h pos
  exact ⟨e, by simp only [Parse.refine, failed]⟩

/-- Reading a value that does not convert. -/
theorem Reads.refuses_refine {f : α → Except Reason β} {reason : Reason} (h : Reads p cs a rest)
    (failed : f a = .error reason) : Refuses (Parse.refine f p) cs := by
  intro pos
  obtain ⟨pos', missed, read⟩ := h pos
  exact ⟨_, by simp only [Parse.refine, read, failed]; rfl⟩

theorem Reads.padded (h : Reads p (skip cs) a rest) : Reads (padded p) cs a (skip rest) := by
  intro pos
  obtain ⟨pos₁, blanks⟩ := Cursor.skipBlanks_eq ⟨pos, cs⟩
  obtain ⟨pos₂, missed, read⟩ := h pos₁
  obtain ⟨pos₃, blanks'⟩ := Cursor.skipBlanks_eq ⟨pos₂, rest⟩
  exact ⟨pos₃, missed, by simp only [Parse.padded, blanks, read, blanks']⟩

theorem Refuses.padded (h : Refuses p (skip cs)) : Refuses (padded p) cs := by
  intro pos
  obtain ⟨pos₁, blanks⟩ := Cursor.skipBlanks_eq ⟨pos, cs⟩
  obtain ⟨e, failed⟩ := h pos₁
  exact ⟨e, by simp only [Parse.padded, blanks, failed]⟩

theorem Reads.labelled (label : String) (h : Reads p cs a rest) : Reads (labelled label p) cs a rest := by
  intro pos
  obtain ⟨pos', missed, read⟩ := h pos
  exact ⟨pos', missed, by simp only [Parse.labelled, read]⟩

theorem Refuses.labelled (label : String) (h : Refuses p cs) : Refuses (labelled label p) cs := by
  intro pos
  obtain ⟨e, failed⟩ := h pos
  exact ⟨e.labelled label, by simp only [Parse.labelled, failed]⟩

theorem Reads.both (h : Reads p cs a mid) (h' : Reads q mid b rest) :
    Reads (Parse.both p q) cs (a, b) rest := by
  intro pos
  obtain ⟨pos₁, missed, read⟩ := h pos
  obtain ⟨pos₂, missed', read'⟩ := h' pos₁
  exact ⟨pos₂, _, by simp only [Parse.both, read, read']; rfl⟩

theorem Refuses.both (h : Refuses p cs) : Refuses (Parse.both p q) cs := by
  intro pos
  obtain ⟨e, failed⟩ := h pos
  exact ⟨e, by simp only [Parse.both, failed]⟩

theorem Reads.refuses_both (h : Reads p cs a mid) (h' : Refuses q mid) :
    Refuses (Parse.both p q) cs := by
  intro pos
  obtain ⟨pos₁, missed, read⟩ := h pos
  obtain ⟨e, failed⟩ := h' pos₁
  exact ⟨e.furthest missed, by simp only [Parse.both, read, failed]⟩

theorem Reads.right (h : Reads p cs a mid) (h' : Reads q mid b rest) : Reads (right p q) cs b rest :=
  (h.both h').map Prod.snd

theorem Reads.left (h : Reads p cs a mid) (h' : Reads q mid b rest) : Reads (left p q) cs a rest :=
  (h.both h').map Prod.fst

section Between

variable {opening closing : Char}

theorem Reads.between (h : Reads p cs a (closing :: rest)) :
    Reads (between opening closing p) (opening :: cs) a rest :=
  (reads_just.right h).left reads_just

theorem refuses_between (other : cs.head? ≠ some opening) : Refuses (between opening closing p) cs :=
  ((refuses_just other).both.map Prod.snd).both.map Prod.fst

end Between

/-! ## Alternatives -/

theorem Reads.orElse (h : Reads p cs a rest) : Reads (orElse p p') cs a rest := by
  intro pos
  obtain ⟨pos', missed, read⟩ := h pos
  exact ⟨pos', missed, by simp only [Parse.orElse, read]⟩

theorem Refuses.reads_orElse (h : Refuses p cs) (h' : Reads p' cs a rest) :
    Reads (Parse.orElse p p') cs a rest := by
  intro pos
  obtain ⟨e, failed⟩ := h pos
  obtain ⟨pos', missed, read⟩ := h' pos
  exact ⟨pos', _, by simp only [Parse.orElse, failed, read]; rfl⟩

theorem Refuses.orElse (h : Refuses p cs) (h' : Refuses p' cs) : Refuses (Parse.orElse p p') cs := by
  intro pos
  obtain ⟨e, failed⟩ := h pos
  obtain ⟨f, failed'⟩ := h' pos
  exact ⟨e.furthest (some f), by simp only [Parse.orElse, failed, failed']⟩

variable {ps : List (Parser α)} {failed : Option Failure}

theorem Reads.choiceAfter (h : Reads p cs a rest) : Reads (choiceAfter failed (p :: ps)) cs a rest := by
  intro pos
  obtain ⟨pos', missed, read⟩ := h pos
  exact ⟨pos', missed, by simp only [Parse.choiceAfter, read]⟩

/-- An alternative that refuses is passed over, whatever failed before it. -/
theorem Refuses.reads_choiceAfter (h : Refuses p cs)
    (h' : ∀ failed, Reads (Parse.choiceAfter failed ps) cs a rest) :
    Reads (Parse.choiceAfter failed (p :: ps)) cs a rest := by
  intro pos
  obtain ⟨e, refused⟩ := h pos
  obtain ⟨pos', missed, read⟩ := h' (Failure.later failed (some e)) pos
  exact ⟨pos', missed, by simp only [Parse.choiceAfter, refused, read]⟩

theorem refuses_choiceAfter (h : ∀ p ∈ ps, Refuses p cs) : Refuses (choiceAfter failed ps) cs := by
  induction ps generalizing failed with
  | nil => exact fun pos => ⟨_, rfl⟩
  | cons p ps ih =>
    intro pos
    obtain ⟨e, refused⟩ := h p List.mem_cons_self pos
    have later : Refuses (Parse.choiceAfter (Failure.later failed (some e)) ps) cs :=
      ih fun p' member => h p' (List.mem_cons_of_mem _ member)
    obtain ⟨f, rest⟩ := later pos
    exact ⟨f, by simp only [choiceAfter, refused, rest]⟩

/-- `R` leads from one text over the values of a list to another. -/
inductive Runs (R : List Char → α → List Char → Prop) : List Char → List α → List Char → Prop
  | nil (cs : List Char) : Runs R cs [] cs
  | cons {cs mid rest : List Char} {a : α} {as : List α} :
      R cs a mid → Runs R mid as rest → Runs R cs (a :: as) rest

/-- The parser reads again and again, and takes a character each time. -/
def Leads (p : Parser α) : List Char → List α → List Char → Prop :=
  Runs fun cs a rest => Reads p cs a rest ∧ rest.length < cs.length

variable {as : List α}

theorem Runs.concat {R : List Char → α → List Char → Prop} (h : Runs R cs as mid) (last : R mid a rest) :
    Runs R cs (as ++ [a]) rest := by
  induction h with
  | nil cs => exact .cons last (.nil rest)
  | cons first _ ih => exact .cons first (ih last)

theorem Leads.length_le (h : Leads p cs as rest) : as.length + rest.length ≤ cs.length := by
  induction h with
  | nil cs => exact Nat.le_of_eq (Nat.zero_add _)
  | cons first _ ih =>
    have shorter := first.2
    rw [List.length_cons]
    omega

theorem manyWithin_of_leads (h : Leads p cs as rest) (stops : Refuses p rest) {budget : List Char}
    (enough : as.length ≤ budget.length) (missed : Option Failure) (pos : Nat) :
    ∃ pos' missed', manyWithin p budget missed ⟨pos, cs⟩ = (as, ⟨pos', rest⟩, missed') := by
  induction h generalizing budget missed pos with
  | nil cs =>
    cases budget with
    | nil => exact ⟨pos, missed, rfl⟩
    | cons c budget =>
      obtain ⟨e, refused⟩ := stops pos
      exact ⟨pos, _, by simp only [manyWithin, refused]; rfl⟩
  | cons first _ ih =>
    cases budget with
    | nil => simp at enough
    | cons c budget =>
      obtain ⟨pos₁, missed₁, read⟩ := first.1 pos
      obtain ⟨pos₂, missed₂, ran⟩ := ih stops (Nat.le_of_succ_le_succ enough)
        (Failure.later missed missed₁) pos₁
      exact ⟨pos₂, missed₂, by simp only [manyWithin, read, ran]⟩

theorem Leads.many (h : Leads p cs as rest) (stops : Refuses p rest) : Reads (many p) cs as rest := by
  intro pos
  have length := h.length_le
  have enough : as.length ≤ (' ' :: cs).length := by
    rw [List.length_cons]
    omega
  obtain ⟨pos', missed, ran⟩ := manyWithin_of_leads h stops enough none pos
  exact ⟨pos', missed, by simp only [Parse.many, Cursor.budget, ran]⟩

/-- As many characters of a class as there are. -/
theorem reads_many_satisfy (test : Char → Bool) (cs : List Char) :
    Reads (many (satisfy test)) cs (cs.takeWhile test) (cs.dropWhile test) := by
  have leads : Leads (satisfy test) cs (cs.takeWhile test) (cs.dropWhile test) := by
    induction cs with
    | nil => exact .nil []
    | cons c cs ih =>
      by_cases holds : test c = true
      · rw [List.takeWhile_cons_of_pos holds, List.dropWhile_cons_of_pos holds]
        exact .cons ⟨reads_charWhere holds, Nat.lt_succ_self _⟩ ih
      · rw [List.takeWhile_cons_of_neg holds, List.dropWhile_cons_of_neg holds]
        exact .nil _
  exact leads.many (refuses_charWhere (stops_dropWhile test cs))

/-! ## Chains -/

variable {f : α → β → α} {bs : List β}

theorem Reads.chain {p : Parser α} {a : α} (h : Reads p cs a mid) (h' : Leads q mid bs rest)
    (stops : Refuses q rest) : Reads (Parse.chain f p q) cs (bs.foldl f a) rest := by
  have both := h.both (h'.many stops)
  exact both.map _

end Osl.Parse
