import Osl.Proofs.Parse.Derivation

/-!
# What parse failures are about

A failure is about a place in the source: the character at which parsing stuck, the end of the source, a
whole name that is not the word wanted there, or a whole number that no word can hold. `Blame` says which
place a span stands for and what then was found. When failures are merged, one of them leads and only its
expectations change, so what is said of the place stays consistent.

`Points` says that a parser tells of no other failures, and there is a law for each combinator. A name or
a number is whole only if it does not go on to the left either. Hence the laws follow where the cursor
stands: anywhere, or at a spot where no name goes on (`Spot`).
-/

namespace Osl.Parse
set_option autoImplicit false

variable {α β : Type} {source : List Char}

/-! ## Places in the source -/

/-- From `first` to `last` the source holds `body`, which is made of characters of the class, and it holds
no such character right before and right behind it. -/
def WholeRun (test : Char → Bool) (source body : List Char) (first last : Nat) : Prop :=
  ∃ before after, source = before ++ (body ++ after) ∧ first = before.length ∧
    last = before.length + body.length ∧ (∀ c ∈ body, test c) ∧ Stops test before.reverse ∧
    Stops test after

theorem WholeRun.bounds {test : Char → Bool} {body : List Char} {first last : Nat}
    (h : WholeRun test source body first last) : first ≤ last ∧ last ≤ source.length := by
  obtain ⟨before, after, rfl, rfl, rfl, -⟩ := h
  simp only [List.length_append]
  omega

/-- What a failure can be about: the span to blame, the character found there and the reason. -/
inductive Blame (source : List Char) : (first last : Nat) → (found : Option Char) → Reason → Prop
  /-- Something else than this character is wanted. -/
  | character {i : Nat} {c : Char} : source[i]? = some c → Blame source i (i + 1) (some c) .unexpected
  /-- Something is wanted behind the end of the source. -/
  | ending : Blame source source.length source.length none .unexpected
  /-- Another name is wanted. -/
  | name {c : Char} {cs : List Char} {first last : Nat} : isNameStart c →
      WholeRun isNamePart source (c :: cs) first last → Blame source first last none .unexpected
  /-- A smaller number is wanted. -/
  | number {ds : List Char} {first last : Nat} : WholeRun Char.isDigit source ds first last →
      UInt64.size ≤ Numeral.value 10 ds → Blame source first last none tooLarge

theorem Blame.bounds {first last : Nat} {found : Option Char} {reason : Reason}
    (h : Blame source first last found reason) : first ≤ last ∧ last ≤ source.length := by
  cases h with
  | character here => exact ⟨Nat.le_succ _, (List.getElem?_eq_some_iff.1 here).1⟩
  | ending => exact ⟨Nat.le_refl _, Nat.le_refl _⟩
  | name _ whole => exact whole.bounds
  | number whole _ => exact whole.bounds

/-- The failure is about a place in the source. -/
def Failure.PointsInto (source : List Char) (e : Failure) : Prop :=
  Blame source e.first e.last e.found e.reason

/-- So is the failure that is told of, if there is one. -/
def Told (source : List Char) (missed : Option Failure) : Prop := ∀ e ∈ missed, e.PointsInto source

section Merging

variable {e f : Failure} {o o' : Option Failure}

theorem told_none : Told source none := by
  intro e absent
  cases absent

theorem told_some (h : e.PointsInto source) : Told source (some e) := by
  intro f present
  cases present
  exact h

/-- Other expectations are about the same place. -/
theorem Failure.PointsInto.merge (h : e.PointsInto source) (f : Failure) :
    (e.merge f).PointsInto source := h

theorem Failure.PointsInto.labelled (h : e.PointsInto source) (label : String) :
    (e.labelled label).PointsInto source := h

theorem Failure.PointsInto.furthest (h : e.PointsInto source) (told : Told source o) :
    (e.furthest o).PointsInto source := by
  cases o with
  | none => exact h
  | some f =>
    unfold Failure.furthest
    dsimp only
    split
    · exact told f rfl
    · split
      · exact h
      · exact h.merge f

theorem Told.later (h : Told source o) (h' : Told source o') : Told source (Failure.later o o') := by
  cases o' with
  | none => exact h
  | some f =>
    cases o with
    | none => exact h'
    | some e =>
      have leads : f.PointsInto source := h' f rfl
      exact told_some (leads.furthest h)

end Merging

/-! ## Spots -/

/-- Where a cursor stands. -/
inductive Spot
  | anywhere
  /-- Where no name goes on. -/
  | fresh

/-- What the text before the cursor is like. -/
def Spot.Holds : Spot → List Char → Prop
  | .anywhere, _ => True
  | .fresh, before => Stops isNamePart before.reverse

variable {p q r : Spot}

/-- The cursor stands at such a spot of the source. -/
def Cursor.At (source : List Char) (p : Spot) (s : Cursor) : Prop :=
  ∃ before, p.Holds before ∧ source = before ++ s.rest ∧ s.pos = before.length

theorem isNamePart_of_isNameStart {c : Char} (h : isNameStart c = true) : isNamePart c = true := by
  simp only [isNameStart, isNamePart, Char.isAlphanum, Bool.or_eq_true] at h ⊢
  rcases h with letter | underscore
  · exact .inl (.inl letter)
  · exact .inr underscore

theorem isNamePart_of_isDigit {c : Char} (h : c.isDigit = true) : isNamePart c = true := by
  simp [isNamePart, Char.isAlphanum, h]

theorem isBlank_of_isNamePart {c : Char} (h : isNamePart c = true) : Blank.isBlank c = false := by
  have ascii : 0x20 < c.toNat ∧ c.toNat < 0x7f := by
    simp only [isNamePart, Char.isAlphanum, Bool.or_eq_true] at h
    rcases h with (letter | digit) | underscore
    · have := ascii_of_isNameStart (c := c) (by simp [isNameStart, letter])
      omega
    · have := ascii_of_isDigit digit
      omega
    · have := ascii_of_isNameStart (c := c) (by simp [isNameStart, underscore])
      omega
  exact isBlank_of_ascii ascii.1 ascii.2

/-- White space leads from a fresh spot to a fresh one. -/
theorem Spot.Holds.append_blanks {before bs : List Char} (h : p.Holds before) (blanks : Blanks bs) :
    p.Holds (before ++ bs) := by
  cases p with
  | anywhere => trivial
  | fresh =>
    show Stops isNamePart (before ++ bs).reverse
    rw [List.reverse_append]
    cases reversed : bs.reverse with
    | nil => exact h
    | cons c cs =>
      have member : c ∈ bs := by
        rw [← List.mem_reverse, reversed]
        exact List.mem_cons_self
      apply stops_cons.2
      cases part : isNamePart c with
      | false => rfl
      | true =>
        have blank := blanks c member
        rw [isBlank_of_isNamePart part] at blank
        cases blank

namespace Cursor.At

variable {s next : Cursor}

/-- Wherever the cursor stands, it stands anywhere. -/
theorem weaken (h : s.At source p) : s.At source .anywhere := by
  obtain ⟨before, -, split, pos⟩ := h
  exact ⟨before, trivial, split, pos⟩

theorem unexpected (h : s.At source p) (expected : List Expected) :
    (s.unexpected expected).PointsInto source := by
  obtain ⟨before, -, rfl, pos⟩ := h
  unfold Cursor.unexpected
  cases rest : s.rest with
  | nil =>
    have place : s.pos = (before ++ []).length := by rw [List.append_nil, pos]
    rw [place]
    exact .ending
  | cons c cs =>
    apply Blame.character
    rw [pos, List.getElem?_append_right (Nat.le_refl _), Nat.sub_self, List.getElem?_cons_zero]

theorem skipBlanks (h : s.At source p) : s.skipBlanks.At source p := by
  obtain ⟨before, holds, rfl, pos⟩ := h
  have blanks : Blanks (s.rest.takeWhile Blank.isBlank) := List.all_eq_true.1 List.all_takeWhile
  have split : s.rest.takeWhile Blank.isBlank ++
      s.rest.drop (s.rest.takeWhile Blank.isBlank).length = s.rest :=
    List.prefix_iff_eq_append.1 (List.takeWhile_prefix Blank.isBlank)
  refine ⟨_, holds.append_blanks blanks, ?_, ?_⟩
  · rw [List.append_assoc]
    exact congrArg (before ++ ·) split.symm
  · rw [List.length_append, ← pos]
    rfl

/-- Two cursors of a source are as far apart as the text between them is long. -/
theorem pos_eq {body : List Char} (h : s.At source p) (h' : next.At source q)
    (split : s.rest = body ++ next.rest) : next.pos = s.pos + body.length := by
  obtain ⟨before, -, whole, pos⟩ := h
  obtain ⟨before', -, whole', pos'⟩ := h'
  have length := congrArg List.length (whole.symm.trans whole')
  simp only [split, List.length_append] at length
  omega

end Cursor.At

/-! ## Parsers -/

/-- A success ends at a spot of the kind, and every failure told of is about a place in the source. -/
def Result.PointsInto (source : List Char) (q : Spot) : Result α → Prop
  | .ok _ next missed => next.At source q ∧ Told source missed
  | .failed e => e.PointsInto source

/-- Started at a spot of one kind, the parser ends at one of another kind, and all its failures are about
places in the source. -/
def Points (source : List Char) (p q : Spot) (x : Parser α) : Prop :=
  ∀ s : Cursor, s.At source p → (x s).PointsInto source q

variable {x y : Parser α} {z : Parser β}

namespace Points

theorem ok {s next : Cursor} {a : α} {missed : Option Failure} (h : Points source p q x)
    (start : s.At source p) (read : x s = .ok a next missed) :
    next.At source q ∧ Told source missed := by
  have result := h s start
  rwa [read] at result

theorem failed {s : Cursor} {e : Failure} (h : Points source p q x) (start : s.At source p)
    (refused : x s = .failed e) : e.PointsInto source := by
  have result := h s start
  rwa [refused] at result

/-- A parser that may start anywhere may start here. -/
theorem start (h : Points source .anywhere q x) : Points source p q x :=
  fun s start => h s start.weaken

theorem map (f : α → β) (h : Points source p q x) : Points source p q (map f x) := by
  intro s start
  unfold Parse.map
  cases read : x s with
  | ok a next missed => exact h.ok start read
  | failed e => exact h.failed start read

theorem both (h : Points source p q x) (h' : Points source q r z) :
    Points source p r (both x z) := by
  intro s start
  unfold Parse.both
  cases read : x s with
  | failed e => exact h.failed start read
  | ok a next missed =>
    obtain ⟨middle, told⟩ := h.ok start read
    dsimp only
    cases read' : z next with
    | failed e => exact (h'.failed middle read').furthest told
    | ok b last missed' =>
      obtain ⟨stop, told'⟩ := h'.ok middle read'
      exact ⟨stop, told.later told'⟩

theorem right (h : Points source p q x) (h' : Points source q r z) : Points source p r (right x z) :=
  (h.both h').map _

theorem left (h : Points source p q x) (h' : Points source q r z) : Points source p r (left x z) :=
  (h.both h').map _

theorem orElse (h : Points source p q x) (h' : Points source p q y) :
    Points source p q (orElse x y) := by
  intro s start
  unfold Parse.orElse
  cases read : x s with
  | ok a next missed => exact h.ok start read
  | failed e =>
    have blamed := h.failed start read
    dsimp only
    cases read' : y s with
    | ok a next missed =>
      obtain ⟨stop, told⟩ := h'.ok start read'
      exact ⟨stop, told.later (told_some blamed)⟩
    | failed f => exact blamed.furthest (told_some (h'.failed start read'))

theorem choiceAfter {failed : Option Failure} {xs : List (Parser α)} (told : Told source failed)
    (h : ∀ x ∈ xs, Points source p q x) : Points source p q (choiceAfter failed xs) := by
  induction xs generalizing failed with
  | nil =>
    intro s start
    cases failed with
    | none => exact start.unexpected []
    | some e => exact told e rfl
  | cons x xs ih =>
    intro s start
    have first := h x List.mem_cons_self
    unfold Parse.choiceAfter
    cases read : x s with
    | ok a next missed => exact first.ok start read
    | failed e =>
      have blamed := told_some (first.failed start read)
      exact ih (told.later blamed) (fun y member => h y (List.mem_cons_of_mem _ member)) s start

/-- Alternatives are told of as one failure, that of the one which got furthest. -/
theorem choice {xs : List (Parser α)} (h : ∀ x ∈ xs, Points source p q x) :
    Points source p q (choice xs) :=
  choiceAfter told_none h

theorem manyWithin (h : Points source p p x) (budget : List Char) {missed : Option Failure} {s : Cursor}
    (told : Told source missed) (start : s.At source p) :
    (manyWithin x budget missed s).2.1.At source p ∧ Told source (manyWithin x budget missed s).2.2 := by
  induction budget generalizing missed s with
  | nil => exact ⟨start, told⟩
  | cons c budget ih =>
    unfold Parse.manyWithin
    cases read : x s with
    | failed e => exact ⟨start, told.later (told_some (h.failed start read))⟩
    | ok a next missed' =>
      obtain ⟨middle, told'⟩ := h.ok start read
      exact ih (told.later told') middle

/-- A repetition ends where it can begin. -/
theorem many (h : Points source p p x) : Points source p p (many x) := by
  intro s start
  exact h.manyWithin s.budget told_none start

/-- A refused value is blamed on the text that it was read from. -/
theorem refine {f : α → Except Reason β} (h : Points source p q x)
    (refused : ∀ {s next : Cursor} {a : α} {missed : Option Failure} {reason : Reason},
      s.At source p → next.At source q → x s = .ok a next missed → f a = .error reason →
        Blame source s.pos next.pos none reason) : Points source p q (refine f x) := by
  intro s start
  unfold Parse.refine
  cases read : x s with
  | failed e => exact h.failed start read
  | ok a next missed =>
    obtain ⟨stop, told⟩ := h.ok start read
    dsimp only
    cases value : f a with
    | ok b => exact ⟨stop, told⟩
    | error reason => exact refused start stop read value

theorem padded (h : Points source p q x) : Points source p q (padded x) := by
  intro s start
  unfold Parse.padded
  cases read : x s.skipBlanks with
  | failed e => exact h.failed start.skipBlanks read
  | ok a next missed =>
    obtain ⟨stop, told⟩ := h.ok start.skipBlanks read
    exact ⟨stop.skipBlanks, told⟩

theorem labelled (label : String) (h : Points source p q x) : Points source p q (labelled label x) := by
  intro s start
  unfold Parse.labelled
  cases read : x s with
  | ok a next missed => exact h.ok start read
  | failed e => exact (h.failed start read).labelled label

theorem chain {f : α → β → α} (h : Points source p q x) (h' : Points source q q z) :
    Points source p q (chain f x z) :=
  (h.both h'.many).map _

end Points

/-! ## Characters -/

section Characters

variable {test : Char → Bool} {expected : List Expected} {c : Char}

/-- A character read brings the cursor behind it. -/
theorem points_charWhere (next : ∀ c before, test c → q.Holds (before ++ [c])) :
    Points source p q (charWhere test expected) := by
  intro s start
  have failed := start.unexpected expected
  obtain ⟨before, -, split, pos⟩ := start
  unfold charWhere
  cases rest : s.rest with
  | nil => exact failed
  | cons c cs =>
    by_cases holds : test c = true
    · simp only [if_pos holds]
      refine ⟨⟨before ++ [c], next c before holds, ?_, ?_⟩, told_none⟩
      · rw [split, rest, List.append_assoc]
        rfl
      · rw [List.length_append, pos]
        rfl
    · simp only [if_neg holds]
      exact failed

theorem points_satisfy : Points source p .anywhere (satisfy test) :=
  points_charWhere fun _ _ _ => trivial

theorem points_just : Points source p .anywhere (just c) := points_charWhere fun _ _ _ => trivial

/-- No name goes on behind a symbol. -/
theorem points_symbol (symbol : isNamePart c = false) : Points source p .fresh (just c) := by
  apply points_charWhere
  intro d before same
  rw [beq_iff_eq.1 same]
  show Stops isNamePart (before ++ [c]).reverse
  rw [List.reverse_append]
  exact stops_cons.2 symbol

theorem points_endOfSource : Points source p p endOfSource := by
  intro s start
  have failed := start.unexpected [none]
  unfold endOfSource
  cases rest : s.rest with
  | nil => exact ⟨start, told_none⟩
  | cons c cs => exact failed

end Characters

end Osl.Parse
