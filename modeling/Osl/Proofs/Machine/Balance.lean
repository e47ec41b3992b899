import Osl.Proofs.Expr.Evaluation
import Osl.Proofs.Machine.Cells

/-!
# Values on the scratch stack

Arithmetic on strings puts arbitrary words where the length of a string should be, and a string in the
last window of the data section goes on in the scratch stack that is just being written. Whatever the
words are, an expression leaves two of them at least, and four at least if the second is not zero
(`IsValue`), so that a store finds on the stack all that it pops (`Located.evaluates_value`,
`store_value`).
-/

namespace Osl
set_option autoImplicit false

variable {L : Layout} {σ : Type}

/-- A copy faults with a range that does not lie in the arena. -/
theorem Arena.copy_outside {a : Arena L} {src dst : Word} {n : Nat}
    (outside : ¬ (L.Within src.toNat n ∧ L.Within dst.toNat n)) :
    ∃ p, (p = src ∨ p = dst) ∧ ¬ L.Within p.toNat n ∧ copy src dst n a = .error (.memory p n) a := by
  by_cases read : L.Within src.toNat n
  · have written : ¬ L.Within dst.toNat n := fun within => outside ⟨read, within⟩
    exact ⟨dst, .inr rfl, written, by
      simp only [copy_eq_ite, read, written, not_true_eq_false, not_false_eq_true, if_false, if_true]⟩
  · exact ⟨src, .inl rfl, read, by simp only [copy_eq_ite, read, not_false_eq_true, if_true]⟩

/-- The words of a value, the topmost first: as many as a store or an operator takes away. -/
structure IsValue (ws : List Word) : Prop where
  even : ws.length % 2 = 0
  two : 2 ≤ ws.length
  four : ∀ w₀ w₁ rest, ws = w₀ :: w₁ :: rest → w₁ ≠ 0 → 2 ≤ rest.length

namespace IsValue

variable {vs ws : List Word}

theorem integer (w : Word) : IsValue [w, 0] := by
  refine ⟨by simp, by simp, ?_⟩
  rintro _ _ _ same tagged
  cases same
  exact absurd rfl tagged

theorem string (w₀ w₁ w₂ w₃ : Word) : IsValue [w₀, w₁, w₂, w₃] := by
  refine ⟨by simp, by simp, ?_⟩
  rintro _ _ _ same -
  cases same
  exact Nat.le_refl 2

/-- The second word of a value. -/
theorem exists_eq (h : IsValue ws) :
    ∃ w₀ w₁ rest, ws = w₀ :: w₁ :: rest ∧ (w₁ = 0 ∨ ∃ w₂ w₃ more, rest = w₂ :: w₃ :: more) := by
  match ws, h with
  | w₀ :: w₁ :: rest, h =>
    refine ⟨w₀, w₁, rest, rfl, ?_⟩
    by_cases zero : w₁ = 0
    · exact .inl zero
    · have four := h.four w₀ w₁ rest rfl zero
      match rest, four with
      | w₂ :: w₃ :: more, _ => exact .inr ⟨w₂, w₃, more, rfl⟩
  | [], h => exact absurd h.two (by simp)
  | [_], h => exact absurd h.two (by simp)

/-- An operator makes a value of two values. -/
theorem combine (left : IsValue vs) (right : IsValue ws) (op : Arith) :
    IsValue (op.combine (vs ++ ws)) := by
  obtain ⟨v₀, v₁, vs, rfl, -⟩ := left.exists_eq
  obtain ⟨u₀, u₁, us, rfl, more⟩ := right.exists_eq
  have even := left.even
  have even' := right.even
  simp only [List.length_cons] at even even'
  cases vs with
  | nil =>
    -- the second word is that of the right operand
    refine ⟨even', by simp [Arith.combine], ?_⟩
    rintro _ _ _ same tagged
    cases same
    rcases more with zero | ⟨w₂, w₃, rest, rfl⟩
    · exact absurd zero tagged
    · simp
  | cons v₂ vs =>
    simp only [List.length_cons] at even
    have length : (op.combine (v₀ :: v₁ :: v₂ :: vs ++ u₀ :: u₁ :: us)).length =
        vs.length + us.length + 3 := by
      simp only [List.cons_append, Arith.combine, List.length_cons, List.length_append]
      omega
    refine ⟨by omega, by omega, ?_⟩
    rintro _ _ rest same -
    rw [same] at length
    simp only [List.length_cons] at length
    omega

end IsValue

namespace Machine

variable {m m' m'' : Machine L σ} {cell : Word}

/-! ## Loading a cell that reaches into the scratch stack -/

/-- Words that are read while others are pushed are some words; those below the scratch stack are what
lies there. -/
theorem exists_pushEach_eq (ps : List Word) (order : L.StackPointer m.sp)
    (inside : ∀ p ∈ ps, L.Within p.toNat 8) :
    ∃ ws, ws.length = ps.length ∧ (pushEach ps : Exec L σ Unit) m = pushAll ws m ∧
      ∀ i (h : i < ps.length) (h' : i < ws.length), ps[i].toNat + 8 ≤ L.stackBase →
        ws[i] = m.arena.wordAt ps[i].toNat := by
  induction ps with
  | nil => exact ⟨[], rfl, rfl, fun i h => absurd h (Nat.not_lt_zero i)⟩
  | cons p ps ih =>
    obtain ⟨ws, length, pushes, reads⟩ := ih fun q member => inside q (List.mem_cons_of_mem _ member)
    have within := inside p List.mem_cons_self
    -- what is read for the first address depends on the words that were pushed before it
    obtain ⟨w, first, below⟩ : ∃ w, (pushEach (p :: ps) : Exec L σ Unit) m = pushAll (w :: ws) m ∧
        (p.toNat + 8 ≤ L.stackBase → w = m.arena.wordAt p.toNat) := by
      cases run : pushAll ws m with
      | ok v m' =>
        refine ⟨m'.arena.wordAt p.toNat, ?_, fun low => ?_⟩
        · rw [pushEach, pushAll, bind_ok (pushes.trans run), bind_ok run,
            bind_ok (readWord_eq m' within)]
        · exact (sameOutside_pushAll order run).wordAt (.inl low)
      | error f m' =>
        refine ⟨m.arena.wordAt p.toNat, ?_, fun _ => rfl⟩
        rw [pushEach, pushAll, bind_error (pushes.trans run), bind_error run]
    refine ⟨w :: ws, by rw [List.length_cons, List.length_cons, length], first, ?_⟩
    intro i h h' low
    cases i with
    | zero => exact below low
    | succ i => exact reads i (by simpa using h) (by simpa using h') low

/-- A load pushes a value, whatever the cell holds. -/
theorem exists_load_eq (order : L.StackPointer m.sp) (isCell : L.IsCell cell) :
    ∃ ws, IsValue ws ∧ (load cell : Exec L σ Unit) m = pushAll ws m := by
  have := L.ordered
  have bounds := isCell.bounds
  by_cases zero : m.arena.wordAt (cell.toNat + 8) = 0
  · have loaded := load_eq_pushAll (m := m) order (by omega) bounds.2 (absurd zero)
    refine ⟨_, ?_, loaded⟩
    simp only [Arena.cellWords, zero, if_true, Arena.words]
    exact .integer _
  · have second := isCell.toNat_add (k := 8) (by decide)
    have third := isCell.toNat_add (k := 16) (by decide)
    have fourth := isCell.toNat_add (k := 24) (by decide)
    simp only [UInt64.reduceToNat] at second third fourth
    have tagged : readWord (cell + 8) m = .ok (m.arena.wordAt (cell.toNat + 8)) m := by
      rw [readWord_eq m (by unfold Layout.Within; omega), second.1]
    have inside : ∀ p ∈ [cell, cell + 8, cell + 16, cell + 24], L.Within p.toNat 8 := by
      simp only [List.mem_cons, List.not_mem_nil, or_false, forall_eq_or_imp, forall_eq,
        Layout.Within]
      omega
    obtain ⟨ws, length, pushes, -⟩ := exists_pushEach_eq (m := m) _ order inside
    obtain ⟨w₀, w₁, w₂, w₃, rfl⟩ : ∃ w₀ w₁ w₂ w₃, ws = [w₀, w₁, w₂, w₃] := by
      rcases ws with _ | ⟨w₀, _ | ⟨w₁, _ | ⟨w₂, _ | ⟨w₃, _ | _⟩⟩⟩⟩ <;> simp at length
      exact ⟨w₀, w₁, w₂, w₃, rfl⟩
    refine ⟨_, .string w₀ w₁ w₂ w₃, ?_⟩
    rw [← pushes, load, bind_ok tagged, Tag.of_ne_zero zero]
    simp [pushEach]

variable [Sink σ] {log : Log} {n : Nat}

/-! ## Expressions -/

/-- Steps lead to one machine only. -/
theorem Steps.unique (h : Steps log n m m') (h' : Steps log n m m'') : m' = m'' := by
  induction h with
  | zero m =>
    cases h'
    rfl
  | succ first _ ih =>
    cases h' with
    | succ first' rest =>
      rw [first] at first'
      cases first'
      exact ih rest

/-- Code that leaves known words is followed by code that leaves a value. -/
theorem Evaluates.exists_append {is js : List Instr} {vs : List Word} {d : Nat}
    (h : Evaluates log is m vs d)
    (h' : ∀ m', Leaves log is m m' vs d → ∃ ws e, IsValue ws ∧ Evaluates log js m' ws e) :
    ∃ ws e, IsValue ws ∧ Evaluates log (is ++ js) m (ws ++ vs) e := by
  by_cases room : L.stackBase + 8 * d ≤ m.sp.toNat
  · obtain ⟨m₁, first⟩ := h.fits room
    obtain ⟨ws, e, value, second⟩ := h' m₁ first
    refine ⟨ws, max d (vs.length + e), value, h.append fun m' again => ?_⟩
    rwa [again.steps.unique first.steps]
  · refine ⟨[0, 0], max d (vs.length + 2), .integer 0, h.append fun m' first => ?_⟩
    exact absurd first.room room

end Machine

open Machine

/-- The code of an expression leaves a value, whatever the cells hold. -/
theorem Located.evaluates_value [Sink σ] {m : Machine L σ} (t : Located) (log : Log)
    (order : L.StackPointer m.sp) (code : CodeAt m.arena m.ip.toNat t.code)
    (cells : ∀ cell ∈ t.cells, L.IsCell cell) :
    ∃ ws d, IsValue ws ∧ Evaluates log t.code m ws d := by
  induction t generalizing m with
  | int n => exact ⟨_, _, .integer n, evaluates_pushes [n, 0] order code⟩
  | str h => exact ⟨_, _, .string _ _ _ _, evaluates_pushes h.words order code⟩
  | var cell =>
    obtain ⟨ws, value, loads⟩ :=
      exists_load_eq (m := m.past (.load cell)) order (cells cell (List.mem_singleton_self cell))
    exact ⟨ws, ws.length, value, .of_pushAll order code rfl loads⟩
  | arith op l r ihl ihr =>
    rw [Located.code, ← List.append_assoc] at code ⊢
    obtain ⟨vs, d, right, first⟩ :=
      ihr order code.left.left fun cell read => cells cell (List.mem_append_right _ read)
    obtain ⟨ws, e, left, both⟩ := first.exists_append fun m' leaves =>
      ihl (leaves.stackPointer order) (leaves.codeAt order code.left)
        fun cell read => cells cell (List.mem_append_left _ read)
    have two := left.two
    have two' := right.two
    exact ⟨_, e, left.combine right op,
      both.arith op order code (by rw [List.length_append]; omega)⟩
  | neg e ih =>
    rw [Located.code, ← List.append_assoc] at code ⊢
    obtain ⟨vs, d, inner, first⟩ := ih order code.left.left cells
    have both := first.append fun m' leaves =>
      evaluates_pushes [0, 0] (leaves.stackPointer order) (leaves.codeAt order code.left)
    have two := inner.two
    exact ⟨_, _, (IsValue.integer 0).combine inner .sub,
      both.arith .sub order code (by simp only [List.length_append, List.length_cons]; omega)⟩

namespace Machine

variable {m : Machine L σ} {cell : Word}

/-! ## Stores -/

/-- A store to the cell copies the string on top of the stack to where the cell points. -/
structure CopiesInPlace (m : Machine L σ) (cell : Word) : Prop where
  string : m.arena.wordAt (m.sp.toNat + 8) ≠ 0
  inPlace : Word.signedLe (m.arena.wordAt (m.sp.toNat + 8)) (m.arena.wordAt (cell.toNat + 8))

/-- Where the string on top of the stack lies. -/
def copySource (m : Machine L σ) : Word := m.arena.wordAt m.sp.toNat

/-- How long the string on top of the stack is. -/
def copyLength (m : Machine L σ) : Nat := (m.arena.wordAt (m.sp.toNat + 8)).toNat

/-- Where a string in the cell lies. -/
def copyTarget (m : Machine L σ) (cell : Word) : Word := m.arena.wordAt cell.toNat

/-- What becomes of a store of a value that ends at `high`. It takes away no more than the value, and
it reaches past the cell and the scratch stack only if it copies a string to where the cell points. -/
inductive StoreEnd (m : Machine L σ) (cell : Word) (high : Nat) :
    EStateM.Result Fault (Machine L σ) Unit → Prop
  | moved {m' : Machine L σ} : m'.sp.toNat ≤ high →
      m.arena.SameOutside m'.arena L.dataBase L.stackTop → StoreEnd m cell high (.ok () m')
  | copied {m' : Machine L σ} : m'.sp.toNat ≤ high → m.CopiesInPlace cell →
      L.Within m.copySource.toNat m.copyLength → L.Within (m.copyTarget cell).toNat m.copyLength →
      m'.arena = m.arena.forwardCopy m.copySource.toNat (m.copyTarget cell).toNat m.copyLength →
      StoreEnd m cell high (.ok () m')
  | outside {p : Word} {m' : Machine L σ} : m'.sp.toNat ≤ high → m.CopiesInPlace cell →
      p = m.copySource ∨ p = m.copyTarget cell → ¬ L.Within p.toNat m.copyLength →
      StoreEnd m cell high (.error (.memory p m.copyLength) m')

theorem StoreEnd.mono {high high' : Nat} {r : EStateM.Result Fault (Machine L σ) Unit}
    (h : StoreEnd m cell high r) (le : high ≤ high') : StoreEnd m cell high' r := by
  cases h with
  | moved sp same => exact .moved (Nat.le_trans sp le) same
  | copied sp inPlace source target arena =>
    exact .copied (Nat.le_trans sp le) inPlace source target arena
  | outside sp inPlace place out => exact .outside (Nat.le_trans sp le) inPlace place out

/-- A store of a string ends in one of these ways. -/
theorem store_string {w₀ w₁ w₂ w₃ : Word} (isCell : L.IsCell cell) (string : w₁ ≠ 0)
    (low : L.stackBase ≤ m.sp.toNat) (high : m.sp.toNat + 32 ≤ L.stackTop)
    (holds : m.arena.Holds m.sp.toNat [w₀, w₁, w₂, w₃]) :
    StoreEnd m cell (m.sp.toNat + 32) (store cell m) := by
  have := L.ordered
  have bounds := isCell.bounds
  have reach := (isCell.toNat_add (k := 24) (by decide)).2
  have top : L.codeBase = L.stackTop := rfl
  simp only [UInt64.reduceToNat] at reach
  cases shorter : Word.signedLe w₁ (m.arena.wordAt (cell.toNat + 8)) with
  | true =>
    have dropped := Nat.le_of_eq (toNat_sp_add_string high)
    have inPlace : m.CopiesInPlace cell :=
      ⟨by rw [holds.2.1]; exact string, by rw [holds.2.1]; exact shorter⟩
    have source : m.copySource = w₀ := holds.1
    have length : m.copyLength = w₁.toNat := congrArg UInt64.toNat holds.2.1
    have target : m.arena.wordAt cell.toNat = m.copyTarget cell := rfl
    rw [store_in_place cell low high holds string (by omega) bounds.2 shorter, ← source, ← length,
      target]
    by_cases within : L.Within m.copySource.toNat m.copyLength ∧
        L.Within (m.copyTarget cell).toNat m.copyLength
    · have copied := Arena.copy_of_within (a := m.arena) within.1 within.2
      simp only [update, copied]
      exact .copied dropped inPlace within.1 within.2 (by simp)
    · obtain ⟨p, place, outside, failed⟩ := Arena.copy_outside (a := m.arena) within
      simp only [update, failed]
      exact .outside dropped inPlace place outside
  | false =>
    obtain ⟨ws, m', length, stored, moved⟩ :
        ∃ ws m', ws.length = 4 ∧ store cell m = .ok () m' ∧ Moved m m' cell.toNat ws := by
      cases short : Word.signedLe w₁ (.ofNat inlineCapacity) with
      | true =>
        obtain ⟨m', stored⟩ :=
          store_inline cell low high holds string (by omega) bounds.2 shorter short
        exact ⟨_, m', rfl, stored⟩
      | false =>
        obtain ⟨m', stored⟩ :=
          store_header cell low high holds string (by omega) bounds.2 shorter short
        exact ⟨_, m', rfl, stored⟩
    have sp := moved.sp
    have same := moved.same
    rw [length] at sp same
    rw [stored]
    exact .moved (by omega) (same.mono bounds.1 (by omega))

/-- A store of a value ends in one of these ways. -/
theorem store_value {ws : List Word} (isCell : L.IsCell cell) (value : IsValue ws)
    (low : L.stackBase ≤ m.sp.toNat) (high : m.sp.toNat + 8 * ws.length ≤ L.stackTop)
    (holds : m.arena.Holds m.sp.toNat ws) :
    StoreEnd m cell (m.sp.toNat + 8 * ws.length) (store cell m) := by
  have := L.ordered
  have bounds := isCell.bounds
  obtain ⟨w₀, w₁, rest, rfl, more⟩ := value.exists_eq
  simp only [List.length_cons] at high ⊢
  by_cases zero : w₁ = 0
  · obtain ⟨m', stored, moved⟩ := store_integer cell low (by omega)
      ⟨holds.1, zero ▸ holds.2.1, trivial⟩ (by omega) (by omega)
    have sp := moved.sp
    have same := moved.same
    simp only [List.length_cons, List.length_nil] at sp same
    rw [stored]
    exact .moved (by omega) (same.mono bounds.1 (by omega))
  · obtain ⟨w₂, w₃, more, rfl⟩ := more.resolve_left zero
    simp only [List.length_cons] at high ⊢
    have stored := store_string isCell zero low (by omega)
      ⟨holds.1, holds.2.1, holds.2.2.1, holds.2.2.2.1, trivial⟩
    exact stored.mono (by omega)

end Machine
end Osl
