import Osl.Proofs.Executor.Execution
import Osl.Proofs.Isolation.Extent

/-!
# Careful programs

A careful program assigns a variable before it reads, prints or deletes it, computes with integers
only, and assigns no value that is large: no integer that may be taken for an address and no string
that does not fit into a cell. `Executor.Careful` are the executors that such programs lead to, whether
their statements succeed or fail. What a statement has done to the cell that it assigned is said by
`Statement.Writes`.
-/

namespace Osl
set_option autoImplicit false

variable {L : Layout} {σ : Type}

/-- The word of an integer. -/
def Value.integer? : Value → Option Word
  | .integer n => some n
  | .string _ => none

/-- An integer below every address, or a string that is not empty and fits into a cell. -/
def Value.IsSmall : Value → Prop
  | .integer n => n.toNat < addressThreshold
  | .string content => 0 < content.length ∧ content.length ≤ inlineCapacity

instance : DecidablePred Value.IsSmall
  | .integer n => inferInstanceAs (Decidable (n.toNat < addressThreshold))
  | .string content => inferInstanceAs (Decidable (0 < content.length ∧ _))

/-- The value of an expression over the values of its variables; there is none if an operand is a
string. -/
def Expr.value? (look : String → Option Value) : Expr → Option Value
  | .int n => some (.integer n)
  | .str content => some (.string content)
  | .var name => look name
  | .arith op l r => do
    let v ← (← l.value? look).integer?
    let w ← (← r.value? look).integer?
    return .integer (op.apply v w)
  | .neg e => do
    let v ← (← e.value? look).integer?
    return .integer (0 - v)

theorem Value.integer?_eq_some {v : Value} {n : Word} : v.integer? = some n ↔ v = .integer n := by
  cases v <;> simp [integer?]

/-- Arithmetic is on integers and makes integers. -/
theorem Expr.value?_arith {look : String → Option Value} {op : Arith} {l r : Expr} {v : Value}
    (h : (arith op l r).value? look = some v) :
    ∃ m n, l.value? look = some (.integer m) ∧ r.value? look = some (.integer n) ∧
      v = .integer (op.apply m n) := by
  simp only [value?, Option.bind_eq_bind, Option.bind_eq_some_iff, Value.integer?_eq_some] at h
  obtain ⟨_, left, m, rfl, _, right, n, rfl, made⟩ := h
  cases made
  exact ⟨m, n, left, right, rfl⟩

theorem Expr.value?_neg {look : String → Option Value} {e : Expr} {v : Value}
    (h : (neg e).value? look = some v) :
    ∃ n, e.value? look = some (.integer n) ∧ v = .integer (0 - n) := by
  simp only [value?, Option.bind_eq_bind, Option.bind_eq_some_iff, Value.integer?_eq_some] at h
  obtain ⟨_, inner, n, rfl, made⟩ := h
  cases made
  exact ⟨n, inner, rfl⟩

namespace Statement

/-- With the given names assigned, the statement reads, prints and deletes no other, computes with
integers only and assigns a small value. -/
def Careful (names : List String) (x : Executor L σ) : Statement → Prop
  | .assign _ e =>
    (∀ name ∈ e.names, name ∈ names) ∧ ∃ v, e.value? x.valueOf = some v ∧ v.IsSmall
  | .print name | .delete name => name ∈ names
  | .printLog => True

instance (names : List String) (x : Executor L σ) : (s : Statement) → Decidable (s.Careful names x)
  | .assign _ e =>
    inferInstanceAs (Decidable ((∀ name ∈ e.names, name ∈ names) ∧
      ∃ v ∈ e.value? x.valueOf, v.IsSmall))
  | .print name | .delete name => inferInstanceAs (Decidable (name ∈ names))
  | .printLog => inferInstanceAs (Decidable True)

/-- The names that are assigned after the statement. -/
def assigned (names : List String) : Statement → List String
  | .assign target _ => target :: names
  | .delete name => names.filter (· != name)
  | .print _ | .printLog => names

/-- The name that a statement gives a value or takes it from. -/
def target? : Statement → Option String
  | .assign target _ | .delete target => some target
  | .print _ | .printLog => none

theorem assigned_of_target? {s : Statement} {names : List String} (none : s.target? = none) :
    s.assigned names = names := by
  cases s with
  | assign target e | delete target => cases none
  | print name | printLog => rfl

/-- From `x` to `x'` the statement has assigned a value to the cell at `slot`, of `n` bytes. -/
def Writes (s : Statement) (x x' : Executor L σ) (slot n : Nat) : Prop :=
  ∃ target e v, s = .assign target e ∧ e.value? x.valueOf = some v ∧
    x'.slotOf target = some slot ∧ v.span = n

/-- An assignment writes to the cell of its target. -/
theorem Writes.eq {x x' : Executor L σ} {target : String} {e : Expr} {v : Value} {u slot n : Nat}
    (writes : (assign target e).Writes x x' slot n) (value : e.value? x.valueOf = some v)
    (bound : x'.slotOf target = some u) : slot = u ∧ n = v.span := by
  obtain ⟨_, _, v', same, value', bound', rfl⟩ := writes
  cases same
  rw [value] at value'
  rw [bound] at bound'
  cases value'
  cases bound'
  exact ⟨rfl, rfl⟩

/-- Only an assignment writes to a cell. -/
theorem not_writes {s : Statement} {x x' : Executor L σ} {slot n : Nat}
    (other : ∀ target e, s ≠ .assign target e) : ¬ s.Writes x x' slot n := by
  rintro ⟨target, e, _, same, -⟩
  exact other target e same

end Statement

namespace Executor

/-- The number of bytes of the cell of a name; it is two words where there is no value. -/
def span (x : Executor L σ) (name : String) : Nat := (x.valueOf name).elim 16 Value.span

/-- From `x` to `x'` the statement has written no byte of the cell of a name. -/
def SparesCell (x : Executor L σ) (s : Statement) (x' : Executor L σ) (name : String) : Prop :=
  ∀ u n slot, s.Writes x x' u n → x.slotOf name = some slot → u + n ≤ slot ∨ slot + x.span name ≤ u

/-- From `x` to `x'` the statement has written nothing but the cell of its target, and that lies in
the data section. -/
structure SparesCells (x : Executor L σ) (s : Statement) (x' : Executor L σ) : Prop where
  inside : ∀ u n, s.Writes x x' u n → u + n ≤ L.data
  others : ∀ name, s.target? ≠ some name → x.SparesCell s x' name

/-- A statement other than an assignment spares all cells. -/
theorem SparesCells.of_ne {x x' : Executor L σ} {s : Statement}
    (other : ∀ target e, s ≠ .assign target e) : x.SparesCells s x' :=
  ⟨fun _ _ writes => absurd writes (Statement.not_writes other),
    fun _ _ _ _ _ writes => absurd writes (Statement.not_writes other)⟩

variable [Sink σ]

/-- The executors to which careful statements lead from a new one, with the names that are assigned.
Of each statement that succeeds `allowed` holds; a statement that fails assigns and deletes nothing. -/
inductive Careful (allowed : Executor L σ → Statement → Executor L σ → Prop) :
    List String → Executor L σ → Prop
  | start (sink : σ) (log : Log) : Careful allowed [] (start L sink log)
  | done {names : List String} {x x' : Executor L σ} {s : Statement} {routine : Routine} :
      Careful allowed names x → s.Careful names x → execute s x = .ok routine x' →
      allowed x s x' → Careful allowed (s.assigned names) x'
  | failed {names : List String} {x x' : Executor L σ} {s : Statement} {e : ExecError} :
      Careful allowed names x → s.Careful names x → execute s x = .error e x' →
      Careful allowed names x'

end Executor
end Osl
