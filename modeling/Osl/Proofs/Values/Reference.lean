import Mathlib.Algebra.GroupWithZero.Nat
import Osl.Proofs.Integer.Reference
import Osl.Proofs.Isolation.Careful
import Osl.Proofs.Machine.Output

/-!
# A reference interpreter over values

The interpreter keeps the values of the names and what was printed, and nothing of how values are
stored. What is left in a variable when a value is assigned to it is a parameter: the value alone
(`Value.alone`), or the value with the rest of a longer string that was there (`Value.laidOver`).
-/

namespace Osl
set_option autoImplicit false

/-- What the interpreter keeps between statements. -/
structure Ledger where
  value : String → Option Value := fun _ => none
  output : List Byte := []

namespace Ledger

/-- The ledger with another value for a name, or with none for it. -/
def set (r : Ledger) (name : String) (v : Option Value) : Ledger :=
  { r with value := fun other => if other = name then v else r.value other }

/-- The ledger after printing. -/
def print (r : Ledger) (bs : List Byte) : Ledger := { r with output := r.output ++ bs }

variable (r : Ledger) (name : String) (v : Option Value)

@[simp] theorem value_set_self : (r.set name v).value name = v := if_pos rfl

theorem value_set_of_ne {other : String} (ne : other ≠ name) :
    (r.set name v).value other = r.value other := if_neg ne

end Ledger

namespace Value

/-- What an assignment leaves: the value that is assigned. -/
def alone : Option Value → Value → Value := fun _ v => v

/-- What an assignment leaves: the value that is assigned, and behind it whatever it does not reach of
the string that was there. -/
def laidOver : Option Value → Value → Value
  | some (.string old), .string new => .string (new ++ old.drop new.length)
  | _, v => v

@[simp] theorem laidOver_none (v : Value) : laidOver none v = v := rfl

@[simp] theorem laidOver_integer (old : Option Value) (n : Word) :
    laidOver old (.integer n) = .integer n := by
  rcases old with _ | _ | _ <;> rfl

/-- Nothing is left of a string that is shorter. -/
theorem laidOver_longer {old new : List Byte} (longer : old.length < new.length) :
    laidOver (some (.string old)) (.string new) = .string new := by
  rw [laidOver, List.drop_of_length_le (by omega), List.append_nil]

theorem span_eq (v : Value) : v.span = 16 ∨ v.span = 32 := by
  cases v with
  | integer n => exact .inl rfl
  | string content => exact .inr rfl

/-- What is left by an assignment is as wide as the value assigned. -/
@[simp] theorem span_laidOver (old : Option Value) (v : Value) : (laidOver old v).span = v.span := by
  cases v with
  | integer n => rcases old with _ | _ | _ <;> rfl
  | string content => rcases old with _ | _ | _ <;> rfl

end Value

/-- What a statement does, unless it reads a name without a value or computes with strings. -/
def Statement.interpret (leave : Option Value → Value → Value) (log : List Byte) :
    Statement → Ledger → Option Ledger
  | .assign target e, r => do
    let v ← e.value? r.value
    return r.set target (some (leave (r.value target) v))
  | .print name, r => do
    let v ← r.value name
    return r.print (v.printed ++ ['\n'.toUInt8])
  | .delete name, r => do
    let _ ← r.value name
    return r.set name none
  | .printLog, r => return r.print log

/-- The ways in which a statement leads from one ledger to another. -/
inductive Statement.Takes (leave : Option Value → Value → Value) (log : List Byte) (r : Ledger) :
    Statement → Ledger → Prop
  | assign {target : String} {e : Expr} {v : Value} : e.value? r.value = some v →
      Takes leave log r (.assign target e) (r.set target (some (leave (r.value target) v)))
  | print {name : String} {v : Value} : r.value name = some v →
      Takes leave log r (.print name) (r.print (v.printed ++ ['\n'.toUInt8]))
  | delete {name : String} {v : Value} : r.value name = some v →
      Takes leave log r (.delete name) (r.set name none)
  | printLog : Takes leave log r .printLog (r.print log)

theorem Statement.takes_of_interpret {leave : Option Value → Value → Value} {log : List Byte}
    {s : Statement} {r r' : Ledger} (h : s.interpret leave log r = some r') :
    s.Takes leave log r r' := by
  cases s with
  | assign target e =>
    simp only [interpret, Option.bind_eq_bind, Option.bind_eq_some_iff] at h
    obtain ⟨v, value, made⟩ := h
    cases made
    exact .assign value
  | print name =>
    simp only [interpret, Option.bind_eq_bind, Option.bind_eq_some_iff] at h
    obtain ⟨v, value, made⟩ := h
    cases made
    exact .print value
  | delete name =>
    simp only [interpret, Option.bind_eq_bind, Option.bind_eq_some_iff] at h
    obtain ⟨v, value, made⟩ := h
    cases made
    exact .delete value
  | printLog =>
    cases h
    exact .printLog

/-- A statement changes the value of its target only. -/
theorem Statement.Takes.value_of_ne {leave : Option Value → Value → Value} {log : List Byte}
    {s : Statement} {r r' : Ledger} {name : String} (taken : s.Takes leave log r r')
    (other : s.target? ≠ some name) : r'.value name = r.value name := by
  cases taken with
  | @assign target e v value | @delete target v value =>
    exact r.value_set_of_ne target _ fun same => other (by rw [same]; rfl)
  | print | printLog => rfl

/-- The interpreter runs the program from one ledger to another, and for every statement the condition
`ok` holds of the ledgers before and after it. -/
inductive Program.Leads (leave : Option Value → Value → Value) (log : List Byte)
    (ok : Ledger → Statement → Ledger → Prop) : Program → Ledger → Ledger → Prop
  | nil (r : Ledger) : Leads leave log ok [] r r
  | cons {s : Statement} {rest : Program} {r r' r'' : Ledger} :
      s.interpret leave log r = some r' → ok r s r' → Leads leave log ok rest r' r'' →
      Leads leave log ok (s :: rest) r r''

/-- A run goes on after a part of the program. -/
theorem Program.Leads.split {leave : Option Value → Value → Value} {log : List Byte}
    {ok : Ledger → Statement → Ledger → Prop} {p q : Program} {r r' : Ledger}
    (h : Program.Leads leave log ok (p ++ q) r r') :
    ∃ r₁, Program.Leads leave log ok p r r₁ ∧ Program.Leads leave log ok q r₁ r' := by
  induction p generalizing r with
  | nil => exact ⟨r, .nil r, h⟩
  | cons s rest ih =>
    cases h with
    | cons taken fits later =>
      obtain ⟨r₁, first, second⟩ := ih later
      exact ⟨r₁, .cons taken fits first, second⟩

/-- A run with an invariant is one of another interpreter, under other conditions, if every statement is
executed alike where the invariant holds. -/
theorem Program.Leads.refine {leave leave' : Option Value → Value → Value} {log : List Byte}
    {ok ok' : Ledger → Statement → Ledger → Prop} {p : Program} {r r' : Ledger} (inv : Ledger → Prop)
    (h : Program.Leads leave log ok p r r') (start : inv r)
    (step : ∀ s ∈ p, ∀ r r', inv r → s.interpret leave log r = some r' → ok r s r' →
      s.interpret leave' log r = some r' ∧ ok' r s r' ∧ inv r') :
    Program.Leads leave' log ok' p r r' := by
  induction h with
  | nil r => exact .nil r
  | @cons s rest r r₁ r' taken fits _ ih =>
    obtain ⟨taken', fits', next⟩ := step s List.mem_cons_self r r₁ start taken fits
    exact .cons taken' fits' (ih next fun s member => step s (List.mem_cons_of_mem _ member))

/-- The room that the literals of a program take up if each of its statements is executed once. -/
def Program.literalSize (p : Program) : Nat := (p.map Statement.literalSize).sum

/-- An expression of integers has no literals. -/
theorem Expr.literalSize_of_integer {e : Expr} {look : String → Option Value} {n : Word}
    (value : e.value? look = some (.integer n)) : e.literalSize = 0 := by
  induction e generalizing n with
  | int m | var name => rfl
  | str content => cases value
  | arith op l r ihl ihr =>
    obtain ⟨m, k, left, right, -⟩ := value?_arith value
    rw [literalSize, ihl left, ihr right]
  | neg e ih =>
    obtain ⟨k, inner, -⟩ := value?_neg value
    exact ih inner

/-- The number of bytes of scratch stack that an expression needs whose value is known. -/
def Expr.need (e : Expr) : Value → Nat
  | .integer _ => e.stackNeed
  | .string _ => 32

namespace Ledger

/-- The number of bytes of the cell of a name, if it has a value. -/
def span (r : Ledger) (name : String) : Nat := (r.value name).elim 0 Value.span

/-- The cells of all names with a value take up at most so many bytes. -/
def Fits (r : Ledger) (size : Nat) : Prop :=
  ∀ names : List String, names.Nodup → (∀ name ∈ names, (r.value name).isSome) →
    (names.map r.span).sum ≤ size

/-- Only the number of bytes of a value matters. -/
theorem Fits.of_span {r : Ledger} {size : Nat} {name : String} {v v' : Value} (same : v.span = v'.span)
    (fits : (r.set name (some v)).Fits size) : (r.set name (some v')).Fits size := by
  have bound (other : String) : ((r.set name (some v)).value other).isSome =
      ((r.set name (some v')).value other).isSome := by
    by_cases here : other = name
    · rw [here, value_set_self, value_set_self]
      rfl
    · rw [value_set_of_ne _ _ _ here, value_set_of_ne _ _ _ here]
  have span : (r.set name (some v)).span = (r.set name (some v')).span := by
    funext other
    by_cases here : other = name
    · rw [here, span, span, value_set_self, value_set_self]
      exact same
    · rw [span, span, value_set_of_ne _ _ _ here, value_set_of_ne _ _ _ here]
  intro names distinct values
  rw [← span]
  exact fits names distinct fun other member => by rw [bound]; exact values other member

/-- At most so many names have a value. -/
def HasAtMost (r : Ledger) (n : Nat) : Prop :=
  ∀ names : List String, names.Nodup → (∀ name ∈ names, (r.value name).isSome) → names.length ≤ n

theorem span_le (r : Ledger) (name : String) : r.span name ≤ 32 := by
  rw [span]
  cases r.value name with
  | none => exact Nat.zero_le 32
  | some v =>
    have span := v.span_eq
    show v.span ≤ 32
    omega

/-- Whatever the values are, their cells fit if there are not too many. -/
theorem HasAtMost.fits {r : Ledger} {size : Nat} (few : r.HasAtMost (size / 32)) : r.Fits size := by
  have total (names : List String) : (names.map r.span).sum ≤ 32 * names.length := by
    induction names with
    | nil => exact Nat.le_refl _
    | cons name rest ih =>
      have own := r.span_le name
      rw [List.map_cons, List.sum_cons, List.length_cons]
      omega
  intro names distinct values
  have number := few names distinct values
  have := total names
  omega

/-- The value of an expression may be assigned to a name in an arena whose cells are made up of blocks of
`g` bytes: there is room for the routine, the operands and the cell, the name keeps its kind of value, and
a string that the new one does not replace lies in its cell. -/
structure Admits (r : Ledger) (L : Layout) (g : Nat) (target : String) (e : Expr) (v : Value) : Prop where
  names : ∀ name ∈ target :: e.names, name.utf8ByteSize = 1
  code : (Statement.assign target e).codeSize ≤ L.code
  stack : e.need v ≤ L.stack
  whole : v.span % g = 0
  plain : ∀ n, v = .integer n → n.IsPlain
  pos : ∀ content, e = .str content → 0 < content.length
  kind : ∀ old, r.value target = some old → old.span = v.span
  short : ∀ content content', r.value target = some (.string content') → v = .string content →
    content.length ≤ content'.length → content'.length ≤ inlineCapacity ∧ g = 32
  fits : (r.set target (some v)).Fits L.data

end Ledger

/-- A run that assigns no other names than the given ones never has more values than there are names. -/
theorem Program.Leads.hasAtMost {leave : Option Value → Value → Value} {log : List Byte}
    {ok ok' : Ledger → Statement → Ledger → Prop} {p : Program} {r : Ledger} {names : List String}
    {n : Nat} (runs : p.Leads leave log ok {} r) (targets : ∀ s ∈ p, ∀ name ∈ s.target?, name ∈ names)
    (few : names.length ≤ n) (fits : ∀ r s r', ok r s r' → r'.HasAtMost n → ok' r s r') :
    p.Leads leave log ok' {} r := by
  have bounded {r : Ledger} (among : ∀ name, (r.value name).isSome → name ∈ names) : r.HasAtMost n :=
    fun others distinct values => Nat.le_trans
      (distinct.length_le_of_subset fun name member => among name (values name member)) few
  refine runs.refine (fun r => ∀ name, (r.value name).isSome → name ∈ names) (by simp) ?_
  intro s member r r' among taken holds
  have after : ∀ name, (r'.value name).isSome → name ∈ names := by
    intro name bound
    by_cases target : s.target? = some name
    · exact targets s member name target
    · rw [(Statement.takes_of_interpret taken).value_of_ne target] at bound
      exact among name bound
  exact ⟨taken, fits r s r' holds (bounded after), after⟩

/-- A statement may be executed in an arena whose cells are made up of blocks of `g` bytes. -/
def Statement.Admitted (L : Layout) (g : Nat) (r : Ledger) : Statement → Prop
  | .assign target e => ∀ v, e.value? r.value = some v → r.Admits L g target e v
  | .print name => ∀ n, r.value name = some (.integer n) → n.toNat < addressThreshold
  | .delete _ => g = 32
  | .printLog => True

end Osl
