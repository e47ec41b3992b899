import Osl.Proofs.Expr.Integer
import Osl.Proofs.Statement.Located
import Osl.Text.Numeral

/-!
# What integer programs say

A reference interpreter for programs without strings. It knows nothing of cells, stacks or routines:
a store maps names to words, and reading a name without a value stops it. `Statement.Fits` says what
a statement may ask of an arena, and `Program.Runs` that a program comes to its end, every statement
of it fitting.
-/

namespace Osl
set_option autoImplicit false

/-- A finite map from names to words. -/
structure Store where
  bindings : List (String × Word) := []
  distinct : (bindings.map Prod.fst).Nodup := by simp
  deriving DecidableEq

namespace Store

/-- The value of a name. -/
def lookup (s : Store) (name : String) : Option Word := s.bindings.lookup name

/-- The number of names with a value. -/
def size (s : Store) : Nat := s.bindings.length

/-- The store without the value of a name. -/
def erase (s : Store) (name : String) : Store where
  bindings := s.bindings.filter (·.1 != name)
  distinct := s.distinct.sublist (List.filter_sublist.map _)

/-- The store with another value for a name. -/
def assign (s : Store) (name : String) (v : Word) : Store where
  bindings := (name, v) :: (s.erase name).bindings
  distinct := by
    rw [List.map_cons, List.nodup_cons]
    refine ⟨?_, (s.erase name).distinct⟩
    simp [erase]

/-- Forgetting a name forgets its value and no other. -/
theorem lookup_erase (s : Store) (name other : String) :
    (s.erase name).lookup other = if other = name then none else s.lookup other :=
  Slots.lookup_filter_ne s.bindings name other

/-- Assigning to a name gives it the value and leaves the others alone. -/
theorem lookup_assign (s : Store) (name other : String) (v : Word) :
    (s.assign name v).lookup other = if other = name then some v else s.lookup other := by
  have others := s.lookup_erase name other
  unfold lookup at others
  rw [lookup, assign, List.lookup_cons, others]
  by_cases same : other = name
  · simp only [beq_iff_eq.2 same, if_pos same]
  · simp only [beq_false_of_ne same, if_neg same]
    rfl

/-- A name with a value is one of the names counted. -/
theorem mem_names_of_lookup {s : Store} {name : String} {v : Word} (h : s.lookup name = some v) :
    name ∈ s.bindings.map Prod.fst := by
  obtain ⟨front, back, same, -⟩ := List.lookup_eq_some_iff.1 h
  rw [same, List.map_append, List.map_cons]
  exact List.mem_append_right _ List.mem_cons_self

/-- A new name counts for one more. -/
theorem size_assign_of_none {s : Store} {name : String} (v : Word) (h : s.lookup name = none) :
    (s.assign name v).size = s.size + 1 := by
  have kept : s.bindings.filter (·.1 != name) = s.bindings := by
    rw [List.filter_eq_self]
    intro b member
    have other := List.lookup_eq_none_iff.1 h b member
    rw [bne_iff_ne]
    rintro rfl
    simp at other
  show (s.bindings.filter (·.1 != name)).length + 1 = s.bindings.length + 1
  rw [kept]

end Store

/-- The value of an expression, if it is one of integers and all its variables have values. -/
def Expr.valueIn (s : Store) : Expr → Option Word
  | .int n => some n
  | .str _ => none
  | .var name => s.lookup name
  | .arith op l r => do return op.apply (← l.valueIn s) (← r.valueIn s)
  | .neg e => do return 0 - (← e.valueIn s)

/-- What the reference interpreter keeps between statements. -/
structure Reference where
  store : Store := {}
  output : List Byte := []
  deriving DecidableEq

/-- What a statement does, unless it reads a name without a value. -/
def Statement.apply (log : List Byte) : Statement → Reference → Option Reference
  | .assign target e, r => do
    let v ← e.valueIn r.store
    return { r with store := r.store.assign target v }
  | .print name, r => do
    let v ← r.store.lookup name
    return { r with output := r.output ++ Numeral.decimalBytes v.toNat ++ ['\n'.toUInt8] }
  | .delete name, r => do
    let _ ← r.store.lookup name
    return { r with store := r.store.erase name }
  | .printLog, r => return { r with output := r.output ++ log }

/-- A word that is taken for an integer wherever it stands: a small one, or one with the sign
set. -/
def Word.IsPlain (v : Word) : Prop := v.toNat < addressThreshold ∨ 0x8000000000000000 ≤ v.toNat

instance : DecidablePred Word.IsPlain := fun _ => inferInstanceAs (Decidable (_ ∨ _))

/-- The value that a statement assigns or prints may be assigned or printed. -/
def Statement.ValueFits (s : Store) : Statement → Prop
  | .assign _ e => ∀ v, e.valueIn s = some v → v.IsPlain
  | .print name => ∀ v, s.lookup name = some v → v.toNat < addressThreshold
  | .delete _ | .printLog => True

/-- The stack that a statement needs. -/
def Statement.stackNeed : Statement → Nat
  | .assign _ e => e.stackNeed
  | .print _ | .delete _ | .printLog => 0

/-- An arena of the given layout has what a statement asks for that leads from one store to
another. -/
structure Statement.Fits (L : Layout) (s : Statement) (before after : Store) : Prop where
  names : ∀ name ∈ s.names, name.utf8ByteSize = 1
  value : s.ValueFits before
  count : after.size ≤ L.data / 16
  code : s.codeSize ≤ L.code
  stack : s.stackNeed ≤ L.stack

/-- The program leads from one state of the reference interpreter to another, and each of its
statements fits. -/
inductive Program.Runs (L : Layout) (log : List Byte) : Program → Reference → Reference → Prop
  | nil (r : Reference) : Runs L log [] r r
  | cons {s : Statement} {rest : Program} {r r' r'' : Reference} :
      s.apply log r = some r' → s.Fits L r.store r'.store → Runs L log rest r' r'' →
      Runs L log (s :: rest) r r''

end Osl
