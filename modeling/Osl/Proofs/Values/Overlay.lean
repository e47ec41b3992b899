import Osl.Proofs.Integer.Correctness
import Osl.Proofs.Values.Simulation

/-!
# Programs of short strings

Where every string fits into a cell, all cells are blocks of 32 bytes, and a name may be forgotten and its
block be used again. An assignment goes over the beginning of a string that is at least as long and leaves
the rest of it (`Value.laidOver`). So a program that assigns and copies short strings does what the
interpreter says that leaves just that (`Program.run_eq_overlay`).
-/

namespace Osl
set_option autoImplicit false

variable {L : Layout} {r r' : Ledger} {name : String} {v : Value} {log : List Byte}

/-- A string that is not empty and fits into a cell. -/
def Value.IsShort : Value → Prop
  | .integer _ => False
  | .string content => 0 < content.length ∧ content.length ≤ inlineCapacity

instance : DecidablePred Value.IsShort
  | .integer _ => isFalse id
  | .string content => inferInstanceAs (Decidable (0 < content.length ∧ _))

/-- A literal that is a short string, or a variable. -/
def Expr.IsShort : Expr → Prop
  | .str content => (Value.string content).IsShort
  | .var _ => True
  | .int _ | .arith _ _ _ | .neg _ => False

instance : DecidablePred Expr.IsShort
  | .str content => inferInstanceAs (Decidable (Value.string content).IsShort)
  | .var _ => isTrue trivial
  | .int _ | .arith _ _ _ | .neg _ => isFalse id

/-- What is assigned, if anything, is a short string. -/
def Statement.AssignsShort : Statement → Prop
  | .assign _ e => e.IsShort
  | .print _ | .delete _ | .printLog => True

instance : DecidablePred Statement.AssignsShort
  | .assign _ e => inferInstanceAs (Decidable e.IsShort)
  | .print _ | .delete _ | .printLog => isTrue trivial

/-- A statement over names of one byte that assigns short strings only. -/
def Statement.IsShort (s : Statement) : Prop :=
  (∀ name ∈ s.names, name.utf8ByteSize = 1) ∧ s.AssignsShort

instance : DecidablePred Statement.IsShort := fun s => inferInstanceAs (Decidable (_ ∧ s.AssignsShort))

namespace Ledger

/-- Every name with a value has a short string. -/
def AllShort (r : Ledger) : Prop := ∀ name v, r.value name = some v → v.IsShort

/-- All strings stay short if a new one is. -/
theorem AllShort.set {new : Option Value} (short : r.AllShort) (isShort : ∀ v, new = some v → v.IsShort) :
    (r.set name new).AllShort := by
  intro other v value
  by_cases here : other = name
  · rw [here, value_set_self] at value
    exact isShort v value
  · rw [value_set_of_ne _ _ _ here] at value
    exact short other v value

end Ledger

namespace Value

theorem IsShort.exists_eq (short : v.IsShort) : ∃ content, v = .string content := by
  cases v with
  | integer n => cases short
  | string content => exact ⟨content, rfl⟩

theorem IsShort.span_eq (short : v.IsShort) : v.span = 32 := by
  obtain ⟨content, rfl⟩ := short.exists_eq
  rfl

/-- What is left of two short strings is short. -/
theorem IsShort.laidOver {old : Option Value} (short : v.IsShort)
    (olds : ∀ v', old = some v' → v'.IsShort) : (Value.laidOver old v).IsShort := by
  obtain ⟨new, rfl⟩ := short.exists_eq
  cases old with
  | none => exact short
  | some v' =>
    obtain ⟨content, rfl⟩ := (olds v' rfl).exists_eq
    have few : content.length ≤ inlineCapacity := (olds _ rfl).2
    obtain ⟨pos, few'⟩ : 0 < new.length ∧ new.length ≤ inlineCapacity := short
    rw [Value.laidOver]
    constructor
    · rw [List.length_append]
      omega
    · rw [List.length_append, List.length_drop]
      omega

end Value

/-- The value of a short expression is short. -/
theorem Expr.IsShort.value {e : Expr} (h : e.IsShort) (short : r.AllShort)
    (value : e.value? r.value = some v) : v.IsShort := by
  cases e with
  | str content =>
    cases value
    exact h
  | var name => exact short name v value
  | int m | arith op l r | neg e => cases h

/-- A short expression may be assigned to a name, as long as the cells fit. -/
theorem Expr.IsShort.admits {target : String} {e : Expr} (h : e.IsShort) (short : r.AllShort)
    (names : ∀ name ∈ target :: e.names, name.utf8ByteSize = 1) (code : 48 ≤ L.code)
    (stack : 32 ≤ L.stack) (value : e.value? r.value = some v)
    (fits : (r.set target (some v)).Fits L.data) : r.Admits L 32 target e v := by
  have new := h.value short value
  obtain ⟨content, rfl⟩ := new.exists_eq
  refine ⟨names, ?_, stack, Nat.mod_self 32, ?_, ?_, ?_, ?_, fits⟩
  · cases e with
    | str content => exact code
    | var name => exact Nat.le_trans (by decide : 9 + 12 ≤ 48) code
    | int m | arith op l r | neg e => cases h
  · rintro n ⟨⟩
  · rintro literal rfl
    exact h.1
  · exact fun old held => (short target old held).span_eq
  · exact fun content content' held _ _ => ⟨(short target _ held).2, rfl⟩

/-- The interpreter takes a statement with short strings to other short strings, and the statement is
admitted. -/
theorem Statement.IsShort.step {s : Statement} (h : s.IsShort) (code : 48 ≤ L.code)
    (stack : 32 ≤ L.stack) (short : r.AllShort) (taken : s.interpret Value.laidOver log r = some r')
    (few : r'.HasAtMost (L.data / 32)) : s.Admitted L 32 r ∧ r'.AllShort := by
  obtain ⟨names, assigns⟩ := h
  cases Statement.takes_of_interpret taken with
  | @assign target e v value =>
    have isShort : e.IsShort := assigns
    have left : (Value.laidOver (r.value target) v).IsShort :=
      (isShort.value short value).laidOver fun old => short target old
    refine ⟨fun v' value' => ?_, short.set fun v' new => ?_⟩
    · cases value.symm.trans value'
      exact isShort.admits short names code stack value (few.fits.of_span (v.span_laidOver _))
    · cases new
      exact left
  | print => exact ⟨fun n value => (short _ _ value).elim, short⟩
  | delete => exact ⟨rfl, short.set fun v none => nomatch none⟩
  | printLog => exact ⟨trivial, short⟩

/-- A program of short strings succeeds with the output of the interpreter that leaves the rest of a
longer string, as long as there is a block for every name and room for the literals; and after each of its
statements the executor shows the values of the interpreter. -/
theorem Program.run_eq_overlay {c : Config} {world : Surroundings} {p : Program} {r : Ledger}
    (valid : c.layout = .ok L) (reservable : L.size < Arena.reserveLimit)
    (directory : c.sinkDir.all world.hasDirectory) (code : 48 ≤ L.code) (stack : 32 ≤ L.stack)
    (short : ∀ s ∈ p, s.IsShort) (room : p.literalSize ≤ L.literal)
    (runs : p.Leads Value.laidOver world.log.content (fun _ _ r' => r'.HasAtMost (L.data / 32)) {} r) :
    p.run c world = .ok r.output ∧
      ∃ x, Executor.create c world = .ok ⟨L, x⟩ ∧
        ∀ before after, p = before ++ after →
          ∃ r₁ y, before.Leads Value.laidOver world.log.content
              (fun _ _ r' => r'.HasAtMost (L.data / 32)) {} r₁ ∧
            Executor.executeAll (fun _ _ seen => seen) before x () = (none, y, ()) ∧
            y.Shows r₁.value := by
  have start : Ledger.AllShort {} := by
    intro name v value
    cases value
  refine Program.run_of_leads valid reservable directory room (.inr rfl) Ledger.AllShort start ?_ runs
  intro s member r r' allShort taken few
  exact ⟨taken, (short s member).step code stack allShort taken few⟩

/-- A program whose strings are partly overwritten, forgotten and written again:
`x = "hello"; x = "AB"; y = x; del x; x = "z"; print y; print x; print_log;` -/
def Program.overlaying : Program :=
  [.assign "x" (.str [104, 101, 108, 108, 111]), .assign "x" (.str [65, 66]), .assign "y" (.var "x"),
    .delete "x", .assign "x" (.str [122]), .print "y", .print "x", .printLog]

theorem Program.run_overlaying : Program.overlaying.run {} { log := .file [33] } =
    .ok [65, 66, 108, 108, 111, 10, 122, 10, 33] := by
  have runs : Program.overlaying.Leads Value.laidOver [33] (fun _ _ _ => True) {} _ :=
    .cons rfl trivial (.cons rfl trivial (.cons rfl trivial (.cons rfl trivial (.cons rfl trivial
      (.cons rfl trivial (.cons rfl trivial (.cons rfl trivial (.nil _))))))))
  have targets : ∀ s ∈ Program.overlaying, ∀ name ∈ s.target?, name ∈ ["x", "y"] := by decide
  have few := runs.hasAtMost targets (by decide : 2 ≤ Layout.standard.data / 32)
    fun _ _ _ _ few => few
  have computed := @Program.run_eq_overlay .standard {} { log := .file [33] } _ _ rfl (by decide) rfl
    (by decide) (by decide) (by decide) (by decide) few
  exact computed.1

end Osl
