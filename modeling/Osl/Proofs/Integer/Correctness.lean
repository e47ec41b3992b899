import Osl.Proofs.Executor.Creation
import Osl.Proofs.Integer.Simulation

/-!
# Integer programs compute what they say

A program that the reference interpreter can run in the given layout is run to its end, with the same
output, and after each of its statements the executor has the same names with the same values.
-/

namespace Osl
set_option autoImplicit false

variable {L : Layout}

namespace Executor

variable {x : Executor L Spool} {r r' : Reference} {st : Statement}

/-- A statement that the reference interpreter can take, and that fits, is executed, and the executor
comes as far as the reference interpreter. -/
theorem Represents.execute (rep : x.Represents r) (taken : st.apply x.log.content r = some r')
    (fits : st.Fits L r.store r'.store) :
    ∃ routine x', Executor.execute st x = .ok routine x' ∧ x'.log = x.log ∧ x'.Represents r' := by
  cases st with
  | assign target e =>
    simp only [Statement.apply, Option.bind_eq_bind, Option.bind_eq_some_iff] at taken
    obtain ⟨v, value, made⟩ := taken
    cases made
    exact rep.assign fits.names value (fits.value v value) fits.count fits.stack fits.code
  | print name =>
    simp only [Statement.apply, Option.bind_eq_bind, Option.bind_eq_some_iff] at taken
    obtain ⟨v, value, made⟩ := taken
    cases made
    exact rep.print (fits.names name List.mem_cons_self) value (fits.value v value) fits.code
  | delete name =>
    simp only [Statement.apply, Option.bind_eq_bind, Option.bind_eq_some_iff] at taken
    obtain ⟨v, value, made⟩ := taken
    cases made
    exact rep.delete (fits.names name List.mem_cons_self) value fits.code
  | printLog =>
    cases taken
    exact rep.printLog fits.code

/-- A whole program is executed as the reference interpreter runs it. -/
theorem Represents.executeAll {p : Program} {η : Type} (observe : Nat → Routine → η → η) (seen : η)
    (rep : x.Represents r) (runs : p.Runs L x.log.content r r') :
    ∃ x' seen', executeAll observe p x seen = (none, x', seen') ∧ x'.log = x.log ∧
      x'.Represents r' := by
  generalize content : x.log.content = log at runs
  induction runs generalizing x seen with
  | nil r => exact ⟨x, seen, rfl, rfl, rep⟩
  | cons taken fits _ ih =>
    rw [← content] at taken
    obtain ⟨routine, x₁, done, log₁, rep₁⟩ := rep.execute taken fits
    obtain ⟨x₂, seen', rest, log₂, rep₂⟩ :=
      ih (observe x.executed routine seen) rep₁ (by rw [log₁, content])
    refine ⟨x₂, seen', ?_, log₂.trans log₁, rep₂⟩
    rw [Executor.executeAll, done]
    exact rest

/-- Before the first statement nothing has a value and nothing was printed. -/
theorem represents_start (L : Layout) (log : Log) : (start L ⟨some {}⟩ log).Represents {} := by
  refine ⟨⟨Slots.Reachable.empty.placed, ?_, ?_, ?_, ?_, ?_⟩, ?_, rfl, rfl⟩
  · intro name
    rfl
  · intro name other slot bound
    cases bound
  · intro name slot v bound
    cases bound
  · intro slot isSlot _
    exact Arena.holds_initial isSlot
  · intro name v value
    cases value
  · exact Arena.wordAt_savedSp_initial L

/-- The executor has the names of the store, with their values. -/
def Agrees (x : Executor L Spool) (s : Store) : Prop :=
  ∀ name, (x.slotOf name).isSome = (s.lookup name).isSome ∧
    x.valueOf name = (s.lookup name).map .integer

theorem Represents.agrees (rep : x.Represents r) : x.Agrees r.store := by
  intro name
  refine ⟨rep.laid.bound name, ?_⟩
  cases value : r.store.lookup name with
  | none =>
    have unbound : x.slotOf name = none := by
      have same := rep.laid.bound name
      rw [value] at same
      exact Option.isNone_iff_eq_none.1 (by simpa [slotOf] using same)
    rw [valueOf, unbound]
    rfl
  | some v =>
    obtain ⟨slot, bound⟩ := rep.laid.bound_of_value value
    have isSlot := (rep.laid.placed name slot bound).2
    have fits := isSlot.fits
    have place := isSlot.toNat_cell
    have cell := rep.laid.cell name slot v bound value
    have := L.ordered
    have := L.stackBase_eq
    have := L.stop_lt
    have second : (L.cell slot + 8).toNat = L.dataBase + slot + 8 := by
      rw [Word.toNat_add_eight (by omega), place]
    have read : Value.read x.arena (L.cell slot) = .ok (.integer v) := by
      have within : L.Within (L.dataBase + slot) 8 := by
        unfold Layout.Within
        omega
      have within' : L.Within (L.dataBase + slot + 8) 8 := by
        unfold Layout.Within
        omega
      simp only [Value.read, Arena.readWord_eq_ite, place, second, if_pos within, if_pos within', cell.1,
        cell.2.1]
      rfl
    have bound' : x.slotOf name = some slot := bound
    simp only [valueOf, bound', Option.bind_eq_bind, Option.bind_some, read]
    rfl

end Executor

/-- A run goes on after a part of the program. -/
theorem Program.Runs.split {log : List Byte} {p q : Program} {r r' : Reference}
    (h : Program.Runs L log (p ++ q) r r') :
    ∃ r₁, Program.Runs L log p r r₁ ∧ Program.Runs L log q r₁ r' := by
  induction p generalizing r with
  | nil => exact ⟨r, .nil r, h⟩
  | cons s rest ih =>
    cases h with
    | cons taken fits later =>
      obtain ⟨r₁, first, second⟩ := ih later
      exact ⟨r₁, .cons taken fits first, second⟩

/-- A program that the reference interpreter can run, every statement of it fitting the arena that
the configuration asks for, succeeds with the output of the reference interpreter; and after each of
its statements the executor agrees with the store of the reference interpreter. -/
theorem Program.run_eq_reference {c : Config} {world : Surroundings} {p : Program} {r : Reference}
    (valid : c.layout = .ok L) (reservable : L.size < Arena.reserveLimit)
    (directory : c.sinkDir.all world.hasDirectory)
    (runs : p.Runs L world.log.content {} r) :
    p.run c world = .ok r.output ∧
      ∃ x, Executor.create c world = .ok ⟨L, x⟩ ∧
        ∀ before after, p = before ++ after →
          ∃ r₁ y, before.Runs L world.log.content {} r₁ ∧
            Executor.executeAll (fun _ _ seen => seen) before x () = (none, y, ()) ∧
            y.Agrees r₁.store := by
  have created := Executor.create_of_layout valid reservable directory
  have rep := Executor.represents_start L world.log
  refine ⟨?_, _, created, ?_⟩
  · obtain ⟨y, seen, done, -, rep'⟩ :=
      rep.executeAll (fun _ _ seen => seen) () runs
    simp only [Program.run, Program.runObserved, created, done, Executor.finish_of_isOpen rep'.ready,
      Spool.finish, rep'.output]
  · intro before after same
    rw [same] at runs
    obtain ⟨r₁, first, -⟩ := runs.split
    obtain ⟨y, seen, done, -, rep'⟩ := rep.executeAll (fun _ _ seen => seen) () first
    exact ⟨r₁, y, first, done, rep'.agrees⟩

/-- The layout of the default configuration. -/
def Layout.standard : Layout where
  base := 0x60000000
  data := 0x200
  stack := 0x500
  code := 0x2000
  literal := 0x1000
  base_aligned := by decide
  data_aligned := by decide
  stack_aligned := by decide
  code_aligned := by decide
  literal_aligned := by decide
  base_high := by decide
  data_holds_string := by decide
  stack_pos := by decide
  code_pos := by decide
  literal_pos := by decide
  below_sign := by decide

/-- A program whose second value wraps around below zero:
`x = 6 * 7; y = x - 43; x = -y; print x; del y; print_log;` -/
def Program.wrapping : Program :=
  [.assign "x" (.arith .mul (.int 6) (.int 7)), .assign "y" (.arith .sub (.var "x") (.int 43)),
    .assign "x" (.neg (.var "y")), .print "x", .delete "y", .printLog]

theorem Program.run_wrapping :
    Program.wrapping.run {} { log := .file [33] } = .ok [49, 10, 33] := by
  have runs : Program.wrapping.Runs .standard [33] {}
      ⟨⟨[("x", 1)], by decide⟩, [49, 10, 33]⟩ := by
    refine .cons rfl ⟨by decide, ?_, by decide, by decide, by decide⟩ ?_
    · rintro v ⟨⟩
      exact .inl (by decide)
    refine .cons rfl ⟨by decide, ?_, by decide, by decide, by decide⟩ ?_
    · rintro v ⟨⟩
      exact .inr (by decide)
    refine .cons rfl ⟨by decide, ?_, by decide, by decide, by decide⟩ ?_
    · rintro v ⟨⟩
      exact .inl (by decide)
    refine .cons rfl ⟨by decide, ?_, by decide, by decide, by decide⟩ ?_
    · rintro v ⟨⟩
      decide
    refine .cons rfl ⟨by decide, trivial, by decide, by decide, by decide⟩ ?_
    refine .cons rfl ⟨by decide, trivial, by decide, by decide, by decide⟩ ?_
    exact .nil _
  have computed := @Program.run_eq_reference .standard {} { log := .file [33] } _ _ rfl
    (by decide) rfl runs
  exact computed.1

end Osl
