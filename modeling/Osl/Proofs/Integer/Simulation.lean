import Osl.Proofs.Executor.Execution
import Osl.Proofs.Expr.Evaluation
import Osl.Proofs.Integer.LaidOut
import Osl.Proofs.Machine.Cells
import Osl.Proofs.Machine.Output

/-!
# Executing integer programs

An executor `Represents` a state of the reference interpreter if its store is laid out in its data
section, its scratch stack is empty, and its sink has the output. A statement that the reference
interpreter can take, and that fits, leads from there to the next state (`Represents.execute`).
-/

namespace Osl
set_option autoImplicit false

variable {L : Layout} {s : Store} {a : Arena L} {v : Word}

/-- An expression that has a value in a store stands for it. -/
theorem Expr.hasWord_of_valueIn {e : Expr} {p : String → Prop} (names : ∀ name ∈ e.names, p name)
    (value : e.valueIn s = some v) :
    e.HasWord (fun name v => p name ∧ s.lookup name = some v) v := by
  induction e generalizing v with
  | int n =>
    cases value
    exact .int n
  | str content => cases value
  | var name => exact .var ⟨names name (List.mem_singleton_self name), value⟩
  | arith op l r ihl ihr =>
    simp only [valueIn, Option.bind_eq_bind, Option.bind_eq_some_iff] at value
    obtain ⟨x, left, y, right, made⟩ := value
    cases made
    exact .arith (ihl (fun name member => names name (List.mem_append_left _ member)) left)
      (ihr (fun name member => names name (List.mem_append_right _ member)) right)
  | neg e ih =>
    simp only [valueIn, Option.bind_eq_bind, Option.bind_eq_some_iff] at value
    obtain ⟨x, inner, made⟩ := value
    cases made
    exact .neg (ih names inner)

/-- Over a store that is laid out an integer expression needs no new places. Wherever the store is
laid out, its code leaves its value and no more, and takes up as much stack as its shape tells. -/
theorem Store.LaidOut.locate {e : Expr} {w : Workspace L} (laid : s.LaidOut w.slots a)
    (names : ∀ name ∈ e.names, name.utf8ByteSize = 1) (value : e.valueIn s = some v) :
    ∃ t, e.locate w = .ok t w ∧ ∀ b : Arena L, s.LaidOut w.slots b →
      t.words b = [v, 0] ∧ 8 * t.peak b = e.stackNeed ∧ t.Readable b := by
  have integer := Expr.hasWord_of_valueIn names value
  have bound : ∀ name v, name.utf8ByteSize = 1 ∧ s.lookup name = some v →
      name.utf8ByteSize = 1 ∧ ∃ slot, w.slots.lookup name = some slot ∧ L.IsSlot slot := by
    rintro name v ⟨single, value⟩
    obtain ⟨slot, bound⟩ := laid.bound_of_value value
    exact ⟨single, slot, bound, (laid.placed name slot bound).2⟩
  obtain ⟨t, located, evaluates⟩ := integer.locate bound
  refine ⟨t, located, fun b laid' => evaluates b ?_⟩
  rintro name v slot ⟨-, value⟩ bound
  exact laid'.cell name slot v bound value

/-- The executor has come as far as the reference interpreter. -/
structure Executor.Represents (x : Executor L Spool) (r : Reference) : Prop where
  laid : r.store.LaidOut x.slots x.arena
  empty : x.arena.wordAt L.savedSp = .ofNat L.stackTop
  ready : x.sink.isOpen
  output : x.sink.toList = r.output

namespace Executor.Represents

variable {x : Executor L Spool} {r r' : Reference} {st : Statement} {task : Task}
  {w' : Workspace L} {m : Machine L Spool}

/-- What is to be shown of the body of a routine. -/
theorem of_ran (located : st.locate x.workspace = .ok task w') (rep : x.Represents r)
    (fits : st.codeSize ≤ L.code) (ran : Machine.Ran x.log task.code (x.atBody w' task) m)
    (sp : m.sp = (x.atBody w' task).sp) (laid : r'.store.LaidOut w'.slots m.arena)
    (ready : m.sink.isOpen) (output : m.sink.toList = r'.output) :
    ∃ routine x', execute st x = .ok routine x' ∧ x'.log = x.log ∧ x'.Represents r' := by
  have same := m.arena.sameOutside_save m.sp
  refine ⟨_, _, execute_of_ran located fits ran, rfl,
    laid.sameInside (same.inside (.inr (Nat.le_refl _))), ?_, ready, output⟩
  rw [← rep.empty, ← atBody_sp located, ← sp]
  exact m.arena.wordAt_save m.sp

/-- The body starts on an empty stack. -/
theorem toNat_sp_atBody (rep : x.Represents r) (located : st.locate x.workspace = .ok task w') :
    (x.atBody w' task).sp.toNat = L.stackTop := by
  have := L.stackTop_lt
  rw [atBody_sp located, rep.empty]
  exact Word.toNat_ofNat_of_lt (by omega)

theorem printLog (rep : x.Represents r) (fits : Statement.printLog.codeSize ≤ L.code) :
    ∃ routine x', execute .printLog x = .ok routine x' ∧ x'.log = x.log ∧
      x'.Represents { r with output := r.output ++ x.log.content } := by
  have located : Statement.printLog.locate x.workspace = .ok .printLog x.workspace := rfl
  have same := sameInside_atBody located
  obtain ⟨m, ran, arena, sp, ready, output⟩ :=
    Machine.ran_printLog (codeAt_atBody located fits) rep.ready
  have := L.ordered
  have laid := rep.laid.sameInside (same.mono (Nat.le_refl _) (by omega))
  rw [← arena] at laid
  refine of_ran located rep fits ran sp laid ready ?_
  rw [output, atBody_sink, rep.output]

theorem print {name : String} (rep : x.Represents r) (single : name.utf8ByteSize = 1)
    (value : r.store.lookup name = some v) (small : v.toNat < addressThreshold)
    (fits : (Statement.print name).codeSize ≤ L.code) :
    ∃ routine x', execute (.print name) x = .ok routine x' ∧ x'.log = x.log ∧
      x'.Represents
        { r with output := r.output ++ Numeral.decimalBytes v.toNat ++ ['\n'.toUInt8] } := by
  obtain ⟨slot, bound⟩ := rep.laid.bound_of_value value
  have isSlot := (rep.laid.placed name slot bound).2
  have place : (L.cell slot).toNat = L.dataBase + slot := isSlot.toNat_cell
  have located := Statement.locate_print (w := x.workspace) single bound
  have same := sameInside_atBody located
  have := L.ordered
  have := L.stackBase_eq
  have inData := isSlot.fits
  have laid := rep.laid.sameInside (same.mono (Nat.le_refl _) (by omega))
  have cell := laid.cell name slot v bound value
  have digits := Numeral.length_decimalBytes_le small
  obtain ⟨m, ran, arena, sp, ready, output⟩ := Machine.ran_print_integer
    (codeAt_atBody located fits) (by rw [place]; unfold Layout.Within; omega) (by rwa [place])
    (Nat.le_succ_of_le digits) rep.ready
  rw [← arena] at laid
  refine of_ran located rep fits ran sp laid ready ?_
  rw [output, atBody_sink, rep.output]

theorem delete {name : String} (rep : x.Represents r) (single : name.utf8ByteSize = 1)
    (value : r.store.lookup name = some v) (fits : (Statement.delete name).codeSize ≤ L.code) :
    ∃ routine x', execute (.delete name) x = .ok routine x' ∧ x'.log = x.log ∧
      x'.Represents { r with store := r.store.erase name } := by
  obtain ⟨slot, bound⟩ := rep.laid.bound_of_value value
  have isSlot := (rep.laid.placed name slot bound).2
  have place : (L.cell slot).toNat = L.dataBase + slot := isSlot.toNat_cell
  have located := Statement.locate_delete (w := x.workspace) single bound
  have same := sameInside_atBody located
  have := L.ordered
  have := L.stackBase_eq
  have inData := isSlot.fits
  have laid := rep.laid.sameInside (same.mono (Nat.le_refl _) (by omega))
  have cell := laid.cell name slot v bound value
  obtain ⟨m, ran, sp, sink, freed, rest⟩ := Machine.ran_release
    (codeAt_atBody located fits) (by omega) (by omega)
  rw [place] at freed rest
  refine of_ran located rep fits ran sp (laid.erase bound ?_ (freed cell.2.1)) ?_ ?_
  · exact fun p _ _ apart => rest p apart
  · rw [sink]
    exact rep.ready
  · rw [sink]
    exact rep.output

/-- An assignment gets a cell for its target that is no other name's, and its expression has places
wherever the store is laid out. -/
theorem locate_assign {target : String} {e : Expr} (rep : x.Represents r)
    (names : ∀ name ∈ target :: e.names, name.utf8ByteSize = 1)
    (value : e.valueIn r.store = some v) (count : (r.store.assign target v).size ≤ L.data / 16) :
    ∃ t slot w', (Statement.assign target e).locate x.workspace = .ok (.assign t (L.cell slot)) w' ∧
      x.slots.slotFor x.workspace.arena target = .ok (slot, w'.slots) ∧
      (∀ other, other ≠ target → x.slots.lookup other ≠ some slot) ∧
      ∀ b : Arena L, r.store.LaidOut x.slots b →
        t.words b = [v, 0] ∧ 8 * t.peak b = e.stackNeed ∧ t.Readable b := by
  have := L.ordered
  have := L.stackBase_eq
  obtain ⟨t, located, evaluates⟩ := rep.laid.locate (w := x.workspace)
    (fun name member => names name (List.mem_cons_of_mem _ member)) value
  have cleared : x.arena.SameInside x.workspace.arena L.dataBase L.stackBase :=
    (Arena.sameOutside_overlay x.arena L.codeBase _).inside (.inl (by omega))
  obtain ⟨slot, slots, asked, alone⟩ := (rep.laid.sameInside cleared).exists_slotFor
    (names target List.mem_cons_self)
    (fun new => by rw [Store.size_assign_of_none v new] at count; omega)
  have given := Compile.cellOf_eq (w := x.workspace) asked
  refine ⟨t, slot, ⟨x.workspace.arena, slots, x.literals⟩, ?_, asked, alone, evaluates⟩
  rw [Statement.locate, bind_ok located, bind_ok given]
  rfl

theorem assign {target : String} {e : Expr} (rep : x.Represents r)
    (names : ∀ name ∈ target :: e.names, name.utf8ByteSize = 1)
    (value : e.valueIn r.store = some v) (plain : v.IsPlain)
    (count : (r.store.assign target v).size ≤ L.data / 16) (stack : e.stackNeed ≤ L.stack)
    (fits : (Statement.assign target e).codeSize ≤ L.code) :
    ∃ routine x', execute (.assign target e) x = .ok routine x' ∧ x'.log = x.log ∧
      x'.Represents { r with store := r.store.assign target v } := by
  have := L.ordered
  have := L.stackBase_eq
  have top : L.stackTop = L.stackBase + L.stack := rfl
  obtain ⟨t, slot, w', located, asked, alone, evaluates⟩ := rep.locate_assign names value count
  have isSlot := rep.laid.placed.isSlot asked
  have place : (L.cell slot).toNat = L.dataBase + slot := isSlot.toNat_cell
  have inData := isSlot.fits
  -- the body starts on an empty stack, with the cells as they were
  have code := codeAt_atBody located fits
  rw [Task.code, List.append_assoc] at code
  have same := sameInside_atBody located
  have laid := rep.laid.sameInside (same.mono (Nat.le_refl _) (by omega))
  obtain ⟨words, need, readable⟩ := evaluates _ laid
  have start := rep.toNat_sp_atBody located
  have whole := L.stack_aligned
  have order : L.StackPointer (x.atBody w' (.assign t (L.cell slot))).sp := by
    constructor <;> omega
  -- first the value, then the store
  obtain ⟨m₁, leaves⟩ := (t.evaluates_code x.log order code.left readable).fits (by omega)
  rw [words] at leaves
  have sp₁ := leaves.pushed.sp
  have low₁ := leaves.low
  simp only [List.length_cons, List.length_nil] at sp₁
  obtain ⟨m₂, stored, sp₂, sink₂, holds, written⟩ := Machine.ran_store_integer
    (leaves.codeAt order code) low₁ (by omega) leaves.pushed.words (by omega) (by omega)
  rw [place] at holds written
  have restored : m₂.sp = (x.atBody w' (.assign t (L.cell slot))).sp :=
    UInt64.toNat_inj.1 (by omega)
  have sink : m₂.sink = x.sink := sink₂.trans leaves.pushed.sink
  have unchanged : Arena.SameButWindow (x.atBody w' (.assign t (L.cell slot))).arena m₂.arena slot := by
    intro p low high apart
    rw [written p apart, leaves.same order p (.inl high)]
  refine of_ran located rep fits ((leaves.ran order).trans stored) restored
    (laid.assign asked alone plain unchanged holds) ?_ ?_
  · rw [sink]
    exact rep.ready
  · rw [sink]
    exact rep.output

end Executor.Represents
end Osl
