import Osl.Proofs.Executor.SavedStack
import Osl.Proofs.Machine.ScratchStack

/-!
# When the scratch stack is exhausted

A statement that is no assignment keeps the saved stack pointer, also when it fails. An assignment that
overflows the scratch stack does not: it saves a full stack, and as every routine of an assignment
pushes before anything else, no assignment ever succeeds again (`Reached.savedSp_of_fault`).
-/

namespace Osl
set_option autoImplicit false

variable {L : Layout} {σ : Type}

/-- Code of an expression starts with a push or a load. -/
theorem Located.exists_code_cons (t : Located) : ∃ i rest, t.code = i :: rest ∧
    ((∃ w, i = .push w) ∨ ∃ cell ∈ t.cells, i = .load cell) := by
  induction t with
  | int n => exact ⟨_, _, rfl, .inl ⟨_, rfl⟩⟩
  | str h => exact ⟨_, _, rfl, .inl ⟨_, rfl⟩⟩
  | var cell => exact ⟨_, _, rfl, .inr ⟨cell, List.mem_singleton_self cell, rfl⟩⟩
  | arith op l r _ ihr =>
    obtain ⟨i, rest, code, first⟩ := ihr
    refine ⟨i, rest ++ (l.code ++ [.arith op]), by rw [Located.code, code]; rfl, ?_⟩
    refine first.imp_right ?_
    rintro ⟨cell, member, same⟩
    exact ⟨cell, List.mem_append_right _ member, same⟩
  | neg e ih =>
    obtain ⟨i, rest, code, first⟩ := ih
    exact ⟨i, _, by rw [Located.code, code]; rfl, first⟩

namespace Machine

variable {m : Machine L σ}

/-- A load onto a full stack faults. -/
theorem load_full {cell : Word} (isCell : L.IsCell cell) (full : m.sp.toNat = L.stackBase) :
    load cell m = .error (.stackOverflow (.ofNat (L.stackBase - 8))) m := by
  have := L.ordered
  have bounds := isCell.bounds
  have second := isCell.toNat_add (k := 8) (by decide)
  have fourth := isCell.toNat_add (k := 24) (by decide)
  simp only [UInt64.reduceToNat] at second fourth
  have tagged := readWord_eq m (p := cell + 8) (by unfold Layout.Within; omega)
  have last := readWord_eq m (p := cell + 24) (by unfold Layout.Within; omega)
  rw [load, bind_ok tagged]
  cases Tag.of (m.arena.wordAt (cell + 8).toNat) with
  | integer => exact bind_error (push_full 0 full)
  | string length =>
    show (readWord (cell + 24) >>= fun w => push w >>= fun _ => _) m = _
    rw [bind_ok last, bind_error (push_full _ full)]

/-- The code of an expression faults on a full stack, with its first instruction. -/
theorem step_full [Sink σ] (log : Log) {t : Located} {later : List Instr}
    (cells : ∀ cell ∈ t.cells, L.IsCell cell) (full : m.sp.toNat = L.stackBase)
    (code : CodeAt m.arena m.ip.toNat (t.code ++ later)) :
    ∃ m', step log m = .error (.stackOverflow (.ofNat (L.stackBase - 8))) m' ∧ KeepsStack m m' := by
  obtain ⟨i, rest, start, first⟩ := t.exists_code_cons
  rw [start] at code
  refine ⟨m.past i, ?_, rfl, rfl⟩
  rw [step_eq_exec code]
  rcases first with ⟨w, rfl⟩ | ⟨cell, member, rfl⟩
  · exact bind_error (push_full (m := m.past _) w full)
  · exact bind_error (load_full (m := m.past _) (cells cell member) full)

end Machine

namespace Executor

variable {x x' : Executor L σ} {s : Statement}

/-- The machine in front of the routine of a statement finds the code of its task. -/
theorem codeAt_atStart {task : Task} {w' : Workspace L} (sink : σ)
    (located : s.locate x.workspace = .ok task w') (fits : s.codeSize ≤ L.code) :
    CodeAt (w'.withRoutine task)
      (Machine.atStart { arena := w'.withRoutine task, sink }).ip.toNat (framed task.code) :=
  Machine.codeAt_atStart (m := { arena := _, sink }) (codeAt_withRoutine located fits)

/-- Nothing in the routine of a statement that is no assignment moves the stack pointer. -/
theorem leavesStack_of_locate {task : Task} {w w' : Workspace L} (located : s.locate w = .ok task w')
    (other : ∀ target e, s ≠ .assign target e) {i : Instr} (member : i ∈ framed task.code) :
    (i.IsWork L → i.LeavesStack) ∧ ∀ cell, i ≠ .store cell := by
  cases s with
  | assign target e => exact absurd rfl (other target e)
  | print name | delete name =>
    obtain ⟨cell, w₁, -, rest⟩ := bind_eq_ok located
    cases rest
    simp only [framed, Task.code, List.cons_append, List.nil_append, List.mem_cons,
      List.not_mem_nil, or_false] at member
    rcases member with rfl | rfl | rfl | rfl <;> simp [Instr.IsWork, Instr.LeavesStack]
  | printLog =>
    cases located
    simp only [framed, Task.code, List.cons_append, List.nil_append, List.mem_cons,
      List.not_mem_nil, or_false] at member
    rcases member with rfl | rfl | rfl | rfl <;> simp [Instr.IsWork, Instr.LeavesStack]

variable [Sink σ]

namespace InOrder

/-- A statement that is no assignment copies nothing. -/
theorem sparesCode (order : x.InOrder) (other : ∀ target e, s ≠ .assign target e) :
    x.SparesCode s := by
  intro routine x' installed
  obtain ⟨task, w', located, fits, -, rfl⟩ := install_eq_ok installed
  refine (order.stage located).sparesCode (codeAt_atStart _ located fits) fun cell member => ?_
  exact (leavesStack_of_locate located other member).2 cell rfl

/-- A statement that is no assignment keeps the saved stack pointer, whatever becomes of it. -/
theorem savedSp_execute (order : x.InOrder) (other : ∀ target e, s ≠ .assign target e) :
    (endState (Executor.execute s) x).savedSp = x.savedSp := by
  have := L.ordered
  have within : L.savedSp + 8 ≤ L.codeBase := by
    simp only [Layout.savedSp, Layout.dataBase] at *
    omega
  rcases execute_cases s x with ⟨e, w', failed, done⟩ | ⟨task, w', located, fits, outcome⟩
  · rw [endState_error done]
    exact (sameInside_of_compileError failed).wordAt (Nat.le_refl _) within
  · have before : (w'.withRoutine task).wordAt L.savedSp = x.savedSp :=
      (sameInside_withRoutine located).wordAt (Nat.le_refl _) within
    have saved := Machine.savedSp_run (order.stage located) (codeAt_withRoutine located fits)
      (order.sparesCode other _ _ (install_of_locate located fits))
      fun i member => (leavesStack_of_locate located other member).1
    rcases outcome with ⟨status, m, run, done⟩ | ⟨f, m, run, done⟩
    · rw [endState_ok run] at saved
      rw [endState_ok done]
      exact saved.trans before
    · rw [endState_error run] at saved
      rw [endState_error done]
      exact saved.trans before

end InOrder

/-- The saved stack pointer is that of a full scratch stack. -/
structure Exhausted (x : Executor L σ) : Prop where
  inOrder : x.InOrder
  full : x.savedSp.toNat = L.stackBase

namespace Exhausted

/-- An assignment fails and leaves the scratch stack full. -/
theorem assign (h : x.Exhausted) (target : String) (e : Expr) :
    ∃ f x', Executor.execute (.assign target e) x = .error f x' ∧ x'.Exhausted := by
  have := L.ordered
  rcases execute_cases (.assign target e) x with
    ⟨f, w', failed, done⟩ | ⟨task, w', located, fits, -⟩
  · obtain ⟨f', x', done', order, -⟩ := h.inOrder.of_compileError failed
    have same := sameInside_of_compileError failed
    rw [done] at done'
    cases done'
    have kept : (x.compiled w' w'.arena).savedSp = x.savedSp :=
      same.wordAt (Nat.le_refl _) (by simp only [Layout.savedSp, Layout.dataBase] at *; omega)
    exact ⟨_, _, done, order, by rw [kept, h.full]⟩
  · have slots := h.inOrder.slots_of_locate located
    have cells := Statement.cells_locate located h.inOrder.slots
    have code := codeAt_atBody located fits
    obtain ⟨value, w₁, -, rest⟩ := bind_eq_ok located
    obtain ⟨cell, w₂, -, last⟩ := bind_eq_ok rest
    cases last
    have full : (x.atBody w' (.assign value cell)).sp.toNat = L.stackBase := by
      rw [atBody_sp located]
      exact h.full
    rw [Task.code, List.append_assoc] at code
    obtain ⟨m, failed, kept⟩ := Machine.step_full x.log
      (fun c read => cells c (List.mem_cons_of_mem _ read)) full code
    have run := Machine.run_framed_fault (m := { arena := w'.withRoutine _, sink := x.sink })
      (codeAt_withRoutine located fits) (.zero _) (by simp [Task.code]) failed
    have saved : (m.unwind.arena.wordAt L.savedSp).toNat = L.stackBase := by
      rw [Machine.savedSp_unwind, Machine.scratchSp_of_entered kept.entered, kept.sp, full]
    refine ⟨_, _, execute_fault located fits run, ⟨slots, ?_⟩, saved⟩
    show L.StackPointer (m.unwind.arena.wordAt L.savedSp)
    constructor <;> rw [saved] <;> simp [Layout.stackTop]

/-- Whatever is executed, the scratch stack stays full. -/
theorem execute (h : x.Exhausted) (s : Statement) : (endState (Executor.execute s) x).Exhausted := by
  by_cases assigns : ∃ target e, s = .assign target e
  · obtain ⟨target, e, rfl⟩ := assigns
    obtain ⟨f, x', failed, exhausted⟩ := h.assign target e
    rwa [endState_error failed]
  · have other : ∀ target e, s ≠ .assign target e := fun target e same => assigns ⟨target, e, same⟩
    exact ⟨h.inOrder.execute (h.inOrder.sparesCode other), by
      rw [h.inOrder.savedSp_execute other, h.full]⟩

theorem executeEach (h : x.Exhausted) (p : Program) : (x.executeEach p).Exhausted := by
  induction p generalizing x with
  | nil => exact h
  | cons s rest ih => exact ih (h.execute s)

end Exhausted

/-- A statement that overflows the scratch stack leaves it full. -/
theorem InOrder.exhausted {k : Nat} {sp : Word} (order : x.InOrder) (spares : x.SparesCode s)
    (failed : Executor.execute s x = .error (.fault k (.stackOverflow sp)) x') : x'.Exhausted := by
  have order' := order.execute spares
  rw [endState_error failed] at order'
  obtain ⟨task, w', m, located, fits, run, rfl⟩ := execute_eq_fault failed
  exact ⟨order', Machine.savedSp_run_of_overflow (order.stage located)
    (codeAt_withRoutine located fits) (spares _ _ (install_of_locate located fits)) run⟩

/-- What a fault does to the saved stack pointer: nothing if the statement is no assignment; but if the
scratch stack has overflowed, it is saved as full, and stays full whatever is executed later, so that
no assignment succeeds any more. -/
theorem Reached.savedSp_of_fault {k : Nat} {f : Fault} (reached : x.Reached) (spares : x.SparesCode s)
    (failed : Executor.execute s x = .error (.fault k f) x') :
    ((∀ target e, s ≠ .assign target e) → x'.savedSp = x.savedSp) ∧
      ∀ sp, f = .stackOverflow sp → ∀ later : Program,
        (x'.executeEach later).savedSp.toNat = L.stackBase ∧
          ∀ target e, ∃ error y,
            Executor.execute (.assign target e) (x'.executeEach later) = .error error y := by
  constructor
  · intro other
    have kept := reached.inOrder.savedSp_execute other
    rwa [endState_error failed] at kept
  · rintro sp rfl later
    have exhausted := (reached.inOrder.exhausted spares failed).executeEach later
    refine ⟨exhausted.full, fun target e => ?_⟩
    obtain ⟨error, y, failed', -⟩ := exhausted.assign target e
    exact ⟨error, y, failed'⟩

/-- `x = ((((x + x) + x) + x) + x);`: five values at a time, where the stack of the small layout has room
for four. -/
def piling : Statement :=
  .assign "x" (.arith .add (.arith .add (.arith .add (.arith .add (.var "x") (.var "x")) (.var "x"))
    (.var "x")) (.var "x"))

theorem failure_piling : (start .small (⟨some {}⟩ : Spool) .missing).failure piling =
      some (.fault 0 (.stackOverflow 0x100038)) ∧
    (start .small (⟨some {}⟩ : Spool) .missing).sparesFor 8 piling = true := by
  decide +kernel

/-- After the overflow no assignment succeeds. -/
theorem savedSp_of_piling : ∃ x', execute piling (start .small (⟨some {}⟩ : Spool) .missing) =
      .error (.fault 0 (.stackOverflow 0x100038)) x' ∧
    ∀ target e, ∃ error y, execute (.assign target e) x' = .error error y := by
  have failed := execute_of_failure failure_piling.1
  have spares := sparesCode_of_sparesFor failure_piling.2
  have fault := (Reached.start (⟨some {}⟩ : Spool) .missing).savedSp_of_fault spares failed
  have later := (fault.2 _ rfl []).2
  simp only [executeEach_nil] at later
  exact ⟨_, failed, later⟩

/-- A fault may change the saved stack pointer. -/
theorem savedSp_ne_of_piling :
    ∃ x', execute piling (start .small (⟨some {}⟩ : Spool) .missing) =
        .error (.fault 0 (.stackOverflow 0x100038)) x' ∧
      x'.savedSp ≠ (start .small (⟨some {}⟩ : Spool) .missing).savedSp := by
  have failed := execute_of_failure failure_piling.1
  have exhausted := (inOrder_start .small (⟨some {}⟩ : Spool) .missing).exhausted
    (sparesCode_of_sparesFor failure_piling.2) failed
  have empty : (start .small (⟨some {}⟩ : Spool) .missing).savedSp =
      .ofNat Layout.small.stackTop := Arena.wordAt_savedSp_initial .small
  refine ⟨_, failed, fun same => ?_⟩
  have full := exhausted.full
  rw [same, empty] at full
  revert full
  decide

end Executor
end Osl
