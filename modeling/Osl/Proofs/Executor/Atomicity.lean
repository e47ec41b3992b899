import Osl.Proofs.Executor.Bindings
import Osl.Proofs.Machine.Balance
import Osl.Proofs.Values.Simulation

/-!
# Assignments that fault change nothing

Up to its store the routine of an assignment works on the scratch stack (`beforeStore_of_leaves`), and the
store either succeeds or, if it has to copy a string from or to an address outside the arena, has taken
the value off the stack and done nothing else (`store_fault`). So an assignment whose routine faults at
its store or before it leaves all values, all bindings and the sink as they were
(`atomic_executeEach`). Nothing is said of what comes after a store that succeeds: it may have copied a
string over the rest of the routine.
-/

namespace Osl
set_option autoImplicit false

variable {L : Layout} {σ : Type}

namespace Machine

variable {m m' m₁ m₂ : Machine L σ} {cell : Word} {ws : List Word} {f f' : Fault} {n : Nat}

/-- A store that is to copy a string in place and faults has taken the value off the stack and done nothing
else. -/
theorem store_copy_fault {address length front back : Word} (isCell : L.IsCell cell)
    (low : L.stackBase ≤ m.sp.toNat) (high : m.sp.toNat + 32 ≤ L.stackTop)
    (holds : m.arena.Holds m.sp.toNat [address, length, front, back]) (string : length ≠ 0)
    (shorter : Word.signedLe length (m.arena.wordAt (cell.toNat + 8)) = true)
    (failed : store cell m = .error f m') : m' = { m with sp := m.sp + 8 + 24 } := by
  have := L.ordered
  have bounds := isCell.bounds
  rw [store_in_place cell low high holds string (by omega) bounds.2 shorter] at failed
  by_cases within : L.Within address.toNat length.toNat ∧
      L.Within (m.arena.wordAt cell.toNat).toNat length.toNat
  · simp only [update, Arena.copy_of_within within.1 within.2] at failed
    cases failed
  · obtain ⟨fault, outside⟩ := Arena.copy_of_not_within (a := m.arena) within
    simp only [update, outside] at failed
    cases failed
    rfl

/-- A store that faults has to copy a string from or to an address outside the arena, and takes the value
off the stack before. -/
theorem store_fault (isCell : L.IsCell cell) (value : IsValue ws) (low : L.stackBase ≤ m.sp.toNat)
    (high : m.sp.toNat + 8 * ws.length ≤ L.stackTop) (holds : m.arena.Holds m.sp.toNat ws)
    (failed : store cell m = .error f m') :
    m' = { m with sp := m.sp + 8 + 24 } ∧ ∃ p, f = .memory p m.copyLength ∧
      (p = m.copySource ∨ p = m.copyTarget cell) ∧ ¬ L.Within p.toNat m.copyLength := by
  have ended := store_value isCell value low high holds
  rw [failed] at ended
  cases ended with
  | @outside p _ _ inPlace place outside =>
    refine ⟨?_, p, rfl, place, outside⟩
    obtain ⟨w₀, w₁, rest, rfl, more⟩ := value.exists_eq
    have string := inPlace.string
    have shorter := inPlace.inPlace
    rw [holds.2.1] at string shorter
    obtain ⟨w₂, w₃, more, rfl⟩ := more.resolve_left string
    simp only [List.length_cons] at high
    have words : m.arena.Holds m.sp.toNat [w₀, w₁, w₂, w₃] :=
      ⟨holds.1, holds.2.1, holds.2.2.1, holds.2.2.2.1, trivial⟩
    exact store_copy_fault isCell low (by omega) words string shorter failed

variable [Sink σ] {log : Log}

/-- The machine faults before a store has succeeded: it comes to the fault at the first store or before
it. -/
inductive FaultsByStore (log : Log) : Machine L σ → Fault → Prop
  | here {m m' : Machine L σ} {f : Fault} : step log m = .error f m' → FaultsByStore log m f
  | next {m m' : Machine L σ} {f : Fault} : (∀ cell m₁, fetch m ≠ .ok (.store cell) m₁) →
      step log m = .ok none m' → FaultsByStore log m' f → FaultsByStore log m f

namespace FaultsByStore

/-- There is one fault to come to. -/
theorem eq_of_steps (h : FaultsByStore log m f) (steps : Steps log n m m₁)
    (last : step log m₁ = .error f' m₂) : f' = f := by
  induction steps with
  | zero m =>
    cases h with
    | here failed =>
      rw [failed] at last
      cases last
      rfl
    | next _ stepped _ =>
      rw [stepped] at last
      cases last
  | succ first _ ih =>
    cases h with
    | here failed =>
      rw [failed] at first
      cases first
    | next _ stepped later =>
      rw [stepped] at first
      cases first
      exact ih later last

/-- A store that the machine comes to does not succeed. -/
theorem store_ne_ok (h : FaultsByStore log m f) (steps : Steps log n m m₁)
    (fetched : fetch m₁ = .ok (.store cell) m₂) : store cell m₂ ≠ .ok () m' := by
  intro stored
  have stepped : step log m₁ = .ok none m' := by
    rw [step, bind_ok fetched]
    exact exec_of_work rfl stored
  induction steps with
  | zero m =>
    cases h with
    | here failed =>
      rw [failed] at stepped
      cases stepped
    | next other _ _ => exact other cell m₂ fetched
  | succ first _ ih =>
    cases h with
    | here failed =>
      rw [failed] at first
      cases first
    | next _ goes later =>
      rw [goes] at first
      cases first
      exact ih later fetched stepped

end FaultsByStore

/-- Whether the machine faults within `n` steps and before a store has succeeded. -/
def stopsByStore (log : Log) : Nat → Machine L σ → Bool
  | 0, _ => false
  | n + 1, m =>
    match step log m with
    | .error _ _ => true
    | .ok (some _) _ => false
    | .ok none m' =>
      match fetch m with
      | .ok (.store _) _ => false
      | _ => stopsByStore log n m'

theorem exists_faultsByStore (h : m.stopsByStore log n = true) : ∃ f, FaultsByStore log m f := by
  induction n generalizing m with
  | zero => cases h
  | succ n ih =>
    rw [stopsByStore] at h
    split at h
    · rename_i f m' failed
      exact ⟨f, .here failed⟩
    · cases h
    · rename_i m' stepped
      split at h
      · cases h
      · rename_i other
        obtain ⟨f, later⟩ := ih h
        exact ⟨f, .next other stepped later⟩

end Machine

namespace Executor

open Machine

variable {x x' y : Executor L σ} {target : String} {e : Expr} {value : Located} {cell : Word}
  {w' : Workspace L} {m m' : Machine L σ} {ws : List Word} {d : Nat} {f : Fault} {routine : Routine}

/-- The machine has come to the store of an assignment, and neither what values are stored in nor the sink
has changed. -/
structure BeforeStore (x : Executor L σ) (cell : Word) (m : Machine L σ) : Prop where
  code : CodeAt m.arena m.ip.toNat [.store cell, .leave, .ret]
  caller : m.arena.wordAt L.savedSp = callerSp
  same : x.arena.SameValues m.arena x.literals.next
  sink : m.sink = x.sink
  entered : m.entered = true

/-- No value has changed, no binding has, and the sink has not. -/
structure Keeps (x x' : Executor L σ) : Prop where
  values : x.arena.SameValues x'.arena x.literals.next
  sink : x'.sink = x.sink
  bindings : ∀ name slot, x.slotOf name = some slot → x'.slotOf name = some slot

/-- Work on the scratch stack changes no value. -/
theorem sameValues_of_stack {a b : Arena L} {next : Nat} (same : a.SameOutside b L.stackBase L.stackTop) :
    a.SameValues b next := by
  have := L.ordered
  have top : L.codeBase = L.stackTop := rfl
  exact ⟨same.inside (.inl (Nat.le_refl _)), same.inside (.inr (by omega))⟩

variable [Sink σ]

theorem beforeStore_of_leaves
    (located : (Statement.assign target e).locate x.workspace = .ok (.assign value cell) w')
    (fits : (Statement.assign target e).codeSize ≤ L.code) (order : L.StackPointer x.savedSp)
    (leaves : Leaves x.log value.code (x.atBody w' (.assign value cell)) m ws d) :
    x.BeforeStore cell m := by
  have pointer : L.StackPointer (x.atBody w' (.assign value cell)).sp := by
    rw [atBody_sp located]
    exact order
  have code := codeAt_atBody located fits
  rw [Task.code, List.append_assoc] at code
  have same := leaves.same pointer
  constructor
  · exact leaves.codeAt pointer code
  · rw [(leaves.ran pointer).same.wordAt (.inl (by simp only [Layout.savedSp, Layout.dataBase]; omega))]
    exact callerSp_inside _ _
  · exact (sameValues_before located fits).trans (sameValues_of_stack same)
  · exact leaves.pushed.sink
  · exact leaves.pushed.entered

/-- A statement whose body comes to a fault without having changed a value fails and keeps all. -/
theorem keeps_of_fault {s : Statement} {task : Task} {n : Nat}
    (located : s.locate x.workspace = .ok task w') (fits : s.codeSize ≤ L.code)
    (steps : Steps x.log n (x.atBody w' task) m) (bound : n < task.code.length)
    (last : Machine.step x.log m = .error f m') (entered : m'.entered = true)
    (same : x.arena.SameValues m'.arena x.literals.next) (sink : m'.sink = x.sink)
    (other : ∀ name, s ≠ .delete name) :
    ∃ x', Executor.execute s x = .error (.fault x.executed f) x' ∧ x.Keeps x' := by
  have := L.ordered
  have run := run_framed_fault (m := { arena := w'.withRoutine task, sink := x.sink })
    (codeAt_withRoutine located fits) steps bound last
  rw [unwind, if_pos entered] at run
  have failed := execute_fault located fits run
  have saved := m'.arena.sameOutside_save m'.sp
  refine ⟨_, failed, ?_, sink, fun name slot bound => ?_⟩
  · exact same.trans ⟨saved.inside (.inr (Nat.le_refl _)), saved.inside (.inr (by omega))⟩
  · have kept := slotOf_execute (other name) bound
    rwa [endState_error failed] at kept

/-- An assignment whose store faults fails with that fault and keeps all. -/
theorem keeps_of_store_fault
    (located : (Statement.assign target e).locate x.workspace = .ok (.assign value cell) w')
    (fits : (Statement.assign target e).codeSize ≤ L.code) (order : L.StackPointer x.savedSp)
    (isCell : L.IsCell cell) (isValue : IsValue ws)
    (leaves : Leaves x.log value.code (x.atBody w' (.assign value cell)) m ws d)
    (failed : store cell (m.past (.store cell)) = .error f m') :
    (∃ x', execute (.assign target e) x = .error (.fault x.executed f) x' ∧ x.Keeps x') ∧
      ∃ p n, f = .memory p n ∧ ¬ L.Within p.toNat n := by
  have before := beforeStore_of_leaves located fits order leaves
  have pushed := leaves.pushed.sp
  have high : (x.atBody w' (.assign value cell)).sp.toNat ≤ L.stackTop := by
    rw [atBody_sp located]
    exact order.high
  have last : Machine.step x.log m = .error f m' :=
    (step_eq_exec before.code).trans (bind_error failed)
  obtain ⟨rfl, p, rfl, -, outside⟩ := store_fault (m := m.past (.store cell)) isCell isValue leaves.low
    (by rw [past_sp]; omega) leaves.pushed.words failed
  refine ⟨?_, p, _, rfl, outside⟩
  apply keeps_of_fault located fits leaves.steps _ last before.entered before.same before.sink
  · simp
  · rw [Task.code, List.length_append, List.length_singleton]
    exact Nat.lt_succ_self _

/-- An assignment whose routine faults at its store or before it fails with that fault and keeps all. The
scratch stack has overflowed, or one of the strings between which the store copies lies outside the
arena. -/
theorem keeps_of_faultsByStore (reach : Slots.Reachable L x.slots) (order : L.StackPointer x.savedSp)
    (installed : install (.assign target e) x = .ok routine y)
    (early : FaultsByStore x.log y.atStart f) :
    (∃ x', execute (.assign target e) x = .error (.fault x.executed f) x' ∧ x.Keeps x') ∧
      (f = .stackOverflow (.ofNat (L.stackBase - 8)) ∨ ∃ p n, f = .memory p n ∧ ¬ L.Within p.toNat n) := by
  obtain ⟨task, w', located, fits, -, rfl⟩ := install_eq_ok installed
  have cells := Statement.cells_locate located reach
  obtain ⟨value, w₁, slot, -, rfl, -⟩ := Statement.locate_assign_eq_ok located
  have isCell := cells (L.cell slot) List.mem_cons_self
  have code := codeAt_withRoutine located fits
  have pointer : L.StackPointer (x.atBody w' (.assign value (L.cell slot))).sp := by
    rw [atBody_sp located]
    exact order
  have body := codeAt_atBody located fits
  rw [Task.code, List.append_assoc] at body
  obtain ⟨ws, d, isValue, evaluates⟩ := value.evaluates_value x.log pointer body.left
    fun c read => cells c (List.mem_cons_of_mem _ read)
  -- what the body comes to the routine comes to one step later
  let m₀ : Machine L σ := { arena := w'.withRoutine (.assign value (L.cell slot)), sink := x.sink }
  have onward {k : Nat} {m₁ : Machine L σ}
      (steps : Steps x.log k (x.atBody w' (.assign value (L.cell slot))) m₁) :
      Steps x.log (k + 1) m₀.atStart m₁ := .succ (step_enter code) steps
  by_cases room : L.stackBase + 8 * d ≤ (x.atBody w' (.assign value (L.cell slot))).sp.toNat
  · obtain ⟨m₁, leaves⟩ := evaluates.fits room
    have here := (beforeStore_of_leaves located fits order leaves).code
    cases stored : store (L.cell slot) (m₁.past (.store (L.cell slot))) with
    | ok _ m₂ => exact absurd stored (early.store_ne_ok (onward leaves.steps) (fetch_eq here))
    | error f' m₂ =>
      cases early.eq_of_steps (onward leaves.steps) ((step_eq_exec here).trans (bind_error stored))
      exact (keeps_of_store_fault located fits order isCell isValue leaves stored).imp_right .inr
  · obtain ⟨m₂, n, m₁, bound, steps, last, overflowed⟩ := evaluates.full (Nat.lt_of_not_le room)
    cases early.eq_of_steps (onward steps) last
    have same := overflowed.same.mono (Nat.le_refl _) pointer.high
    have longer : n < (Task.assign value (L.cell slot)).code.length := by
      rw [Task.code, List.length_append]
      exact Nat.lt_add_right _ bound
    refine ⟨?_, .inl rfl⟩
    apply keeps_of_fault located fits steps longer last overflowed.entered
      ((sameValues_before located fits).trans (sameValues_of_stack same)) overflowed.sink
    simp

/-- After every program, whatever became of its statements and whatever the cells hold: if the saved stack
pointer is one that routines may work with, an assignment whose routine faults at its store or before
it fails with that fault and keeps the values, the bindings and the sink. -/
theorem atomic_executeEach (L : Layout) (sink : σ) (log : Log) (p : Program) (target : String)
    (e : Expr) :
    let x := (start L sink log).executeEach p
    L.StackPointer x.savedSp →
    ∀ routine y f, install (.assign target e) x = .ok routine y → FaultsByStore x.log y.atStart f →
      (∃ x', execute (.assign target e) x = .error (.fault x.executed f) x' ∧ x.Keeps x') ∧
        (f = .stackOverflow (.ofNat (L.stackBase - 8)) ∨
          ∃ p n, f = .memory p n ∧ ¬ L.Within p.toNat n) := by
  intro x order routine y f installed early
  exact keeps_of_faultsByStore (reachable_slots_executeEach p .empty) order installed early

/-- Whether the routine of a statement faults within `n` steps and before a store has succeeded. -/
def stopsByStore (n : Nat) (s : Statement) (x : Executor L σ) : Bool :=
  match install s x with
  | .ok _ y => y.atStart.stopsByStore x.log n
  | .error _ _ => false

theorem exists_faultsByStore {n : Nat} {s : Statement} (h : x.stopsByStore n s = true) :
    ∃ routine y f, install s x = .ok routine y ∧ FaultsByStore x.log y.atStart f := by
  rw [stopsByStore] at h
  cases installed : install s x with
  | ok routine y =>
    rw [installed] at h
    obtain ⟨f, early⟩ := Machine.exists_faultsByStore h
    exact ⟨routine, y, f, rfl, early⟩
  | error e y =>
    rw [installed] at h
    cases h

/-- The executor of the tiny layout after `v = 7;`. -/
def withSeven : Executor .tiny Spool :=
  (start .tiny ⟨some {}⟩ .missing).executeEach [.assign "v" (.int 7)]

/-- `v = v + v + v;`, which needs six words of scratch stack. -/
def triple : Statement := .assign "v" (.arith .add (.arith .add (.var "v") (.var "v")) (.var "v"))

/-- The scratch stack of the tiny layout has room for four words only. -/
theorem atomic_triple : ∃ f x', execute triple withSeven = .error (.fault 1 f) x' ∧ withSeven.Keeps x' := by
  have state : withSeven.savedSp = .ofNat Layout.tiny.stackTop ∧ withSeven.executed = 1 ∧
      withSeven.stopsByStore 8 triple = true := by
    decide +kernel
  obtain ⟨saved, second, stops⟩ := state
  have order : Layout.tiny.StackPointer withSeven.savedSp := by
    rw [saved]
    constructor <;> decide
  obtain ⟨routine, y, f, installed, early⟩ := exists_faultsByStore stops
  have ⟨⟨x', failed, keeps⟩, _⟩ := atomic_executeEach .tiny (⟨some {}⟩ : Spool) .missing
    [.assign "v" (.int 7)] "v" _ order routine y f installed early
  rw [← second]
  exact ⟨f, x', failed, keeps⟩

end Executor
end Osl
