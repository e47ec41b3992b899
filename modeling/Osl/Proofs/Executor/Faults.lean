import Osl.Proofs.Executor.SavedStack
import Osl.Proofs.Machine.Balance
import Osl.Proofs.Machine.Printing

/-!
# What a routine can fault with

The code of an expression leaves a value on the scratch stack whatever the cells hold, so that a
routine finds there all that it pops. What is left are four kinds of faults (`FaultOrigin`): the scratch
stack overflows, the sink refuses a write, a string lies outside the arena when it is printed or
copied, or such a copy has gone over the caller's stack pointer. However the routine ends, it has popped
no more than it has pushed (`Reached.stack_discipline`).
-/

namespace Osl
set_option autoImplicit false

variable {L : Layout} {σ : Type} [Sink σ]

namespace Machine

variable {log : Log} {m m₁ m₂ : Machine L σ} {n : Nat} {is : List Instr} {f : Fault} {cell : Word}

/-- On the way from `start` the instruction `i` comes to be executed, by `m`. -/
def Executes (log : Log) (start : Machine L σ) (i : Instr) (m : Machine L σ) : Prop :=
  ∃ n m₁, Steps log n start m₁ ∧ fetch m₁ = .ok i m

/-- How a routine can have come to a fault that starts with `start`. The stack never underflows and
every instruction is one. -/
structure FaultOrigin (log : Log) (start : Machine L σ) (f : Fault) : Prop where
  stacked : ∀ sp, f ≠ .stackUnderflow sp
  legal : ∀ p b, f ≠ .illegalInstruction p b
  /-- A string lies outside the arena that is printed, or one of the two between which a store
  copies. -/
  memory : ∀ p n, f = .memory p n → ∃ cell m m',
    (Executes log start (.print cell) m ∧ print cell m = .error f m' ∧ m.HoldsOutside cell p n) ∨
    (Executes log start (.store cell) m ∧ store cell m = .error f m' ∧ m.CopiesInPlace cell ∧
      (p = m.copySource ∨ p = m.copyTarget cell) ∧ n = m.copyLength ∧ ¬ L.Within p.toNat n)
  /-- A store has copied a string over the caller's stack pointer. -/
  switched : ∀ expected found, f = .stackSwitch expected found → ∃ cell m m',
    Executes log start (.store cell) m ∧ store cell m = .ok () m' ∧ m.CopiesInPlace cell ∧
      (m.copyTarget cell).toNat < L.savedSp + 8 ∧
      L.savedSp < (m.copyTarget cell).toNat + m.copyLength ∧ m'.arena.wordAt L.savedSp = found

namespace FaultOrigin

variable {start m' : Machine L σ}

theorem overflow (sp : Word) : FaultOrigin log start (.stackOverflow sp) := by
  constructor <;> simp

theorem sink (reason : String) : FaultOrigin log start (.sink reason) := by
  constructor <;> simp

theorem printed {p : Word} (executes : Executes log start (.print cell) m)
    (failed : print cell m = .error (.memory p n) m') (holds : m.HoldsOutside cell p n) :
    FaultOrigin log start (.memory p n) := by
  constructor
  · simp
  · simp
  · rintro _ _ ⟨⟩
    exact ⟨cell, m, m', .inl ⟨executes, failed, holds⟩⟩
  · simp

theorem copied {p : Word} (executes : Executes log start (.store cell) m)
    (failed : store cell m = .error (.memory p m.copyLength) m') (inPlace : m.CopiesInPlace cell)
    (place : p = m.copySource ∨ p = m.copyTarget cell) (outside : ¬ L.Within p.toNat m.copyLength) :
    FaultOrigin log start (.memory p m.copyLength) := by
  constructor
  · simp
  · simp
  · rintro _ _ ⟨⟩
    exact ⟨cell, m, m', .inr ⟨executes, failed, inPlace, place, rfl, outside⟩⟩
  · simp

/-- A copy that changes the word of the caller's stack pointer goes over it. -/
theorem overwritten (executes : Executes log start (.store cell) m)
    (done : store cell m = .ok () m') (inPlace : m.CopiesInPlace cell)
    (arena : m'.arena = m.arena.forwardCopy m.copySource.toNat (m.copyTarget cell).toNat m.copyLength)
    (lost : m'.arena.wordAt L.savedSp ≠ m.arena.wordAt L.savedSp) :
    FaultOrigin log start (.stackSwitch callerSp (m'.arena.wordAt L.savedSp)) := by
  have same := m.arena.sameOutside_forwardCopy m.copySource.toNat (m.copyTarget cell).toNat m.copyLength
  rw [← arena] at same
  have overlaps : ¬ (L.savedSp + 8 ≤ (m.copyTarget cell).toNat ∨
      (m.copyTarget cell).toNat + m.copyLength ≤ L.savedSp) := fun apart => lost (same.wordAt apart)
  constructor
  · simp
  · simp
  · simp
  · rintro _ _ ⟨⟩
    exact ⟨cell, m, m', executes, done, inPlace, by omega, by omega, rfl⟩

end FaultOrigin

/-- What a run from `m` comes to. -/
inductive RunEnd (log : Log) (m : Machine L σ) : EStateM.Result Fault (Machine L σ) Word → Prop
  | returned {w : Word} {m' : Machine L σ} :
      (m'.arena.wordAt L.savedSp).toNat ≤ (m.arena.wordAt L.savedSp).toNat → RunEnd log m (.ok w m')
  | faulted {f : Fault} {m' : Machine L σ} : FaultOrigin log m.atStart f →
      (m'.arena.wordAt L.savedSp).toNat ≤ (m.arena.wordAt L.savedSp).toNat → RunEnd log m (.error f m')

/-- What the body of a routine executes the routine executes. -/
theorem executes_of_body {i : Instr} {rest : List Instr} (code : CodeAt m.arena L.codeBase (framed is))
    (body : Steps log n (inside m.arena m.sink) m₁)
    (here : CodeAt m₁.arena m₁.ip.toNat (i :: rest)) : Executes log m.atStart i (m₁.past i) :=
  ⟨n + 1, m₁, .succ (step_enter code) body, fetch_eq here⟩

/-- Behind the body of a routine it is left. -/
theorem codeAt_behind (stage : Stage (framed is) m.atStart) (code : CodeAt m.arena L.codeBase (framed is))
    (spares : SparesCode log m.atStart) (body : Steps log is.length (inside m.arena m.sink) m₁) :
    CodeAt m₁.arena m₁.ip.toNat [.leave, .ret] := by
  have code' := codeAt_atStart code
  obtain ⟨steps, -⟩ := steps_framed code body
  obtain ⟨done, i, rest, split, length, -, -, behind, -⟩ := stage.steps code' spares steps
  -- as much has run as `enter` and the body are, so what is left is what stands behind them
  have halves : (.enter :: is) ++ [.leave, .ret] = done ++ i :: rest := split
  have rest' := (List.append_inj halves (by rw [length, List.length_cons])).2
  rwa [← rest'] at behind

/-- The body of a routine runs to its end. -/
theorem RunEnd.of_steps (stage : Stage (framed is) m.atStart)
    (code : CodeAt m.arena L.codeBase (framed is)) (spares : SparesCode log m.atStart)
    (body : Steps log is.length (inside m.arena m.sink) m₁)
    (balanced : m₁.sp.toNat ≤ (inside m.arena m.sink).sp.toNat)
    (origin : m₁.arena.wordAt L.savedSp ≠ callerSp →
      FaultOrigin log m.atStart (.stackSwitch callerSp (m₁.arena.wordAt L.savedSp))) :
    RunEnd log m (run log m) := by
  have rest := codeAt_behind stage code spares body
  by_cases found : m₁.arena.wordAt L.savedSp = callerSp
  · obtain ⟨m', run, arena, -⟩ := run_framed_of_steps code body rest found
    rw [run]
    refine .returned ?_
    rw [arena, Arena.wordAt_save]
    exact balanced
  · obtain ⟨m', run, arena⟩ := run_framed_switched code body rest found
    rw [run]
    refine .faulted (origin found) ?_
    rw [arena, Arena.wordAt_save]
    exact balanced

/-- The body of a routine runs to its end and does not touch the caller's stack pointer. -/
theorem RunEnd.of_sameOutside (stage : Stage (framed is) m.atStart)
    (code : CodeAt m.arena L.codeBase (framed is)) (spares : SparesCode log m.atStart)
    (body : Steps log is.length (inside m.arena m.sink) m₁)
    (balanced : m₁.sp.toNat ≤ (inside m.arena m.sink).sp.toNat)
    (same : (inside m.arena m.sink).arena.SameOutside m₁.arena L.dataBase L.stackTop) :
    RunEnd log m (run log m) := by
  refine .of_steps stage code spares body balanced fun lost => absurd ?_ lost
  rw [same.wordAt (.inl (by simp only [Layout.savedSp, Layout.dataBase]; omega)), callerSp_inside]

/-- The body of a routine comes to a fault. -/
theorem RunEnd.of_fault (code : CodeAt m.arena L.codeBase (framed is))
    (body : Steps log n (inside m.arena m.sink) m₁) (bound : n < is.length)
    (last : step log m₁ = .error f m₂) (entered : m₂.entered = true)
    (balanced : m₂.sp.toNat ≤ (inside m.arena m.sink).sp.toNat)
    (origin : FaultOrigin log m.atStart f) : RunEnd log m (run log m) := by
  rw [run_framed_fault code body bound last]
  refine .faulted origin ?_
  rw [savedSp_unwind, scratchSp_of_entered entered]
  exact balanced

/-! ## Tasks -/

variable {value : Located}

/-- The store of an assignment. -/
theorem runEnd_store {ws : List Word} {d : Nat} (isValue : IsValue ws) (isCell : L.IsCell cell)
    (stage : Stage (framed (value.code ++ [.store cell])) m.atStart)
    (code : CodeAt m.arena L.codeBase (framed (value.code ++ [.store cell])))
    (spares : SparesCode log m.atStart) (order : L.StackPointer (inside m.arena m.sink).sp)
    (first : Leaves log value.code (inside m.arena m.sink) m₁ ws d) : RunEnd log m (run log m) := by
  have body := codeAt_inside m.sink code
  rw [List.append_assoc] at body
  have here : CodeAt m₁.arena m₁.ip.toNat (.store cell :: [.leave, .ret]) := first.codeAt order body
  have executes := executes_of_body code first.steps here
  have pushed := first.pushed.sp
  have high := order.high
  have caller : m₁.arena.wordAt L.savedSp = callerSp := by
    rw [(first.ran order).same.wordAt (.inl (by simp only [Layout.savedSp, Layout.dataBase]; omega)),
      callerSp_inside]
  have ended : StoreEnd (m₁.past (.store cell)) cell _ _ :=
    store_value isCell isValue first.low (by rw [past_sp]; omega) first.pushed.words
  rw [past_sp, pushed] at ended
  have stepped : step log m₁ = exec log (.store cell) (m₁.past (.store cell)) := step_eq_exec here
  have onward {m' : Machine L σ} (done : store cell (m₁.past (.store cell)) = .ok () m') :
      Steps log (value.code ++ [Instr.store cell]).length (inside m.arena m.sink) m' := by
    rw [List.length_append]
    exact first.steps.trans (.one (stepped.trans (exec_of_work rfl done)))
  generalize result : store cell (m₁.past (.store cell)) = r at ended
  cases ended with
  | moved balanced same =>
    have ran := (first.ran order).same.trans same
    exact .of_sameOutside stage code spares (onward result) balanced ran
  | copied balanced inPlace source target arena =>
    refine .of_steps stage code spares (onward result) balanced fun lost => ?_
    exact .overwritten executes result inPlace arena (by rwa [past_arena, caller])
  | @outside p m' balanced inPlace place outside =>
    have switched := ((orderly_store cell).keeps (m₁.past (.store cell))).entered
    rw [endState_error result] at switched
    have entered : m'.entered = true := switched.trans first.pushed.entered
    refine .of_fault code first.steps ?_ (stepped.trans (bind_error result)) entered balanced
      (.copied executes result inPlace place outside)
    rw [List.length_append, List.length_singleton]
    omega

/-- An assignment. -/
theorem runEnd_assign (cells : ∀ c ∈ (Task.assign value cell).cells, L.IsCell c)
    (stage : Stage (framed (value.code ++ [.store cell])) m.atStart)
    (code : CodeAt m.arena L.codeBase (framed (value.code ++ [.store cell])))
    (spares : SparesCode log m.atStart) (order : L.StackPointer (inside m.arena m.sink).sp) :
    RunEnd log m (run log m) := by
  obtain ⟨ws, d, isValue, evaluates⟩ := value.evaluates_value log order
    (codeAt_inside m.sink code).left.left fun c read => cells c (List.mem_cons_of_mem _ read)
  by_cases room : L.stackBase + 8 * d ≤ (inside m.arena m.sink).sp.toNat
  · obtain ⟨m₁, first⟩ := evaluates.fits room
    exact runEnd_store isValue (cells cell List.mem_cons_self) stage code spares order first
  · obtain ⟨m₂, n, m₁, bound, steps, last, overflowed⟩ := evaluates.full (Nat.lt_of_not_le room)
    have low := order.low
    have full := overflowed.sp
    refine .of_fault code steps ?_ last overflowed.entered (by omega) (.overflow _)
    rw [List.length_append]
    omega

/-- Printing. -/
theorem runEnd_print (isCell : L.IsCell cell) (stage : Stage (framed [.print cell]) m.atStart)
    (code : CodeAt m.arena L.codeBase (framed [.print cell])) (spares : SparesCode log m.atStart) :
    RunEnd log m (run log m) := by
  have here := codeAt_inside m.sink code
  have executes : Executes log _ _ _ := executes_of_body code (.zero _) here
  have stepped : step log (inside m.arena m.sink) = exec log _ _ := step_eq_exec here
  have keeps := keepsStack_print cell ((inside m.arena m.sink).past (.print cell))
  cases read : Value.read ((inside m.arena m.sink).past (.print cell)).arena cell with
  | error f =>
    obtain ⟨p, n, rfl, holds⟩ := HoldsOutside.of_read_error isCell read
    have failed := print_of_read_error isCell read
    exact .of_fault code (.zero _) Nat.zero_lt_one (stepped.trans (bind_error failed)) rfl
      (Nat.le_refl _) (.printed executes failed holds)
  | ok v =>
    by_cases takes : ∃ t, Sink.TakesLine m.sink v.printed t
    · obtain ⟨t, takes⟩ := takes
      obtain ⟨a, done, same⟩ := print_of_read isCell read takes
      exact .of_sameOutside stage code spares (.one (stepped.trans (exec_of_work rfl done)))
        (Nat.le_refl _) same
    · obtain ⟨reason, m₂, failed⟩ := print_of_refusal isCell read (not_exists.1 takes)
      rw [endState_error failed] at keeps
      exact .of_fault code (.zero _) Nat.zero_lt_one (stepped.trans (bind_error failed)) keeps.entered
        (Nat.le_of_eq (congrArg UInt64.toNat keeps.sp)) (.sink reason)

/-- Releasing a cell. -/
theorem runEnd_release (isCell : L.IsCell cell) (stage : Stage (framed [.release cell]) m.atStart)
    (code : CodeAt m.arena L.codeBase (framed [.release cell])) (spares : SparesCode log m.atStart) :
    RunEnd log m (run log m) := by
  have bounds := isCell.bounds
  obtain ⟨m₁, ran, sp, -⟩ : ∃ m₁, Ran log _ _ m₁ ∧ _ :=
    ran_release (codeAt_inside m.sink code) bounds.1 bounds.2
  exact .of_sameOutside stage code spares ran.steps (Nat.le_of_eq (congrArg UInt64.toNat sp)) ran.same

/-- Copying the log changes the sink only, and stops only if the sink refuses a write. -/
theorem printLog_cases (log : Log) (m : Machine L σ) :
    ∃ t, printLog log m = .ok () { m with sink := t } ∨
      ∃ reason, printLog log m = .error (.sink reason) { m with sink := t } := by
  unfold printLog
  induction log.pieces generalizing m with
  | nil => exact ⟨m.sink, .inl rfl⟩
  | cons bs pieces ih =>
    cases written : Sink.write m.sink bs with
    | mk result u =>
      rw [List.forM_eq_forM, List.forM_cons]
      cases result with
      | error reason => exact ⟨u, .inr ⟨reason, bind_error (emit_of_refusal written)⟩⟩
      | ok =>
        rw [bind_ok (emit_of_write written)]
        exact ih { m with sink := u }

/-- Printing the log. -/
theorem runEnd_printLog (stage : Stage (framed [.printLog]) m.atStart)
    (code : CodeAt m.arena L.codeBase (framed [.printLog])) (spares : SparesCode log m.atStart) :
    RunEnd log m (run log m) := by
  have stepped : step log (inside m.arena m.sink) = exec log _ _ :=
    step_eq_exec (codeAt_inside m.sink code)
  obtain ⟨t, done | ⟨reason, failed⟩⟩ :=
    printLog_cases log ((inside m.arena m.sink).past .printLog)
  · exact .of_sameOutside stage code spares (.one (stepped.trans (exec_of_work rfl done)))
      (Nat.le_refl _) (.refl _ _ _)
  · exact .of_fault code (.zero _) Nat.zero_lt_one (stepped.trans (bind_error failed)) rfl
      (Nat.le_refl _) (.sink reason)

end Machine

namespace Executor

open Machine

variable {x x' : Executor L σ} {s : Statement} {routine : Routine}

/-- The routine of a statement, run in an executor that is in order. -/
theorem InOrder.runEnd {task : Task} {w' : Workspace L} (order : x.InOrder)
    (located : s.locate x.workspace = .ok task w') (fits : s.codeSize ≤ L.code)
    (spares : Machine.SparesCode x.log
      (Machine.atStart { arena := w'.withRoutine task, sink := x.sink })) :
    RunEnd x.log { arena := w'.withRoutine task, sink := x.sink }
      (run x.log { arena := w'.withRoutine task, sink := x.sink }) := by
  have stage := order.stage located
  have code := codeAt_withRoutine located fits
  have cells := Statement.cells_locate located order.slots
  have pointer : L.StackPointer (x.atBody w' task).sp := by
    rw [atBody_sp located]
    exact order.stack
  cases task with
  | assign value cell => exact runEnd_assign cells stage code spares pointer
  | print cell => exact runEnd_print (cells cell (List.mem_singleton_self cell)) stage code spares
  | release cell => exact runEnd_release (cells cell (List.mem_singleton_self cell)) stage code spares
  | printLog => exact runEnd_printLog stage code spares

/-- In every executor that statements lead to, none of which has copied a string into the code section,
a routine that does not do so either faults in these ways only, and it never pops what it has not
pushed. -/
theorem Reached.stack_discipline (reached : x.Reached) (spares : x.SparesCode s)
    (installed : install s x = .ok routine x') :
    (∀ k f y, Executor.execute s x = .error (.fault k f) y → FaultOrigin x.log x'.atStart f) ∧
      (endState (Executor.execute s) x).savedSp.toNat ≤ x.savedSp.toNat := by
  have spared := spares routine x' installed
  obtain ⟨task, w', located, fits, -, rfl⟩ := install_eq_ok installed
  have ended := reached.inOrder.runEnd located fits spared
  have before : (w'.withRoutine task).wordAt L.savedSp = x.savedSp := atBody_sp located
  generalize result : run x.log { arena := w'.withRoutine task, sink := x.sink } = r at ended
  cases ended with
  | returned balanced =>
    have done := execute_ok located fits result
    rw [before] at balanced
    refine ⟨fun k f y failed => ?_, by rwa [endState_ok done]⟩
    rw [done] at failed
    cases failed
  | faulted origin balanced =>
    have failed := execute_fault located fits result
    rw [before] at balanced
    refine ⟨fun k f y again => ?_, by rwa [endState_error failed]⟩
    rw [failed] at again
    cases again
    exact origin

/-- The copy over the caller's stack pointer is that of the store in `t = "ab";`. -/
theorem stack_discipline_aimed :
    ∃ routine x', install (.assign "t" (.str [97, 98])) aimed = .ok routine x' ∧
      FaultOrigin aimed.log x'.atStart (.stackSwitch 0 0x6261) ∧
      (endState (execute (.assign "t" (.str [97, 98]))) aimed).savedSp.toNat ≤
        aimed.savedSp.toNat := by
  obtain ⟨first, second, failed⟩ := failure_aimed
  have reached : aimed.Reached := .execute _ (.start _ _) (sparesCode_of_sparesFor first)
  cases installed : install (.assign "t" (.str [97, 98])) aimed with
  | error e x' =>
    rw [sparesFor, installed] at second
    cases second
  | ok routine x' =>
    have ended := reached.stack_discipline (sparesCode_of_sparesFor second) installed
    exact ⟨routine, x', rfl, ended.1 _ _ _ (execute_of_failure failed), ended.2⟩

end Executor
end Osl
