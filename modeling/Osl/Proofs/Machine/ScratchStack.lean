import Osl.Proofs.Machine.Stage

/-!
# What becomes of the scratch stack

Printing and releasing do not move the stack pointer (`KeepsStack`), so that a routine which does
nothing else saves the stack pointer that it has found (`savedSp_run`). A routine may fault because the
scratch stack overflows, and only a full stack does so (`Orderly`): it is then a full stack that is
saved (`savedSp_run_of_overflow`).
-/

namespace Osl
set_option autoImplicit false

variable {L : Layout} {σ : Type}

/-- The instructions that do not move the stack pointer. -/
def Instr.LeavesStack : Instr → Prop
  | .print _ | .release _ | .printLog => True
  | .enter | .leave | .ret | .push _ | .load _ | .store _ | .arith _ => False

namespace Machine

variable {α β : Type} {m m' m'' : Machine L σ} {i : Instr} {is rest : List Instr}

/-! ## Work that does not move the stack pointer -/

/-- From `m` to `m'` the stack pointer has not moved and no stack was switched. -/
structure KeepsStack (m m' : Machine L σ) : Prop where
  sp : m'.sp = m.sp
  entered : m'.entered = m.entered

namespace KeepsStack

theorem refl (m : Machine L σ) : KeepsStack m m := ⟨rfl, rfl⟩

theorem trans (h : KeepsStack m m') (h' : KeepsStack m' m'') : KeepsStack m m'' :=
  ⟨h'.sp.trans h.sp, h'.entered.trans h.entered⟩

end KeepsStack

theorem keepsStack_reading (f : Arena L → Except Fault α) :
    Always KeepsStack (reading f : Exec L σ α) := by
  intro m
  rw [reading_state]
  exact .refl m

theorem keepsStack_update (f : Arena.Update L) : Always KeepsStack (update f : Exec L σ Unit) := by
  intro m
  rw [update_state]
  exact ⟨rfl, rfl⟩

section Output

variable [Sink σ]

theorem keepsStack_emit (bs : List Byte) : Always KeepsStack (emit bs : Exec L σ Unit) := by
  intro m
  rw [emit_state]
  exact ⟨rfl, rfl⟩

theorem keepsStack_print (cell : Word) : Always KeepsStack (print cell : Exec L σ Unit) :=
  print_closed (P := Always KeepsStack) (.bind .trans) (fun _ => keepsStack_reading _)
    (fun _ _ => keepsStack_reading _) (fun _ _ => keepsStack_update _) keepsStack_emit cell

theorem keepsStack_printLog (log : Log) : Always KeepsStack (printLog log : Exec L σ Unit) :=
  printLog_closed (.pure .refl ()) (fun first next => .bind .trans first fun _ => next)
    keepsStack_emit log

theorem keepsStack_exec (log : Log) (leaves : i.LeavesStack) :
    Always KeepsStack (exec log i : Exec L σ (Option Word)) := by
  cases i with
  | enter | leave | ret | push | load | store | arith => cases leaves
  | print cell => exact .bind .trans (keepsStack_print cell) fun _ => .pure .refl _
  | release cell => exact .bind .trans (keepsStack_update _) fun _ => .pure .refl _
  | printLog => exact .bind .trans (keepsStack_printLog log) fun _ => .pure .refl _

end Output

/-! ## Work that overflows a full stack only -/

/-- From `m` to `m'` no stack was switched, and a stack pointer in order has stayed in order. -/
structure KeepsOrder (m m' : Machine L σ) : Prop where
  entered : m'.entered = m.entered
  order : L.StackPointer m.sp → L.StackPointer m'.sp

theorem KeepsOrder.trans (h : KeepsOrder m m') (h' : KeepsOrder m' m'') : KeepsOrder m m'' :=
  ⟨h'.entered.trans h.entered, fun order => h'.order (h.order order)⟩

/-- The work keeps the stack pointer in order, and if it overflows the scratch stack, that is full. -/
structure Orderly (work : Exec L σ α) : Prop where
  keeps : Always KeepsOrder work
  full : ∀ m sp m', L.StackPointer m.sp → work m = .error (.stackOverflow sp) m' →
    m'.sp.toNat = L.stackBase

namespace Orderly

theorem pure (v : α) : Orderly (Pure.pure v : Exec L σ α) :=
  ⟨fun _ => ⟨rfl, id⟩, fun _ _ _ _ failed => by cases failed⟩

theorem bind {work : Exec L σ α} {rest : α → Exec L σ β} (first : Orderly work)
    (next : ∀ v, Orderly (rest v)) : Orderly (work >>= rest) := by
  refine ⟨.bind .trans first.keeps fun v => (next v).keeps, fun m sp m'' order failed => ?_⟩
  cases run : work m with
  | error f m' =>
    rw [bind_error run] at failed
    cases failed
    exact first.full m sp m'' order run
  | ok v m' =>
    have order' := (first.keeps m).order order
    rw [endState_ok run] at order'
    rw [bind_ok run] at failed
    exact (next v).full m' sp m'' order' failed

/-- Work that does not move the stack pointer and never overflows. -/
theorem of_keepsStack {work : Exec L σ α} (keeps : Always KeepsStack work)
    (never : ∀ m sp m', work m ≠ .error (.stackOverflow sp) m') : Orderly work := by
  refine ⟨fun m => ⟨(keeps m).entered, fun order => ?_⟩, fun m sp m' _ failed => ?_⟩
  · rwa [(keeps m).sp]
  · exact absurd failed (never m sp m')

theorem of_confined {work : Exec L σ α} (confined : Always Confined work)
    (full : ∀ m sp m', L.StackPointer m.sp → work m = .error (.stackOverflow sp) m' →
      m'.sp.toNat = L.stackBase) : Orderly work :=
  ⟨fun m => ⟨(confined m).entered, (confined m).order⟩, full⟩

end Orderly

/-- Reading from the arena faults in another way. -/
theorem orderly_reading {f : Arena L → Except Fault α}
    (never : ∀ a sp, f a ≠ .error (.stackOverflow sp)) : Orderly (reading f : Exec L σ α) := by
  refine .of_keepsStack (keepsStack_reading f) fun m sp m' failed => ?_
  unfold reading at failed
  cases read : f m.arena with
  | ok v =>
    rw [read] at failed
    cases failed
  | error e =>
    rw [read] at failed
    cases failed
    exact never _ _ read

theorem orderly_readWord (p : Word) : Orderly (readWord p : Exec L σ Word) := by
  refine orderly_reading fun a sp => ?_
  rw [Arena.readWord_eq_ite]
  split <;> simp

theorem orderly_slice (p : Word) (n : Nat) :
    Orderly (reading (·.slice p n) : Exec L σ (List Byte)) := by
  refine orderly_reading fun a sp => ?_
  rw [Arena.slice_eq_ite]
  split <;> simp

/-- Changing the arena faults in another way. -/
theorem orderly_update {f : Arena.Update L}
    (never : ∀ a sp a', f a ≠ .error (.stackOverflow sp) a') : Orderly (update f : Exec L σ Unit) := by
  refine .of_keepsStack (keepsStack_update f) fun m sp m' failed => ?_
  cases changed : f m.arena with
  | ok v a =>
    simp only [update, changed] at failed
    cases failed
  | error e a =>
    simp only [update, changed] at failed
    cases failed
    exact never _ _ _ changed

theorem write_ne_overflow (p : Word) (bs : List Byte) (a : Arena L) (sp : Word) (a' : Arena L) :
    Arena.write p bs a ≠ .error (.stackOverflow sp) a' := by
  rw [Arena.write_eq_ite]
  split <;> simp

theorem orderly_write (p : Word) (bs : List Byte) :
    Orderly (update (Arena.write p bs) : Exec L σ Unit) :=
  orderly_update (write_ne_overflow p bs)

theorem orderly_copy (source target : Word) (n : Nat) :
    Orderly (update (Arena.copy source target n) : Exec L σ Unit) := by
  refine orderly_update fun a sp a' => ?_
  rw [Arena.copy_eq_ite]
  split
  · simp
  · split <;> simp

theorem orderly_markFree (cell : Word) : Orderly (update (Arena.markFree cell) : Exec L σ Unit) := by
  refine orderly_update fun a sp a' failed => ?_
  unfold Arena.markFree at failed
  split at failed
  · rename_i e read
    rw [Arena.readWord_eq_ite] at read
    split at read
    · cases read
    · cases read
      cases failed
  · split at failed
    · exact write_ne_overflow _ _ _ _ _ failed
    · exact write_ne_overflow _ _ _ _ _ failed

theorem orderly_push (w : Word) : Orderly (push w : Exec L σ Unit) := by
  refine .of_confined (confined_push w) fun m sp m' order failed => ?_
  have low := order.low
  have aligned := order.aligned
  by_cases room : L.stackBase + 8 ≤ m.sp.toNat
  · rw [push_eq w room order.high] at failed
    cases failed
  · have full : m.sp.toNat = L.stackBase := by omega
    rw [push_full w full] at failed
    cases failed
    exact full

theorem orderly_peek (offset : Word) : Orderly (peek offset : Exec L σ Word) := by
  refine .of_confined (confined_peek offset) fun m sp m' _ failed => ?_
  by_cases under : m.sp.toNat < L.stackBase ∨ L.stackTop < m.sp.toNat + offset.toNat + 8
  · rw [peek_under under] at failed
    cases failed
  · rw [peek_eq offset (by omega) (by omega)] at failed
    cases failed

theorem orderly_drop {n : Word} (whole : n.toNat % 8 = 0) : Orderly (drop n : Exec L σ Unit) := by
  refine .of_confined (confined_drop whole) fun m sp m' _ failed => ?_
  rw [drop, bind_ok get_apply] at failed
  split at failed
  · cases failed
  · cases failed

theorem orderly_pop : Orderly (pop : Exec L σ Word) := by
  refine .of_confined confined_pop fun m sp m' order failed => ?_
  cases looked : peek 0 m with
  | error f m₁ =>
    rw [pop, bind_error looked] at failed
    cases failed
    exact (orderly_peek 0).full m sp m' order looked
  | ok w m₁ =>
    rw [pop, bind_ok looked] at failed
    cases failed

theorem orderly_arith (op : Arith) : Orderly (arith op : Exec L σ Unit) :=
  .bind (orderly_peek 0) fun _ => .bind (orderly_peek 16) fun _ =>
    .bind (orderly_drop rfl) fun _ => orderly_push _

theorem orderly_load (cell : Word) : Orderly (load cell : Exec L σ Unit) :=
  load_closed (P := Orderly) .bind orderly_readWord orderly_push cell

theorem orderly_store (cell : Word) : Orderly (store cell : Exec L σ Unit) :=
  store_closed (P := Orderly) .bind orderly_readWord (fun p w => orderly_write p (Word.bytes w))
    (orderly_peek 8) orderly_pop (orderly_drop rfl) orderly_copy cell

section Output

variable [Sink σ]

theorem orderly_emit (bs : List Byte) : Orderly (emit bs : Exec L σ Unit) := by
  refine .of_keepsStack (keepsStack_emit bs) fun m sp m' failed => ?_
  cases written : Sink.write m.sink bs with
  | mk result sink =>
    cases result with
    | ok v | error reason =>
      simp only [emit, written] at failed
      cases failed

theorem orderly_print (cell : Word) : Orderly (print cell : Exec L σ Unit) :=
  print_closed (P := Orderly) .bind orderly_readWord orderly_slice orderly_write orderly_emit cell

theorem orderly_printLog (log : Log) : Orderly (printLog log : Exec L σ Unit) :=
  printLog_closed (.pure ()) (fun first next => .bind first fun _ => next) orderly_emit log

theorem orderly_exec (log : Log) (work : i.IsWork L) :
    Orderly (exec log i : Exec L σ (Option Word)) := by
  cases i with
  | enter | leave | ret => cases work
  | push w => exact .bind (orderly_push w) fun _ => .pure _
  | load cell => exact .bind (orderly_load cell) fun _ => .pure _
  | store cell => exact .bind (orderly_store cell) fun _ => .pure _
  | arith op => exact .bind (orderly_arith op) fun _ => .pure _
  | print cell => exact .bind (orderly_print cell) fun _ => .pure _
  | release cell => exact .bind (orderly_markFree cell) fun _ => .pure _
  | printLog => exact .bind (orderly_printLog log) fun _ => .pure _

end Output

/-! ## Routines -/

section Routines

variable {log : Log} {n : Nat}

/-- The stack pointer of the scratch stack, wherever it is kept. -/
def scratchSp (m : Machine L σ) : Word := if m.entered then m.sp else m.arena.wordAt L.savedSp

theorem scratchSp_of_entered (entered : m.entered = true) : m.scratchSp = m.sp := if_pos entered

theorem scratchSp_of_left (left : m.entered = false) : m.scratchSp = m.arena.wordAt L.savedSp :=
  if_neg (by rw [left]; exact Bool.false_ne_true)

/-- Putting the stacks back saves the stack pointer of the scratch stack. -/
theorem savedSp_unwind (m : Machine L σ) : m.unwind.arena.wordAt L.savedSp = m.scratchSp := by
  unfold unwind scratchSp
  split
  · exact m.arena.wordAt_save m.sp
  · rfl

/-- Leaving exchanges the stack pointers even if the caller's is not found. -/
theorem endState_leave (m : Machine L σ) :
    endState leave m = { swapStack m with entered := false } := by
  by_cases found : m.arena.wordAt L.savedSp = callerSp
  · rw [endState_ok (leave_ok found)]
  · rw [endState_error (leave_switched found)]

variable [Sink σ]

/-- A step of a routine keeps the stack pointer of the scratch stack, provided the instruction does. -/
theorem Stage.scratchSp_step (log : Log) (stage : Stage (i :: rest) m)
    (code : CodeAt m.arena m.ip.toNat (i :: rest)) (leaves : i.IsWork L → i.LeavesStack) :
    (endState (step log) m).scratchSp = m.scratchSp := by
  have stepped : endState (step log) m = endState (exec log i) (m.past i) := by
    rw [endState, step_eq_exec code, endState]
  rw [stepped]
  generalize all : i :: rest = is at stage
  cases stage with
  | before work saved left =>
    cases all
    rw [scratchSp_of_left left]
    rfl
  | @within body _ work order entered =>
    rw [scratchSp_of_entered entered]
    cases body with
    | nil =>
      cases all
      have left : endState (exec log .leave) (m.past .leave) =
          { swapStack (m.past .leave) with entered := false } :=
        (endState_bind_pure leave none _).trans (endState_leave _)
      rw [left]
      exact m.arena.wordAt_save m.sp
    | cons j body =>
      cases all
      have kept := keepsStack_exec log (leaves (work i List.mem_cons_self)) (m.past i)
      rw [scratchSp_of_entered (kept.entered.trans entered), kept.sp, past_sp]
  | after saved left =>
    cases all
    rfl

/-- Steps of a routine keep the stack pointer of the scratch stack, provided the instructions do. -/
theorem Stage.scratchSp_steps (stage : Stage is m) (code : CodeAt m.arena m.ip.toNat is)
    (spares : SparesCode log m) (leaves : ∀ i ∈ is, i.IsWork L → i.LeavesStack)
    (steps : Steps log n m m') : m'.scratchSp = m.scratchSp := by
  induction steps generalizing is with
  | zero m => rfl
  | succ first _ ih =>
    obtain ⟨j, later, rfl⟩ := stage.exists_cons
    have step := stage.stepsOn code spares
    have kept := stage.scratchSp_step log code (leaves j List.mem_cons_self)
    rw [endState_ok first] at kept
    have onward := ih (step.next _ first) (step.codeAt code first) (spares.tail first)
      fun i member => leaves i (List.mem_cons_of_mem _ member)
    exact onward.trans kept

/-- A routine that returns has left the scratch stack. -/
theorem Stage.left_of_returned {status : Word} (stage : Stage (i :: rest) m)
    (code : CodeAt m.arena m.ip.toNat (i :: rest)) (returned : step log m = .ok (some status) m') :
    m'.entered = false := by
  rw [step_eq_exec code] at returned
  generalize all : i :: rest = is at stage
  cases stage with
  | before work saved left =>
    cases all
    cases returned
  | @within body _ work order entered =>
    cases body with
    | nil =>
      cases all
      obtain ⟨_, _, -, last⟩ := bind_eq_ok returned
      cases last
    | cons j body =>
      cases all
      exact absurd returned (exec_ne_some (work i List.mem_cons_self))
  | after saved left =>
    cases all
    cases returned
    exact left

/-- A step of a routine that overflows the scratch stack does so inside it and on a full stack. -/
theorem Stage.full_of_overflow {sp : Word} (stage : Stage (i :: rest) m)
    (code : CodeAt m.arena m.ip.toNat (i :: rest))
    (failed : step log m = .error (.stackOverflow sp) m') :
    m'.entered = true ∧ m'.sp.toNat = L.stackBase := by
  rw [step_eq_exec code] at failed
  generalize all : i :: rest = is at stage
  cases stage with
  | before work saved left =>
    cases all
    cases failed
  | @within body _ work order entered =>
    cases body with
    | nil =>
      cases all
      have failed' : leave (m.past .leave) = .error (.stackOverflow sp) m' := by
        cases run : leave (m.past .leave) with
        | ok v m₁ =>
          have done : exec log .leave (m.past .leave) = .ok none m₁ := exec_of_work rfl run
          rw [done] at failed
          cases failed
        | error f m₁ =>
          have faulted : exec log .leave (m.past .leave) = .error f m₁ := bind_error run
          rw [faulted] at failed
          cases failed
          rfl
      rw [leave, bind_ok (modify_apply _), bind_ok get_apply] at failed'
      split at failed' <;> cases failed'
    | cons j body =>
      cases all
      have orderly := orderly_exec (σ := σ) log (work i List.mem_cons_self)
      have switched := (orderly.keeps (m.past i)).entered
      rw [endState_error failed] at switched
      exact ⟨switched.trans entered, orderly.full (m.past i) sp m' order failed⟩
  | after saved left =>
    cases all
    cases failed

/-- Code without stores copies nothing into the code section. -/
theorem Stage.sparesCode (stage : Stage is m) (code : CodeAt m.arena m.ip.toNat is)
    (none : ∀ cell, .store cell ∉ is) : SparesCode log m := by
  intro n m₁ m₂ cell steps fetched
  induction steps generalizing is with
  | zero m =>
    obtain ⟨j, later, rfl⟩ := stage.exists_cons
    rw [fetch_eq code] at fetched
    cases fetched
    exact absurd List.mem_cons_self (none cell)
  | succ first _ ih =>
    obtain ⟨j, later, rfl⟩ := stage.exists_cons
    have step : StepsOn log j later _ := stage.oneStep code fun cell same =>
      absurd (same ▸ List.mem_cons_self) (none cell)
    exact ih (step.next _ first) (step.codeAt code first)
      (fun cell member => none cell (List.mem_cons_of_mem _ member)) fetched

/-- A routine whose work does not move the stack pointer saves the one it has found, however it
ends. -/
theorem savedSp_run (stage : Stage is m.atStart) (code : CodeAt m.arena L.codeBase is)
    (spares : SparesCode log m.atStart) (leaves : ∀ i ∈ is, i.IsWork L → i.LeavesStack) :
    (endState (run log) m).arena.wordAt L.savedSp = m.arena.wordAt L.savedSp := by
  have code' := codeAt_atStart code
  obtain ⟨n, m', done, i, rest, split, steps, stage', code'', -, ends⟩ :=
    stage.exists_end code spares
  have before : m'.scratchSp = m.arena.wordAt L.savedSp :=
    stage.scratchSp_steps code' spares leaves steps
  have last : (endState (step log) m').scratchSp = m'.scratchSp :=
    stage'.scratchSp_step log code'' (leaves i (by simp [split]))
  rcases ends with ⟨status, m'', returned, ran⟩ | ⟨f, m'', failed, ran⟩
  · rw [endState_ok returned, scratchSp_of_left (stage'.left_of_returned code'' returned)] at last
    rw [endState_ok ran, last, before]
  · rw [endState_error failed] at last
    rw [endState_error ran, savedSp_unwind, last, before]

/-- A routine that overflows the scratch stack saves a full one. -/
theorem savedSp_run_of_overflow {sp : Word} (stage : Stage is m.atStart)
    (code : CodeAt m.arena L.codeBase is) (spares : SparesCode log m.atStart)
    (failed : run log m = .error (.stackOverflow sp) m') :
    (m'.arena.wordAt L.savedSp).toNat = L.stackBase := by
  obtain ⟨n, m₁, done, i, rest, -, -, stage', code', -, ends⟩ := stage.exists_end code spares
  rcases ends with ⟨status, m₂, -, ran⟩ | ⟨f, m₂, last, ran⟩
  · rw [ran] at failed
    cases failed
  · rw [ran] at failed
    cases failed
    obtain ⟨entered, full⟩ := stage'.full_of_overflow code' last
    rw [savedSp_unwind, scratchSp_of_entered entered, full]

end Routines

end Machine
end Osl
