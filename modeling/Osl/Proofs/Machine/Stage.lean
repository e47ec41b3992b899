import Osl.Proofs.Machine.Confinement
import Osl.Proofs.Machine.Routine

/-!
# The stages of a routine

A routine is in front of its work, at its work or behind it (`Stage`). Each step leads on to the next
instruction and changes no code, and however the routine ends, the saved stack pointer is in order
(`Stage.stepsOn`). The one proviso is that no store copies a string into the code section.
-/

namespace Osl
set_option autoImplicit false

variable {L : Layout} {σ : Type}

/-- The instructions that do the work of a routine; those that name a cell name that of a slot. -/
def Instr.IsWork (L : Layout) : Instr → Prop
  | .push _ | .arith _ | .printLog => True
  | .load cell | .store cell | .print cell | .release cell => L.IsCell cell
  | .enter | .leave | .ret => False

namespace Machine

variable {m m' : Machine L σ} {i : Instr} {is : List Instr}

/-- How far a routine has come that goes on with the given instructions. -/
inductive Stage : List Instr → Machine L σ → Prop
  | before {body : List Instr} {m : Machine L σ} : (∀ i ∈ body, i.IsWork L) → m.arena.StackSaved →
      m.entered = false → Stage (framed body) m
  | within {body : List Instr} {m : Machine L σ} : (∀ i ∈ body, i.IsWork L) →
      L.StackPointer m.sp → m.entered = true → Stage (body ++ [.leave, .ret]) m
  | after {m : Machine L σ} : m.arena.StackSaved → m.entered = false → Stage [.ret] m

theorem Stage.exists_cons (h : Stage is m) : ∃ i rest, is = i :: rest := by
  cases h with
  | before => exact ⟨_, _, rfl⟩
  | @within body =>
    cases body with
    | nil => exact ⟨_, _, rfl⟩
    | cons i body => exact ⟨_, _, rfl⟩
  | after => exact ⟨_, _, rfl⟩

/-- Exchanging the stack pointers saves the one in use. -/
theorem stackSaved_swapStack (order : L.StackPointer m.sp) : (swapStack m).arena.StackSaved :=
  m.arena.stackSaved_save order

/-- Exchanging the stack pointers leaves the code alone. -/
theorem sameInside_swapStack (m : Machine L σ) :
    m.arena.SameInside (swapStack m).arena L.codeBase L.literalBase := by
  have := L.ordered
  exact (m.arena.sameOutside_save m.sp).inside (.inr (by omega))

variable [Sink σ] {log : Log}

/-- Work is confined, and it never returns. -/
theorem confined_exec (work : i.IsWork L) (m : Machine L σ)
    (spares : ∀ cell, i = .store cell → ¬ m.CopiesToCode cell) :
    Confined m (endState (exec log i) m) := by
  cases i with
  | enter | leave | ret => cases work
  | push w => exact Always.bind .trans (confined_push w) (fun _ => .pure .refl _) m
  | load cell => exact Always.bind .trans (confined_load cell) (fun _ => .pure .refl _) m
  | arith op => exact Always.bind .trans (confined_arith op) (fun _ => .pure .refl _) m
  | print cell => exact Always.bind .trans (confined_print work) (fun _ => .pure .refl _) m
  | release cell => exact Always.bind .trans (confined_release work) (fun _ => .pure .refl _) m
  | printLog => exact Always.bind .trans (confined_printLog log) (fun _ => .pure .refl _) m
  | store cell =>
    have stored := confined_store work m (spares cell rfl)
    cases run : store cell m with
    | ok v m' =>
      rw [endState_ok run] at stored
      have done : exec log (.store cell) m = .ok none m' := exec_of_work rfl run
      rwa [endState_ok done]
    | error f m' =>
      rw [endState_error run] at stored
      have failed : exec log (.store cell) m = .error f m' := bind_error run
      rwa [endState_error failed]

/-- Nothing returns but the instruction to return. -/
theorem eq_ret_of_exec {status : Word} (returned : exec log i m = .ok (some status) m') : i = .ret := by
  cases i with
  | ret => rfl
  | enter | leave | push | load | arith | print | release | printLog | store =>
    obtain ⟨_, _, -, last⟩ := bind_eq_ok returned
    cases last

theorem exec_ne_some (work : i.IsWork L) {status : Word} :
    exec log i m ≠ .ok (some status) m' := by
  intro returned
  rw [eq_ret_of_exec returned] at work
  exact work

/-- What one step of a routine does that goes on with an instruction and a rest. -/
structure StepsOn (log : Log) (i : Instr) (rest : List Instr) (m : Machine L σ) : Prop where
  ip : (endState (step log) m).ip = (m.past i).ip
  code : m.arena.SameInside (endState (step log) m).arena L.codeBase L.literalBase
  next : ∀ m', step log m = .ok none m' → Stage rest m'
  returned : ∀ status m', step log m = .ok (some status) m' → m'.arena.StackSaved
  fault : ∀ f m', step log m = .error f m' → m'.unwind.arena.StackSaved

variable {rest : List Instr}

theorem stepsOn_none (done : step log m = .ok none m') (ip : m'.ip = (m.past i).ip)
    (code : m.arena.SameInside m'.arena L.codeBase L.literalBase) (next : Stage rest m') :
    StepsOn log i rest m := by
  constructor
  · rwa [endState_ok done]
  · rwa [endState_ok done]
  · intro m'' again
    rw [done] at again
    cases again
    exact next
  · intro status m'' again
    rw [done] at again
    cases again
  · intro f m'' again
    rw [done] at again
    cases again

theorem stepsOn_error {f : Fault} (failed : step log m = .error f m') (ip : m'.ip = (m.past i).ip)
    (code : m.arena.SameInside m'.arena L.codeBase L.literalBase)
    (saved : m'.unwind.arena.StackSaved) : StepsOn log i rest m := by
  constructor
  · rwa [endState_error failed]
  · rwa [endState_error failed]
  · intro m'' again
    rw [failed] at again
    cases again
  · intro status m'' again
    rw [failed] at again
    cases again
  · intro f' m'' again
    rw [failed] at again
    cases again
    exact saved

/-- Entering. -/
theorem stepsOn_enter {body : List Instr} (work : ∀ i ∈ body, i.IsWork L)
    (saved : m.arena.StackSaved) (code : CodeAt m.arena m.ip.toNat (framed body)) :
    StepsOn log .enter (body ++ [.leave, .ret]) m := by
  have done : step log m =
      .ok none { swapStack (m.past .enter) with entered := true } := step_eq_exec code
  exact stepsOn_none done rfl (sameInside_swapStack _) (.within work saved rfl)

/-- An instruction that does work. -/
theorem stepsOn_work {body : List Instr} (work : i.IsWork L) (works : ∀ i ∈ body, i.IsWork L)
    (order : L.StackPointer m.sp) (entered : m.entered = true)
    (code : CodeAt m.arena m.ip.toNat (i :: rest))
    (spares : ∀ cell, i = .store cell → ¬ (m.past i).CopiesToCode cell) :
    StepsOn log i (body ++ [.leave, .ret]) m := by
  have confined : (m.past i).Confined (endState (exec log i) (m.past i)) :=
    confined_exec work (m.past i) spares
  have stepped : step log m = exec log i (m.past i) := step_eq_exec code
  cases run : exec log i (m.past i) with
  | ok r m' =>
    rw [endState_ok run] at confined
    cases r with
    | some status => exact absurd run (exec_ne_some work)
    | none =>
      exact stepsOn_none (stepped.trans run) confined.ip (confined.code order)
        (.within works (confined.order order) (confined.entered.trans entered))
  | error f m' =>
    rw [endState_error run] at confined
    have inside : m'.entered = true := confined.entered.trans entered
    refine stepsOn_error (stepped.trans run) confined.ip (confined.code order) ?_
    rw [unwind, if_pos inside]
    exact stackSaved_swapStack (m := { m' with entered := false }) (confined.order order)

/-- Leaving, which faults if the caller's stack pointer is not found. -/
theorem stepsOn_leave (order : L.StackPointer m.sp)
    (code : CodeAt m.arena m.ip.toNat [.leave, .ret]) : StepsOn log .leave [.ret] m := by
  have saved : (swapStack (m.past .leave)).arena.StackSaved := stackSaved_swapStack order
  have same := sameInside_swapStack (m.past .leave)
  have stepped : step log m = exec log .leave (m.past .leave) := step_eq_exec code
  by_cases found : m.arena.wordAt L.savedSp = callerSp
  · have done : leave (m.past .leave) = .ok () _ := leave_ok found
    exact stepsOn_none (stepped.trans (exec_of_work rfl done)) rfl same (.after saved rfl)
  · have failed : leave (m.past .leave) = .error _ _ := leave_switched found
    exact stepsOn_error (stepped.trans (bind_error failed)) rfl same saved

/-- Returning. -/
theorem stepsOn_ret (saved : m.arena.StackSaved) (code : CodeAt m.arena m.ip.toNat [.ret]) :
    StepsOn log .ret rest m := by
  have done : step log m = .ok (some 0) (m.past .ret) := step_eq_exec code
  constructor
  · rw [endState_ok done]
  · rw [endState_ok done]
    exact .refl _ _ _
  · intro m' again
    rw [done] at again
    cases again
  · intro status m' again
    rw [done] at again
    cases again
    exact saved
  · intro f m' again
    rw [done] at again
    cases again

/-- One step of a routine leads on to the rest of it, or ends it with the saved stack pointer in
order. -/
theorem Stage.oneStep (stage : Stage (i :: rest) m) (code : CodeAt m.arena m.ip.toNat (i :: rest))
    (spares : ∀ cell, i = .store cell → ¬ (m.past i).CopiesToCode cell) : StepsOn log i rest m := by
  generalize all : i :: rest = is at stage
  cases stage with
  | before work saved entered =>
    cases all
    exact stepsOn_enter work saved code
  | @within body _ work order entered =>
    cases body with
    | nil =>
      cases all
      exact stepsOn_leave order code
    | cons j body =>
      cases all
      exact stepsOn_work (work i List.mem_cons_self)
        (fun j member => work j (List.mem_cons_of_mem _ member)) order entered code spares
  | after saved entered =>
    cases all
    exact stepsOn_ret saved code

/-! ## Whole runs -/

/-- No store on the way from `m` copies a string into the code section. -/
def SparesCode (log : Log) (m : Machine L σ) : Prop :=
  ∀ n m₁ m₂ cell, Steps log n m m₁ → fetch m₁ = .ok (.store cell) m₂ → ¬ m₂.CopiesToCode cell

theorem SparesCode.tail {log : Log} (h : SparesCode log m) (first : step log m = .ok none m') :
    SparesCode log m' :=
  fun n m₁ m₂ cell steps fetched => h (n + 1) m₁ m₂ cell (.succ first steps) fetched

theorem SparesCode.head {cell : Word} (h : SparesCode log m)
    (code : CodeAt m.arena m.ip.toNat (.store cell :: rest)) :
    ¬ (m.past (.store cell)).CopiesToCode cell :=
  h 0 m _ cell (.zero m) (fetch_eq code)

/-- Whether the next step copies a string into the code section. -/
def tampers (m : Machine L σ) : Bool :=
  match fetch m with
  | .ok (.store cell) m' => decide (m'.CopiesToCode cell)
  | _ => false

/-- Whether the machine returns or faults within `n` steps and no store on the way copies a string
into the code section. -/
def sparesFor (log : Log) : (n : Nat) → Machine L σ → Bool
  | 0, _ => false
  | n + 1, m =>
    !m.tampers &&
      match step log m with
      | .ok none m' => sparesFor log n m'
      | .ok (some _) _ | .error _ _ => true

theorem sparesFor_eq_avoids (log : Log) (n : Nat) (m : Machine L σ) :
    m.sparesFor log n = m.avoids tampers log n := by
  induction n generalizing m with
  | zero => rfl
  | succ n ih =>
    rw [sparesFor, avoids]
    cases step log m with
    | error f m' => rfl
    | ok status m' =>
      cases status with
      | some status => rfl
      | none => exact congrArg (!m.tampers && ·) (ih m')

theorem sparesCode_of_sparesFor {log : Log} {n : Nat} (h : m.sparesFor log n = true) :
    SparesCode log m := by
  intro k m₁ m₂ cell steps fetched copies
  rw [sparesFor_eq_avoids] at h
  have harmless := eq_false_of_avoids h steps
  rw [tampers, fetched] at harmless
  exact of_decide_eq_false harmless copies

/-- A step of a routine that spares its code. -/
theorem Stage.stepsOn (stage : Stage (i :: rest) m) (code : CodeAt m.arena m.ip.toNat (i :: rest))
    (spares : SparesCode log m) : StepsOn log i rest m :=
  stage.oneStep code fun cell same => by
    subst same
    exact spares.head code

/-- The code behind an instruction still lies there after the step. -/
theorem StepsOn.codeAt (h : StepsOn log i rest m) (code : CodeAt m.arena m.ip.toNat (i :: rest))
    (done : step log m = .ok none m') : CodeAt m'.arena m'.ip.toNat rest := by
  have same := h.code
  have ip := h.ip
  rw [endState_ok done] at same ip
  rw [ip, toNat_ip_past code]
  exact code.tail.sameInside same

/-- After any number of steps a routine has done as many of its instructions and goes on with the
others, and the code section is as it was. -/
theorem Stage.steps {n : Nat} (stage : Stage is m) (code : CodeAt m.arena m.ip.toNat is)
    (spares : SparesCode log m) (steps : Steps log n m m') :
    ∃ done i rest, is = done ++ i :: rest ∧ done.length = n ∧ Stage (i :: rest) m' ∧
      SparesCode log m' ∧ CodeAt m'.arena m'.ip.toNat (i :: rest) ∧
      m'.ip.toNat = m.ip.toNat + (codeBytes done).length ∧
      m.arena.SameInside m'.arena L.codeBase L.literalBase := by
  induction steps generalizing is with
  | zero m =>
    obtain ⟨i, rest, rfl⟩ := stage.exists_cons
    exact ⟨[], i, rest, rfl, rfl, stage, spares, code, rfl, .refl _ _ _⟩
  | succ first _ ih =>
    obtain ⟨j, later, rfl⟩ := stage.exists_cons
    have step := stage.stepsOn code spares
    have same := step.code
    have ip := step.ip
    rw [endState_ok first] at same ip
    obtain ⟨done, i, rest, split, count, stage', spares', code', place, same'⟩ :=
      ih (step.next _ first) (step.codeAt code first) (spares.tail first)
    refine ⟨j :: done, i, rest, by rw [split]; rfl, by rw [List.length_cons, count], stage', spares',
      code', ?_, same.trans same'⟩
    rw [place, ip, toNat_ip_past code, codeBytes_cons, List.length_append, Nat.add_assoc]

/-- A routine comes to an end before it has made as many steps as it has instructions. -/
theorem Stage.exists_last (stage : Stage is m) (code : CodeAt m.arena m.ip.toNat is)
    (spares : SparesCode log m) :
    ∃ n m', n < is.length ∧ Steps log n m m' ∧ ∀ m'', step log m' ≠ .ok none m'' := by
  induction is generalizing m with
  | nil =>
    obtain ⟨i, rest, none⟩ := stage.exists_cons
    cases none
  | cons i rest ih =>
    by_cases goesOn : ∃ m', step log m = .ok none m'
    · obtain ⟨m', first⟩ := goesOn
      have step := stage.stepsOn code spares
      obtain ⟨n, m'', bound, steps, last⟩ :=
        ih (step.next _ first) (step.codeAt code first) (spares.tail first)
      exact ⟨n + 1, m'', by rw [List.length_cons]; omega, .succ first steps, last⟩
    · refine ⟨0, m, by rw [List.length_cons]; omega, .zero m, ?_⟩
      intro m' first
      exact goesOn ⟨m', first⟩

/-- A run ends with a step that returns or faults, and until then it has gone through the stages of the
routine. -/
theorem Stage.exists_end (stage : Stage is m.atStart) (code : CodeAt m.arena L.codeBase is)
    (spares : SparesCode log m.atStart) :
    ∃ n m' done i rest, is = done ++ i :: rest ∧ Steps log n m.atStart m' ∧ Stage (i :: rest) m' ∧
      CodeAt m'.arena m'.ip.toNat (i :: rest) ∧ SparesCode log m' ∧
      ((∃ status m'', step log m' = .ok (some status) m'' ∧ run log m = .ok status m'') ∨
        ∃ f m'', step log m' = .error f m'' ∧ run log m = .error f m''.unwind) := by
  have code' := codeAt_atStart code
  obtain ⟨n, m', bound, steps, last⟩ := stage.exists_last code' spares
  have few : n < stepBound L := Nat.lt_trans bound (length_lt_stepBound code)
  obtain ⟨done, i, rest, split, -, stage', spares', code'', -, -⟩ := stage.steps code' spares steps
  refine ⟨n, m', done, i, rest, split, steps, stage', code'', spares', ?_⟩
  cases result : step log m' with
  | ok r m'' =>
    cases r with
    | none => exact absurd result (last m'')
    | some status => exact .inl ⟨status, m'', rfl, run_of_return steps result few⟩
  | error f m'' => exact .inr ⟨f, m'', rfl, run_of_fault steps result few⟩

/-- However a run ends, the saved stack pointer is in order. -/
theorem stackSaved_run (stage : Stage is m.atStart)
    (code : CodeAt m.arena L.codeBase is) (spares : SparesCode log m.atStart) :
    (endState (run log) m).arena.StackSaved := by
  obtain ⟨n, m', done, i, rest, -, -, stage', code', spares', ends⟩ := stage.exists_end code spares
  have ended := stage'.stepsOn code' spares'
  rcases ends with ⟨status, m'', last, ran⟩ | ⟨f, m'', last, ran⟩
  · rw [endState_ok ran]
    exact ended.returned status m'' last
  · rw [endState_error ran]
    exact ended.fault f m'' last

end Machine
end Osl
