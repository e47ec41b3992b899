import Osl.Compile
import Osl.Proofs.Machine.Code

/-!
# Running a routine

A routine first goes over to the scratch stack and comes back from it in the end. What remains to be
said of its run is what the code in between does, starting from `Machine.inside`: whether it runs to
its end (`run_framed`) or breaks off with a fault (`run_framed_fault`).
-/

namespace Osl
set_option autoImplicit false

variable {L : Layout} {σ : Type} {is : List Instr} {a : Arena L}

/-- Code has at least as many bytes as instructions. -/
theorem length_le_codeBytes (is : List Instr) : is.length ≤ (codeBytes is).length := by
  induction is with
  | nil => exact Nat.le_refl 0
  | cons i is ih =>
    have first := i.length_encode_pos
    rw [codeBytes_cons, List.length_append, List.length_cons]
    omega

@[simp] theorem length_framed (is : List Instr) : (framed is).length = is.length + 3 := by
  simp [framed]

/-- The saved stack pointer is one that routines may work with. -/
def Arena.StackSaved (a : Arena L) : Prop := L.StackPointer (a.wordAt L.savedSp)

/-- Saving a stack pointer touches its cell only. -/
theorem Arena.sameOutside_save (a : Arena L) (sp : Word) :
    a.SameOutside (a.overlay L.savedSp (Word.bytes sp)) L.base L.dataBase := by
  have written := sameOutside_overlay_word a L.savedSp sp
  exact written.mono (Nat.le_refl _) (by simp only [Layout.savedSp, Layout.dataBase]; omega)

theorem Arena.wordAt_save (a : Arena L) (sp : Word) :
    (a.overlay L.savedSp (Word.bytes sp)).wordAt L.savedSp = sp := by
  have within : L.Within L.savedSp 8 := by
    have := L.ordered
    simp only [Layout.Within, Layout.savedSp, Layout.dataBase] at *
    omega
  exact wordAt_overlay_bytes a within sp

theorem Arena.stackSaved_save (a : Arena L) {sp : Word} (pointer : L.StackPointer sp) :
    (a.overlay L.savedSp (Word.bytes sp)).StackSaved := by
  unfold StackSaved
  rwa [wordAt_save]

namespace Machine

/-- The machine at the start of the body of a routine: it has gone over to the scratch stack of `a`
and put the caller's stack pointer in its place. -/
def inside (a : Arena L) (sink : σ) : Machine L σ where
  arena := a.overlay L.savedSp (Word.bytes callerSp)
  sink
  ip := .ofNat (L.codeBase + 1)
  sp := a.wordAt L.savedSp
  entered := true

theorem toNat_codeBase (L : Layout) {n : Nat} (small : n ≤ 1) :
    (UInt64.ofNat (L.codeBase + n)).toNat = L.codeBase + n := by
  have := L.stop_lt
  have := L.ordered
  exact Word.toNat_ofNat_of_lt (by omega)

/-- Code at the start of the code section lies where the machine starts. -/
theorem codeAt_atStart {m : Machine L σ} (code : CodeAt m.arena L.codeBase is) :
    CodeAt m.atStart.arena m.atStart.ip.toNat is := by
  have start : m.atStart.ip.toNat = L.codeBase := toNat_codeBase L (Nat.zero_le 1)
  rwa [start]

/-- There is time for every instruction in the code section. -/
theorem length_lt_stepBound (code : CodeAt a L.codeBase is) : is.length < stepBound L := by
  have := L.ordered
  have size := code.high
  have count := length_le_codeBytes is
  unfold stepBound
  omega

/-- Going over to the scratch stack touches the saved stack pointer only. -/
theorem sameOutside_inside (a : Arena L) (sink : σ) :
    a.SameOutside (inside a sink).arena L.base L.dataBase :=
  a.sameOutside_save callerSp

theorem callerSp_inside (a : Arena L) (sink : σ) :
    (inside a sink).arena.wordAt L.savedSp = callerSp :=
  a.wordAt_save callerSp

/-- At the start of the body the rest of the routine lies ahead. -/
theorem codeAt_inside (sink : σ) (code : CodeAt a L.codeBase (framed is)) :
    CodeAt (inside a sink).arena (inside a sink).ip.toNat (is ++ [.leave, .ret]) := by
  have := L.ordered
  have rest : CodeAt a (L.codeBase + 1) (is ++ [.leave, .ret]) := code.tail
  have place : (inside a sink).ip.toNat = L.codeBase + 1 := toNat_codeBase L (Nat.le_refl 1)
  rw [place]
  exact rest.sameOutside (sameOutside_inside a sink) (by omega)

variable {m m' m'' : Machine L σ}

/-- Leaving finds the caller's stack pointer and puts the one of the body in its place. -/
theorem leave_ok (found : m.arena.wordAt L.savedSp = callerSp) :
    leave m = .ok () { swapStack m with entered := false } := by
  have found' : (swapStack m).sp = callerSp := found
  rw [leave, bind_ok (modify_apply _), bind_ok get_apply]
  simp only [found', ne_eq, not_true_eq_false, if_false]
  rfl

/-- Leaving puts the stack pointer of the body in its place even if it does not find the caller's. -/
theorem leave_switched (lost : m.arena.wordAt L.savedSp ≠ callerSp) :
    leave m = .error (.stackSwitch callerSp (m.arena.wordAt L.savedSp))
      { swapStack m with entered := false } := by
  have lost' : (swapStack m).sp ≠ callerSp := lost
  rw [leave, bind_ok (modify_apply _), bind_ok get_apply, if_pos lost']
  rfl

variable [Sink σ] {log : Log} {n : Nat}

theorem step_enter (code : CodeAt m.arena L.codeBase (framed is)) :
    step log m.atStart = .ok none (inside m.arena m.sink) := by
  have start : m.atStart.ip.toNat = L.codeBase := toNat_codeBase L (Nat.zero_le 1)
  have code' : CodeAt m.atStart.arena m.atStart.ip.toNat (.enter :: (is ++ [.leave, .ret])) :=
    codeAt_atStart code
  have next : (m.atStart.past .enter).ip = .ofNat (L.codeBase + 1) := by
    apply UInt64.toNat_inj.1
    rw [toNat_ip_past code', start, toNat_codeBase L (Nat.le_refl 1)]
    rfl
  rw [step_eq_exec code', inside, ← next]
  rfl

/-- A routine whose body has run to its end leaves the scratch stack next. -/
theorem steps_framed (code : CodeAt m.arena L.codeBase (framed is))
    (body : Steps log is.length (inside m.arena m.sink) m') :
    Steps log (is.length + 1) m.atStart m' ∧ is.length + 2 < stepBound L := by
  have time := length_lt_stepBound code
  rw [length_framed] at time
  exact ⟨.succ (step_enter code) body, by omega⟩

/-- If the body of a routine runs to its end and the caller's stack pointer is found, the routine
returns, and the stack pointer of the body becomes the saved one. -/
theorem run_framed_of_steps (code : CodeAt m.arena L.codeBase (framed is))
    (body : Steps log is.length (inside m.arena m.sink) m')
    (rest : CodeAt m'.arena m'.ip.toNat [.leave, .ret])
    (caller : m'.arena.wordAt L.savedSp = callerSp) :
    ∃ m'', run log m = .ok 0 m'' ∧
      m''.arena = m'.arena.overlay L.savedSp (Word.bytes m'.sp) ∧ m''.sink = m'.sink := by
  have := L.ordered
  obtain ⟨steps, bound⟩ := steps_framed code body
  have left : step log m' = .ok none { swapStack (m'.past .leave) with entered := false } := by
    rw [step_eq_exec rest]
    exact exec_of_work rfl (leave_ok caller)
  have next : (m'.past .leave).ip.toNat = m'.ip.toNat + 1 := toNat_ip_past rest
  have code' : CodeAt (swapStack (m'.past .leave)).arena (m'.past .leave).ip.toNat [.ret] := by
    rw [next]
    exact rest.tail.sameOutside (m'.arena.sameOutside_save m'.sp) (by omega)
  have returned : step log { swapStack (m'.past .leave) with entered := false } =
      .ok (some 0) _ := step_eq_exec (i := .ret) code'
  exact ⟨_, run_of_return (steps.trans (.one left)) returned (by omega), rfl, rfl⟩

/-- If the body of a routine runs to its end and the caller's stack pointer is not found, the routine
faults, but the stack pointer of the body becomes the saved one as well. -/
theorem run_framed_switched (code : CodeAt m.arena L.codeBase (framed is))
    (body : Steps log is.length (inside m.arena m.sink) m')
    (rest : CodeAt m'.arena m'.ip.toNat [.leave, .ret])
    (lost : m'.arena.wordAt L.savedSp ≠ callerSp) :
    ∃ m'', run log m = .error (.stackSwitch callerSp (m'.arena.wordAt L.savedSp)) m'' ∧
      m''.arena = m'.arena.overlay L.savedSp (Word.bytes m'.sp) := by
  obtain ⟨steps, bound⟩ := steps_framed code body
  have failed : step log m' = .error (.stackSwitch callerSp (m'.arena.wordAt L.savedSp))
      { swapStack (m'.past .leave) with entered := false } := by
    rw [step_eq_exec rest]
    exact bind_error (leave_switched lost)
  exact ⟨_, run_of_fault steps failed (by omega), rfl⟩

/-- If the body of a routine runs to its end and writes cells and the scratch stack only, the routine
returns, and the stack pointer of the body becomes the saved one. -/
theorem run_framed (code : CodeAt m.arena L.codeBase (framed is))
    (body : Ran log is (inside m.arena m.sink) m') :
    ∃ m'', run log m = .ok 0 m'' ∧
      m''.arena = m'.arena.overlay L.savedSp (Word.bytes m'.sp) ∧ m''.sink = m'.sink := by
  have caller : m'.arena.wordAt L.savedSp = callerSp := by
    rw [body.same.wordAt (.inl (by simp only [Layout.savedSp, Layout.dataBase]; omega)),
      callerSp_inside]
  exact run_framed_of_steps code body.steps (body.codeAt (codeAt_inside m.sink code)) caller

/-- If the body of a routine comes to a fault, so does the routine, and the stacks are put back. -/
theorem run_framed_fault {f : Fault} (code : CodeAt m.arena L.codeBase (framed is))
    (body : Steps log n (inside m.arena m.sink) m') (bound : n < is.length)
    (last : step log m' = .error f m'') : run log m = .error f m''.unwind := by
  have time := length_lt_stepBound code
  rw [length_framed] at time
  have steps := (Steps.one (step_enter code)).trans body
  exact run_of_fault steps last (by omega)

end Machine
end Osl
