import Osl.Instr.Routine
import Osl.Proofs.Machine.Stack

/-!
# Code in the arena

`CodeAt a p is` says that the code section holds the instructions `is` from `p` on. There the
machine fetches exactly these, one after another (`step_eq_exec`), as long as nothing writes over
them. `Steps` counts the steps of a run that neither returns nor faults, and `runFor_of_steps` and
`runFor_of_fault` say what becomes of a run after such steps.
-/

namespace Osl
set_option autoImplicit false

/-- The bytes of instructions. -/
def codeBytes (is : List Instr) : List Byte := is.flatMap Instr.encode

@[simp] theorem codeBytes_nil : codeBytes [] = [] := rfl

@[simp] theorem codeBytes_cons (i : Instr) (is : List Instr) :
    codeBytes (i :: is) = i.encode ++ codeBytes is := List.flatMap_cons

@[simp] theorem codeBytes_append (is js : List Instr) :
    codeBytes (is ++ js) = codeBytes is ++ codeBytes js := List.flatMap_append

namespace Instr

/-- Every instruction takes up at least its operation code. -/
theorem length_encode_pos (i : Instr) : 0 < i.encode.length := by
  unfold encode
  cases i.operand? <;> simp [Opcode.emit]

/-- An instruction takes up at most nine bytes. -/
theorem length_encode_le (i : Instr) : i.encode.length ≤ 9 := by
  unfold encode
  cases i.operand? <;> simp [Opcode.emit]

end Instr

/-- The code section holds the instructions `is` from `p` on. -/
structure CodeAt {L : Layout} (a : Arena L) (p : Nat) (is : List Instr) : Prop where
  low : L.codeBase ≤ p
  high : p + (codeBytes is).length ≤ L.literalBase
  bytes : a.bytes p (codeBytes is).length = codeBytes is

namespace CodeAt

variable {L : Layout} {a b : Arena L} {p : Nat} {i : Instr} {is js : List Instr}

/-- Code stays where it is while nothing from its start on is written to. -/
theorem sameAbove {lo hi : Nat} (h : CodeAt a p is) (same : a.SameOutside b lo hi) (apart : hi ≤ p) :
    CodeAt b p is :=
  ⟨h.low, h.high, (same.bytes (.inr apart)).trans h.bytes⟩

/-- Code stays where it is while nothing writes to the code section. -/
theorem sameOutside {lo hi : Nat} (h : CodeAt a p is) (same : a.SameOutside b lo hi)
    (apart : hi ≤ L.codeBase) : CodeAt b p is :=
  h.sameAbove same (Nat.le_trans apart h.low)

/-- Code depends on the code section only. -/
theorem sameInside (h : CodeAt a p is) (same : a.SameInside b L.codeBase L.literalBase) :
    CodeAt b p is :=
  ⟨h.low, h.high, (same.bytes h.low h.high).trans h.bytes⟩

theorem split (h : CodeAt a p (is ++ js)) :
    a.bytes p (codeBytes is).length = codeBytes is ∧
      a.bytes (p + (codeBytes is).length) (codeBytes js).length = codeBytes js := by
  have bytes := h.bytes
  rw [codeBytes_append, List.length_append, Arena.bytes_add] at bytes
  exact List.append_inj bytes (by simp)

theorem left (h : CodeAt a p (is ++ js)) : CodeAt a p is := by
  have high := h.high
  rw [codeBytes_append, List.length_append] at high
  exact ⟨h.low, by omega, h.split.1⟩

theorem right (h : CodeAt a p (is ++ js)) : CodeAt a (p + (codeBytes is).length) js := by
  have high := h.high
  rw [codeBytes_append, List.length_append] at high
  exact ⟨Nat.le_trans h.low (Nat.le_add_right _ _), by omega, h.split.2⟩

theorem tail (h : CodeAt a p (i :: is)) : CodeAt a (p + i.encode.length) is := by
  have rest : CodeAt a (p + (codeBytes [i]).length) is := right h
  simpa using rest

/-- The first instruction lies in the arena. -/
theorem within (h : CodeAt a p (i :: is)) : L.Within p i.encode.length := by
  have low := h.low
  have high := h.high
  have := L.ordered
  simp only [codeBytes_cons, List.length_append] at high
  unfold Layout.Within
  omega

/-- The bytes of the first instruction. -/
theorem head (h : CodeAt a p (i :: is)) : a.bytes p i.encode.length = i.encode := by
  have first : CodeAt a p [i] := left h
  simpa using first.bytes

end CodeAt

namespace Machine

variable {L : Layout} {σ : Type} {m m' m'' : Machine L σ} {i : Instr} {is js : List Instr}

theorem fetchOpcode_eq {op : Opcode} (within : L.Within m.ip.toNat 1)
    (byte : m.arena.byte m.ip.toNat = op.byte) :
    fetchOpcode m = .ok op { m with ip := m.ip + 1 } := by
  have read : (reading (·.readByte m.ip) : Exec L σ Byte) m = .ok op.byte m := by
    simp only [reading, Arena.readByte_eq_ite, if_pos within, byte]
  rw [fetchOpcode, bind_ok get_apply, bind_ok read, Opcode.ofByte?_byte]
  rfl

theorem fetchOperand_eq {w : Word} (within : L.Within m.ip.toNat 8)
    (word : m.arena.wordAt m.ip.toNat = w) :
    fetchOperand m = .ok w { m with ip := m.ip + 8 } := by
  rw [fetchOperand, bind_ok get_apply, bind_ok (readWord_eq m within), word]
  rfl

/-- The machine with its instruction pointer past an instruction. -/
def past (m : Machine L σ) (i : Instr) : Machine L σ :=
  { m with ip := m.ip + .ofNat i.encode.length }

@[simp] theorem past_arena (m : Machine L σ) (i : Instr) : (m.past i).arena = m.arena := rfl

@[simp] theorem past_sink (m : Machine L σ) (i : Instr) : (m.past i).sink = m.sink := rfl

@[simp] theorem past_sp (m : Machine L σ) (i : Instr) : (m.past i).sp = m.sp := rfl

/-- The instruction pointer does not wrap around on its way past an instruction in the arena. -/
theorem toNat_ip_past_of_within (within : L.Within m.ip.toNat i.encode.length) :
    (m.past i).ip.toNat = m.ip.toNat + i.encode.length := by
  have := L.stop_lt
  have := within.2
  have short := i.length_encode_le
  have size : (UInt64.ofNat i.encode.length).toNat = i.encode.length :=
    Word.toNat_ofNat_of_lt (by omega)
  rw [past, Word.toNat_add_of_lt (by omega), size]

/-- The machine fetches the instruction whose bytes lie where it is, be that code section or not. -/
theorem fetch_of_bytes (within : L.Within m.ip.toNat i.encode.length)
    (bytes : m.arena.bytes m.ip.toNat i.encode.length = i.encode) :
    fetch m = .ok i (m.past i) := by
  have := L.stop_lt
  unfold Layout.Within at within
  unfold past
  unfold Instr.encode at bytes within ⊢
  cases operand : i.operand? with
  | none =>
    simp only [operand, Opcode.emit, List.length_singleton, Arena.bytes_succ, List.cons.injEq]
      at bytes within ⊢
    rw [fetch, bind_ok (fetchOpcode_eq within bytes.1), Instr.form_of_operand?_eq_none operand]
    rfl
  | some w =>
    simp only [operand, Opcode.emit, List.length_cons, Word.length_bytes, Arena.bytes_succ m.arena _ 8,
      List.cons.injEq] at bytes within ⊢
    have next : (m.ip + 1).toNat = m.ip.toNat + 1 :=
      Word.toNat_add_of_lt (by simp only [UInt64.reduceToNat]; omega)
    have opcode : L.Within m.ip.toNat 1 := by
      unfold Layout.Within
      omega
    have inside : L.Within (m.ip + 1).toNat 8 := by
      unfold Layout.Within
      omega
    have word : m.arena.wordAt (m.ip + 1).toNat = w := by
      rw [next, Arena.wordAt, Word.size, bytes.2, Word.ofBytes_bytes]
    have taken : fetchOperand { m with ip := m.ip + 1 } = .ok w { m with ip := m.ip + 1 + 8 } :=
      fetchOperand_eq inside word
    have nine : m.ip + 1 + 8 = m.ip + .ofNat (8 + 1) := by
      grind
    obtain ⟨make, form, made⟩ := Instr.form_of_operand?_eq_some operand
    rw [fetch, bind_ok (fetchOpcode_eq opcode bytes.1), form]
    show (fetchOperand >>= fun w => pure (make w)) { m with ip := m.ip + 1 } = _
    rw [bind_ok taken, made, nine]
    rfl

theorem toNat_ip_past (code : CodeAt m.arena m.ip.toNat (i :: is)) :
    (m.past i).ip.toNat = m.ip.toNat + i.encode.length :=
  toNat_ip_past_of_within code.within

/-- The next instruction lies there after a step that has written below it. -/
theorem codeAt_next {lo hi : Nat} (code : CodeAt m.arena m.ip.toNat (i :: is))
    (ip : m'.ip = (m.past i).ip) (same : m.arena.SameOutside m'.arena lo hi)
    (below : hi ≤ m.ip.toNat + i.encode.length) : CodeAt m'.arena m'.ip.toNat is := by
  rw [ip, toNat_ip_past code]
  exact code.tail.sameAbove same below

/-- The machine fetches the instruction that lies where it is. -/
theorem fetch_eq (code : CodeAt m.arena m.ip.toNat (i :: is)) : fetch m = .ok i (m.past i) :=
  fetch_of_bytes code.within code.head

/-! ## Runs -/

section Runs

variable [Sink σ] {log : Log} {n k : Nat}

/-- A step over code executes the instruction that lies there, the instruction pointer already past
it. -/
theorem step_eq_exec (code : CodeAt m.arena m.ip.toNat (i :: is)) :
    step log m = exec log i (m.past i) := by
  rw [step, bind_ok (fetch_eq code)]

/-- An instruction that is work and no more goes on after it. -/
theorem exec_of_work {work : Exec L σ Unit} (does : exec log i = (work >>= fun _ => pure none))
    (done : work m = .ok () m') : exec log i m = .ok none m' := by
  rw [does, bind_ok done]
  rfl

/-- `m` goes to `m'` in `n` steps, none of which returns or faults. -/
inductive Steps (log : Log) : Nat → Machine L σ → Machine L σ → Prop
  | zero (m : Machine L σ) : Steps log 0 m m
  | succ {n : Nat} {m m' m'' : Machine L σ} :
      step log m = .ok none m' → Steps log n m' m'' → Steps log (n + 1) m m''

namespace Steps

theorem one (h : step log m = .ok none m') : Steps log 1 m m' := .succ h (.zero m')

theorem trans (h : Steps log n m m') (h' : Steps log k m' m'') : Steps log (n + k) m m'' := by
  induction h with
  | zero m => rwa [Nat.zero_add]
  | succ first _ ih =>
    rw [Nat.succ_add]
    exact .succ first (ih h')

/-- A run goes on from where steps lead. -/
theorem runFor (h : Steps log n m m') (k : Nat) :
    Machine.runFor log (n + k) m = Machine.runFor log k m' := by
  induction h with
  | zero m => rw [Nat.zero_add]
  | succ first _ ih =>
    rw [Nat.succ_add, Machine.runFor, bind_ok first]
    exact ih

end Steps

/-- The machine `n` steps later, if it goes on for as long. -/
def after (log : Log) : (n : Nat) → Machine L σ → Option (Machine L σ)
  | 0, m => some m
  | n + 1, m =>
    match step log m with
    | .ok none m' => after log n m'
    | .ok (some _) _ | .error _ _ => none

theorem steps_of_after (h : m.after log n = some m') : Steps log n m m' := by
  induction n generalizing m with
  | zero =>
    cases h
    exact .zero _
  | succ n ih =>
    rw [after] at h
    cases first : step log m with
    | ok r m₁ =>
      rw [first] at h
      cases r with
      | none => exact .succ first (ih h)
      | some status => cases h
    | error f m₁ =>
      rw [first] at h
      cases h

/-- Whether the machine returns or faults within `n` steps and is not `bad` at any of them. -/
def avoids (bad : Machine L σ → Bool) (log : Log) : (n : Nat) → Machine L σ → Bool
  | 0, _ => false
  | n + 1, m =>
    !bad m &&
      match step log m with
      | .ok none m' => avoids bad log n m'
      | .ok (some _) _ | .error _ _ => true

theorem eq_false_of_avoids {bad : Machine L σ → Bool} (h : m.avoids bad log n = true)
    (steps : Steps log k m m') : bad m' = false := by
  induction steps generalizing n with
  | zero m =>
    cases n with
    | zero => cases h
    | succ n =>
      rw [avoids, Bool.and_eq_true, Bool.not_eq_true'] at h
      exact h.1
  | succ first _ ih =>
    cases n with
    | zero => cases h
    | succ n =>
      rw [avoids, first, Bool.and_eq_true] at h
      exact ih h.2

/-- The code `is` in front of `m` leads to `m'`, right behind it, and on the way nothing is written
but cells and the scratch stack. -/
structure Ran (log : Log) (is : List Instr) (m m' : Machine L σ) : Prop where
  steps : Steps log is.length m m'
  ip : m'.ip.toNat = m.ip.toNat + (codeBytes is).length
  same : m.arena.SameOutside m'.arena L.dataBase L.stackTop

namespace Ran

theorem trans (h : Ran log is m m') (h' : Ran log js m' m'') : Ran log (is ++ js) m m'' := by
  refine ⟨?_, ?_, h.same.trans h'.same⟩
  · rw [List.length_append]
    exact h.steps.trans h'.steps
  · rw [h'.ip, h.ip, codeBytes_append, List.length_append, Nat.add_assoc]

/-- An instruction that neither faults nor returns nor jumps. -/
theorem one (code : CodeAt m.arena m.ip.toNat (i :: is)) (done : exec log i (m.past i) = .ok none m')
    (ip : m'.ip = (m.past i).ip) (same : m.arena.SameOutside m'.arena L.dataBase L.stackTop) :
    Ran log [i] m m' := by
  refine ⟨.one ?_, ?_, same⟩
  · rw [step_eq_exec code, done]
  · rw [ip, toNat_ip_past code, codeBytes_cons, codeBytes_nil, List.append_nil]

/-- The code behind the part that has run still lies there. -/
theorem codeAt (h : Ran log is m m') (code : CodeAt m.arena m.ip.toNat (is ++ js)) :
    CodeAt m'.arena m'.ip.toNat js := by
  rw [h.ip]
  exact code.right.sameOutside h.same (Nat.le_refl _)

end Ran

/-- The machine in front of the routine in the code section. -/
def atStart (m : Machine L σ) : Machine L σ :=
  { m with ip := .ofNat L.codeBase, sp := callerSp, entered := false }

/-- A run that comes to a returning step gives its status. -/
theorem run_of_return {w : Word} (steps : Steps log n m.atStart m')
    (last : step log m' = .ok (some w) m'') (bound : n < stepBound L) :
    run log m = .ok w m'' := by
  obtain ⟨k, split⟩ : ∃ k, stepBound L = n + (k + 1) := ⟨stepBound L - (n + 1), by omega⟩
  have ended : runFor log (stepBound L) m.atStart = .ok (some w) m'' := by
    rw [split, steps.runFor, runFor, bind_ok last]
    rfl
  unfold atStart at ended
  rw [run, ended]
  rfl

/-- A run that comes to a faulting step ends with that fault, the stacks put back. -/
theorem run_of_fault {f : Fault} (steps : Steps log n m.atStart m')
    (last : step log m' = .error f m'') (bound : n < stepBound L) :
    run log m = .error f m''.unwind := by
  obtain ⟨k, split⟩ : ∃ k, stepBound L = n + (k + 1) := ⟨stepBound L - (n + 1), by omega⟩
  have ended : runFor log (stepBound L) m.atStart = .error f m'' := by
    rw [split, steps.runFor, runFor, bind_error last]
  unfold atStart at ended
  rw [run, ended]

end Runs

end Machine
end Osl
