import Osl.Proofs.Machine.Code
import Osl.Proofs.Machine.Operands

/-!
# Code that leaves words on the stack

`Evaluates log is m ws depth` says what the code `is` in front of `m` does, whatever the room on the
scratch stack: with room for `depth` words it runs to its end and leaves `ws`, and with less it
breaks off at a full stack. Such code can be put together (`Evaluates.append`), and an operator may
follow it (`Evaluates.arith`).
-/

namespace Osl.Machine
set_option autoImplicit false

variable {L : Layout} {σ : Type} {m m' m'' : Machine L σ} {i : Instr} {is js : List Instr}
  {ws vs : List Word} {d e : Nat}

theorem Pushed.of_past (h : Pushed (m.past i) m' ws d) : Pushed m m' ws d :=
  ⟨h.sp, h.deep, h.words, h.same, h.sink, h.entered⟩

theorem Overflowed.of_past (h : Overflowed (m.past i) m') : Overflowed m m' :=
  ⟨h.sp, h.same, h.sink, h.entered⟩

variable [Sink σ] {log : Log}

/-- The code `is` in front of `m` leads to `m'`, right behind it, and leaves the words `ws`. -/
structure Leaves (log : Log) (is : List Instr) (m m' : Machine L σ) (ws : List Word)
    (depth : Nat) : Prop where
  steps : Steps log is.length m m'
  ip : m'.ip.toNat = m.ip.toNat + (codeBytes is).length
  room : L.stackBase + 8 * depth ≤ m.sp.toNat
  pushed : Pushed m m' ws depth

/-- The code `is` in front of `m` comes to an instruction that finds the stack full. -/
def BreaksOff (log : Log) (is : List Instr) (m m' : Machine L σ) : Prop :=
  ∃ n m₁, n < is.length ∧ Steps log n m m₁ ∧
    step log m₁ = .error (.stackOverflow (.ofNat (L.stackBase - 8))) m' ∧ Overflowed m m'

/-- The code `is` in front of `m` leaves the words `ws` if the stack has room for `depth` words, and
breaks off if it has not. -/
structure Evaluates (log : Log) (is : List Instr) (m : Machine L σ) (ws : List Word)
    (depth : Nat) : Prop where
  fits : L.stackBase + 8 * depth ≤ m.sp.toNat → ∃ m', Leaves log is m m' ws depth
  full : m.sp.toNat < L.stackBase + 8 * depth → ∃ m', BreaksOff log is m m'

/-- The stack pointer stays on the scratch stack. -/
theorem Leaves.low (h : Leaves log is m m' ws d) : L.stackBase ≤ m'.sp.toNat := by
  have room := h.room
  have sp := h.pushed.sp
  have deep := h.pushed.deep
  omega

theorem Leaves.stackPointer (h : Leaves log is m m' ws d) (order : L.StackPointer m.sp) :
    L.StackPointer m'.sp := by
  have low := h.low
  have sp := h.pushed.sp
  exact h.pushed.stackPointer order (by omega)

/-- Nothing but the scratch stack changes. -/
theorem Leaves.same (h : Leaves log is m m' ws d) (order : L.StackPointer m.sp) :
    m.arena.SameOutside m'.arena L.stackBase L.stackTop := by
  have room := h.room
  exact h.pushed.same.mono (by omega) order.high

/-- The code behind the part that has run still lies there. -/
theorem Leaves.codeAt (h : Leaves log is m m' ws d) (order : L.StackPointer m.sp)
    (code : CodeAt m.arena m.ip.toNat (is ++ js)) : CodeAt m'.arena m'.ip.toNat js := by
  rw [h.ip]
  exact code.right.sameOutside h.pushed.same order.high

theorem Leaves.ran (h : Leaves log is m m' ws d) (order : L.StackPointer m.sp) : Ran log is m m' := by
  have := L.ordered
  exact ⟨h.steps, h.ip, (h.same order).mono (by omega) (Nat.le_refl _)⟩

theorem BreaksOff.left (h : BreaksOff log is m m') : BreaksOff log (is ++ js) m m' := by
  obtain ⟨n, m₁, bound, steps, last, overflowed⟩ := h
  refine ⟨n, m₁, ?_, steps, last, overflowed⟩
  rw [List.length_append]
  omega

theorem Leaves.breaksOff (h : Leaves log is m m' ws d) (h' : BreaksOff log js m' m'') :
    BreaksOff log (is ++ js) m m'' := by
  obtain ⟨n, m₁, bound, steps, last, overflowed⟩ := h'
  refine ⟨is.length + n, m₁, ?_, h.steps.trans steps, last, h.pushed.overflowed h.room overflowed⟩
  rw [List.length_append]
  omega

theorem Leaves.trans (h : Leaves log is m m' vs d) (h' : Leaves log js m' m'' ws e) :
    Leaves log (is ++ js) m m'' (ws ++ vs) (max d (vs.length + e)) := by
  have sp := h.pushed.sp
  have room := h.room
  have room' := h'.room
  refine ⟨?_, ?_, by omega, h.pushed.trans h'.pushed⟩
  · rw [List.length_append]
    exact h.steps.trans h'.steps
  · rw [h'.ip, h.ip, codeBytes_append, List.length_append, Nat.add_assoc]

/-- Code is followed by more code: the words of the second part come first, and it finds as much
less room as the first part has left words. -/
theorem Evaluates.append (h : Evaluates log is m vs d)
    (h' : ∀ m', Leaves log is m m' vs d → Evaluates log js m' ws e) :
    Evaluates log (is ++ js) m (ws ++ vs) (max d (vs.length + e)) := by
  constructor
  · intro room
    obtain ⟨m₁, first⟩ := h.fits (by omega)
    have sp := first.pushed.sp
    obtain ⟨m₂, second⟩ := (h' m₁ first).fits (by omega)
    exact ⟨m₂, first.trans second⟩
  · intro tight
    by_cases room : L.stackBase + 8 * d ≤ m.sp.toNat
    · obtain ⟨m₁, first⟩ := h.fits room
      have sp := first.pushed.sp
      obtain ⟨m₂, second⟩ := (h' m₁ first).full (by omega)
      exact ⟨m₂, first.breaksOff second⟩
    · obtain ⟨m₁, first⟩ := h.full (by omega)
      exact ⟨m₁, first.left⟩

/-- An instruction that pushes words evaluates to them. -/
theorem Evaluates.of_pushAll (order : L.StackPointer m.sp) (code : CodeAt m.arena m.ip.toNat [i])
    {work : Exec L σ Unit} (does : exec log i = (work >>= fun _ => pure none))
    (pushes : work (m.past i) = pushAll ws (m.past i)) : Evaluates log [i] m ws ws.length := by
  have place := toNat_ip_past code
  constructor
  · intro room
    obtain ⟨m₁, run, pushed, ip⟩ := pushAll_ok (m := m.past i) ws order room
    have stepped : step log m = .ok none m₁ := by
      rw [step_eq_exec code, exec_of_work does (pushes.trans run)]
    refine ⟨m₁, .one stepped, ?_, room, pushed.of_past⟩
    rw [ip, place, codeBytes_cons, codeBytes_nil, List.append_nil]
  · intro tight
    obtain ⟨m₁, run, overflowed⟩ := pushAll_full (m := m.past i) ws order tight
    refine ⟨m₁, 0, m, Nat.zero_lt_one, .zero m, ?_, overflowed.of_past⟩
    rw [step_eq_exec code, does, bind_error (pushes.trans run)]

/-- A literal pushes its words one by one. -/
theorem evaluates_pushes (ws : List Word) (order : L.StackPointer m.sp)
    (code : CodeAt m.arena m.ip.toNat (ws.reverse.map .push)) :
    Evaluates log (ws.reverse.map .push) m ws ws.length := by
  induction ws with
  | nil =>
    have low := order.low
    have stays : Leaves log [] m m [] 0 :=
      ⟨.zero m, rfl, by simpa using low, ⟨rfl, Nat.le_refl _, trivial, .refl _ _ _, rfl, rfl⟩⟩
    exact ⟨fun _ => ⟨m, stays⟩, fun tight => by simp only [List.length_nil] at tight; omega⟩
  | cons w ws ih =>
    rw [List.reverse_cons, List.map_append] at code ⊢
    have last (m₁ : Machine L σ) (first : Leaves log (ws.reverse.map .push) m m₁ ws ws.length) :
        Evaluates log [.push w] m₁ [w] 1 :=
      .of_pushAll (first.stackPointer order) (first.codeAt order code) rfl rfl
    have both := (ih code.left).append last
    rwa [Nat.max_eq_right (by omega)] at both

/-- A load evaluates to the words of its cell. -/
theorem evaluates_load {cell : Word} (order : L.StackPointer m.sp)
    (code : CodeAt m.arena m.ip.toNat [.load cell]) (low : L.base ≤ cell.toNat)
    (high : cell.toNat + 16 ≤ L.stackBase)
    (string : m.arena.wordAt (cell.toNat + 8) ≠ 0 → cell.toNat + 32 ≤ L.stackBase) :
    Evaluates log [.load cell] m (m.arena.cellWords cell) (m.arena.cellWords cell).length :=
  .of_pushAll order code rfl (load_eq_pushAll (m := m.past (.load cell)) order low high string)

/-- An operator behind code that leaves three words or more combines them. -/
theorem Evaluates.arith (op : Arith) (order : L.StackPointer m.sp)
    (code : CodeAt m.arena m.ip.toNat (is ++ [.arith op])) (three : 3 ≤ ws.length)
    (h : Evaluates log is m ws d) : Evaluates log (is ++ [.arith op]) m (op.combine ws) d := by
  obtain ⟨w₀, w₁, w₂, rest, rfl⟩ : ∃ w₀ w₁ w₂ rest, ws = w₀ :: w₁ :: w₂ :: rest := by
    match ws, three with
    | w₀ :: w₁ :: w₂ :: rest, _ => exact ⟨w₀, w₁, w₂, rest, rfl⟩
  constructor
  · intro room
    obtain ⟨m₁, first⟩ := h.fits room
    have operator := first.codeAt order code
    have place := toNat_ip_past operator
    have left : Pushed m (m₁.past (.arith op)) (w₀ :: w₁ :: w₂ :: rest) d :=
      ⟨first.pushed.sp, first.pushed.deep, first.pushed.words, first.pushed.same, first.pushed.sink,
        first.pushed.entered⟩
    obtain ⟨m₂, combined, ip, pushed⟩ := left.arith op first.low order.high
    have stepped : step log m₁ = .ok none m₂ := by
      rw [step_eq_exec operator, exec_of_work rfl combined]
    refine ⟨m₂, ?_, ?_, room, pushed⟩
    · rw [List.length_append]
      exact first.steps.trans (.one stepped)
    · rw [ip, place, first.ip, codeBytes_append, List.length_append, codeBytes_cons, codeBytes_nil,
        List.append_nil, Nat.add_assoc]
  · intro tight
    obtain ⟨m₁, first⟩ := h.full tight
    exact ⟨m₁, first.left⟩

end Osl.Machine
