import Osl.Machine
import Osl.Proofs.Arena.Frame
import Osl.Proofs.Effect

/-!
# Operations on the scratch stack

What pushing, popping and arithmetic do when the stack pointer is in order: an operation that has
room succeeds with a known state, and a push without room faults and changes nothing. `Pushed` sums
up any work that leaves words on the stack, `Overflowed` the state in which such work breaks off.
-/

namespace Osl
set_option autoImplicit false

/-- A stack pointer that routines may work with: on the scratch stack, a whole number of words above
its lowest address. -/
structure Layout.StackPointer (L : Layout) (sp : Word) : Prop where
  low : L.stackBase ≤ sp.toNat
  high : sp.toNat ≤ L.stackTop
  aligned : (sp.toNat - L.stackBase) % 8 = 0

/-- The scratch stack lies in the arena, and no address in it comes near the largest word. -/
theorem Layout.within_stack (L : Layout) {p : Nat} (low : L.stackBase ≤ p)
    (high : p + 8 ≤ L.stackTop) : L.Within p 8 := by
  have := L.ordered
  have := L.codeBase_eq
  unfold Within
  simp only [codeBase] at *
  omega

theorem Layout.stackTop_lt (L : Layout) : L.stackTop < 0x8000000000000000 := by
  have := L.stop_lt
  have := L.ordered
  simp only [codeBase] at *
  omega

theorem Layout.eight_lt_stackBase (L : Layout) : 8 < L.stackBase := by
  have := L.base_high
  have := L.ordered
  unfold addressThreshold at *
  omega

namespace Machine

variable {L : Layout} {σ α β : Type} {m m' m'' : Machine L σ}

theorem get_apply : (get : Exec L σ (Machine L σ)) m = .ok m m := rfl

theorem modify_apply (f : Machine L σ → Machine L σ) : (modify f : Exec L σ Unit) m = .ok () (f m) :=
  rfl

theorem readWord_eq (m : Machine L σ) {p : Word} (h : L.Within p.toNat 8) :
    readWord p m = .ok (m.arena.wordAt p.toNat) m := by
  simp only [readWord, reading, Arena.readWord_eq_ite, if_pos h]

theorem writeWord_eq (m : Machine L σ) {p : Word} (w : Word) (h : L.Within p.toNat 8) :
    writeWord p w m = .ok () { m with arena := m.arena.overlay p.toNat (Word.bytes w) } := by
  simp only [writeWord, update, Arena.writeWord, Arena.write_eq_ite, Word.length_bytes, if_pos h]

/-! ## Single words -/

/-- The stack pointer after a push. -/
theorem toNat_sp_sub (low : L.stackBase + 8 ≤ m.sp.toNat) : (m.sp - 8).toNat = m.sp.toNat - 8 :=
  Word.toNat_sub_of_le (by simp only [UInt64.reduceToNat]; omega)

/-- A push with room lays the word right below the stack pointer. -/
theorem push_eq (w : Word) (low : L.stackBase + 8 ≤ m.sp.toNat) (high : m.sp.toNat ≤ L.stackTop) :
    push w m = .ok () { m with
      sp := m.sp - 8, arena := m.arena.overlay (m.sp - 8).toNat (Word.bytes w) } := by
  have below := toNat_sp_sub low
  have within : L.Within (m.sp - 8).toNat 8 := L.within_stack (by omega) (by omega)
  have room : ¬ ((m.sp - 8).toNat < L.stackBase ∨ L.stackTop ≤ (m.sp - 8).toNat) := by omega
  rw [push, bind_ok get_apply, if_neg room]
  change (writeWord _ _ >>= _) m = _
  rw [bind_ok (writeWord_eq m w within), modify_apply]

/-- A push onto a full stack faults. -/
theorem push_full (w : Word) (full : m.sp.toNat = L.stackBase) :
    push w m = .error (.stackOverflow (.ofNat (L.stackBase - 8))) m := by
  have := L.stackTop_lt
  have := L.eight_lt_stackBase
  have := L.ordered
  have below : (m.sp - 8).toNat = m.sp.toNat - 8 :=
    Word.toNat_sub_of_le (by simp only [UInt64.reduceToNat]; omega)
  have same : m.sp - 8 = .ofNat (L.stackBase - 8) := by
    apply UInt64.toNat_inj.1
    rw [below, full, Word.toNat_ofNat_of_lt]
    simp only [Layout.codeBase] at *
    omega
  rw [push, bind_ok get_apply, if_pos (by omega), same]
  rfl

/-- A word on the stack can be looked at. -/
theorem peek_eq (offset : Word) (low : L.stackBase ≤ m.sp.toNat)
    (high : m.sp.toNat + offset.toNat + 8 ≤ L.stackTop) :
    peek offset m = .ok (m.arena.wordAt (m.sp.toNat + offset.toNat)) m := by
  have := L.stackTop_lt
  have place : (m.sp + offset).toNat = m.sp.toNat + offset.toNat := Word.toNat_add_of_lt (by omega)
  have within : L.Within (m.sp + offset).toNat 8 := L.within_stack (by omega) (by omega)
  rw [peek, bind_ok get_apply, if_neg (by omega)]
  change readWord _ m = _
  rw [readWord_eq m within, place]

/-- A word on the stack can be popped. -/
theorem pop_eq (low : L.stackBase ≤ m.sp.toNat) (high : m.sp.toNat + 8 ≤ L.stackTop) :
    pop m = .ok (m.arena.wordAt m.sp.toNat) { m with sp := m.sp + 8 } := by
  have top : peek 0 m = .ok (m.arena.wordAt m.sp.toNat) m := peek_eq 0 low high
  rw [pop, bind_ok top]
  rfl

/-- Bytes on the stack can be dropped. -/
theorem drop_eq {n : Word} (high : m.sp.toNat + n.toNat ≤ L.stackTop) :
    drop n m = .ok () { m with sp := m.sp + n } := by
  rw [drop, bind_ok get_apply, if_neg (by omega)]
  rfl

/-- Popping a word to an address in the arena. -/
theorem popTo_eq {p : Word} (low : L.stackBase ≤ m.sp.toNat) (high : m.sp.toNat + 8 ≤ L.stackTop)
    (within : L.Within p.toNat 8) :
    popTo p m = .ok () { m with
      sp := m.sp + 8
      arena := m.arena.overlay p.toNat (Word.bytes (m.arena.wordAt m.sp.toNat)) } := by
  rw [popTo, bind_ok (pop_eq low high), writeWord_eq _ _ within]

/-! ## Pushing several words -/

/-- From `m` to `m'` the words `ws` were pushed, the first of them topmost, and on the way the stack
held at most `depth` words more than in `m`. Except for the instruction pointer, nothing else
changed. -/
structure Pushed (m m' : Machine L σ) (ws : List Word) (depth : Nat) : Prop where
  sp : m'.sp.toNat + 8 * ws.length = m.sp.toNat
  deep : ws.length ≤ depth
  words : m'.arena.Holds m'.sp.toNat ws
  same : m.arena.SameOutside m'.arena (m.sp.toNat - 8 * depth) m.sp.toNat
  sink : m'.sink = m.sink
  entered : m'.entered = m.entered

/-- From `m` to `m'` pushing has filled the scratch stack. Except for the instruction pointer,
nothing else changed. -/
structure Overflowed (m m' : Machine L σ) : Prop where
  sp : m'.sp.toNat = L.stackBase
  same : m.arena.SameOutside m'.arena L.stackBase m.sp.toNat
  sink : m'.sink = m.sink
  entered : m'.entered = m.entered

/-- Pushing twice: the words pushed last come first. -/
theorem Pushed.trans {vs ws : List Word} {d e : Nat} (h : Pushed m m' ws d)
    (h' : Pushed m' m'' vs e) : Pushed m m'' (vs ++ ws) (max d (ws.length + e)) := by
  have sp := h.sp
  have sp' := h'.sp
  have deep := h.deep
  have deep' := h'.deep
  refine ⟨?_, ?_, ?_, ?_, h'.sink.trans h.sink, h'.entered.trans h.entered⟩
  · rw [List.length_append]
    omega
  · rw [List.length_append]
    omega
  · refine Arena.holds_append.2 ⟨h'.words, ?_⟩
    rw [sp']
    exact h.words.sameOutside h'.same (.inr (Nat.le_refl _))
  · exact (h.same.mono (by omega) (Nat.le_refl _)).trans (h'.same.mono (by omega) (by omega))

/-- Filling the stack after pushing with room. -/
theorem Pushed.overflowed {ws : List Word} {d : Nat} (h : Pushed m m' ws d)
    (room : L.stackBase + 8 * d ≤ m.sp.toNat) (h' : Overflowed m' m'') : Overflowed m m'' := by
  have sp := h.sp
  exact ⟨h'.sp, (h.same.mono (by omega) (Nat.le_refl _)).trans
    (h'.same.mono (Nat.le_refl _) (by omega)), h'.sink.trans h.sink, h'.entered.trans h.entered⟩

/-- Pushing with room leaves the stack pointer in order. -/
theorem Pushed.stackPointer {ws : List Word} {d : Nat} (h : Pushed m m' ws d)
    (order : L.StackPointer m.sp) (room : L.stackBase + 8 * ws.length ≤ m.sp.toNat) :
    L.StackPointer m'.sp := by
  have sp := h.sp
  have high := order.high
  have aligned := order.aligned
  constructor <;> omega

/-- A push with room pushes its word. -/
theorem push_ok (w : Word) (order : L.StackPointer m.sp)
    (room : L.stackBase + 8 ≤ m.sp.toNat) :
    ∃ m', push w m = .ok () m' ∧ Pushed m m' [w] 1 ∧ m'.ip = m.ip := by
  have high := order.high
  have below := toNat_sp_sub room
  have within : L.Within (m.sp - 8).toNat 8 := L.within_stack (by omega) (by omega)
  have written := Arena.sameOutside_overlay_word m.arena (m.sp - 8).toNat w
  refine ⟨_, push_eq w room high, ⟨?_, Nat.le_refl _, ⟨?_, trivial⟩, ?_, rfl, rfl⟩, rfl⟩
  · simp only [List.length_cons, List.length_nil]
    omega
  · exact Arena.wordAt_overlay_bytes m.arena within w
  · exact written.mono (by omega) (by omega)

/-- Pushes words so that the first ends up topmost. -/
def pushAll : List Word → Exec L σ Unit
  | [] => pure ()
  | w :: ws => do
    pushAll ws
    push w

/-- Words that fit on the stack are pushed. -/
theorem pushAll_ok (ws : List Word) (order : L.StackPointer m.sp)
    (room : L.stackBase + 8 * ws.length ≤ m.sp.toNat) :
    ∃ m', pushAll ws m = .ok () m' ∧ Pushed m m' ws ws.length ∧ m'.ip = m.ip := by
  induction ws with
  | nil => exact ⟨m, rfl, ⟨rfl, Nat.le_refl _, trivial, .refl _ _ _, rfl, rfl⟩, rfl⟩
  | cons w ws ih =>
    simp only [List.length_cons] at room
    obtain ⟨m₁, run₁, pushed₁, ip₁⟩ := ih (by omega)
    have sp₁ := pushed₁.sp
    obtain ⟨m₂, run₂, pushed₂, ip₂⟩ :=
      push_ok w (pushed₁.stackPointer order (by omega)) (by omega)
    refine ⟨m₂, ?_, ?_, ip₂.trans ip₁⟩
    · rw [pushAll, bind_ok run₁, run₂]
    · have both := pushed₁.trans pushed₂
      rwa [Nat.max_eq_right (by omega)] at both

/-- Words that do not fit fill the stack and fault. -/
theorem pushAll_full (ws : List Word) (order : L.StackPointer m.sp)
    (tight : m.sp.toNat < L.stackBase + 8 * ws.length) :
    ∃ m', pushAll ws m = .error (.stackOverflow (.ofNat (L.stackBase - 8))) m' ∧
      Overflowed m m' := by
  induction ws with
  | nil =>
    have := order.low
    simp only [List.length_nil] at tight
    omega
  | cons w ws ih =>
    simp only [List.length_cons] at tight
    by_cases fits : L.stackBase + 8 * ws.length ≤ m.sp.toNat
    · obtain ⟨m₁, run₁, pushed₁, -⟩ := pushAll_ok ws order fits
      have sp₁ := pushed₁.sp
      have aligned := order.aligned
      have full : m₁.sp.toNat = L.stackBase := by omega
      refine ⟨m₁, ?_, full, pushed₁.same.mono (by omega) (Nat.le_refl _), pushed₁.sink,
        pushed₁.entered⟩
      rw [pushAll, bind_ok run₁, push_full w full]
    · obtain ⟨m₁, run₁, overflowed⟩ := ih (by omega)
      exact ⟨m₁, by rw [pushAll, bind_error run₁], overflowed⟩

/-- Pushing stays on the scratch stack. -/
theorem sameOutside_pushAll {ws : List Word} (order : L.StackPointer m.sp)
    (run : pushAll ws m = .ok () m') : m.arena.SameOutside m'.arena L.stackBase L.stackTop := by
  have high := order.high
  by_cases room : L.stackBase + 8 * ws.length ≤ m.sp.toNat
  · obtain ⟨m₁, run₁, pushed, -⟩ := pushAll_ok ws order room
    rw [run] at run₁
    cases run₁
    exact pushed.same.mono (by omega) high
  · obtain ⟨m₁, run₁, -⟩ := pushAll_full ws order (by omega)
    rw [run] at run₁
    cases run₁

end Machine
end Osl
