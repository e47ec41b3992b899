import Osl.Proofs.Machine.Stack

/-!
# Loading and combining values

A load pushes the words of a cell, two or four of them as the second word tells
(`load_eq_pushAll`); arithmetic replaces three words by one (`arith_eq`). Loading reads words while
it pushes others, so the cell must lie below the scratch stack.
-/

namespace Osl
set_option autoImplicit false

/-- The words that the value in a cell takes up: two if the second is zero, else four. -/
def Arena.cellWords {L : Layout} (a : Arena L) (cell : Word) : List Word :=
  a.words cell.toNat (if a.wordAt (cell.toNat + 8) = 0 then 2 else 4)

/-- What an operator makes of the words of its operands, those of the left one first: the first and
the third are combined, and the result takes the place of the first three. -/
def Arith.combine (op : Arith) : List Word → List Word
  | w₀ :: _ :: w₂ :: ws => op.apply w₀ w₂ :: ws
  | ws => ws

theorem Arith.length_combine (op : Arith) (ws : List Word) (h : 3 ≤ ws.length) :
    (op.combine ws).length + 2 = ws.length := by
  match ws, h with
  | _ :: _ :: _ :: _, _ => rfl

namespace Machine

variable {L : Layout} {σ : Type} {m m' : Machine L σ}

/-- Pushes the words at the given addresses so that the first ends up topmost. -/
def pushEach : List Word → Exec L σ Unit
  | [] => pure ()
  | p :: ps => do
    pushEach ps
    push (← readWord p)

/-- Addresses below the scratch stack read the same all the while. -/
theorem pushEach_eq_pushAll (ps : List Word) (order : L.StackPointer m.sp)
    (data : ∀ p ∈ ps, L.base ≤ p.toNat ∧ p.toNat + 8 ≤ L.stackBase) :
    pushEach ps m = pushAll (ps.map fun p => m.arena.wordAt p.toNat) m := by
  induction ps with
  | nil => rfl
  | cons p ps ih =>
    have before := ih fun q member => data q (List.mem_cons_of_mem _ member)
    have place := data p List.mem_cons_self
    simp only [List.map_cons, pushEach, pushAll]
    cases run : pushAll (ps.map fun p => m.arena.wordAt p.toNat) m with
    | error e m' => rw [bind_error (before.trans run), bind_error run]
    | ok v m' =>
      have same := sameOutside_pushAll order run
      have within : L.Within p.toNat 8 := by
        have := L.ordered
        unfold Layout.Within
        omega
      rw [bind_ok (before.trans run), bind_ok run, bind_ok (readWord_eq m' within),
        same.wordAt (.inl place.2)]

/-- A load pushes the words of the cell. -/
theorem load_eq_pushAll {cell : Word} (order : L.StackPointer m.sp) (low : L.base ≤ cell.toNat)
    (high : cell.toNat + 16 ≤ L.stackBase)
    (string : m.arena.wordAt (cell.toNat + 8) ≠ 0 → cell.toNat + 32 ≤ L.stackBase) :
    load cell m = pushAll (m.arena.cellWords cell) m := by
  have := L.stackTop_lt
  have := L.ordered
  have top : L.codeBase = L.stackTop := rfl
  have place (k : Word) (small : k.toNat ≤ 24) : (cell + k).toNat = cell.toNat + k.toNat :=
    Word.toNat_add_of_lt (by omega)
  have second : (cell + 8).toNat = cell.toNat + 8 := place 8 (by decide)
  have tagged : readWord (cell + 8) m = .ok (m.arena.wordAt (cell.toNat + 8)) m := by
    rw [readWord_eq m (by unfold Layout.Within; omega), second]
  rw [load, bind_ok tagged, Arena.cellWords]
  by_cases zero : m.arena.wordAt (cell.toNat + 8) = 0
  · rw [zero, Tag.of_zero, if_pos rfl]
    have words : m.arena.words cell.toNat 2 = [m.arena.wordAt cell.toNat, 0] := by
      simp only [Arena.words, zero]
    have single : push 0 m = pushAll [0] m := rfl
    rw [words, pushAll]
    show (push 0 >>= fun _ => readWord cell >>= push) m = _
    cases run : pushAll [0] m with
    | error e m' => rw [bind_error (single.trans run), bind_error run]
    | ok v m' =>
      have same := sameOutside_pushAll order run
      have within : L.Within cell.toNat 8 := by
        unfold Layout.Within
        omega
      rw [bind_ok (single.trans run), bind_ok run, bind_ok (readWord_eq m' within),
        same.wordAt (.inl (by omega))]
  · have fits := string zero
    have third : (cell + 16).toNat = cell.toNat + 16 := place 16 (by decide)
    have fourth : (cell + 24).toNat = cell.toNat + 24 := place 24 (by decide)
    rw [Tag.of_ne_zero zero, if_neg zero]
    have each := pushEach_eq_pushAll [cell, cell + 8, cell + 16, cell + 24] order (by simp; omega)
    simp only [List.map_cons, List.map_nil, second, third, fourth] at each
    rw [Arena.words, Arena.words, Arena.words, Arena.words, Arena.words, ← each]
    simp [pushEach]

/-- Arithmetic on the two topmost values takes the first word and the third, and puts the result in
place of the first three. -/
theorem arith_eq (op : Arith) {w₀ w₁ w₂ : Word} {ws : List Word} (low : L.stackBase ≤ m.sp.toNat)
    (high : m.sp.toNat + 8 * (w₀ :: w₁ :: w₂ :: ws).length ≤ L.stackTop)
    (holds : m.arena.Holds m.sp.toNat (w₀ :: w₁ :: w₂ :: ws)) :
    arith op m = .ok () { m with
      sp := m.sp + 16
      arena := m.arena.overlay (m.sp + 16).toNat (Word.bytes (op.apply w₀ w₂)) } := by
  have := L.stackTop_lt
  simp only [List.length_cons] at high
  have first := holds.1
  have third : m.arena.wordAt (m.sp.toNat + 16) = w₂ := holds.2.2.1
  have left : peek 0 m = .ok w₀ m := by
    have top := peek_eq 0 low (by simp only [UInt64.reduceToNat]; omega)
    simpa only [UInt64.reduceToNat, Nat.add_zero, first] using top
  have right : peek 16 m = .ok w₂ m := by
    have top := peek_eq 16 low (by simp only [UInt64.reduceToNat]; omega)
    simpa only [UInt64.reduceToNat, Nat.add_assoc, Nat.reduceAdd, third] using top
  have dropped : (m.sp + 24).toNat = m.sp.toNat + 24 :=
    Word.toNat_add_of_lt (by simp only [UInt64.reduceToNat]; omega)
  have back : m.sp + 24 - 8 = m.sp + 16 := by
    grind
  rw [arith, bind_ok left, bind_ok right, bind_ok (drop_eq (by simp only [UInt64.reduceToNat]; omega)),
    push_eq _ (by simp only [dropped]; omega) (by simp only [dropped]; omega)]
  simp only [back]

/-- Arithmetic on words just pushed leaves the result in place of the first three. -/
theorem Pushed.arith (op : Arith) {w₀ w₁ w₂ : Word} {ws : List Word} {d : Nat}
    (h : Pushed m m' (w₀ :: w₁ :: w₂ :: ws) d) (low : L.stackBase ≤ m'.sp.toNat)
    (high : m.sp.toNat ≤ L.stackTop) :
    ∃ m'', Machine.arith op m' = .ok () m'' ∧ m''.ip = m'.ip ∧
      Pushed m m'' (op.apply w₀ w₂ :: ws) d := by
  have := L.stackTop_lt
  have sp := h.sp
  have deep := h.deep
  simp only [List.length_cons] at sp deep
  have place : (m'.sp + 16).toNat = m'.sp.toNat + 16 :=
    Word.toNat_add_of_lt (by simp only [UInt64.reduceToNat]; omega)
  have within : L.Within (m'.sp + 16).toNat 8 := L.within_stack (by omega) (by omega)
  have written := Arena.sameOutside_overlay_word m'.arena (m'.sp + 16).toNat (op.apply w₀ w₂)
  have rest : m'.arena.Holds (m'.sp.toNat + 24) ws := h.words.2.2.2
  refine ⟨_, arith_eq op low (by simp only [List.length_cons]; omega) h.words, rfl, ?_, ?_, ⟨?_, ?_⟩,
    h.same.trans (written.mono (by omega) (by omega)), h.sink, h.entered⟩
  · simp only [List.length_cons]
    omega
  · simp only [List.length_cons]
    omega
  · exact Arena.wordAt_overlay_bytes m'.arena within _
  · rw [place] at written ⊢
    exact rest.sameOutside written (.inr (by omega))

end Machine
end Osl
