import Osl.Cell.Access
import Osl.Proofs.Machine.Code

/-!
# Moving words from the stack into cells

`popWords p n` pops `n` words to the addresses from `p` on; with the cell below the stack pointer no
word is overwritten before it is popped (`popWords_ok`). A store of an integer is such a move
(`store_integer`), and so is a store of a short string that does not go into the old content
(`store_inline`). A string that does is copied to where the cell says (`store_in_place`).
-/

namespace Osl.Machine
set_option autoImplicit false

variable {L : Layout} {σ : Type} {m m' : Machine L σ} {cell : Word}

/-- Pops `n` words to consecutive addresses. -/
def popWords (p : Word) : Nat → Exec L σ Unit
  | 0 => pure ()
  | n + 1 => do
    popTo p
    popWords (p + 8) n

/-- From `m` to `m'` as many words as `ws` were popped, `ws` came to lie at the addresses from `p` on,
and nothing else happened. -/
structure Moved (m m' : Machine L σ) (p : Nat) (ws : List Word) : Prop where
  sp : m'.sp.toNat = m.sp.toNat + 8 * ws.length
  words : m'.arena.Holds p ws
  same : m.arena.SameOutside m'.arena p (p + 8 * ws.length)
  sink : m'.sink = m.sink
  ip : m'.ip = m.ip
  entered : m'.entered = m.entered

/-- Words on the stack can be moved to a place below them. -/
theorem popWords_ok (p : Word) (ws : List Word) (low : L.stackBase ≤ m.sp.toNat)
    (high : m.sp.toNat + 8 * ws.length ≤ L.stackTop) (holds : m.arena.Holds m.sp.toNat ws)
    (inside : L.base ≤ p.toNat) (below : p.toNat ≤ m.sp.toNat) :
    ∃ m', popWords p ws.length m = .ok () m' ∧ Moved m m' p.toNat ws := by
  induction ws generalizing m p with
  | nil => exact ⟨m, rfl, rfl, trivial, .refl _ _ _, rfl, rfl, rfl⟩
  | cons w ws ih =>
    simp only [List.length_cons] at high
    have := L.stackTop_lt
    have := L.ordered
    have top : L.codeBase = L.stackTop := rfl
    have within : L.Within p.toNat 8 := by
      unfold Layout.Within
      omega
    have next : (m.sp + 8).toNat = m.sp.toNat + 8 := Word.toNat_add_eight (by omega)
    have next' : (p + 8).toNat = p.toNat + 8 := Word.toNat_add_eight (by omega)
    have first := popTo_eq (m := m) low (by omega) within
    have written := Arena.sameOutside_overlay_word m.arena p.toNat w
    rw [holds.1] at first
    -- the word just written lies below what is still to be popped
    have rest : (m.arena.overlay p.toNat (Word.bytes w)).Holds (m.sp.toNat + 8) ws :=
      holds.2.sameOutside written (.inr (by omega))
    obtain ⟨m', run, moved⟩ := ih
      (m := { m with sp := m.sp + 8, arena := m.arena.overlay p.toNat (Word.bytes w) })
      (p := p + 8) (by simp only [next]; omega) (by simp only [next]; omega)
      (by simpa only [next] using rest) (by omega) (by simp only [next]; omega)
    have sp := moved.sp
    have same := moved.same
    have words := moved.words
    simp only [next] at sp
    rw [next'] at same words
    refine ⟨m', ?_, ?_, ⟨?_, words⟩, ?_, moved.sink, moved.ip, moved.entered⟩
    · rw [List.length_cons, popWords, bind_ok first, run]
    · rw [List.length_cons]
      omega
    · rw [same.wordAt (.inl (Nat.le_refl _))]
      exact Arena.wordAt_overlay_bytes m.arena within w
    · rw [List.length_cons]
      exact (written.mono (Nat.le_refl _) (by omega)).trans (same.mono (by omega) (by omega))

/-- A store of an integer moves its two words into the cell. -/
theorem store_integer {w : Word} (cell : Word) (low : L.stackBase ≤ m.sp.toNat)
    (high : m.sp.toNat + 16 ≤ L.stackTop) (holds : m.arena.Holds m.sp.toNat [w, 0])
    (inside : L.base ≤ cell.toNat) (below : cell.toNat ≤ m.sp.toNat) :
    ∃ m', store cell m = .ok () m' ∧ Moved m m' cell.toNat [w, 0] := by
  have tag : peek 8 m = .ok 0 m := by
    have second := peek_eq (m := m) 8 low (by simp only [UInt64.reduceToNat]; omega)
    simpa only [UInt64.reduceToNat, holds.2.1] using second
  obtain ⟨m', run, moved⟩ := popWords_ok cell [w, 0] low high holds inside below
  have two : (popWords cell 2 : Exec L σ Unit) = (popTo cell >>= fun _ => popTo (cell + 8)) := by
    simp [popWords]
  refine ⟨m', ?_, moved⟩
  rw [store, bind_ok tag, Tag.of_zero]
  change popWords cell 2 m = _ at run
  rwa [two] at run

section Strings

variable {address length front back : Word}

/-- A store of a string, told by its second word. -/
theorem store_eq_storeString (low : L.stackBase ≤ m.sp.toNat) (high : m.sp.toNat + 32 ≤ L.stackTop)
    (holds : m.arena.Holds m.sp.toNat [address, length, front, back]) (string : length ≠ 0) :
    store cell m = storeString cell length m := by
  have tag : peek 8 m = .ok length m := by
    have second := peek_eq (m := m) 8 low (by simp only [UInt64.reduceToNat]; omega)
    simpa only [UInt64.reduceToNat, holds.2.1] using second
  rw [store, bind_ok tag, Tag.of_ne_zero string]

/-- A store of a string of at most sixteen bytes that is longer than the one in the cell moves it into
the cell, which then points at its own content. -/
theorem store_inline (cell : Word) (low : L.stackBase ≤ m.sp.toNat)
    (high : m.sp.toNat + 32 ≤ L.stackTop)
    (holds : m.arena.Holds m.sp.toNat [address, length, front, back]) (string : length ≠ 0)
    (inside : L.base ≤ cell.toNat) (below : cell.toNat + 16 ≤ L.stackBase)
    (longer : Word.signedLe length (m.arena.wordAt (cell.toNat + 8)) = false)
    (short : Word.signedLe length (.ofNat inlineCapacity) = true) :
    ∃ m', store cell m = .ok () m' ∧
      Moved m m' cell.toNat [cell + 16, length, front, back] := by
  have := L.stackTop_lt
  have := L.ordered
  have top : L.codeBase = L.stackTop := rfl
  have next : (cell + 8).toNat = cell.toNat + 8 := Word.toNat_add_eight (by omega)
  have next' : (m.sp + 8).toNat = m.sp.toNat + 8 := Word.toNat_add_eight (by omega)
  have within : L.Within cell.toNat 8 := by
    unfold Layout.Within
    omega
  have current : readWord (cell + 8) m = .ok (m.arena.wordAt (cell.toNat + 8)) m := by
    rw [readWord_eq m (by unfold Layout.Within; omega), next]
  have written := Arena.sameOutside_overlay_word m.arena cell.toNat (cell + 16)
  -- the first word of the string is dropped, and the address of the content takes its place
  have rest : (m.arena.overlay cell.toNat (Word.bytes (cell + 16))).Holds (m.sp.toNat + 8)
      [length, front, back] := holds.2.sameOutside written (.inr (by omega))
  obtain ⟨m', run, moved⟩ := popWords_ok
    (m := { m with sp := m.sp + 8, arena := m.arena.overlay cell.toNat (Word.bytes (cell + 16)) })
    (cell + 8) [length, front, back] (by simp only [next']; omega)
    (by simp only [next', List.length_cons, List.length_nil]; omega)
    (by simpa only [next'] using rest) (by omega) (by simp only [next, next']; omega)
  have sp := moved.sp
  have same := moved.same
  have words := moved.words
  simp only [next', List.length_cons, List.length_nil] at sp
  rw [next] at same words
  refine ⟨m', ?_, ?_, ⟨?_, words⟩, ?_, moved.sink, moved.ip, moved.entered⟩
  · have third : cell + 8 + 8 = cell + 16 := by grind
    have fourth : cell + 16 + 8 = cell + 24 := by grind
    have three : (popWords (cell + 8) 3 : Exec L σ Unit) =
        (popTo (cell + 8) >>= fun _ => popTo (cell + 16) >>= fun _ => popTo (cell + 24)) := by
      simp [popWords, third, fourth]
    rw [store_eq_storeString low high holds string, storeString, bind_ok current,
      if_neg (by rw [longer]; exact Bool.false_ne_true), if_pos short,
      bind_ok (pop_eq low (by omega)), bind_ok (writeWord_eq _ _ within), ← three]
    exact run
  · simp only [List.length_cons, List.length_nil]
    omega
  · rw [same.wordAt (.inl (Nat.le_refl _))]
    exact Arena.wordAt_overlay_bytes m.arena within _
  · exact (written.mono (Nat.le_refl _) (by simp only [List.length_cons, List.length_nil]; omega)).trans
      (same.mono (by omega) (by simp only [List.length_cons, List.length_nil]; omega))

/-- A store of a longer string than the one in the cell, if it does not fit into the cell, takes over
its header. -/
theorem store_header (cell : Word) (low : L.stackBase ≤ m.sp.toNat)
    (high : m.sp.toNat + 32 ≤ L.stackTop)
    (holds : m.arena.Holds m.sp.toNat [address, length, front, back]) (string : length ≠ 0)
    (inside : L.base ≤ cell.toNat) (below : cell.toNat + 16 ≤ L.stackBase)
    (longer : Word.signedLe length (m.arena.wordAt (cell.toNat + 8)) = false)
    (long : Word.signedLe length (.ofNat inlineCapacity) = false) :
    ∃ m', store cell m = .ok () m' ∧ Moved m m' cell.toNat [address, length, front, back] := by
  have := L.stackTop_lt
  have := L.ordered
  have top : L.codeBase = L.stackTop := rfl
  have next : (cell + 8).toNat = cell.toNat + 8 := Word.toNat_add_eight (by omega)
  have current : readWord (cell + 8) m = .ok (m.arena.wordAt (cell.toNat + 8)) m := by
    rw [readWord_eq m (by unfold Layout.Within; omega), next]
  obtain ⟨m', run, moved⟩ := popWords_ok cell [address, length, front, back] low high holds inside
    (by omega)
  have third : cell + 8 + 8 = cell + 16 := by grind
  have fourth : cell + 16 + 8 = cell + 24 := by grind
  have four : (popWords cell 4 : Exec L σ Unit) = (popTo cell >>= fun _ =>
      popTo (cell + 8) >>= fun _ => popTo (cell + 16) >>= fun _ => popTo (cell + 24)) := by
    simp [popWords, third, fourth]
  refine ⟨m', ?_, moved⟩
  rw [store_eq_storeString low high holds string, storeString, bind_ok current,
    if_neg (by rw [longer]; exact Bool.false_ne_true), if_neg (by rw [long]; exact Bool.false_ne_true),
    ← four]
  exact run

/-- The stack pointer beyond a string on top of the stack. -/
theorem toNat_sp_add_string (high : m.sp.toNat + 32 ≤ L.stackTop) :
    (m.sp + 8 + 24).toNat = m.sp.toNat + 32 := by
  have := L.stackTop_lt
  have first : (m.sp + 8).toNat = m.sp.toNat + 8 := Word.toNat_add_eight (by omega)
  have rest : (m.sp + 8 + 24).toNat = (m.sp + 8).toNat + 24 :=
    Word.toNat_add_of_lt (by simp only [first, UInt64.reduceToNat]; omega)
  omega

/-- A store of a string that is no longer than the one in the cell copies it to where the cell
points. -/
theorem store_in_place (cell : Word) (low : L.stackBase ≤ m.sp.toNat)
    (high : m.sp.toNat + 32 ≤ L.stackTop)
    (holds : m.arena.Holds m.sp.toNat [address, length, front, back]) (string : length ≠ 0)
    (inside : L.base ≤ cell.toNat) (below : cell.toNat + 16 ≤ L.stackBase)
    (shorter : Word.signedLe length (m.arena.wordAt (cell.toNat + 8)) = true) :
    store cell m = update (Arena.copy address (m.arena.wordAt cell.toNat) length.toNat)
      { m with sp := m.sp + 8 + 24 } := by
  have := L.stackTop_lt
  have := L.ordered
  have top : L.codeBase = L.stackTop := rfl
  have next : (cell + 8).toNat = cell.toNat + 8 := Word.toNat_add_eight (by omega)
  have next' : (m.sp + 8).toNat = m.sp.toNat + 8 := Word.toNat_add_eight (by omega)
  have current : readWord (cell + 8) m = .ok (m.arena.wordAt (cell.toNat + 8)) m := by
    rw [readWord_eq m (by unfold Layout.Within; omega), next]
  have target : readWord cell m = .ok (m.arena.wordAt cell.toNat) m :=
    readWord_eq m (by unfold Layout.Within; omega)
  have popped : pop m = .ok address { m with sp := m.sp + 8 } := by
    have first := pop_eq (m := m) low (by omega)
    rwa [holds.1] at first
  have dropped : drop 24 { m with sp := m.sp + 8 } = .ok () { m with sp := m.sp + 8 + 24 } :=
    drop_eq (by simp only [UInt64.reduceToNat, next']; omega)
  rw [store_eq_storeString low high holds string, storeString, bind_ok current, if_pos shorter,
    bind_ok target, bind_ok popped, bind_ok dropped]

end Strings

/-- Marking a string free takes its length. -/
theorem markFree_string {a : Arena L} (within : L.Within cell.toNat 16)
    (string : a.wordAt (cell.toNat + 8) ≠ 0) :
    Arena.markFree cell a = .ok () (a.overlay (cell.toNat + 8) (Word.bytes 0)) := by
  have := L.stop_lt
  unfold Layout.Within at within
  have second : (cell + 8).toNat = cell.toNat + 8 := Word.toNat_add_eight (by omega)
  have next : L.Within (cell.toNat + 8) 8 := by
    unfold Layout.Within
    omega
  have read : a.readWord (cell + 8) = .ok (a.wordAt (cell.toNat + 8)) := by
    rw [Arena.readWord_eq_ite, second, if_pos next]
  simp only [Arena.markFree, read, Tag.of_ne_zero string, Arena.writeWord, Arena.write_eq_ite, second,
    Word.length_bytes, if_pos next]

/-- Releasing a string takes its length. -/
theorem release_string (within : L.Within cell.toNat 16)
    (string : m.arena.wordAt (cell.toNat + 8) ≠ 0) :
    (update (Arena.markFree cell) : Exec L σ Unit) m =
      .ok () { m with arena := m.arena.overlay (cell.toNat + 8) (Word.bytes 0) } := by
  simp only [update, markFree_string within string]

/-- Releasing a cell changes one of its first two words, and an integer gives way to the free
sentinel. -/
theorem release_ok (within : L.Within cell.toNat 16) :
    ∃ a, (update (Arena.markFree cell) : Exec L σ Unit) m = .ok () { m with arena := a } ∧
      (m.arena.wordAt (cell.toNat + 8) = 0 → a.Holds cell.toNat [freeSentinel, 0]) ∧
      m.arena.SameOutside a cell.toNat (cell.toNat + 16) := by
  have := L.stop_lt
  unfold Layout.Within at within
  have second : (cell + 8).toNat = cell.toNat + 8 := Word.toNat_add_eight (by omega)
  have first : L.Within cell.toNat 8 := by
    unfold Layout.Within
    omega
  have next : L.Within (cell.toNat + 8) 8 := by
    unfold Layout.Within
    omega
  have read : m.arena.readWord (cell + 8) = .ok (m.arena.wordAt (cell.toNat + 8)) := by
    rw [Arena.readWord_eq_ite, second, if_pos next]
  by_cases zero : m.arena.wordAt (cell.toNat + 8) = 0
  · have marked : Arena.markFree cell m.arena =
        .ok () (m.arena.overlay cell.toNat (Word.bytes freeSentinel)) := by
      simp only [Arena.markFree, read, zero, Tag.of_zero, Arena.writeWord, Arena.write_eq_ite,
        Word.length_bytes, if_pos first]
    have written := Arena.sameOutside_overlay_word m.arena cell.toNat freeSentinel
    refine ⟨_, by simp only [update, marked], ?_, written.mono (Nat.le_refl _) (by omega)⟩
    intro _
    exact ⟨Arena.wordAt_overlay_bytes m.arena first freeSentinel,
      (written.wordAt (.inr (Nat.le_refl _))).trans zero, trivial⟩
  · have written := Arena.sameOutside_overlay_word m.arena (cell.toNat + 8) 0
    exact ⟨_, release_string (by unfold Layout.Within; omega) zero,
      fun integer => absurd integer zero, written.mono (by omega) (by omega)⟩

variable [Sink σ] {log : Log} {is : List Instr}

/-- The instruction that stores an integer. -/
theorem ran_store_integer {w : Word} (code : CodeAt m.arena m.ip.toNat (.store cell :: is))
    (low : L.stackBase ≤ m.sp.toNat) (high : m.sp.toNat + 16 ≤ L.stackTop)
    (holds : m.arena.Holds m.sp.toNat [w, 0]) (inside : L.dataBase ≤ cell.toNat)
    (fits : cell.toNat + 16 ≤ L.stackBase) :
    ∃ m', Ran log [.store cell] m m' ∧ m'.sp.toNat = m.sp.toNat + 16 ∧ m'.sink = m.sink ∧
      m'.arena.Holds cell.toNat [w, 0] ∧
      m.arena.SameOutside m'.arena cell.toNat (cell.toNat + 16) := by
  have := L.ordered
  obtain ⟨m', stored, moved⟩ := store_integer (m := m.past (.store cell)) cell low high
    holds (by omega) (by rw [past_sp]; omega)
  have same := moved.same
  refine ⟨m', .one code (exec_of_work rfl stored) moved.ip ?_, moved.sp, moved.sink, moved.words, same⟩
  exact same.mono inside (by simp only [List.length_cons, List.length_nil]; omega)

/-- The instruction that releases a cell. -/
theorem ran_release (code : CodeAt m.arena m.ip.toNat (.release cell :: is))
    (inside : L.dataBase ≤ cell.toNat) (fits : cell.toNat + 16 ≤ L.stackBase) :
    ∃ m', Ran log [.release cell] m m' ∧ m'.sp = m.sp ∧ m'.sink = m.sink ∧
      (m.arena.wordAt (cell.toNat + 8) = 0 → m'.arena.Holds cell.toNat [freeSentinel, 0]) ∧
      m.arena.SameOutside m'.arena cell.toNat (cell.toNat + 16) := by
  have := L.ordered
  have top : L.codeBase = L.stackTop := rfl
  have within : L.Within cell.toNat 16 := by
    unfold Layout.Within
    omega
  obtain ⟨a, released, freed, same⟩ := release_ok (m := m.past (.release cell)) within
  exact ⟨_, .one code (exec_of_work rfl released) rfl (same.mono inside (by omega)), rfl, rfl, freed,
    same⟩

/-- The instruction that releases a cell of a string. -/
theorem ran_release_string (code : CodeAt m.arena m.ip.toNat (.release cell :: is))
    (inside : L.dataBase ≤ cell.toNat) (fits : cell.toNat + 16 ≤ L.stackBase)
    (string : m.arena.wordAt (cell.toNat + 8) ≠ 0) :
    ∃ m', Ran log [.release cell] m m' ∧ m'.sp = m.sp ∧ m'.sink = m.sink ∧
      m'.arena.wordAt cell.toNat = m.arena.wordAt cell.toNat ∧
      m'.arena.wordAt (cell.toNat + 8) = 0 ∧
      m.arena.SameOutside m'.arena cell.toNat (cell.toNat + 16) := by
  have := L.ordered
  have top : L.codeBase = L.stackTop := rfl
  have within : L.Within cell.toNat 16 := by
    unfold Layout.Within
    omega
  have next : L.Within (cell.toNat + 8) 8 := by
    unfold Layout.Within
    omega
  have released := release_string (m := m.past (.release cell)) within string
  have written := Arena.sameOutside_overlay_word m.arena (cell.toNat + 8) 0
  exact ⟨_, .one code (exec_of_work rfl released) rfl (written.mono (by omega) (by omega)), rfl, rfl,
    written.wordAt (.inl (Nat.le_refl _)), Arena.wordAt_overlay_bytes m.arena next 0,
    written.mono (by omega) (by omega)⟩

end Osl.Machine
