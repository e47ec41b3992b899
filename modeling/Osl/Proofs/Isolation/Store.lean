import Osl.Proofs.Isolation.Extent
import Osl.Proofs.Machine.Cells

/-!
# Storing a short string

A string of at most sixteen bytes is stored inside the cell, whatever the cell has held before: it
moves into the cell, or goes over the content of a string that lies there already. It may also be that
the cell holds no value at all and the copy faults; then the arena stays as it was.
-/

namespace Osl
set_option autoImplicit false

/-- Of the cells that have an extent only that of a string lets a string be copied to where it
points. -/
theorem Arena.Extent.stringAt_of_within {L : Layout} {a : Arena L} {slot k : Nat} {length : Word}
    (extent : a.Extent slot k) (pos : 0 < length.toNat)
    (shorter : Word.signedLe length (a.wordAt (L.dataBase + slot + 8)))
    (within : L.Within (a.wordAt (L.dataBase + slot)).toNat length.toNat) : a.StringAt slot := by
  have := L.stop_lt
  unfold Layout.Within at within
  cases extent with
  | string inCell => exact inCell
  | integer zero =>
    have less := (Word.signedLe_iff (by omega) (by rw [zero]; decide)).1 shorter
    rw [zero] at less
    exact absurd less (Nat.not_le_of_lt pos)
  | dangling _ outside => omega

namespace Machine

variable {L : Layout} {σ : Type} {m : Machine L σ} {slot k : Nat}
  {address length front back : Word}

theorem signedLe_capacity (short : length.toNat ≤ inlineCapacity) :
    Word.signedLe length (.ofNat inlineCapacity) = true := by
  have sixteen : (UInt64.ofNat inlineCapacity).toNat = 16 := rfl
  unfold inlineCapacity at short
  exact (Word.signedLe_iff (by omega) (by omega)).2 (by omega)

/-- A short string that is no longer than the second word of the cell tells goes over the content of a
string that lies in the cell, or the copy faults. -/
theorem store_short_over (isSlot : L.IsSlot slot) (extent : m.arena.Extent slot k)
    (low : L.stackBase ≤ m.sp.toNat) (high : m.sp.toNat + 32 ≤ L.stackTop)
    (holds : m.arena.Holds m.sp.toNat [address, length, front, back]) (pos : 0 < length.toNat)
    (short : length.toNat ≤ inlineCapacity)
    (shorter : Word.signedLe length (m.arena.wordAt (L.dataBase + slot + 8)) = true) :
    (∃ f m', store (L.cell slot) m = .error f m' ∧ m'.arena = m.arena ∧
        m'.sp.toNat = m.sp.toNat + 32 ∧ m'.entered = m.entered) ∨
      ∃ m', store (L.cell slot) m = .ok () m' ∧ m'.sp.toNat = m.sp.toNat + 32 ∧ m'.ip = m.ip ∧
        m.arena.SameOutside m'.arena (L.dataBase + slot) (L.dataBase + slot + 32) ∧
        m'.arena.StringAt slot := by
  have place := isSlot.toNat_cell
  have fits := isSlot.fits
  have := L.ordered
  have := L.stackBase_eq
  have top : L.codeBase = L.stackTop := rfl
  have string : length ≠ 0 := by
    rintro rfl
    cases pos
  have stored := store_in_place (L.cell slot) low high holds string (by omega) (by omega)
    (by rw [place]; exact shorter)
  rw [place] at stored
  by_cases within : L.Within address.toNat length.toNat ∧
      L.Within (m.arena.wordAt (L.dataBase + slot)).toNat length.toNat
  · have copied := Arena.copy_of_within (a := m.arena) within.1 within.2
    have inCell := extent.stringAt_of_within pos shorter within.2
    have held := inCell.short
    unfold inlineCapacity at short held
    have size := (Word.signedLe_iff (by omega) (by omega)).1 shorter
    have same := m.arena.sameOutside_forwardCopy address.toNat
      (m.arena.wordAt (L.dataBase + slot)).toNat length.toNat
    have target := inCell.address
    refine .inr ⟨{ m with sp := m.sp + 8 + 24, arena := _ }, ?_, toNat_sp_add_string high, rfl,
      same.mono (by omega) (by omega), inCell.sameInside (same.inside (.inl (by omega)))⟩
    rw [stored]
    simp only [update, copied]
  · obtain ⟨f, failed⟩ := Arena.copy_of_not_within (a := m.arena) within
    refine .inl ⟨f, { m with sp := m.sp + 8 + 24 }, ?_, rfl, toNat_sp_add_string high, rfl⟩
    rw [stored]
    simp only [update, failed]

/-- A short string that is longer than the second word of the cell tells moves into the cell. -/
theorem store_short_into (isSlot : L.IsSlot slot) (low : L.stackBase ≤ m.sp.toNat)
    (high : m.sp.toNat + 32 ≤ L.stackTop)
    (holds : m.arena.Holds m.sp.toNat [address, length, front, back]) (pos : 0 < length.toNat)
    (short : length.toNat ≤ inlineCapacity)
    (longer : Word.signedLe length (m.arena.wordAt (L.dataBase + slot + 8)) = false) :
    ∃ m', store (L.cell slot) m = .ok () m' ∧ m'.sp.toNat = m.sp.toNat + 32 ∧ m'.ip = m.ip ∧
      m.arena.SameOutside m'.arena (L.dataBase + slot) (L.dataBase + slot + 32) ∧
      (slot + 32 ≤ L.data → m'.arena.StringAt slot) := by
  have place := isSlot.toNat_cell
  have fits := isSlot.fits
  have := L.ordered
  have := L.stackBase_eq
  have := L.stackTop_lt
  have string : length ≠ 0 := by
    rintro rfl
    cases pos
  obtain ⟨m', stored, moved⟩ := store_inline (L.cell slot) low high holds string
    (by omega) (by omega) (by rw [place]; exact longer) (signedLe_capacity short)
  have words := moved.words
  have same := moved.same
  have sp := moved.sp
  simp only [List.length_cons, List.length_nil] at sp
  rw [place] at words same
  have content := L.toNat_cell_content fits
  refine ⟨m', stored, sp, moved.ip, same, fun room => ⟨room, ?_, ?_, ?_⟩⟩
  · rw [words.1, content]
  · rw [words.2.1]
    exact pos
  · rw [words.2.1]
    exact short

/-- A store of a short string writes inside the cell and leaves a string there, or it faults and
writes nothing. -/
theorem store_short (isSlot : L.IsSlot slot) (extent : m.arena.Extent slot k)
    (low : L.stackBase ≤ m.sp.toNat) (high : m.sp.toNat + 32 ≤ L.stackTop)
    (holds : m.arena.Holds m.sp.toNat [address, length, front, back]) (pos : 0 < length.toNat)
    (short : length.toNat ≤ inlineCapacity) :
    (∃ f m', store (L.cell slot) m = .error f m' ∧ m'.arena = m.arena ∧
        m'.sp.toNat = m.sp.toNat + 32 ∧ m'.entered = m.entered) ∨
      ∃ m', store (L.cell slot) m = .ok () m' ∧ m'.sp.toNat = m.sp.toNat + 32 ∧ m'.ip = m.ip ∧
        m.arena.SameOutside m'.arena (L.dataBase + slot) (L.dataBase + slot + 32) ∧
        (slot + 32 ≤ L.data → m'.arena.StringAt slot) := by
  cases order : Word.signedLe length (m.arena.wordAt (L.dataBase + slot + 8)) with
  | true =>
    rcases store_short_over isSlot extent low high holds pos short order with
      failed | ⟨m', stored, sp, ip, same, string⟩
    · exact .inl failed
    · exact .inr ⟨m', stored, sp, ip, same, fun _ => string⟩
  | false => exact .inr (store_short_into isSlot low high holds pos short order)

end Machine
end Osl
