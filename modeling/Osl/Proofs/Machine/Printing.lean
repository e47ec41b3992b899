import Osl.Proofs.Isolation.Extent
import Osl.Proofs.Machine.Output
import Osl.Proofs.Machine.ScratchStack

/-!
# Printing into any sink

Printing a cell writes the value that is read from it and a newline (`print_of_read`), and where no
value can be read it faults as reading does (`print_of_read_error`). Otherwise it stops only if the
sink refuses a write. It changes nothing but the cell and what follows it, below the code section.
-/

namespace Osl
set_option autoImplicit false

variable {L : Layout} {σ : Type}

/-- Reading the value of a cell. -/
theorem Value.read_cell (a : Arena L) {cell : Word} (isCell : L.IsCell cell) :
    Value.read a cell =
      if a.wordAt (cell.toNat + 8) = 0 then .ok (.integer (a.wordAt cell.toNat))
      else (a.slice (a.wordAt cell.toNat) (a.wordAt (cell.toNat + 8)).toNat).map .string := by
  obtain ⟨slot, isSlot, rfl⟩ := isCell
  rw [Value.read_eq a isSlot, isSlot.toNat_cell]

/-- The two words that tell what a cell holds lie in the data section, at whatever address. -/
structure Layout.InData (L : Layout) (cell : Word) : Prop where
  low : L.dataBase ≤ cell.toNat
  high : cell.toNat + 16 ≤ L.dataEnd

theorem Layout.IsCell.inData {cell : Word} (isCell : L.IsCell cell) : L.InData cell :=
  ⟨isCell.bounds.1, isCell.bounds.2⟩

theorem Layout.InData.within {cell : Word} (inData : L.InData cell) : L.Within cell.toNat 16 := by
  have := L.ordered
  have := inData.low
  have := inData.high
  have top : L.stackBase = L.dataEnd := rfl
  unfold Layout.Within
  omega

namespace Machine

variable {m m' : Machine L σ} {cell : Word}

/-- The cell holds a string that does not lie in the arena. -/
structure HoldsOutside (m : Machine L σ) (cell : Word) (p : Word) (n : Nat) : Prop where
  string : m.arena.wordAt (cell.toNat + 8) ≠ 0
  address : m.arena.wordAt cell.toNat = p
  length : (m.arena.wordAt (cell.toNat + 8)).toNat = n
  outside : ¬ L.Within p.toNat n

/-- The digits of a number fit in front of the code section. -/
theorem within_digits (inData : L.InData cell) (w : Word) :
    L.Within cell.toNat (Numeral.decimalBytes w.toNat).length ∧
      cell.toNat + (Numeral.decimalBytes w.toNat).length ≤ L.codeBase := by
  have := L.ordered
  have := inData.low
  have := inData.high
  have := L.stackBase_add_le
  have top : L.codeBase = L.stackTop := rfl
  have bottom : L.stackBase = L.dataEnd := rfl
  have digits := length_decimalBytes_toNat w
  unfold Layout.Within
  omega

/-- Reading fails where a string does not lie in the arena. -/
theorem HoldsOutside.of_read_error {f : Fault} (isCell : L.IsCell cell)
    (read : Value.read m.arena cell = .error f) :
    ∃ p n, f = .memory p n ∧ m.HoldsOutside cell p n := by
  rw [Value.read_cell _ isCell] at read
  split at read
  · cases read
  · rename_i string
    rw [Arena.slice_eq_ite] at read
    split at read
    · cases read
    · rename_i outside
      cases read
      exact ⟨_, _, rfl, string, rfl, rfl, outside⟩

variable [Sink σ]

/-- What follows a write finds the machine unchanged but for its sink. -/
theorem emit_bind_congr {bs : List Byte} {f g : Exec L σ Unit}
    (same : ∀ t, f { m with sink := t } = g { m with sink := t }) :
    (emit bs >>= fun _ => f) m = (emit bs >>= fun _ => g) m := by
  cases written : Sink.write m.sink bs with
  | mk result t =>
    cases result with
    | error reason => rw [bind_error (emit_of_refusal written), bind_error (emit_of_refusal written)]
    | ok => rw [bind_ok (emit_of_write written), bind_ok (emit_of_write written), same]

/-- A value that can be read is written, and on the way nothing changes but the cell and what follows
it. -/
theorem exists_print_eq {v : Value} (isCell : L.IsCell cell)
    (read : Value.read m.arena cell = .ok v) :
    ∃ during after : Arena L, m.arena.SameOutside after L.dataBase L.stackTop ∧
      print cell m = (do
        emit v.printed
        modify (putArena after)
        emit ['\n'.toUInt8]) (putArena during m) := by
  have := L.ordered
  have bounds := isCell.bounds
  have top : L.codeBase = L.stackTop := rfl
  rw [Value.read_cell _ isCell] at read
  by_cases integer : m.arena.wordAt (cell.toNat + 8) = 0
  · rw [if_pos integer] at read
    cases read
    have digits := within_digits isCell.inData (m.arena.wordAt cell.toNat)
    have laid := m.arena.sameOutside_overlay cell.toNat
      (Numeral.decimalBytes (m.arena.wordAt cell.toNat).toNat)
    have restored := Arena.sameOutside_overlay_word (m.arena.overlay cell.toNat
      (Numeral.decimalBytes (m.arena.wordAt cell.toNat).toNat)) cell.toNat (m.arena.wordAt cell.toNat)
    refine ⟨m.arena.overlay cell.toNat (Numeral.decimalBytes (m.arena.wordAt cell.toNat).toNat), _,
      (laid.mono bounds.1 (by omega)).trans (restored.mono bounds.1 (by omega)), ?_⟩
    rw [print_eq_of_integer isCell.inData.within digits.1 integer]
    apply emit_bind_congr
    intro t
    rw [bind_ok (writeWord_eq _ _ (by unfold Layout.Within; omega)), bind_ok (modify_apply _)]
    rfl
  · rw [if_neg integer] at read
    cases sliced : m.arena.slice (m.arena.wordAt cell.toNat)
        (m.arena.wordAt (cell.toNat + 8)).toNat with
    | error f =>
      rw [sliced] at read
      cases read
    | ok content =>
      rw [sliced] at read
      cases read
      have taken : (reading (·.slice (m.arena.wordAt cell.toNat)
          (m.arena.wordAt (cell.toNat + 8)).toNat) : Exec L σ _) m = .ok content m := by
        simp only [reading, sliced]
      refine ⟨m.arena, m.arena, .refl _ _ _, ?_⟩
      rw [print_eq_of_string isCell.inData.within integer, bind_ok taken]
      apply emit_bind_congr
      intro t
      rfl

/-- A value that can be read is printed, if the sink takes it. -/
theorem print_of_read {v : Value} {t : σ} (isCell : L.IsCell cell)
    (read : Value.read m.arena cell = .ok v) (takes : Sink.TakesLine m.sink v.printed t) :
    ∃ a, print cell m = .ok () { m with arena := a, sink := t } ∧
      m.arena.SameOutside a L.dataBase L.stackTop := by
  obtain ⟨u, text, newline⟩ := takes
  obtain ⟨during, after, same, prints⟩ := exists_print_eq isCell read
  refine ⟨after, ?_, same⟩
  rw [prints, bind_ok (emit_of_write (m := putArena during m) text), bind_ok (modify_apply _)]
  exact emit_of_write newline

/-- A value that can be read is not printed if the sink refuses it. -/
theorem print_of_refusal {v : Value} (isCell : L.IsCell cell)
    (read : Value.read m.arena cell = .ok v) (refuses : ∀ t, ¬ Sink.TakesLine m.sink v.printed t) :
    ∃ reason m', print cell m = .error (.sink reason) m' := by
  obtain ⟨during, after, -, prints⟩ := exists_print_eq isCell read
  rw [prints]
  cases text : Sink.write m.sink v.printed with
  | mk result u =>
    cases result with
    | error reason => exact ⟨reason, _, bind_error (emit_of_refusal (m := putArena during m) text)⟩
    | ok =>
      rw [bind_ok (emit_of_write (m := putArena during m) text), bind_ok (modify_apply _)]
      cases newline : Sink.write u ['\n'.toUInt8] with
      | mk result t =>
        cases result with
        | error reason => exact ⟨reason, _, emit_of_refusal newline⟩
        | ok => exact absurd ⟨u, text, newline⟩ (refuses t)

/-- Where no value can be read printing faults in the same way, and nothing is written. -/
theorem print_of_read_error {f : Fault} (isCell : L.IsCell cell)
    (read : Value.read m.arena cell = .error f) : print cell m = .error f m := by
  rw [Value.read_cell _ isCell] at read
  split at read
  · cases read
  · rename_i string
    rw [print_eq_of_string isCell.inData.within string]
    cases sliced : m.arena.slice (m.arena.wordAt cell.toNat)
        (m.arena.wordAt (cell.toNat + 8)).toNat with
    | ok content =>
      rw [sliced] at read
      cases read
    | error f' =>
      rw [sliced] at read
      cases read
      have failed : (reading (·.slice (m.arena.wordAt cell.toNat)
          (m.arena.wordAt (cell.toNat + 8)).toNat) : Exec L σ _) m = .error f m := by
        simp only [reading, sliced]
      exact bind_error failed

end Machine
end Osl
