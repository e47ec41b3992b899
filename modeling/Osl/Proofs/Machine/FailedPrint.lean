import Osl.Proofs.Machine.PrintedInteger

/-!
# When printing fails

Printing a cell fails where its string does not lie in the arena, and where the sink refuses the text or
the newline after it. A string is printed from where it lies, so its failure leaves the arena as it was.
The digits of an integer lie over its cell while they are written; what of them lies past the first word
stays, as it does when printing succeeds, and the first word is put back once the sink has taken the
digits (`print_fault_keeps`).
-/

namespace Osl
set_option autoImplicit false

variable {L : Layout} {σ : Type}

theorem Arena.SameOutside.symm {a b : Arena L} {lo hi : Nat} (h : a.SameOutside b lo hi) :
    b.SameOutside a lo hi := fun p outside => (h p outside).symm

namespace Machine

variable [Sink σ] {m m' : Machine L σ} {cell : Word} {f : Fault}

/-- A write that fails was refused, and nothing changed but the sink. -/
theorem emit_eq_error {bs : List Byte} (h : emit bs m = .error f m') :
    ∃ reason t, Sink.write m.sink bs = (.error reason, t) ∧ f = .sink reason ∧
      m' = { m with sink := t } := by
  cases written : Sink.write m.sink bs with
  | mk result t =>
    cases result with
    | ok =>
      rw [emit_of_write written] at h
      cases h
    | error reason =>
      rw [emit_of_refusal written] at h
      cases h
      exact ⟨reason, t, rfl, rfl, rfl⟩

/-- A write that succeeds was taken, and nothing changed but the sink. -/
theorem emit_eq_ok {bs : List Byte} {v : Unit} (h : emit bs m = .ok v m') :
    ∃ t, Sink.write m.sink bs = (.ok (), t) ∧ m' = { m with sink := t } := by
  cases written : Sink.write m.sink bs with
  | mk result t =>
    cases result with
    | ok =>
      rw [emit_of_write written] at h
      cases h
      exact ⟨t, rfl, rfl⟩
    | error reason =>
      rw [emit_of_refusal written] at h
      cases h

/-- Printing a string fails where the string lies outside the arena or the sink refuses it, and the arena
is as before. -/
theorem print_error_of_string (inData : L.InData cell)
    (string : m.arena.wordAt (cell.toNat + 8) ≠ 0) (failed : print cell m = .error f m') :
    m'.arena = m.arena ∧ ((∃ p n, f = .memory p n) ∨ ∃ reason, f = .sink reason) := by
  rw [print_eq_of_string inData.within string] at failed
  cases sliced : m.arena.slice (m.arena.wordAt cell.toNat)
      (m.arena.wordAt (cell.toNat + 8)).toNat with
  | error e =>
    have unread : (reading (·.slice (m.arena.wordAt cell.toNat)
        (m.arena.wordAt (cell.toNat + 8)).toNat) : Exec L σ _) m = .error e m := by
      simp only [reading, sliced]
    rw [bind_error unread] at failed
    cases failed
    rw [Arena.slice_eq_ite] at sliced
    split at sliced
    · cases sliced
    · cases sliced
      exact ⟨rfl, .inl ⟨_, _, rfl⟩⟩
  | ok text =>
    have read : (reading (·.slice (m.arena.wordAt cell.toNat)
        (m.arena.wordAt (cell.toNat + 8)).toNat) : Exec L σ _) m = .ok text m := by
      simp only [reading, sliced]
    rw [bind_ok read] at failed
    rcases bind_eq_error failed with refused | ⟨_, m₁, taken, refused⟩
    · obtain ⟨reason, t, -, rfl, rfl⟩ := emit_eq_error refused
      exact ⟨rfl, .inr ⟨reason, rfl⟩⟩
    · obtain ⟨u, -, rfl⟩ := emit_eq_ok taken
      obtain ⟨reason, t, -, rfl, rfl⟩ := emit_eq_error refused
      exact ⟨rfl, .inr ⟨reason, rfl⟩⟩

/-- Printing an integer fails where the sink refuses the digits, which lie over the cell then, or the
newline, when the first word has been put back. -/
theorem print_error_of_integer (inData : L.InData cell)
    (integer : m.arena.wordAt (cell.toNat + 8) = 0) (failed : print cell m = .error f m') :
    let text := Numeral.decimalBytes (m.arena.wordAt cell.toNat).toNat
    ∃ reason, f = .sink reason ∧
      ((m'.arena = m.arena.overlay cell.toNat text ∧ ∃ t, Sink.write m.sink text = (.error reason, t)) ∨
        m'.arena = m.arena.overlay (cell.toNat + 8) (text.drop 8)) := by
  intro text
  have within := inData.within
  have word : L.Within cell.toNat 8 := by
    unfold Layout.Within at *
    omega
  have covered := (within_digits inData (m.arena.wordAt cell.toNat)).1
  rw [print_eq_of_integer within covered integer] at failed
  rcases bind_eq_error failed with refused | ⟨_, m₁, taken, refused⟩
  · obtain ⟨reason, t, written, rfl, rfl⟩ := emit_eq_error refused
    exact ⟨reason, rfl, .inl ⟨rfl, t, written⟩⟩
  · obtain ⟨u, -, rfl⟩ := emit_eq_ok taken
    rw [bind_ok (writeWord_eq _ _ word)] at refused
    obtain ⟨reason, t, -, rfl, rfl⟩ := emit_eq_error refused
    exact ⟨reason, rfl, .inr (m.arena.overlay_restore cell.toNat text)⟩

/-- Digits that lie over a cell and digits that were left behind its first word differ in that word
only. -/
theorem sameOutside_overlay_digits (a : Arena L) (p : Nat) (text : List Byte) :
    (a.overlay (p + 8) (text.drop 8)).SameOutside (a.overlay p text) p (p + 8) := by
  rw [← a.overlay_restore p text]
  exact ((a.overlay p text).sameOutside_overlay_word p (a.wordAt p)).symm

/-- Printing that fails has come to a string outside the arena or been refused by the sink. Then the arena
is as before if the cell holds a string. If it holds an integer, then outside its first word the arena
is as before except that the digits past the eighth lie behind that word; and if the sink took the
digits, then so is the first word. -/
theorem print_fault_keeps (log : Log) (inData : L.InData cell)
    (failed : exec log (.print cell) m = .error f m') :
    let text := Numeral.decimalBytes (m.arena.wordAt cell.toNat).toNat
    ((∃ p n, f = .memory p n) ∨ ∃ reason, f = .sink reason) ∧
      (m.arena.wordAt (cell.toNat + 8) ≠ 0 → m'.arena = m.arena) ∧
      (m.arena.wordAt (cell.toNat + 8) = 0 →
        (∃ b, m.arena.Spilled b cell.toNat text ∧
          b.SameOutside m'.arena cell.toNat (cell.toNat + 8)) ∧
        ∀ t, Sink.write m.sink text = (.ok (), t) → m.arena.Spilled m'.arena cell.toNat text) := by
  intro text
  have printing : print cell m = .error f m' := by
    rcases bind_eq_error failed with stopped | ⟨_, _, _, returned⟩
    · exact stopped
    · cases returned
  by_cases integer : m.arena.wordAt (cell.toNat + 8) = 0
  · have spilled := m.arena.spilled_overlay
      (within_digits inData (m.arena.wordAt cell.toNat)).1
    obtain ⟨reason, rfl, ⟨laid, u, refused⟩ | restored⟩ :=
      print_error_of_integer inData integer printing
    · refine ⟨.inr ⟨reason, rfl⟩, absurd integer, fun _ => ⟨⟨_, spilled, ?_⟩, fun t taken => ?_⟩⟩
      · rw [laid]
        exact sameOutside_overlay_digits m.arena cell.toNat text
      · rw [refused] at taken
        cases taken
    · rw [← restored] at spilled
      exact ⟨.inr ⟨reason, rfl⟩, absurd integer, fun _ =>
        ⟨⟨_, spilled, .refl _ _ _⟩, fun _ _ => spilled⟩⟩
  · obtain ⟨same, reasons⟩ := print_error_of_string inData integer printing
    exact ⟨reasons, fun _ => same, fun zero => absurd zero integer⟩

/-- A machine of the tiny layout that is about to print nine digits into a sink with room for them but not
for the newline. -/
def nineDigits : Machine .tiny Buffer where
  arena := (Arena.initial .tiny).overlay (Layout.tiny.cell 0).toNat
    (Word.bytes 123456789 ++ Word.bytes 0)
  sink := { bound := some 9 }

/-- The bytes of the cell after printing has failed, and why. -/
theorem exec_nineDigits :
    ∃ m', exec .missing (.print (Layout.tiny.cell 0)) nineDigits = .error (.sink Buffer.full) m' ∧
      m'.arena.bytes Layout.tiny.dataBase 16 = Word.bytes 123456789 ++ Word.bytes 0x39 := by
  have run : (match exec .missing (.print (Layout.tiny.cell 0)) nineDigits with
      | .error f m' => decide (f = .sink Buffer.full ∧
          m'.arena.bytes Layout.tiny.dataBase 16 = Word.bytes 123456789 ++ Word.bytes 0x39)
      | .ok _ _ => false) = true := by
    decide +kernel
  cases ended : exec .missing (.print (Layout.tiny.cell 0)) nineDigits with
  | error f m' =>
    rw [ended] at run
    obtain ⟨rfl, bytes⟩ := of_decide_eq_true run
    exact ⟨m', rfl, bytes⟩
  | ok v m' =>
    rw [ended] at run
    cases run

/-- The ninth digit is all that has changed. -/
theorem print_fault_keeps_nineDigits :
    ∃ m', exec .missing (.print (Layout.tiny.cell 0)) nineDigits = .error (.sink Buffer.full) m' ∧
      nineDigits.arena.SameOutside m'.arena (Layout.tiny.dataBase + 8) (Layout.tiny.dataBase + 9) := by
  obtain ⟨m', failed, -⟩ := exec_nineDigits
  have inData : Layout.tiny.InData (Layout.tiny.cell 0) := by
    constructor <;> decide
  have cell : nineDigits.arena.wordAt (Layout.tiny.cell 0).toNat = 123456789 ∧
      nineDigits.arena.wordAt ((Layout.tiny.cell 0).toNat + 8) = 0 := by
    decide +kernel
  have text : Numeral.decimalBytes (123456789 : Word).toNat = "123456789".toUTF8.data.toList := by
    decide +kernel
  obtain ⟨-, -, spills⟩ := print_fault_keeps .missing inData failed
  have spilled := (spills cell.2).2
  rw [cell.1, text] at spilled
  exact ⟨m', failed, (spilled _ rfl).same⟩

/-- So printing that fails does not always leave the arena as it was. -/
theorem print_fault_changes :
    Layout.tiny.InData (Layout.tiny.cell 0) ∧
      ∃ m', exec .missing (.print (Layout.tiny.cell 0)) nineDigits =
        .error (.sink Buffer.full) m' ∧ m'.arena ≠ nineDigits.arena := by
  obtain ⟨m', failed, after⟩ := exec_nineDigits
  refine ⟨by constructor <;> decide, m', failed, fun same => ?_⟩
  rw [same] at after
  exact absurd after (by decide +kernel)

end Machine
end Osl
