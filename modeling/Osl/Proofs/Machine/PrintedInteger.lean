import Osl.Proofs.Arena.Content
import Osl.Proofs.Arena.Initial
import Osl.Proofs.Machine.Printing

/-!
# What printing an integer leaves behind

The digits of an integer are laid over its cell, written from there, and then only the first word is put
back. So a text of more than eight digits leaves its ninth and later ones behind that word, over the
second word and up to four bytes past the cell, and nothing else changes
(`print_integer_effect`). An integer of at most eight digits can be printed again and again.
-/

namespace Osl
set_option autoImplicit false

variable {L : Layout} {σ : Type}

namespace Arena

variable {a b : Arena L} {p : Nat} {text : List Byte}

/-- From `a` to `b` what a text has past its eighth byte was laid behind the word at `p`, and nothing else
has changed. -/
structure Spilled (a b : Arena L) (p : Nat) (text : List Byte) : Prop where
  bytes : b.bytes (p + 8) (text.length - 8) = text.drop 8
  same : a.SameOutside b (p + 8) (p + text.length)

/-- Laying a text over the word at `p` and putting the word back spills the text. -/
theorem spilled_overlay (a : Arena L) (within : L.Within p text.length) :
    a.Spilled (a.overlay (p + 8) (text.drop 8)) p text := by
  have size : (text.drop 8).length = text.length - 8 := List.length_drop
  have laid := a.sameOutside_overlay (p + 8) (text.drop 8)
  constructor
  · by_cases long : 8 < text.length
    · have behind : L.Within (p + 8) (text.drop 8).length := by
        unfold Layout.Within at *
        omega
      rw [← size]
      exact a.bytes_overlay behind
    · have none : text.length - 8 = 0 := by omega
      rw [none, List.drop_eq_nil_of_le (by omega)]
      rfl
  · intro q outside
    exact laid q (by omega)

/-- Spilling changes the arena exactly if the text is longer than a word and does not repeat what it is
laid over. -/
theorem Spilled.eq_iff (h : a.Spilled b p text) (old : a.wordAt (p + 8) = 0)
    (solid : ∀ x ∈ text, x ≠ 0) : b = a ↔ text.length ≤ 8 := by
  constructor
  · rintro rfl
    apply Nat.le_of_not_lt
    intro long
    have first : b.byte (p + 8) = 0 := by
      have word := b.bytes_wordAt (p + 8)
      rw [old, bytes_succ] at word
      exact (List.cons.inj word).1.symm
    have spilt := h.bytes
    obtain ⟨k, size⟩ : ∃ k, text.length - 8 = k + 1 := ⟨text.length - 9, by omega⟩
    rw [size, bytes_succ, first] at spilt
    have member : (0 : Byte) ∈ text.drop 8 := by
      rw [← spilt]
      exact List.mem_cons_self
    exact solid 0 (List.mem_of_mem_drop member) rfl
  · intro short
    apply ext_byte
    intro q _
    exact h.same q (by omega)

end Arena

/-- The sink takes a text with a newline `n` times, and is `t` afterwards. -/
def Sink.TakesLines [Sink σ] (text : List Byte) : (n : Nat) → (s t : σ) → Prop
  | 0, s, t => t = s
  | n + 1, s, t => ∃ u, TakesLine s text u ∧ TakesLines text n u t

namespace Machine

variable [Sink σ] {m : Machine L σ} {cell : Word} {t : σ}

/-- Prints a cell `n` times. -/
def printTimes (cell : Word) : (n : Nat) → Exec L σ Unit
  | 0 => return ()
  | n + 1 => do
    print cell
    printTimes cell n

/-- An integer whose digits fit into its first word is printed as often as the sink takes it. -/
theorem printTimes_eq (inData : L.InData cell) (integer : m.arena.wordAt (cell.toNat + 8) = 0)
    (short : (Numeral.decimalBytes (m.arena.wordAt cell.toNat).toNat).length ≤ 8) {n : Nat}
    (takes : Sink.TakesLines (Numeral.decimalBytes (m.arena.wordAt cell.toNat).toNat) n m.sink t) :
    printTimes cell n m = .ok () { m with sink := t } := by
  induction n generalizing m with
  | zero =>
    cases takes
    rfl
  | succ n ih =>
    obtain ⟨u, line, lines⟩ := takes
    have printed := print_integer_of_takesLine inData.within (within_digits inData _).1 integer line
    rw [List.drop_eq_nil_of_le short] at printed
    rw [printTimes, bind_ok printed]
    exact ih (m := { m with sink := u }) integer short lines

/-- Printing an integer into a sink that takes the line: what is written is the decimal text of the
first word and a newline, and the arena is as before except that the digits past the eighth lie behind
the first word. It is as before altogether, so that the integer can be printed any number of times,
exactly if the integer is below `10 ^ 8`. In no case does a byte from the twentieth on change. -/
theorem print_integer_effect (log : Log) (inData : L.InData cell)
    (integer : m.arena.wordAt (cell.toNat + 8) = 0)
    (takes : Sink.TakesLine m.sink (Numeral.decimalBytes (m.arena.wordAt cell.toNat).toNat) t) :
    let v := (m.arena.wordAt cell.toNat).toNat
    let text := Numeral.decimalBytes v
    Numeral.IsDecimal (Numeral.digits 10 v) v ∧
      ∃ a, exec log (.print cell) m = .ok none { m with arena := a, sink := t } ∧
        m.arena.Spilled a cell.toNat text ∧
        (a = m.arena ↔ v < 10 ^ 8) ∧
        ((∀ n u, Sink.TakesLines text n m.sink u →
          printTimes cell n m = .ok () { m with sink := u }) ↔ v < 10 ^ 8) ∧
        ∀ p, cell.toNat + 20 ≤ p → a.byte p = m.arena.byte p := by
  intro v text
  have covered := (within_digits inData (m.arena.wordAt cell.toNat)).1
  have printed := print_integer_of_takesLine inData.within covered integer takes
  have spilled := m.arena.spilled_overlay covered
  have digits : text.length ≤ 8 ↔ v < 10 ^ 8 := Numeral.length_decimalBytes_le_iff (by decide)
  have unchanged := spilled.eq_iff integer fun _ => Numeral.ne_zero_of_mem_decimalBytes
  refine ⟨Numeral.isDecimal_digits v, _, exec_of_work rfl printed, spilled, unchanged.trans digits,
    ⟨fun repeats => ?_, fun small n u lines => ?_⟩, fun p far => ?_⟩
  · -- printing once already changes an arena that the digits do not leave alone
    have once := repeats 1 t ⟨t, takes, rfl⟩
    rw [printTimes, bind_ok printed] at once
    apply digits.1 (unchanged.1 _)
    exact congrArg Machine.arena (EStateM.Result.ok.inj once).2
  · exact printTimes_eq inData integer (digits.2 small) lines
  · have most := length_decimalBytes_toNat (m.arena.wordAt cell.toNat)
    exact spilled.same p (.inr (by omega))

/-- A machine of the tiny layout whose last window holds the largest word. -/
def holdingLargest : Machine .tiny Spool where
  arena := (Arena.initial .tiny).overlay (Layout.tiny.cell 32).toNat
    (Word.bytes 0xffffffffffffffff ++ Word.bytes 0)
  sink := ⟨some {}⟩

/-- Of its twenty digits twelve stay behind: eight over the second word, four on the scratch stack. -/
theorem print_integer_effect_largest :
    ∃ a, exec .missing (.print (Layout.tiny.cell 32)) holdingLargest =
        .ok none { holdingLargest with
          arena := a
          sink := (holdingLargest.sink.append "18446744073709551615".toUTF8.data.toList).append [10] } ∧
      a.bytes (Layout.tiny.dataEnd - 8) 12 = "073709551615".toUTF8.data.toList ∧
      a ≠ holdingLargest.arena := by
  have inData : Layout.tiny.InData (Layout.tiny.cell 32) := by
    constructor <;> decide
  have cell : holdingLargest.arena.wordAt (Layout.tiny.cell 32).toNat = 0xffffffffffffffff ∧
      holdingLargest.arena.wordAt ((Layout.tiny.cell 32).toNat + 8) = 0 := by
    decide +kernel
  have text : Numeral.decimalBytes (0xffffffffffffffff : Word).toNat =
      "18446744073709551615".toUTF8.data.toList := by
    decide +kernel
  obtain ⟨-, a, printed, spilled, same, -⟩ := print_integer_effect .missing inData cell.2
    (holdingLargest.sink.takesLine _)
  rw [cell.1, text] at printed spilled
  rw [cell.1] at same
  refine ⟨a, printed, ?_, fun unchanged => ?_⟩
  · exact spilled.bytes
  · exact absurd (same.1 unchanged) (by decide)

end Machine
end Osl
