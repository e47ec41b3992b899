import Osl.Proofs.Arena.Initial
import Osl.Proofs.Instr.Decoding
import Osl.Proofs.Text.Numeral

/-!
# Reading listings

A listing shows all there is to know about a routine: `Listing.read` gets the instructions and their
offsets back from its text. A line is taken apart at its blanks, so that it does not matter how far the
columns are filled up. That the reader, `Routine.entries` and the machine agree on every list of
instructions is `Routine.decoding_agrees`.
-/

namespace Osl
set_option autoImplicit false

namespace Listing

open Numeral Routine

variable {cs w : List Char} {i : Instr}

/-! ## The reader -/

/-- The parts of a line between blanks. -/
def fields (cs : List Char) : List (List Char) := (cs.splitOn ' ').filter (· ≠ [])

/-- The operation code with a mnemonic. -/
def opcode? (name : List Char) : Option Opcode := Opcode.all.find? (·.mnemonic.toList = name)

/-- The instruction of an operation code and the text of its operand. -/
def instr? (op : Opcode) (operand : Option (List Char)) : Option Instr :=
  match op.form, operand with
  | .bare i, none => some i
  | .withOperand make, some ('0' :: 'x' :: cs) => some (make (.ofNat (value 16 cs)))
  | _, _ => none

/-- The offset and the instruction that a line shows. -/
def readLine (cs : List Char) : Option (Nat × Instr) := do
  match fields cs with
  | [offset, ['|'], name] => return (value 10 offset, ← instr? (← opcode? name) none)
  | [offset, ['|'], name, ['|'], operand] =>
    return (value 10 offset, ← instr? (← opcode? name) (some operand))
  | _ => none

/-- The offsets and instructions that a listing shows below its title. -/
def read (title listing : String) : Option (List (Nat × Instr)) :=
  let body := listing.toList.drop ("==== " ++ title ++ " ====\n").length
  (body.splitOn '\n').dropLast.mapM readLine

/-! ## Fields -/

theorem fields_blank (cs : List Char) : fields (' ' :: cs) = fields cs := by
  rw [fields, List.splitOn_cons_eq_if_modifyHead]
  rfl

theorem fields_word (nonempty : w ≠ []) (solid : ' ' ∉ w) : fields w = [w] := by
  rw [fields, List.splitOn_eq_singleton solid]
  simp [nonempty]

theorem fields_word_blank (nonempty : w ≠ []) (solid : ' ' ∉ w) (cs : List Char) :
    fields (w ++ ' ' :: cs) = w :: fields cs := by
  rw [fields, List.splitOn_append_cons_self_of_not_mem solid, List.filter_cons_of_pos (by simpa)]
  rfl

theorem fields_word_blanks (nonempty : w ≠ []) (solid : ' ' ∉ w) (n : Nat) (cs : List Char) :
    fields (w ++ (List.replicate n ' ' ++ ' ' :: cs)) = w :: fields cs := by
  cases n with
  | zero => exact fields_word_blank nonempty solid cs
  | succ n =>
    have rest (k : Nat) : fields (List.replicate k ' ' ++ ' ' :: cs) = fields cs := by
      induction k with
      | zero => exact fields_blank cs
      | succ k ih => rw [List.replicate_succ, List.cons_append, fields_blank, ih]
    rw [List.replicate_succ, List.cons_append, fields_word_blank nonempty solid, rest]

/-- No character below the digit zero stands in a number. -/
theorem not_mem_padLeft (base : Nat) (c : Char) (big : 1 < base) (readable : base ≤ 16) (low : c < '0')
    (width n : Nat) : c ∉ padLeft width '0' (digits base n) := by
  have each : ∀ d < 16, '0' ≤ Nat.digitChar d := by decide
  intro member
  rw [padLeft, List.mem_append, List.mem_replicate] at member
  rcases member with ⟨-, rfl⟩ | member
  · exact absurd low (by decide)
  · obtain ⟨d, small, rfl⟩ := exists_of_mem_digits big member
    exact absurd low (Char.not_lt.2 (each d (by omega)))

theorem padLeft_ne_nil (width base n : Nat) : padLeft width '0' (digits base n) ≠ [] :=
  List.append_ne_nil_of_right_ne_nil _ Nat.toDigits_ne_nil

/-! ## Lines -/

theorem opcode?_mnemonic (op : Opcode) : opcode? op.mnemonic.toList = some op := by
  cases op <;> decide

theorem mnemonic_solid (op : Opcode) :
    op.mnemonic.toList ≠ [] ∧ ' ' ∉ op.mnemonic.toList ∧ '\n' ∉ op.mnemonic.toList := by
  cases op <;> decide

/-- The line of an instruction starts with the offset. -/
theorem toList_line (offset : Nat) (entry : Entry) :
    (line offset entry).toList =
      padLeft 4 '0' (digits 10 offset) ++ ' ' :: (['|'] ++ ' ' :: entry.text.toList) := by
  simp [line, decimalPadded]

theorem toList_text_of_none (bare : i.operand? = none) :
    (Entry.instr i).text.toList = i.opcode.mnemonic.toList := by
  simp only [Entry.text, bare]

theorem toList_text_of_some {operand : Word} (given : i.operand? = some operand) :
    (Entry.instr i).text.toList =
      i.opcode.mnemonic.toList ++ (List.replicate (12 - i.opcode.mnemonic.toList.length) ' ' ++
        ' ' :: (['|'] ++ ' ' :: ('0' :: 'x' :: padLeft 1 '0' (digits 16 operand.toNat)))) := by
  simp [Entry.text, given, hex, hexPadded, padRight]

/-- The line of an instruction shows its offset and the instruction. -/
theorem readLine_line (offset : Nat) (i : Instr) :
    readLine (line offset (.instr i)).toList = some (offset, i) := by
  have number := not_mem_padLeft 10 ' ' (by decide) (by decide) (by decide) 4 offset
  have ⟨named, solid, _⟩ := mnemonic_solid i.opcode
  have front : fields (line offset (.instr i)).toList =
      padLeft 4 '0' (digits 10 offset) :: ['|'] :: fields (Entry.instr i).text.toList := by
    rw [toList_line, fields_word_blank (padLeft_ne_nil _ _ _) number,
      fields_word_blank (by simp) (by decide)]
  cases given : i.operand? with
  | none =>
    rw [readLine, front, toList_text_of_none given, fields_word named solid]
    simp [opcode?_mnemonic, instr?, Instr.form_of_operand?_eq_none given, value_padLeft, value_digits]
  | some operand =>
    obtain ⟨make, form, made⟩ := Instr.form_of_operand?_eq_some given
    have blank := not_mem_padLeft 16 ' ' (by decide) (by decide) (by decide) 1
      operand.toNat
    rw [readLine, front, toList_text_of_some given, fields_word_blanks named solid,
      fields_word_blank (by simp) (by decide), fields_word (by simp) (by simpa using blank)]
    simp [opcode?_mnemonic, instr?, form, made, value_padLeft, value_digits,
      value_digits_base (show 1 < 16 by decide) (by decide)]

/-- What is shown for an instruction is one line. -/
theorem newline_not_mem_line (offset : Nat) (i : Instr) :
    '\n' ∉ (line offset (.instr i)).toList := by
  have number := not_mem_padLeft 10 '\n' (by decide) (by decide) (by decide) 4 offset
  have ⟨_, _, named⟩ := mnemonic_solid i.opcode
  cases given : i.operand? with
  | none => simp [toList_line, toList_text_of_none given, number, named]
  | some operand =>
    have operand := not_mem_padLeft 16 '\n' (by decide) (by decide) (by decide) 1
      operand.toNat
    simp [toList_line, toList_text_of_some given, number, named, operand]

/-! ## Listings -/

theorem splitOn_lines {lines : List (List Char)} (single : ∀ l ∈ lines, '\n' ∉ l) :
    (lines.flatMap (· ++ ['\n'])).splitOn '\n' = lines ++ [[]] := by
  induction lines with
  | nil => rfl
  | cons l lines ih =>
    rw [List.forall_mem_cons] at single
    rw [List.flatMap_cons, List.append_assoc, List.singleton_append,
      List.splitOn_append_cons_self_of_not_mem single.1, ih single.2, List.cons_append]

end Listing

namespace Routine

open Instr (placed)

variable {L : Layout} {σ : Type}

/-- A listing has its title and one line for each instruction. -/
theorem lines_assemble (is : List Instr) (title : String) :
    (assemble is).lines title = ("==== " ++ title ++ " ====") ::
      (placed 0 is).map fun (offset, i) => line offset (.instr i) := by
  rw [lines, entries_assemble, List.map_map]
  rfl

/-- The text of a listing below its title. -/
theorem toList_listing (is : List Instr) (title : String) :
    ((assemble is).listing title).toList = ("==== " ++ title ++ " ====\n").toList ++
      ((placed 0 is).map fun (offset, i) => (line offset (.instr i)).toList).flatMap (· ++ ['\n']) := by
  rw [listing, lines_assemble]
  simp [String.toList_join, List.map_map, List.flatMap_def, Function.comp_def]

/-- Every list of instructions can be read back from its listing. -/
theorem read_listing (is : List Instr) (title : String) :
    Listing.read title ((assemble is).listing title) = some (placed 0 is) := by
  have single (l : List Char)
      (shown : l ∈ (placed 0 is).map fun (offset, i) => (line offset (.instr i)).toList) : '\n' ∉ l := by
    obtain ⟨⟨offset, i⟩, -, rfl⟩ := List.mem_map.1 shown
    exact Listing.newline_not_mem_line offset i
  have back (shown : List (Nat × Instr)) :
      (shown.map fun (offset, i) => (line offset (.instr i)).toList).mapM Listing.readLine =
        some shown := by
    induction shown with
    | nil => rfl
    | cons p shown ih => simp [List.mapM_cons, Listing.readLine_line, ih]
  rw [Listing.read, toList_listing, ← String.length_toList, List.drop_left, Listing.splitOn_lines single,
    List.dropLast_concat]
  exact back (placed 0 is)

/-- The three readers of code agree. The code of a list of instructions is cut into these instructions
at their offsets; its listing shows them, one in a line below the title, so that they can be read back
from it; the machine fetches them one after another wherever in its arena the code lies; and no other
list has this code. -/
theorem decoding_agrees (is : List Instr) :
    (assemble is).entries = ((placed 0 is).map fun (offset, i) => (offset, .instr i)) ∧
      (∀ title, (assemble is).lines title = ("==== " ++ title ++ " ====") ::
        (placed 0 is).map fun (offset, i) => line offset (.instr i)) ∧
      (∀ title, Listing.read title ((assemble is).listing title) = some (placed 0 is)) ∧
      (∀ {L : Layout} {σ : Type} (m : Machine L σ), L.Within m.ip.toNat (assemble is).size →
        m.arena.bytes m.ip.toNat (assemble is).size = (assemble is).code →
          Machine.fetchEach is.length m = .ok (placed m.ip.toNat is)
            { m with ip := m.ip + .ofNat (assemble is).size }) ∧
      ∀ js, (assemble js).code = (assemble is).code → js = is := by
  refine ⟨entries_assemble is, lines_assemble is, read_listing is, ?_, fun js => assemble_injective⟩
  intro L σ m within bytes
  rw [size, code_assemble] at *
  exact Machine.fetchEach_eq within bytes

/-- A push whose operand bytes all spell `ret`, and a return. -/
def pushRet : List Instr := [.push 0x0303030303030303, .ret]

/-- A machine in front of these two, which lie in the last ten bytes of its arena. -/
def beforePushRet : Machine .small Unit where
  arena := (Arena.initial .small).overlay (Layout.small.stop - 10) (assemble pushRet).code
  sink := ()
  ip := .ofNat (Layout.small.stop - 10)

/-- Two instructions are fetched, up to the end of the arena. -/
theorem decoding_agrees_pushRet :
    Machine.fetchEach 2 beforePushRet = .ok (placed (Layout.small.stop - 10) pushRet)
      { beforePushRet with ip := .ofNat Layout.small.stop } := by
  have ⟨start, within, bytes, behind⟩ : beforePushRet.ip.toNat = Layout.small.stop - 10 ∧
      Layout.small.Within beforePushRet.ip.toNat (assemble pushRet).size ∧
      beforePushRet.arena.bytes beforePushRet.ip.toNat (assemble pushRet).size =
        (assemble pushRet).code ∧
      beforePushRet.ip + .ofNat (assemble pushRet).size = .ofNat Layout.small.stop := by
    decide +kernel
  have fetched := (decoding_agrees pushRet).2.2.2.1 beforePushRet within bytes
  rwa [start, behind] at fetched

end Routine
end Osl
