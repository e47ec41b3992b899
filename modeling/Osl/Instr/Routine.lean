import Osl.Instr.Basic
import Osl.Text.Numeral

/-!
# Routines

A routine is the code of one statement. A builder collects encoded instructions and hands them out
as a routine; `Routine.assemble` does so for a whole list. `Routine.entries` cuts code into
instructions again, with the offset of each, and `Routine.listing` shows them.
-/

namespace Osl
set_option autoImplicit false

/-- The encoded instructions of one statement. -/
structure Routine where
  code : List Byte
  deriving DecidableEq

namespace Routine

/-- Code under construction. -/
structure Builder where
  code : Array Byte := #[]

/-- Appends an operation code and its operand, if one is given. -/
def Builder.emit (b : Builder) (op : Opcode) (operand : Option Word) : Builder :=
  ⟨b.code ++ op.emit operand⟩

/-- The number of bytes collected so far. -/
def Builder.size (b : Builder) : Nat := b.code.size

/-- Hands out what was collected and starts over. -/
def Builder.build (b : Builder) : Routine × Builder := (⟨b.code.toList⟩, {})

/-- The routine of a list of instructions. -/
def assemble (is : List Instr) : Routine :=
  (is.foldl (fun b i => b.emit i.opcode i.operand?) ({} : Builder)).build.1

/-- The number of bytes of a routine. -/
def size (r : Routine) : Nat := r.code.length

/-- What stands at one offset of a routine. -/
inductive Entry
  | instr (i : Instr)
  | unknown (byte : Byte)
  | truncated (op : Opcode)
  deriving DecidableEq

/-- What stands where `b` is followed by `bs`. -/
def Entry.read (b : Byte) (bs : List Byte) : Entry :=
  match Opcode.ofByte? b with
  | none => .unknown b
  | some op =>
    match op.form with
    | .bare i => .instr i
    | .withOperand make =>
      let operand := bs.take Word.size
      if operand.length = Word.size then .instr (make (Word.ofBytes operand)) else .truncated op

/-- How many bytes after the first belong to an entry; a truncated one claims its whole operand. -/
def Entry.operandSize : Entry → Nat
  | .instr i => i.opcode.operandSize
  | .unknown _ => 0
  | .truncated op => op.operandSize

/-- The entries of code that starts at an offset, after `skip` bytes that belong to the entry
before. -/
def entriesFrom (skip offset : Nat) : List Byte → List (Nat × Entry)
  | [] => []
  | b :: bs =>
    match skip with
    | skip + 1 => entriesFrom skip (offset + 1) bs
    | 0 =>
      let entry := Entry.read b bs
      (offset, entry) :: entriesFrom entry.operandSize (offset + 1) bs

/-- The entries of a routine with their offsets. -/
def entries (r : Routine) : List (Nat × Entry) := entriesFrom 0 0 r.code

/-- The text of an entry. -/
def Entry.text : Entry → String
  | .unknown byte => "OP_UNKNOWN " ++ Numeral.hexPadded 2 byte.toNat
  | .truncated op => op.mnemonic ++ " <truncated>"
  | .instr i =>
    match i.operand? with
    | none => i.opcode.mnemonic
    | some operand =>
      String.ofList (Numeral.padRight 12 i.opcode.mnemonic.toList) ++ " | " ++
        Numeral.hex operand.toNat

/-- The line that shows an entry at an offset. -/
def line (offset : Nat) (entry : Entry) : String :=
  Numeral.decimalPadded 4 offset ++ " | " ++ entry.text

/-- The lines that show a routine: a title, then one line for each entry. -/
def lines (r : Routine) (title : String) : List String :=
  ("==== " ++ title ++ " ====") :: r.entries.map fun (offset, entry) => line offset entry

/-- The listing of a routine, every line ended by a newline. -/
def listing (r : Routine) (title : String) : String :=
  String.join ((r.lines title).map (· ++ "\n"))

theorem foldl_emit_code (is : List Instr) (b : Builder) :
    (is.foldl (fun b i => b.emit i.opcode i.operand?) b).code.toList =
      b.code.toList ++ is.flatMap Instr.encode := by
  induction is generalizing b with
  | nil => simp
  | cons i is ih =>
    rw [List.foldl_cons, ih]
    simp [Builder.emit, Instr.encode]

/-- The code of an assembled routine is the code of its instructions in order. -/
@[simp] theorem code_assemble (is : List Instr) : (assemble is).code = is.flatMap Instr.encode := by
  simp [assemble, Builder.build, foldl_emit_code]

end Routine
end Osl
