import Osl.Syntax.Basic

/-!
# Instructions

The machine's instructions and their encoding. An instruction is one byte, its operation code,
followed by an operand word for those that take one. Zero is no operation code, so a zeroed code
section holds no instruction.
-/

namespace Osl
set_option autoImplicit false

/-- Operation codes. -/
inductive Opcode
  | enter
  | leave
  | ret
  | push
  | load
  | store
  | add
  | sub
  | mul
  | print
  | release
  | printLog
  deriving DecidableEq

/-- Instructions. A `cell` is the address of a cell. -/
inductive Instr
  /-- Go over to the scratch stack. -/
  | enter
  /-- Go back to the caller's stack. -/
  | leave
  /-- End the routine. -/
  | ret
  /-- Push a word. -/
  | push (word : Word)
  /-- Push the value of a cell. -/
  | load (cell : Word)
  /-- Pop a value into a cell. -/
  | store (cell : Word)
  /-- Combine the first words of the two topmost values. -/
  | arith (op : Arith)
  /-- Print the value of a cell and a newline. -/
  | print (cell : Word)
  /-- Mark a cell free. -/
  | release (cell : Word)
  /-- Print the log. -/
  | printLog
  deriving DecidableEq

/-- What an operation code gives: an instruction, or one as soon as its operand is known. -/
inductive Opcode.Form
  | bare (i : Instr)
  | withOperand (make : Word → Instr)

namespace Opcode

/-- All operation codes, in the order of their bytes. -/
def all : List Opcode :=
  [.enter, .leave, .ret, .push, .load, .store, .add, .sub, .mul, .print, .release, .printLog]

/-- The byte of an operation code. -/
def byte : Opcode → Byte
  | .enter => 1
  | .leave => 2
  | .ret => 3
  | .push => 4
  | .load => 5
  | .store => 6
  | .add => 7
  | .sub => 8
  | .mul => 9
  | .print => 10
  | .release => 11
  | .printLog => 12

/-- The operation code of a byte. -/
def ofByte? (b : Byte) : Option Opcode := all.find? (·.byte == b)

/-- What an operation code gives. -/
def form : Opcode → Form
  | .enter => .bare .enter
  | .leave => .bare .leave
  | .ret => .bare .ret
  | .push => .withOperand .push
  | .load => .withOperand .load
  | .store => .withOperand .store
  | .add => .bare (.arith .add)
  | .sub => .bare (.arith .sub)
  | .mul => .bare (.arith .mul)
  | .print => .withOperand .print
  | .release => .withOperand .release
  | .printLog => .bare .printLog

/-- The number of operand bytes after the operation code. -/
def operandSize (op : Opcode) : Nat :=
  match op.form with
  | .bare _ => 0
  | .withOperand _ => Word.size

/-- The name of an operation code in listings. -/
def mnemonic : Opcode → String
  | .enter => "OP_ENTER"
  | .leave => "OP_LEAVE"
  | .ret => "OP_RETURN"
  | .push => "OP_PUSH"
  | .load => "OP_LOAD"
  | .store => "OP_STORE"
  | .add => "OP_ADD"
  | .sub => "OP_SUB"
  | .mul => "OP_MUL"
  | .print => "OP_PRINT"
  | .release => "OP_RELEASE"
  | .printLog => "OP_PRINT_LOG"

/-- The bytes of an operation code and of the operand given with it. -/
def emit (op : Opcode) : Option Word → List Byte
  | none => [op.byte]
  | some operand => op.byte :: Word.bytes operand

/-- Every operation code is read back from its byte. -/
theorem ofByte?_byte (op : Opcode) : ofByte? op.byte = some op := by cases op <;> rfl

theorem byte_of_ofByte? {b : Byte} {op : Opcode} (h : ofByte? b = some op) : op.byte = b := by
  have := List.find?_some h
  simpa using this

end Opcode

namespace Instr

/-- The operation code of an instruction. -/
def opcode : Instr → Opcode
  | .enter => .enter
  | .leave => .leave
  | .ret => .ret
  | .push _ => .push
  | .load _ => .load
  | .store _ => .store
  | .arith .add => .add
  | .arith .sub => .sub
  | .arith .mul => .mul
  | .print _ => .print
  | .release _ => .release
  | .printLog => .printLog

/-- The operand of an instruction. -/
def operand? : Instr → Option Word
  | .push word => some word
  | .load cell | .store cell | .print cell | .release cell => some cell
  | .enter | .leave | .ret | .arith _ | .printLog => none

/-- The bytes of an instruction. -/
def encode (i : Instr) : List Byte := i.opcode.emit i.operand?

/-- An instruction without an operand is what its operation code gives at once. -/
theorem form_of_operand?_eq_none {i : Instr} (h : i.operand? = none) : i.opcode.form = .bare i := by
  cases i with
  | arith op => cases op <;> rfl
  | push | load | store | print | release => cases h
  | enter | leave | ret | printLog => rfl

/-- An instruction with an operand is what its operation code makes of it. -/
theorem form_of_operand?_eq_some {i : Instr} {w : Word} (h : i.operand? = some w) :
    ∃ make, i.opcode.form = .withOperand make ∧ make w = i := by
  cases i with
  | push | load | store | print | release => cases h; exact ⟨_, rfl, rfl⟩
  | enter | leave | ret | printLog | arith => cases h

end Instr
end Osl
