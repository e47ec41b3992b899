import Osl.Cell.Access
import Osl.Instr.Basic
import Osl.Log
import Osl.Sink

/-!
# The machine

The machine runs the code in the code section of an arena. It has an instruction pointer and a
stack pointer. The scratch stack grows down in words, and a value on it is laid out like a cell: an
integer as two words, a string as four, the first word topmost. Loads and stores copy words and do
not look at what they mean, and arithmetic works on the two words where two integers would lie.

While a routine is entered, the saved stack pointer's cell holds the caller's stack pointer and the
machine the scratch stack's; entering and leaving exchange the two. `Machine.run` runs a routine
from the start of the code section until it returns or faults, and after a fault exchanges them
back if the routine had been entered.
-/

namespace Osl
set_option autoImplicit false

/-- The state of the machine. -/
structure Machine (L : Layout) (σ : Type) where
  arena : Arena L
  sink : σ
  /-- The address of the next instruction. -/
  ip : Word := .ofNat L.codeBase
  /-- The stack pointer. -/
  sp : Word := 0
  /-- Whether the scratch stack is in use. -/
  entered : Bool := false

/-- Work of the machine. A fault leaves the state as it was when the fault arose. -/
abbrev Exec (L : Layout) (σ : Type) := EStateM Fault (Machine L σ)

namespace Machine

variable {L : Layout} {σ : Type}

/-- The stack pointer of the caller, who has no scratch stack. -/
def callerSp : Word := 0

/-- Reads from the arena. -/
def reading {α : Type} (f : Arena L → Except Fault α) : Exec L σ α := fun m =>
  match f m.arena with
  | .ok v => .ok v m
  | .error e => .error e m

/-- Changes the arena. -/
def update (f : Arena.Update L) : Exec L σ Unit := fun ⟨arena, sink, ip, sp, entered⟩ =>
  match f arena with
  | .ok () arena => .ok () ⟨arena, sink, ip, sp, entered⟩
  | .error e arena => .error e ⟨arena, sink, ip, sp, entered⟩

/-- Writes to the sink. -/
def emit [Sink σ] (bs : List Byte) : Exec L σ Unit := fun ⟨arena, sink, ip, sp, entered⟩ =>
  match Sink.write sink bs with
  | (.ok (), sink) => .ok () ⟨arena, sink, ip, sp, entered⟩
  | (.error reason, sink) => .error (.sink reason) ⟨arena, sink, ip, sp, entered⟩

/-- The word at an address. -/
def readWord (p : Word) : Exec L σ Word := reading (·.readWord p)

/-- Replaces the word at an address. -/
def writeWord (p w : Word) : Exec L σ Unit := update (Arena.writeWord p w)

/-- Exchanges the stack pointer with the saved one. -/
def swapStack (m : Machine L σ) : Machine L σ :=
  { m with
    sp := m.arena.wordAt L.savedSp
    arena := m.arena.overlay L.savedSp (Word.bytes m.sp) }

/-- Puts the stacks back after a fault, so that the saved stack pointer is the scratch stack's. -/
def unwind (m : Machine L σ) : Machine L σ :=
  if m.entered then swapStack { m with entered := false } else m

/-- Pushes a word. -/
def push (w : Word) : Exec L σ Unit := do
  let sp := (← get).sp - 8
  if sp.toNat < L.stackBase ∨ L.stackTop ≤ sp.toNat then throw (.stackOverflow sp)
  writeWord sp w
  modify fun m => { m with sp }

/-- The word that lies `offset` bytes above the top of the stack. -/
def peek (offset : Word) : Exec L σ Word := do
  let sp := (← get).sp
  if sp.toNat < L.stackBase ∨ L.stackTop < sp.toNat + offset.toNat + 8 then
    throw (.stackUnderflow sp)
  readWord (sp + offset)

/-- Pops a word. -/
def pop : Exec L σ Word := do
  let w ← peek 0
  modify fun m => { m with sp := m.sp + 8 }
  return w

/-- Drops `n` bytes from the stack. -/
def drop (n : Word) : Exec L σ Unit := do
  let sp := (← get).sp
  if L.stackTop < sp.toNat + n.toNat then throw (.stackUnderflow (sp + n))
  modify fun m => { m with sp := m.sp + n }

/-- Pops a word to an address. -/
def popTo (p : Word) : Exec L σ Unit := do writeWord p (← pop)

/-- Combines the word on top of the stack with the one sixteen bytes above it; three words go and
the result comes. Of two integers that leaves an integer, as the second word of the right operand
stays where it was. -/
def arith (op : Arith) : Exec L σ Unit := do
  let left ← peek 0
  let right ← peek 16
  drop 24
  push (op.apply left right)

/-- Pushes the value of a cell, its last word first. -/
def load (cell : Word) : Exec L σ Unit := do
  match Tag.of (← readWord (cell + 8)) with
  | .integer =>
    push 0
    push (← readWord cell)
  | .string _ =>
    push (← readWord (cell + 24))
    push (← readWord (cell + 16))
    push (← readWord (cell + 8))
    push (← readWord cell)

/-- Stores the string of the given length that lies on top of the stack.

If the string in the cell is at least as long, the new content is copied over the old one and the
cell keeps its header. Otherwise a content of up to sixteen bytes moves into the cell, and a longer
one stays where it is and the cell takes over the header. Lengths compare as signed words. -/
def storeString (cell length : Word) : Exec L σ Unit := do
  let current ← readWord (cell + 8)
  if Word.signedLe length current then
    let target ← readWord cell
    let source ← pop
    drop 24
    update (Arena.copy source target length.toNat)
  else if Word.signedLe length (.ofNat inlineCapacity) then
    let _ ← pop
    writeWord cell (cell + 16)
    popTo (cell + 8)
    popTo (cell + 16)
    popTo (cell + 24)
  else
    popTo cell
    popTo (cell + 8)
    popTo (cell + 16)
    popTo (cell + 24)

/-- Pops a value into a cell. -/
def store (cell : Word) : Exec L σ Unit := do
  match Tag.of (← peek 8) with
  | .integer =>
    popTo cell
    popTo (cell + 8)
  | .string length => storeString cell length

/-- Prints the value of a cell and a newline. The digits of an integer are laid over the cell and
written from there; afterwards the first word is put back, but digits past it stay. -/
def print [Sink σ] (cell : Word) : Exec L σ Unit := do
  let first ← readWord cell
  match Tag.of (← readWord (cell + 8)) with
  | .string length => emit (← reading (·.slice first length.toNat))
  | .integer =>
    let digits := Numeral.decimalBytes first.toNat
    update (Arena.write cell digits)
    emit (← reading (·.slice cell digits.length))
    writeWord cell first
  emit ['\n'.toUInt8]

/-- Copies the log to the sink. -/
def printLog [Sink σ] (log : Log) : Exec L σ Unit := log.pieces.forM emit

/-- Leaves the scratch stack; what is found must be the caller's stack pointer. -/
def leave : Exec L σ Unit := do
  modify fun m => { swapStack m with entered := false }
  let sp := (← get).sp
  if sp ≠ callerSp then throw (.stackSwitch callerSp sp)

/-- Reads the operation code at the instruction pointer and goes past it. -/
def fetchOpcode : Exec L σ Opcode := do
  let ip := (← get).ip
  let byte ← reading (·.readByte ip)
  match Opcode.ofByte? byte with
  | none => throw (.illegalInstruction ip byte)
  | some op =>
    modify fun m => { m with ip := m.ip + 1 }
    return op

/-- Reads the operand at the instruction pointer and goes past it. -/
def fetchOperand : Exec L σ Word := do
  let word ← readWord (← get).ip
  modify fun m => { m with ip := m.ip + 8 }
  return word

/-- Reads the instruction at the instruction pointer and goes past it. -/
def fetch : Exec L σ Instr := do
  match (← fetchOpcode).form with
  | .bare i => return i
  | .withOperand make => return make (← fetchOperand)

/-- Executes an instruction; returning gives a status. -/
def exec [Sink σ] (log : Log) : Instr → Exec L σ (Option Word)
  | .enter => do
    modify fun m => { swapStack m with entered := true }
    return none
  | .leave => do
    leave
    return none
  | .ret => return some 0
  | .push word => do
    push word
    return none
  | .load cell => do
    load cell
    return none
  | .store cell => do
    store cell
    return none
  | .arith op => do
    arith op
    return none
  | .print cell => do
    print cell
    return none
  | .release cell => do
    update (Arena.markFree cell)
    return none
  | .printLog => do
    printLog log
    return none

/-- One step: fetches an instruction and executes it. -/
def step [Sink σ] (log : Log) : Exec L σ (Option Word) := do exec log (← fetch)

/-- Runs for at most `n` steps; gives no status if the routine has not returned by then. -/
def runFor [Sink σ] (log : Log) : (n : Nat) → Exec L σ (Option Word)
  | 0 => return none
  | n + 1 => do
    match ← step log with
    | some status => return some status
    | none => runFor log n

/-- The number of steps after which every routine has returned or faulted: the instruction pointer
moves on at every step, and no instruction lies past the arena. -/
def stepBound (L : Layout) : Nat := L.stop - L.codeBase + 1

/-- Runs the routine at the start of the code section until it returns, and gives its status. -/
def run [Sink σ] (log : Log) : Exec L σ Word := fun m =>
  match runFor log (stepBound L)
      { m with ip := .ofNat L.codeBase, sp := callerSp, entered := false } with
  | .ok status m => .ok (status.getD 0) m
  | .error fault m => .error fault m.unwind

end Machine
end Osl
