import Osl.Instr.Routine
import Osl.Literals
import Osl.Slots

/-!
# Compiling statements

`Statement.compile` turns a statement into a routine. Compiling works on the arena as well: names
get slots and string literals are laid into the literal section as they are met, and that work
stays done when a later step fails.

The code of an expression leaves its value on top of the stack. An operator finds its left operand
topmost, so the right one is computed first. A routine enters the scratch stack, does its work,
leaves the scratch stack and returns.
-/

namespace Osl
set_option autoImplicit false

/-- What compiling works on. -/
structure Workspace (L : Layout) where
  arena : Arena L
  slots : Slots
  literals : Literals L

/-- Why a statement has no routine. -/
inductive CompileError
  | slot (e : SlotError)
  | literal (e : LiteralOverflow)
  | codeOverflow (size capacity : Nat)
  deriving DecidableEq

/-- The text of a compile error. -/
def CompileError.message : CompileError → String
  | .slot e => e.message
  | .literal e =>
    "literal section exhausted: " ++ Numeral.decimal e.needed ++ " more bytes requested, " ++
      Numeral.decimal e.remaining ++ " left"
  | .codeOverflow size capacity =>
    "routine of " ++ Numeral.decimal size ++ " bytes does not fit the " ++
      Numeral.decimal capacity ++ " byte code section"

/-- Work on a workspace that may fail; what was done before a failure stays done. -/
abbrev Compile (L : Layout) := EStateM CompileError (Workspace L)

namespace Compile

variable {L : Layout}

/-- The address of the cell of a name, which is bound if need be. -/
def cellOf (name : String) : Compile L Word := do
  let w ← get
  match w.slots.slotFor w.arena name with
  | .error e => throw (.slot e)
  | .ok (slot, slots) =>
    set { w with slots }
    return L.cell slot

/-- The address of the cell that a name gives up. -/
def releasedCellOf (name : String) : Compile L Word := do
  let w ← get
  match w.slots.release w.arena name with
  | .error e => throw (.slot e)
  | .ok (slot, slots) =>
    set { w with slots }
    return L.cell slot

/-- The header of a string literal, its content laid into the literal section. -/
def intern (content : List Byte) : Compile L Header := do
  let w ← get
  match w.literals.intern content w.arena with
  | .error e arena =>
    set { w with arena }
    throw (.literal e)
  | .ok (header, literals) arena =>
    set { w with literals, arena }
    return header

/-- The code that pushes an integer. -/
def pushInt (n : Word) : List Instr := [.push 0, .push n]

/-- The code that pushes a string header, so that its address ends up topmost. -/
def pushHeader (h : Header) : List Instr := h.words.reverse.map .push

end Compile

open Compile

variable {L : Layout}

/-- The code that pushes the value of an expression. -/
def Expr.code : Expr → Compile L (List Instr)
  | .int n => return pushInt n
  | .str content => return pushHeader (← intern content)
  | .var name => return [.load (← cellOf name)]
  | .arith op l r => do
    let right ← r.code
    let left ← l.code
    return right ++ (left ++ [.arith op])
  | .neg e => return (← e.code) ++ (pushInt 0 ++ [.arith .sub])

/-- The code that does the work of a statement. -/
def Statement.body : Statement → Compile L (List Instr)
  | .assign target e => do
    let value ← e.code
    return value ++ [.store (← cellOf target)]
  | .print name => return [.print (← cellOf name)]
  | .delete name => return [.release (← releasedCellOf name)]
  | .printLog => return [.printLog]

/-- The code of a routine that does the given work. -/
def framed (body : List Instr) : List Instr := .enter :: (body ++ [.leave, .ret])

/-- The routine of a statement, if it fits the code section. -/
def Statement.compile (s : Statement) : Compile L Routine := do
  let routine := Routine.assemble (framed (← s.body))
  if L.code < routine.size then throw (.codeOverflow routine.size L.code)
  return routine

end Osl
