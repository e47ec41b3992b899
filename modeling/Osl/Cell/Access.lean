import Osl.Arena.Basic
import Osl.Cell.Shape
import Osl.Text.Utf8

/-!
# Cells in the arena

Reading the value of a cell, and marking a cell free.
-/

namespace Osl
set_option autoImplicit false

variable {L : Layout}

/-- The address of the cell at an offset into the data section. -/
def Layout.cell (L : Layout) (slot : Nat) : Word := .ofNat (L.dataBase + slot)

/-- The value of the cell at an address. The content of a string is looked up where its first word
points, which may lie outside the arena. -/
def Value.read (a : Arena L) (cell : Word) : Except Fault Value := do
  let first ← a.readWord cell
  match Tag.of (← a.readWord (cell + 8)) with
  | .integer => return .integer first
  | .string length => return .string (← a.slice first length.toNat)

/-- Marks the cell at an address free: a string loses its length, an integer becomes the free
sentinel. The other word stays as it was. -/
def Arena.markFree (cell : Word) : Arena.Update L := fun a =>
  match a.readWord (cell + 8) with
  | .error f => .error f a
  | .ok second =>
    match Tag.of second with
    | .string _ => Arena.writeWord (cell + 8) 0 a
    | .integer => Arena.writeWord cell freeSentinel a

/-- A value as text: a number in decimal, the content of a string as UTF-8. -/
def Value.text : Value → String
  | .integer n => Numeral.decimal n.toNat
  | .string content => String.ofList (Utf8.lossy content)

end Osl
