import Osl.Cell.Access
import Osl.Text.Quoted

/-!
# Slots of variables

A slot is the offset of a cell into the data section. The table binds names to slots. A name that
is not bound gets the first free window, found by walking over the windows from the start of the
section and judging each by the words it holds; nothing else records which windows are taken.
-/

namespace Osl
set_option autoImplicit false

/-- The slots bound to names. -/
structure Slots where
  bindings : List (String × Nat) := []
  deriving DecidableEq

/-- Why a name has no slot. -/
inductive SlotError
  | invalidName (name : String)
  | exhausted (name : String)
  deriving DecidableEq

/-- The text of a slot error. -/
def SlotError.message : SlotError → String
  | .invalidName name =>
    "invalid variable name " ++ Quoted.quote name ++ ": names are exactly one character long"
  | .exhausted name => "data section exhausted while binding " ++ Quoted.quote name

namespace Slots

variable {L : Layout}

/-- The slot bound to a name. -/
def lookup (t : Slots) (name : String) : Option Nat := t.bindings.lookup name

/-- The table with one more binding. -/
def bind (t : Slots) (name : String) (slot : Nat) : Slots := ⟨(name, slot) :: t.bindings⟩

/-- The table without the binding of a name. -/
def erase (t : Slots) (name : String) : Slots := ⟨t.bindings.filter (·.1 != name)⟩

/-- The shape of the window at an offset into the data section, if its words can be read. -/
def shapeAt (a : Arena L) (offset : Nat) : Option Shape := do
  let first ← (a.readWord (L.cell offset)).toOption
  let second ← (a.readWord (L.cell (offset + 8))).toOption
  return Shape.classify first second

/-- The first free window at or after `offset`, looking at no more than `windows` of them. -/
def firstFreeFrom (a : Arena L) : (windows : Nat) → (offset : Nat) → Option Nat
  | 0, _ => none
  | windows + 1, offset =>
    if L.data ≤ offset then none
    else match shapeAt a offset with
      | none => none
      | some .free => some offset
      | some shape => firstFreeFrom a windows (offset + shape.span)

/-- The first free window of the data section. Every window takes up at least sixteen bytes. -/
def firstFree (a : Arena L) : Option Nat := firstFreeFrom a (L.data / 16) 0

/-- The slot of a name, bound to the first free window if it has none yet. Only names of a single
byte have slots. -/
def slotFor (t : Slots) (a : Arena L) (name : String) : Except SlotError (Nat × Slots) :=
  if name.utf8ByteSize ≠ 1 then .error (.invalidName name)
  else match t.lookup name with
    | some slot => .ok (slot, t)
    | none => match firstFree a with
      | some slot => .ok (slot, t.bind name slot)
      | none => .error (.exhausted name)

/-- Forgets the binding of a name and gives the slot it had; a name without a binding is first
given one. The cell itself stays as it is. -/
def release (t : Slots) (a : Arena L) (name : String) : Except SlotError (Nat × Slots) := do
  let (slot, t) ← t.slotFor a name
  return (slot, t.erase name)

theorem lookup_bind_self (t : Slots) (name : String) (slot : Nat) :
    (t.bind name slot).lookup name = some slot := by
  rw [lookup, bind, List.lookup_cons, beq_self_eq_true]

theorem lookup_bind_of_ne (t : Slots) {name other : String} (slot : Nat) (h : other ≠ name) :
    (t.bind name slot).lookup other = t.lookup other := by
  rw [lookup, bind, List.lookup_cons, beq_false_of_ne h]; rfl

end Slots
end Osl
