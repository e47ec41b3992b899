import Osl.Arena.Basic
import Osl.Cell.Shape

/-!
# String literals

The contents of string literals are laid one after another into the literal section, each followed
by a zero byte. Nothing is ever taken out, so cells may keep pointing at them.
-/

namespace Osl
set_option autoImplicit false

/-- How much of the literal section of a layout is in use: everything below `next`. -/
structure Literals (L : Layout) where
  next : Nat
  low : L.literalBase ≤ next
  high : next ≤ L.stop
  deriving DecidableEq

/-- The literal section has no room for `needed` bytes. -/
structure LiteralOverflow where
  needed : Nat
  remaining : Nat
  deriving DecidableEq

namespace Literals

variable {L : Layout}

/-- The literal section before the first literal. -/
def empty (L : Layout) : Literals L := ⟨L.literalBase, Nat.le_refl _, Nat.le_add_right _ _⟩

/-- The bytes still free. -/
def remaining (p : Literals L) : Nat := L.stop - p.next

/-- Writes a content and a zero byte behind it. -/
def store (address : Word) (content : List Byte) : Arena.Update L := do
  Arena.write address content
  Arena.writeByte (address + .ofNat content.length) 0

/-- Lays a content and a zero byte into the literal section and gives the header of the string. A
write that faults is reported as a lack of room. -/
def intern (p : Literals L) (content : List Byte) :
    EStateM LiteralOverflow (Arena L) (Header × Literals L) := fun a =>
  let needed := content.length + 1
  let address : Word := .ofNat p.next
  if h : p.next + needed ≤ L.stop then
    match store address content a with
    | .error _ a => .error ⟨needed, p.remaining⟩ a
    | .ok () a =>
      .ok (Header.of address content,
        ⟨p.next + needed, Nat.le_trans p.low (Nat.le_add_right _ _), h⟩) a
  else .error ⟨needed, p.remaining⟩ a

end Literals
end Osl
