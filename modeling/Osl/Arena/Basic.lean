import Osl.Fault
import Osl.Layout

/-!
# The arena

The memory in which cells, scratch stack, routines and literals lie. It is seen through
`Arena.byte`, the byte at an address. `set`, `overlay` and `forwardCopy` change bytes and ignore
addresses outside the arena. `slice`, `write` and `copy` first check that all bytes asked for lie
inside, and fault otherwise; a fault leaves the arena as it was. The check is `Layout.range`, which
reckons in words and so has to look out for sums that overflow.
-/

namespace Osl
set_option autoImplicit false

/-- How far behind the base the `n` bytes from `p` on start, if they lie in the arena. -/
def Layout.offset? (L : Layout) (p : Word) (n : Nat) : Option Nat := do
  let start ← Word.sub? p (.ofNat L.base)
  let stop ← Word.add? start (← Word.ofNat? n)
  if L.size < stop.toNat then none else some start.toNat

/-- Where the `n` bytes from `p` on start, if they lie in the arena. -/
def Layout.range (L : Layout) (p : Word) (n : Nat) : Except Fault Nat :=
  match L.offset? p n with
  | some start => .ok (L.base + start)
  | none => .error (.memory p n)

/-- The contents of an arena with the given layout. -/
structure Arena (L : Layout) where
  memory : Vector Byte L.size

namespace Arena

/-- A change of an arena that may fault. It tells what becomes of the arena in either case. -/
abbrev Update (L : Layout) := EStateM Fault (Arena L) Unit

variable {L : Layout}

/-- The byte at an address; zero outside the arena. -/
def byte (a : Arena L) (p : Nat) : Byte :=
  if h : L.base ≤ p ∧ p - L.base < L.size then a.memory[p - L.base] else 0

/-- The arena with one byte changed. -/
def set (a : Arena L) (p : Nat) (b : Byte) : Arena L :=
  if L.base ≤ p then ⟨a.memory.setIfInBounds (p - L.base) b⟩ else a

/-- The `n` bytes from `p` on. -/
def bytes (a : Arena L) (p n : Nat) : List Byte := (List.range n).map fun i => a.byte (p + i)

/-- The word at an address, lowest byte first. -/
def wordAt (a : Arena L) (p : Nat) : Word := Word.ofBytes (a.bytes p Word.size)

/-- The arena with the bytes from `p` on replaced by `bs`. -/
def overlay (a : Arena L) (p : Nat) : List Byte → Arena L
  | [] => a
  | b :: bs => (a.set p b).overlay (p + 1) bs

/-- Copies `n` bytes from `src` on to `dst` one at a time, lowest address first, so a byte may be
read after it has been overwritten. -/
def forwardCopy (a : Arena L) (src dst : Nat) : Nat → Arena L
  | 0 => a
  | n + 1 => (a.set dst (a.byte src)).forwardCopy (src + 1) (dst + 1) n

/-- The `n` bytes from `p` on, if they lie in the arena. -/
def slice (a : Arena L) (p : Word) (n : Nat) : Except Fault (List Byte) :=
  (L.range p n).map fun start => a.bytes start n

/-- The byte at `p`, if it lies in the arena. -/
def readByte (a : Arena L) (p : Word) : Except Fault Byte := (L.range p 1).map a.byte

/-- The word at `p`, if it lies in the arena. -/
def readWord (a : Arena L) (p : Word) : Except Fault Word := (L.range p 8).map a.wordAt

/-- Replaces the bytes from `p` on by `bs`, if they lie in the arena. -/
def write (p : Word) (bs : List Byte) : Update L := fun a =>
  match L.range p bs.length with
  | .ok start => .ok () (a.overlay start bs)
  | .error f => .error f a

/-- Replaces the byte at `p`. -/
def writeByte (p : Word) (b : Byte) : Update L := write p [b]

/-- Replaces the word at `p`. -/
def writeWord (p w : Word) : Update L := write p (Word.bytes w)

/-- Copies `n` bytes from `src` to `dst`, lowest address first, if both ranges lie in the arena. -/
def copy (src dst : Word) (n : Nat) : Update L := fun a =>
  match L.range src n with
  | .error f => .error f a
  | .ok source =>
    match L.range dst n with
    | .error f => .error f a
    | .ok target => .ok () (a.forwardCopy source target n)

/-- Zeroes the code section. -/
def clearCode (a : Arena L) : Arena L := a.overlay L.codeBase (List.replicate L.code 0)

end Arena
end Osl
