import Osl.Arena.Basic
import Osl.Cell.Shape
import Osl.Config.Basic

/-!
# A new arena

What the arena holds before the first statement: the saved stack pointer says that the scratch
stack is empty, every window of the data section is free, and all else is zero. `initial` gives these
bytes at once, and `reset` brings any arena to hold them, window by window.
-/

namespace Osl
set_option autoImplicit false

/-- Why no arena could be made. -/
inductive ArenaError
  | config (flaw : Config.Flaw)
  | reserve (size : Nat)
  deriving DecidableEq

/-- The text of an arena error. -/
def ArenaError.message : ArenaError → String
  | .config flaw => "invalid config: " ++ flaw.message
  | .reserve size =>
    "cannot reserve " ++ Numeral.decimal size ++ " bytes for the execution arena"

namespace Arena

/-- From this size on, memory for an arena cannot be reserved. -/
def reserveLimit : Nat := 0x1000000000000000

/-- The bytes of a free window: the sentinel, then zero. -/
def freeWindow : List Byte := Word.bytes freeSentinel ++ Word.bytes 0

/-- The bytes of a new arena, lowest address first. -/
def initialBytes (L : Layout) : List Byte :=
  (Word.bytes (.ofNat L.stackTop) ++ Word.bytes 0) ++
    (List.replicate (L.data / 16) freeWindow).flatten ++
      List.replicate (L.stack + L.code + L.literal) 0

theorem length_freeWindow : freeWindow.length = 16 := by simp [freeWindow]

theorem length_initialBytes (L : Layout) : (initialBytes L).length = L.size := by
  have := L.data_aligned
  simp only [initialBytes, List.length_append, Word.length_bytes, List.length_flatten,
    List.map_replicate, length_freeWindow, List.sum_replicate_nat, List.length_replicate,
    Layout.size]
  omega

/-- A new arena. -/
def initial (L : Layout) : Arena L := ⟨⟨(initialBytes L).toArray, by simp [length_initialBytes]⟩⟩

/-- The words, each with its address, that mark the windows from `cell` to the end of the data section
free. No more than `budget` windows are marked. -/
def marksFrom (L : Layout) : (budget : Nat) → (cell : Word) → List (Word × Word)
  | 0, _ => []
  | budget + 1, cell =>
    if cell.toNat < L.dataEnd then
      (cell, freeSentinel) :: (cell + 8, 0) :: marksFrom L budget (cell + 16)
    else []

/-- The words that mark every window free. A window is more than a byte, so the budget suffices. -/
def marks (L : Layout) : List (Word × Word) := marksFrom L L.data (.ofNat L.dataBase)

/-- Replaces a word that is known to lie in the arena. -/
def poke {L : Layout} (a : Arena L) (p w : Word) : Arena L := a.overlay p.toNat (Word.bytes w)

/-- The arena after words have been written to their addresses, one after another. -/
def pokeEach {L : Layout} (a : Arena L) (ws : List (Word × Word)) : Arena L :=
  ws.foldl (fun a pw => a.poke pw.1 pw.2) a

/-- The arena with every byte zero. -/
def zeroed {L : Layout} (a : Arena L) : Arena L := ⟨a.memory.map fun _ => 0⟩

/-- Brings an arena back to its initial contents: all bytes are zeroed, every window is marked free, and
the top of the scratch stack is saved. -/
def reset {L : Layout} (a : Arena L) : Arena L :=
  (a.zeroed.pokeEach (marks L)).poke (.ofNat L.savedSp) (.ofNat L.stackTop)

/-- Reserves the memory that a configuration asks for; it is all zero. -/
def create (c : Config) : Except ArenaError ((L : Layout) × Arena L) :=
  match c.layout with
  | .error flaw => .error (.config flaw)
  | .ok L =>
    if L.size < reserveLimit then .ok ⟨L, ⟨Vector.replicate L.size 0⟩⟩
    else .error (.reserve L.size)

end Arena
end Osl
