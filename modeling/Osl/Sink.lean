import Osl.Word

/-!
# Where output goes

A sink takes the bytes that a program prints, one write at a time, and may refuse a write.
`Buffer` collects them in memory, up to a bound if it has one. `Spool` collects them in a file that
is there from `Spool.open?` until `Spool.finish` takes the output out. The file system is taken to
have room and to keep what is written: a write to a spool is not refused, and its output can be read
back as long as the file is there.
-/

namespace Osl
set_option autoImplicit false

/-- A state that takes writes. A refusal gives its reason; the state may change either way. -/
class Sink (σ : Type) where
  write : σ → List Byte → Except String Unit × σ

/-- Output collected in memory. With a bound, a write past it is refused as a whole. -/
structure Buffer where
  collected : Array Byte := #[]
  bound : Option Nat := none

namespace Buffer

/-- The bytes collected so far. -/
def toList (b : Buffer) : List Byte := b.collected.toList

/-- Whether `n` more bytes fit. -/
def hasRoom (b : Buffer) (n : Nat) : Bool := b.bound.all (b.collected.size + n ≤ ·)

/-- Appends bytes. -/
def append (b : Buffer) (bs : List Byte) : Buffer := { b with collected := b.collected ++ bs }

/-- The reason of a refusal. -/
def full : String := "sink full"

instance : Sink Buffer where
  write b bs := if b.hasRoom bs.length then (.ok (), b.append bs) else (.error full, b)

@[simp] theorem toList_append (b : Buffer) (bs : List Byte) :
    (b.append bs).toList = b.toList ++ bs := by simp [append, toList]

end Buffer

/-- The file of a sink could not be made, or it could not be read back and removed. -/
inductive SinkError
  | cannotOpen
  | cannotReadBack
  deriving DecidableEq

/-- The text of a sink error. In either case a file or directory is missing. -/
def SinkError.message : SinkError → String
  | .cannotOpen => "cannot open output sink: No such file or directory (os error 2)"
  | .cannotReadBack => "cannot read back output sink: No such file or directory (os error 2)"

/-- Output collected in a file. -/
structure Spool where
  file : Option Buffer

namespace Spool

/-- A new file, provided its directory is there. -/
def open? (hasDirectory : Bool) : Except SinkError Spool :=
  if hasDirectory then .ok ⟨some {}⟩ else .error .cannotOpen

/-- Whether the file is there. -/
def isOpen (s : Spool) : Bool := s.file.isSome

/-- The bytes collected so far. -/
def toList (s : Spool) : List Byte := (s.file.map Buffer.toList).getD []

instance : Sink Spool where
  write s bs := (.ok (), ⟨s.file.map (·.append bs)⟩)

/-- Takes the output out and removes the file. -/
def finish (s : Spool) : List Byte × Spool := (s.toList, ⟨none⟩)

/-- Takes the output out, provided the file is there. -/
def finish? (s : Spool) : Except SinkError (List Byte) :=
  if s.isOpen then .ok s.finish.1 else .error .cannotReadBack

theorem finish?_of_isOpen {s : Spool} (h : s.isOpen = true) : s.finish? = .ok s.finish.1 := if_pos h

theorem isOpen_of_open? {hasDirectory : Bool} {s : Spool} (h : open? hasDirectory = .ok s) :
    s.isOpen = true := by
  cases hasDirectory with
  | true => cases h; rfl
  | false => cases h

end Spool
end Osl
