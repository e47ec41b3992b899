import Osl.Word

/-!
# UTF-8 text

`encode` writes characters as bytes. `pieces` reads bytes one by one and gives a character for
each well-formed sequence and `none` for each maximal ill-formed part: the longest stretch that
begins some well-formed sequence but is not continued by the next byte, or a single byte that
begins none. `decode?` accepts well-formed text only, `lossy` puts the replacement character for
every ill-formed part.
-/

namespace Osl.Utf8
set_option autoImplicit false

/-- The bytes of a text. -/
def encode (cs : List Char) : List Byte := cs.flatMap String.utf8EncodeChar

/-- A sequence whose lead byte has been read: the bits so far, how many bytes are missing, and the
range the next one must lie in. -/
structure Opening where
  bits : Nat
  missing : Nat
  low : Nat := 0x80
  high : Nat := 0xbf

/-- What a byte is at the start of a sequence. -/
inductive Lead
  | whole (c : Char)
  | opening (p : Opening)
  | illFormed

/-- The lead bytes of well-formed sequences. The narrowed ranges keep out overlong forms,
surrogates and numbers past the last code point. -/
def Lead.of (b : Nat) : Lead :=
  if b < 0x80 then .whole (Char.ofNat b)
  else if b < 0xc2 then .illFormed
  else if b < 0xe0 then .opening ⟨b - 0xc0, 1, 0x80, 0xbf⟩
  else if b = 0xe0 then .opening ⟨0, 2, 0xa0, 0xbf⟩
  else if b = 0xed then .opening ⟨0xd, 2, 0x80, 0x9f⟩
  else if b < 0xf0 then .opening ⟨b - 0xe0, 2, 0x80, 0xbf⟩
  else if b = 0xf0 then .opening ⟨0, 3, 0x90, 0xbf⟩
  else if b < 0xf4 then .opening ⟨b - 0xf0, 3, 0x80, 0xbf⟩
  else if b = 0xf4 then .opening ⟨4, 3, 0x80, 0x8f⟩
  else .illFormed

/-- Reading a byte at the start of a sequence: what stays open, and what is complete. -/
def start (b : Nat) : Option Opening × List (Option Char) :=
  match Lead.of b with
  | .whole c => (none, [some c])
  | .opening p => (some p, [])
  | .illFormed => (none, [none])

/-- Reading a byte inside a sequence. A byte that does not continue it closes it as ill-formed and
starts the next one. -/
def Opening.next (p : Opening) (b : Nat) : Option Opening × List (Option Char) :=
  if p.low ≤ b ∧ b ≤ p.high then
    let bits := p.bits * 64 + (b - 0x80)
    if p.missing ≤ 1 then (none, [some (Char.ofNat bits)])
    else (some { bits, missing := p.missing - 1 }, [])
  else
    let (rest, out) := start b
    (rest, none :: out)

/-- The pieces of a byte string read while `p` stands open. -/
def piecesFrom : Option Opening → List Byte → List (Option Char)
  | none, [] => []
  | some _, [] => [none]
  | none, b :: bs => let (p, out) := start b.toNat; out ++ piecesFrom p bs
  | some p, b :: bs => let (p, out) := p.next b.toNat; out ++ piecesFrom p bs

/-- The characters of a byte string, with `none` for every maximal ill-formed part. -/
def pieces (bs : List Byte) : List (Option Char) := piecesFrom none bs

/-- The text of a well-formed byte string. -/
def decode? (bs : List Byte) : Option (List Char) := (pieces bs).mapM id

/-- The character that stands for an ill-formed part. -/
def replacement : Char := '\ufffd'

/-- The text of any byte string, ill-formed parts replaced. -/
def lossy (bs : List Byte) : List Char := (pieces bs).map (·.getD replacement)

end Osl.Utf8
