import Osl.Word

/-!
# The log

The file that `print_log` copies to the output. It may be missing, or be something that cannot be
read; then nothing is copied.
-/

namespace Osl
set_option autoImplicit false

/-- What is found where the log should be. -/
inductive Log
  | missing
  | unreadable
  | file (content : List Byte)
  deriving DecidableEq

namespace Log

/-- The number of bytes copied at a time. -/
def pieceSize : Nat := 4096

/-- The bytes that can be read. -/
def content : Log → List Byte
  | .missing | .unreadable => []
  | .file content => content

/-- A byte string cut into pieces of full size, the last of which may be shorter. -/
def cut (bs : List Byte) : List (List Byte) :=
  (List.range ((bs.length + (pieceSize - 1)) / pieceSize)).map fun i =>
    (bs.drop (i * pieceSize)).take pieceSize

/-- The pieces in which the log is copied. -/
def pieces (log : Log) : List (List Byte) := cut log.content

end Log
end Osl
