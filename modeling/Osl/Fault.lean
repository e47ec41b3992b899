import Osl.Text.Numeral
import Osl.Word

/-!
# Faults

What can stop the machine in the middle of a routine.
-/

namespace Osl
set_option autoImplicit false

/-- Why a routine was stopped. -/
inductive Fault
  /-- An access of `len` bytes at `address` is not inside the arena. -/
  | memory (address : Word) (len : Nat)
  /-- A push would put the stack pointer at `sp`, outside the scratch stack. -/
  | stackOverflow (sp : Word)
  /-- A word above `sp` is not on the scratch stack. -/
  | stackUnderflow (sp : Word)
  /-- The byte at `address` is no operation code. -/
  | illegalInstruction (address : Word) (byte : Byte)
  /-- Leaving found a stack pointer other than the caller's. -/
  | stackSwitch (expected found : Word)
  /-- The sink refused a write. -/
  | sink (reason : String)
  deriving DecidableEq

/-- The text of a fault. -/
def Fault.message : Fault → String
  | .memory address len =>
    "memory fault: " ++ Numeral.decimal len ++ " bytes at " ++ Numeral.hex address.toNat ++
      " are outside the arena"
  | .stackOverflow sp => "scratch stack overflow (sp = " ++ Numeral.hex sp.toNat ++ ")"
  | .stackUnderflow sp => "scratch stack underflow (sp = " ++ Numeral.hex sp.toNat ++ ")"
  | .illegalInstruction address byte =>
    "illegal instruction " ++ Numeral.hexPadded 2 byte.toNat ++ " at " ++
      Numeral.hex address.toNat
  | .stackSwitch expected found =>
    "stack switch corrupted: expected caller sp " ++ Numeral.hex expected.toNat ++ ", found " ++
      Numeral.hex found.toNat
  | .sink reason => "cannot write to the output sink: " ++ reason

end Osl
