/-!
# Where the sections of an arena lie

An arena is one stretch of addresses, cut into the saved stack pointer's cell and four sections
that follow each other without gaps:

    base        saved stack pointer, 16 bytes
    dataBase    cells of variables
    stackBase   scratch stack, growing down from stackTop
    codeBase    the routine being run
    literalBase contents of string literals
    stop        first address past the arena

Every boundary is a multiple of 16 and all addresses are positive as signed words, so an address
is told from a small or negative integer by its size alone.
-/

namespace Osl
set_option autoImplicit false

/-- Words above this may be addresses; smaller ones are never taken for one. -/
def addressThreshold : Nat := 0x100000

/-- The placement of an arena: its base and the sizes of its sections. -/
structure Layout where
  base : Nat
  data : Nat
  stack : Nat
  code : Nat
  literal : Nat
  base_aligned : base % 16 = 0
  data_aligned : data % 16 = 0
  stack_aligned : stack % 16 = 0
  code_aligned : code % 16 = 0
  literal_aligned : literal % 16 = 0
  base_high : addressThreshold < base
  data_holds_string : 32 ≤ data
  stack_pos : 0 < stack
  code_pos : 0 < code
  literal_pos : 0 < literal
  below_sign : base + (16 + data + stack + code + literal) < 0x8000000000000000

namespace Layout

variable (L : Layout)

/-- The number of bytes of the whole arena. -/
def size : Nat := 16 + L.data + L.stack + L.code + L.literal

/-- The address of the saved stack pointer. -/
def savedSp : Nat := L.base

/-- The first address of the data section. -/
def dataBase : Nat := L.base + 16

/-- The first address past the data section. -/
def dataEnd : Nat := L.dataBase + L.data

/-- The lowest address of the scratch stack. -/
def stackBase : Nat := L.dataEnd

/-- The stack pointer of an empty scratch stack. -/
def stackTop : Nat := L.stackBase + L.stack

/-- The first address of the code section. -/
def codeBase : Nat := L.stackTop

/-- The first address of the literal section. -/
def literalBase : Nat := L.codeBase + L.code

/-- The first address past the arena. -/
def stop : Nat := L.literalBase + L.literal

/-- The `n` bytes from `p` on lie in the arena. -/
def Within (p n : Nat) : Prop := L.base ≤ p ∧ p + n ≤ L.stop

instance (p n : Nat) : Decidable (L.Within p n) := inferInstanceAs (Decidable (_ ∧ _))

theorem stop_eq : L.stop = L.base + L.size := by
  simp only [stop, literalBase, codeBase, stackTop, stackBase, dataEnd, dataBase, size]
  omega

theorem stop_lt : L.stop < 0x8000000000000000 := by
  have := L.below_sign
  rw [stop_eq, size]
  exact this

theorem stackBase_eq : L.stackBase = L.dataBase + L.data := rfl

theorem codeBase_eq : L.codeBase = L.stackBase + L.stack := rfl

/-- The sections follow each other in order and stay in the arena. -/
theorem ordered : L.base < L.dataBase ∧ L.dataBase < L.stackBase ∧ L.stackBase < L.codeBase ∧
    L.codeBase < L.literalBase ∧ L.literalBase < L.stop := by
  have := L.data_holds_string
  have := L.stack_pos
  have := L.code_pos
  have := L.literal_pos
  simp only [stop, literalBase, codeBase, stackTop, stackBase, dataEnd, dataBase]
  omega

/-- Every boundary between sections is a multiple of 16. -/
theorem aligned : L.dataBase % 16 = 0 ∧ L.stackBase % 16 = 0 ∧ L.codeBase % 16 = 0 ∧
    L.literalBase % 16 = 0 ∧ L.stop % 16 = 0 := by
  have := L.base_aligned
  have := L.data_aligned
  have := L.stack_aligned
  have := L.code_aligned
  have := L.literal_aligned
  simp only [stop, literalBase, codeBase, stackTop, stackBase, dataEnd, dataBase]
  omega

end Layout
end Osl
