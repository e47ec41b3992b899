import Osl.Layout
import Osl.Word
import Osl.Text.Numeral

/-!
# Configurations

A configuration asks for an arena: where it starts, how large its sections are, and in which
directory output is collected. `Config.layout` grants the layout if the request is sound and names
the first flaw otherwise.
-/

namespace Osl
set_option autoImplicit false

/-- The sections whose sizes a configuration sets. -/
inductive Section
  | data
  | stack
  | code
  | literal
  deriving DecidableEq

/-- The name of the setting that sizes a section. -/
def Section.setting : Section → String
  | .data => "data_section_size"
  | .stack => "stack_section_size"
  | .code => "code_section_size"
  | .literal => "literal_section_size"

/-- A request for an arena, with defaults. Without a directory, output is collected where the
system keeps temporary files. -/
structure Config where
  base : Word := 0x60000000
  data : Word := 0x200
  stack : Word := 0x500
  code : Word := 0x2000
  literal : Word := 0x1000
  sinkDir : Option String := none
  deriving DecidableEq

namespace Config

/-- Why a configuration asks for no sound arena. -/
inductive Flaw
  | sectionSize (which : Section) (size : Word)
  | noStringCell
  | baseAddress (base : Word)
  | sizeOverflow
  | beyondSignBit
  deriving DecidableEq

/-- The text of a flaw. -/
def Flaw.message : Flaw → String
  | .sectionSize s size =>
    s.setting ++ " must be a non-zero multiple of 16, got " ++ Numeral.hex size.toNat
  | .noStringCell => "data_section_size must hold at least one string cell"
  | .baseAddress base =>
    "base_address " ++ Numeral.hex base.toNat ++ " must be 16-byte aligned and above " ++
      Numeral.hex addressThreshold
  | .sizeOverflow => "arena size overflows"
  | .beyondSignBit => "arena must end below the sign bit of the address space"

/-- A section's size is sound if it is a positive multiple of 16. -/
def SoundSize (size : Word) : Prop := 0 < size.toNat ∧ size.toNat % 16 = 0

instance (size : Word) : Decidable (SoundSize size) := inferInstanceAs (Decidable (_ ∧ _))

/-- A base is sound if it is a multiple of 16 that no small integer reaches. -/
def SoundBase (base : Word) : Prop := addressThreshold < base.toNat ∧ base.toNat % 16 = 0

instance (base : Word) : Decidable (SoundBase base) := inferInstanceAs (Decidable (_ ∧ _))

variable (c : Config)

/-- The number of bytes that the configuration asks for, however large. -/
def totalSize : Nat :=
  16 + c.data.toNat + c.stack.toNat + c.code.toNat + c.literal.toNat

/-- The size of the arena as a word, unless one of the sums on the way to it overflows. -/
def sizeWord? : Option Word := [c.data, c.stack, c.code, c.literal].foldlM Word.add? 16

/-- The size of the arena, if a word can hold it. -/
def arenaSize? : Option Nat := c.sizeWord?.map (·.toNat)

/-- The size that is given is the exact one. -/
theorem sizeWord?_eq_some_iff {size : Word} : c.sizeWord? = some size ↔ size.toNat = c.totalSize := by
  have sum : (16 : Word).toNat +
      [c.data, c.stack, c.code, c.literal].foldr (fun w n => w.toNat + n) 0 = c.totalSize := by
    simp [totalSize, Nat.add_assoc]
  rw [sizeWord?, Word.foldlM_add?_eq_some_iff, sum]

/-- Passes only if `p` holds, and hands on the proof. -/
def require {ε : Type} (p : Prop) [Decidable p] (e : ε) : Except ε (PLift p) :=
  if h : p then .ok ⟨h⟩ else .error e

/-- Hands on what an option holds, and the proof that it does. -/
def demand {ε α : Type} (o : Option α) (e : ε) : Except ε { v : α // o = some v } :=
  match o with
  | some v => .ok ⟨v, rfl⟩
  | none => .error e

/-- The layout that a configuration asks for, or its first flaw. Sums of words are checked as they are
taken; `demand` and `require` hand on why the layout is sound. -/
def layout : Except Flaw Layout := do
  let ⟨data⟩ ← require (SoundSize c.data) (.sectionSize .data c.data)
  let ⟨stack⟩ ← require (SoundSize c.stack) (.sectionSize .stack c.stack)
  let ⟨code⟩ ← require (SoundSize c.code) (.sectionSize .code c.code)
  let ⟨literal⟩ ← require (SoundSize c.literal) (.sectionSize .literal c.literal)
  let ⟨room⟩ ← require (32 ≤ c.data.toNat) .noStringCell
  let ⟨base⟩ ← require (SoundBase c.base) (.baseAddress c.base)
  let ⟨size, sized⟩ ← demand c.sizeWord? .sizeOverflow
  let ⟨stop, ended⟩ ← demand (Word.add? c.base size) .beyondSignBit
  let ⟨signed⟩ ← require (stop.toNat < 0x8000000000000000) .beyondSignBit
  return {
    base := c.base.toNat, data := c.data.toNat, stack := c.stack.toNat
    code := c.code.toNat, literal := c.literal.toNat
    base_aligned := base.2, data_aligned := data.2, stack_aligned := stack.2
    code_aligned := code.2, literal_aligned := literal.2, base_high := base.1
    data_holds_string := room, stack_pos := stack.1, code_pos := code.1
    literal_pos := literal.1
    below_sign := by
      rw [Word.add?_eq_some_iff.1 ended, (c.sizeWord?_eq_some_iff).1 sized] at signed
      exact signed }

end Config
end Osl
