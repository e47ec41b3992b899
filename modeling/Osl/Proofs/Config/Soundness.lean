import Osl.Arena.Initial
import Osl.Proofs.Machine.Cells
import Osl.Proofs.Ranges
import Osl.Proofs.Slots.Placement

/-!
# Sound configurations

`Config.layout` grants a layout exactly to the configurations that are sound by unbounded arithmetic
(`layout_eq_ok_iff`), although every sum it takes is one of words: each of them is checked, and the
bound on the end of the arena is below what a word can hold.

What a layout is good for once it is granted is `Config.Grants`. The sums of words that lead to the
sections are exact (`exists_add?_part`), the sections follow each other without gaps
(`adjoining_parts`), and an address is neither small nor negative, so that no window whose first word is
one is taken for an integer (`classify_of_within`).
-/

namespace Osl
set_option autoImplicit false

/-! ## The sections of an arena -/

/-- The size that a configuration asks for. -/
def Config.sizeOf (c : Config) : Section → Word
  | .data => c.data
  | .stack => c.stack
  | .code => c.code
  | .literal => c.literal

/-- What an arena is cut into. -/
inductive Part
  | savedSp
  | sized (s : Section)
  deriving DecidableEq

namespace Part

/-- The parts in the order of their addresses. -/
def all : List Part := [.savedSp, .sized .data, .sized .stack, .sized .code, .sized .literal]

theorem mem_all (part : Part) : part ∈ all := by
  cases part with
  | savedSp => decide
  | sized s => cases s <;> decide

/-- The number of bytes that a configuration asks for. -/
def size (c : Config) : Part → Word
  | .savedSp => 16
  | .sized s => c.sizeOf s

/-- The first address of a part. -/
def start (L : Layout) : Part → Nat
  | .savedSp => L.savedSp
  | .sized .data => L.dataBase
  | .sized .stack => L.stackBase
  | .sized .code => L.codeBase
  | .sized .literal => L.literalBase

/-- The first address past a part. -/
def stop (L : Layout) : Part → Nat
  | .savedSp => L.savedSp + 16
  | .sized .data => L.dataEnd
  | .sized .stack => L.stackTop
  | .sized .code => L.codeBase + L.code
  | .sized .literal => L.stop

variable (L : Layout)

theorem start_lt_stop (part : Part) : part.start L < part.stop L := by
  have := L.ordered
  cases part with
  | savedSp => exact Nat.lt_add_of_pos_right (by decide)
  | sized s =>
    cases s with
    | data => exact Nat.lt_add_of_pos_right (by have := L.data_holds_string; omega)
    | stack => exact Nat.lt_add_of_pos_right L.stack_pos
    | code => exact Nat.lt_add_of_pos_right L.code_pos
    | literal => exact Nat.lt_add_of_pos_right L.literal_pos

/-- The parts follow each other and make up the arena. -/
theorem adjoining_parts : Adjoining (start L) (stop L) L.base all L.stop := by
  have forward (part : Part) := Nat.le_of_lt (part.start_lt_stop L)
  exact ⟨rfl, forward .savedSp, rfl, forward (.sized .data), rfl, forward (.sized .stack), rfl,
    forward (.sized .code), rfl, forward (.sized .literal), rfl⟩

/-- Every part starts and ends at a multiple of 16. -/
theorem aligned (part : Part) : part.start L % 16 = 0 ∧ part.stop L % 16 = 0 := by
  obtain ⟨data, stack, code, literal, stop⟩ := L.aligned
  cases part with
  | savedSp => exact ⟨L.base_aligned, data⟩
  | sized s =>
    cases s with
    | data => exact ⟨data, stack⟩
    | stack => exact ⟨stack, code⟩
    | code => exact ⟨code, literal⟩
    | literal => exact ⟨literal, stop⟩

end Part

/-! ## Addresses as first words of windows -/

/-- An address in the arena is large and has no sign. -/
theorem Shape.classify_of_within {L : Layout} {p : Word} (within : L.Within p.toNat 1) (n : Word) :
    classify p n = if n = 0 then .free else .string := by
  have := L.base_high
  have := L.stop_lt
  unfold Layout.Within at within
  by_cases zero : n = 0
  · rw [zero, if_pos rfl, classify_zero (by omega) (by omega)]
  · rw [if_neg zero, classify_of_ne_zero (by omega) zero]

namespace Slots

variable {L : Layout} {a : Arena L} {slot : Nat}

/-- A window that starts with an address is in use exactly if its second word is not zero. -/
theorem shapeAt_of_within (isSlot : L.IsSlot slot)
    (address : L.Within (a.wordAt (L.dataBase + slot)).toNat 1) :
    shapeAt a slot = some (if a.wordAt (L.dataBase + slot + 8) = 0 then .free else .string) := by
  rw [shapeAt_eq a isSlot, Shape.classify_of_within address]

/-- A string cell that is marked free is free. -/
theorem shapeAt_markFree (isSlot : L.IsSlot slot)
    (address : L.Within (a.wordAt (L.dataBase + slot)).toNat 1)
    (string : a.wordAt (L.dataBase + slot + 8) ≠ 0) :
    ∃ b, Arena.markFree (L.cell slot) a = .ok () b ∧ shapeAt b slot = some .free := by
  have := L.ordered
  have := L.stackBase_eq
  have fits := isSlot.fits
  have place := isSlot.toNat_cell
  have within : L.Within (L.cell slot).toNat 16 := by
    unfold Layout.Within
    omega
  have second : L.Within (L.dataBase + slot + 8) 8 := by
    unfold Layout.Within
    omega
  refine ⟨_, Machine.markFree_string within (by rwa [place]), ?_⟩
  have kept : (a.overlay (L.dataBase + slot + 8) (Word.bytes 0)).wordAt (L.dataBase + slot) =
      a.wordAt (L.dataBase + slot) := Arena.wordAt_overlay_of_disjoint a (.inl (Nat.le_refl _))
  have zeroed : (a.overlay (L.dataBase + slot + 8) (Word.bytes 0)).wordAt (L.dataBase + slot + 8) =
      0 := Arena.wordAt_overlay_bytes a second 0
  rw [← kept] at address
  have shape := shapeAt_of_within isSlot address
  rw [if_pos zeroed] at shape
  rwa [place]

end Slots

/-! ## Accepted configurations -/

namespace Config

/-- The configuration asks for an arena that can be laid out. -/
structure Sound (c : Config) : Prop where
  sizes : ∀ s, c.sizeOf s ≠ 0 ∧ (c.sizeOf s).toNat % 16 = 0
  room : 32 ≤ c.data.toNat
  aligned : c.base.toNat % 16 = 0
  high : 0x100000 < c.base.toNat
  below_sign : c.base.toNat +
    (16 + c.data.toNat + c.stack.toNat + c.code.toNat + c.literal.toNat) < 0x8000000000000000

/-- The layout has the base and the sizes that the configuration asks for. -/
structure AsksFor (c : Config) (L : Layout) : Prop where
  base : L.base = c.base.toNat
  data : L.data = c.data.toNat
  stack : L.stack = c.stack.toNat
  code : L.code = c.code.toNat
  literal : L.literal = c.literal.toNat

variable {c : Config} {L : Layout}

theorem require_bind_eq_ok {ε β : Type} {p : Prop} [Decidable p] {e : ε}
    {rest : PLift p → Except ε β} {v : β} :
    (require p e >>= rest) = .ok v ↔ ∃ h : p, rest ⟨h⟩ = .ok v := by
  constructor
  · intro passed
    by_cases h : p
    · rw [require, dif_pos h] at passed
      exact ⟨h, passed⟩
    · rw [require, dif_neg h] at passed
      cases passed
  · rintro ⟨h, passed⟩
    rw [require, dif_pos h]
    exact passed

theorem demand_bind_eq_ok {ε α β : Type} {o : Option α} {e : ε}
    {rest : { v : α // o = some v } → Except ε β} {w : β} :
    (demand o e >>= rest) = .ok w ↔ ∃ v, ∃ h : o = some v, rest ⟨v, h⟩ = .ok w := by
  cases o with
  | some v =>
    constructor
    · intro passed
      exact ⟨v, rfl, passed⟩
    · rintro ⟨u, same, passed⟩
      cases same
      exact passed
  | none =>
    constructor
    · intro passed
      cases passed
    · rintro ⟨u, same, -⟩
      cases same

theorem soundSize_iff {size : Word} : SoundSize size ↔ size ≠ 0 ∧ size.toNat % 16 = 0 := by
  rw [SoundSize, Nat.pos_iff_ne_zero, ne_eq, ne_eq, ← UInt64.toNat_inj, UInt64.toNat_zero]

/-- A layout is granted exactly to a sound configuration, and it is the one asked for. -/
theorem layout_eq_ok_iff : c.layout = .ok L ↔ c.Sound ∧ c.AsksFor L := by
  unfold layout
  constructor
  · intro passed
    obtain ⟨data, passed⟩ := require_bind_eq_ok.1 passed
    obtain ⟨stack, passed⟩ := require_bind_eq_ok.1 passed
    obtain ⟨code, passed⟩ := require_bind_eq_ok.1 passed
    obtain ⟨literal, passed⟩ := require_bind_eq_ok.1 passed
    obtain ⟨room, passed⟩ := require_bind_eq_ok.1 passed
    obtain ⟨base, passed⟩ := require_bind_eq_ok.1 passed
    obtain ⟨size, sized, passed⟩ := demand_bind_eq_ok.1 passed
    obtain ⟨stop, ended, passed⟩ := demand_bind_eq_ok.1 passed
    obtain ⟨signed, passed⟩ := require_bind_eq_ok.1 passed
    cases passed
    have total := (c.sizeWord?_eq_some_iff).1 sized
    have last := Word.add?_eq_some_iff.1 ended
    refine ⟨⟨fun s => ?_, room, base.2, base.1, ?_⟩, ⟨rfl, rfl, rfl, rfl, rfl⟩⟩
    · rw [← soundSize_iff]
      cases s <;> assumption
    · unfold totalSize at total
      omega
  · rintro ⟨sound, base, data, stack, code, literal⟩
    have size (s : Section) := soundSize_iff.2 (sound.sizes s)
    have below : c.base.toNat + c.totalSize < 0x8000000000000000 := sound.below_sign
    have total : (UInt64.ofNat c.totalSize).toNat = c.totalSize :=
      Word.toNat_ofNat_of_lt (by omega)
    have stop : (UInt64.ofNat (c.base.toNat + c.totalSize)).toNat = c.base.toNat + c.totalSize :=
      Word.toNat_ofNat_of_lt (by omega)
    have ended : Word.add? c.base (.ofNat c.totalSize) = some (.ofNat (c.base.toNat + c.totalSize)) :=
      Word.add?_eq_some_iff.2 (by rw [stop, total])
    apply require_bind_eq_ok.2 ⟨size .data, _⟩
    apply require_bind_eq_ok.2 ⟨size .stack, _⟩
    apply require_bind_eq_ok.2 ⟨size .code, _⟩
    apply require_bind_eq_ok.2 ⟨size .literal, _⟩
    apply require_bind_eq_ok.2 ⟨sound.room, _⟩
    apply require_bind_eq_ok.2 ⟨⟨sound.high, sound.aligned⟩, _⟩
    apply demand_bind_eq_ok.2 ⟨_, c.sizeWord?_eq_some_iff.2 total, _⟩
    apply demand_bind_eq_ok.2 ⟨_, ended, _⟩
    apply require_bind_eq_ok.2 ⟨by rwa [stop], _⟩
    cases L
    cases base
    cases data
    cases stack
    cases code
    cases literal
    rfl

/-- The layout that a sound configuration asks for. -/
def Sound.layout (h : c.Sound) : Layout where
  base := c.base.toNat
  data := c.data.toNat
  stack := c.stack.toNat
  code := c.code.toNat
  literal := c.literal.toNat
  base_aligned := h.aligned
  data_aligned := (h.sizes .data).2
  stack_aligned := (h.sizes .stack).2
  code_aligned := (h.sizes .code).2
  literal_aligned := (h.sizes .literal).2
  base_high := h.high
  data_holds_string := h.room
  stack_pos := (soundSize_iff.2 (h.sizes .stack)).1
  code_pos := (soundSize_iff.2 (h.sizes .code)).1
  literal_pos := (soundSize_iff.2 (h.sizes .literal)).1
  below_sign := h.below_sign

theorem Sound.asksFor_layout (h : c.Sound) : c.AsksFor h.layout := ⟨rfl, rfl, rfl, rfl, rfl⟩

/-- A part ends where the exact sum of its first address and its size is. -/
theorem AsksFor.exists_add? (asks : c.AsksFor L) (part : Part) :
    ∃ start stop : Word, Word.add? start (part.size c) = some stop ∧
      start.toNat = part.start L ∧ stop.toNat = part.stop L := by
  have bound := (Part.adjoining_parts L).bounds part part.mem_all
  have order := part.start_lt_stop L
  have := L.stop_lt
  have start : (UInt64.ofNat (part.start L)).toNat = part.start L :=
    Word.toNat_ofNat_of_lt (by omega)
  have stop : (UInt64.ofNat (part.stop L)).toNat = part.stop L := Word.toNat_ofNat_of_lt (by omega)
  refine ⟨_, _, Word.add?_eq_some_iff.2 ?_, start, stop⟩
  rw [start, stop]
  cases part with
  | savedSp => rfl
  | sized s =>
    cases s with
    | data => exact congrArg (L.dataBase + ·) asks.data
    | stack => exact congrArg (L.stackBase + ·) asks.stack
    | code => exact congrArg (L.codeBase + ·) asks.code
    | literal => exact congrArg (L.literalBase + ·) asks.literal

/-- The memory of an arena is as large as the sizes add up to, and it ends at an exact sum too. -/
theorem AsksFor.exists_sizeWord? (asks : c.AsksFor L) :
    ∃ size stop : Word, c.sizeWord? = some size ∧ Word.add? c.base size = some stop ∧
      size.toNat = L.size ∧ stop.toNat = L.stop := by
  obtain ⟨base, data, stack, code, literal⟩ := asks
  have := L.stop_lt
  have whole := L.stop_eq
  have total : L.size = c.totalSize := by rw [Layout.size, data, stack, code, literal, totalSize]
  have size : (UInt64.ofNat L.size).toNat = L.size := Word.toNat_ofNat_of_lt (by omega)
  have stop : (UInt64.ofNat L.stop).toNat = L.stop := Word.toNat_ofNat_of_lt (by omega)
  refine ⟨_, _, c.sizeWord?_eq_some_iff.2 (size.trans total), Word.add?_eq_some_iff.2 ?_, size, stop⟩
  rw [stop, size, whole, base]

/-- What a layout has that a configuration was granted. -/
structure Grants (c : Config) (L : Layout) : Prop where
  asks : c.AsksFor L
  /-- No sum on the way to the end of the arena overflows. -/
  total : ∃ size stop : Word, c.sizeWord? = some size ∧ Word.add? c.base size = some stop ∧
    size.toNat = L.size ∧ stop.toNat = L.stop
  /-- Nor does the sum that leads from the start of a section to its end. -/
  sums : ∀ part : Part, ∃ start stop : Word, Word.add? start (part.size c) = some stop ∧
    start.toNat = part.start L ∧ stop.toNat = part.stop L
  adjoining : Adjoining (Part.start L) (Part.stop L) L.base Part.all L.stop
  apart : Part.all.Pairwise fun s t => s.stop L ≤ t.start L
  covers : ∀ p, (∃ part : Part, part.start L ≤ p ∧ p < part.stop L) ↔ L.base ≤ p ∧ p < L.stop
  aligned : ∀ part : Part, part.start L % 16 = 0 ∧ part.stop L % 16 = 0
  shape : ∀ p n : Word, L.base ≤ p.toNat ∧ p.toNat < L.stop →
    Shape.classify p n = if n = 0 then .free else .string
  /-- A cell whose first word is an address is in use until its length is taken. -/
  inUse : ∀ (a : Arena L) (slot : Nat), L.IsSlot slot →
    L.Within (a.wordAt (L.dataBase + slot)).toNat 1 →
    Slots.shapeAt a slot = some (if a.wordAt (L.dataBase + slot + 8) = 0 then .free else .string)
  freed : ∀ (a : Arena L) (slot : Nat), L.IsSlot slot →
    L.Within (a.wordAt (L.dataBase + slot)).toNat 1 → a.wordAt (L.dataBase + slot + 8) ≠ 0 →
    ∃ b, Arena.markFree (L.cell slot) a = .ok () b ∧ Slots.shapeAt b slot = some .free

/-- An arena has the layout that was granted. -/
theorem layout_of_create {a : Arena L} (made : Arena.create c = .ok ⟨L, a⟩) : c.layout = .ok L := by
  unfold Arena.create at made
  cases granted : c.layout with
  | error flaw =>
    rw [granted] at made
    cases made
  | ok L' =>
    rw [granted] at made
    dsimp only at made
    split at made
    · cases made
      rfl
    · cases made

/-- A configuration is accepted exactly if it is sound; the arena made for it has the layout that was
granted; and there sums of words are exact, the sections make up the arena in their order, and whatever
starts with an address is a string in use, or free once its length is zero. -/
theorem layout_sound (c : Config) :
    ((∃ L, c.layout = .ok L) ↔ c.Sound) ∧ (∀ L, c.layout = .ok L → c.Grants L) ∧
      ∀ L a, Arena.create c = .ok ⟨L, a⟩ → c.layout = .ok L := by
  refine ⟨⟨fun ⟨L, granted⟩ => (layout_eq_ok_iff.1 granted).1, fun sound => ?_⟩, fun L granted => ?_,
    fun L a made => ?_⟩
  · exact ⟨sound.layout, layout_eq_ok_iff.2 ⟨sound, sound.asksFor_layout⟩⟩
  · have asks := (layout_eq_ok_iff.1 granted).2
    have adjoining := Part.adjoining_parts L
    refine ⟨asks, asks.exists_sizeWord?, asks.exists_add?, adjoining, adjoining.apart, fun p => ?_,
      Part.aligned L, fun p n inside => ?_, fun a slot => Slots.shapeAt_of_within,
      fun a slot => Slots.shapeAt_markFree⟩
    · rw [← adjoining.exists_mem_iff]
      simp only [Part.mem_all, true_and]
    · exact Shape.classify_of_within (⟨inside.1, inside.2⟩ : L.Within p.toNat 1) n
  · exact layout_of_create made

end Config
end Osl
