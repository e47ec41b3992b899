import Osl.Proofs.Arena.Initial
import Osl.Proofs.Arena.Content

/-!
# Setting up an arena

`Arena.reset` walks over the windows of the data section and writes two words into each. Every step starts
at a window of the section and goes on to the next one, or to the end of the section, as the section is a
whole number of windows (`marksFrom_cell`, `marksFrom_end`). So the words written stay inside the section,
each window comes to hold the words of a free one, and nothing else is touched (`marked`).

What an arena holds then is `IsInitial`. That determines every byte of it, so resetting an arena gives the
initial one whatever it held before (`reset_eq_initial`).
-/

namespace Osl
set_option autoImplicit false

namespace Arena

variable {L : Layout} {a b : Arena L} {slot budget : Nat}

/-! ## The walk over the windows -/

theorem cell_add (L : Layout) (slot k : Nat) : L.cell slot + .ofNat k = L.cell (slot + k) := by
  rw [Layout.cell, Layout.cell, ← UInt64.ofNat_add, Nat.add_assoc]

/-- At a window both of its words are written, and the walk goes on behind it. -/
theorem marksFrom_cell (isSlot : L.IsSlot slot) : marksFrom L (budget + 1) (L.cell slot) =
    (L.cell slot, freeSentinel) :: (L.cell (slot + 8), 0) ::
      marksFrom L budget (L.cell (slot + 16)) := by
  have place := isSlot.toNat_cell
  have fits := isSlot.fits
  have inside : (L.cell slot).toNat < L.dataEnd := by
    rw [place, Layout.dataEnd]
    omega
  rw [marksFrom, if_pos inside, ← cell_add, ← cell_add]
  rfl

/-- At the end of the data section the walk is over. -/
theorem marksFrom_end : marksFrom L budget (L.cell L.data) = [] := by
  cases budget with
  | zero => rfl
  | succ budget =>
    have outside : ¬ (L.cell L.data).toNat < L.dataEnd := by
      rw [L.toNat_cell (Nat.le_refl _)]
      exact Nat.lt_irrefl _
    rw [marksFrom, if_neg outside]

/-- A multiple of 16 up to the size of the data section is a slot or the end of the section. -/
theorem isSlot_or_eq (aligned : slot % 16 = 0) (le : slot ≤ L.data) :
    L.IsSlot slot ∨ slot = L.data := by
  have whole := L.data_aligned
  by_cases inside : slot < L.data
  · exact .inl ⟨aligned, by omega⟩
  · exact .inr (by omega)

/-- The words written are those of windows. -/
theorem mem_marksFrom {p w : Word} (aligned : slot % 16 = 0) (le : slot ≤ L.data)
    (h : (p, w) ∈ marksFrom L budget (L.cell slot)) :
    ∃ s, L.IsSlot s ∧ (p = L.cell s ∧ w = freeSentinel ∨ p = L.cell (s + 8) ∧ w = 0) := by
  induction budget generalizing slot with
  | zero => cases h
  | succ budget ih =>
    rcases isSlot_or_eq aligned le with isSlot | rfl
    · rw [marksFrom_cell isSlot] at h
      rcases List.mem_cons.1 h with first | h
      · cases first
        exact ⟨slot, isSlot, .inl ⟨rfl, rfl⟩⟩
      · rcases List.mem_cons.1 h with second | later
        · cases second
          exact ⟨slot, isSlot, .inr ⟨rfl, rfl⟩⟩
        · exact ih (by omega) isSlot.fits later
    · rw [marksFrom_end] at h
      cases h

/-- No mark leaves the data section. -/
theorem marks_inside {p w : Word} (h : (p, w) ∈ marks L) :
    L.dataBase ≤ p.toNat ∧ p.toNat + 8 ≤ L.dataEnd := by
  have first : (p, w) ∈ marksFrom L L.data (L.cell 0) := h
  obtain ⟨s, isSlot, place⟩ := mem_marksFrom (Nat.zero_mod 16) (Nat.zero_le _) first
  have fits := isSlot.fits
  have stop : L.dataEnd = L.dataBase + L.data := rfl
  rcases place with ⟨rfl, -⟩ | ⟨rfl, -⟩
  · rw [isSlot.toNat_cell]
    omega
  · have second : s + 8 ≤ L.data := by omega
    rw [L.toNat_cell second]
    omega

/-! ## What the walk leaves -/

theorem poke_cell (a : Arena L) (le : slot ≤ L.data) (w : Word) :
    a.poke (L.cell slot) w = a.overlay (L.dataBase + slot) (Word.bytes w) := by
  rw [poke, L.toNat_cell le]

/-- Marking a window touches no other byte, and the window holds the words of a free one. -/
theorem marked_window (a : Arena L) (isSlot : L.IsSlot slot) :
    let b := (a.poke (L.cell slot) freeSentinel).poke (L.cell (slot + 8)) 0
    a.SameOutside b (L.dataBase + slot) (L.dataBase + slot + 16) ∧
      b.Holds (L.dataBase + slot) [freeSentinel, 0] := by
  have fits := isSlot.fits
  have := L.ordered
  have := L.stackBase_eq
  have within : L.Within (L.dataBase + slot) 8 := by
    unfold Layout.Within
    omega
  have within' : L.Within (L.dataBase + (slot + 8)) 8 := by
    unfold Layout.Within
    omega
  rw [poke_cell _ (by omega), poke_cell _ (by omega)]
  have first := a.sameOutside_overlay_word (L.dataBase + slot) freeSentinel
  have second := (a.overlay (L.dataBase + slot) (Word.bytes freeSentinel)).sameOutside_overlay_word
    (L.dataBase + (slot + 8)) 0
  constructor
  · exact (first.mono (Nat.le_refl _) (by omega)).trans (second.mono (by omega) (by omega))
  · refine ⟨?_, ?_, trivial⟩
    · rw [second.wordAt (by omega), wordAt_overlay_bytes a within]
    · rw [Nat.add_assoc, wordAt_overlay_bytes _ within']

/-- From a slot on, the walk marks every window and touches nothing else. -/
theorem marked (a : Arena L) (aligned : slot % 16 = 0) (le : slot ≤ L.data)
    (enough : L.data ≤ slot + budget) :
    let b := a.pokeEach (marksFrom L budget (L.cell slot))
    a.SameOutside b (L.dataBase + slot) L.dataEnd ∧
      ∀ s, L.IsSlot s → slot ≤ s → b.Holds (L.dataBase + s) [freeSentinel, 0] := by
  induction budget generalizing a slot with
  | zero =>
    refine ⟨.refl a _ _, fun s isSlot later => ?_⟩
    have fits := isSlot.fits
    omega
  | succ budget ih =>
    rcases isSlot_or_eq aligned le with isSlot | rfl
    · rw [marksFrom_cell isSlot]
      obtain ⟨here, holds⟩ := marked_window a isSlot
      have fits := isSlot.fits
      have aligned' : (slot + 16) % 16 = 0 := by omega
      obtain ⟨later, rest⟩ := ih ((a.poke (L.cell slot) freeSentinel).poke (L.cell (slot + 8)) 0)
        aligned' fits (by omega)
      have stop : L.dataEnd = L.dataBase + L.data := rfl
      constructor
      · exact (here.mono (Nat.le_refl _) (by omega)).trans (later.mono (by omega) (Nat.le_refl _))
      · intro s isSlot' from_slot
        by_cases same : s = slot
        · rw [same]
          exact holds.sameOutside later (.inl (by simp only [List.length_cons, List.length_nil]; omega))
        · have aligned' := isSlot'.aligned
          exact rest s isSlot' (by omega)
    · rw [marksFrom_end]
      refine ⟨.refl a _ _, fun s isSlot later => ?_⟩
      have fits := isSlot.fits
      omega

/-! ## What an arena is reset to -/

/-- The arena holds what it should before the first statement. -/
structure IsInitial (a : Arena L) : Prop where
  windows : ∀ slot, L.IsSlot slot → a.Holds (L.dataBase + slot) [freeSentinel, 0]
  savedSp : a.wordAt L.savedSp = .ofNat L.stackTop
  /-- Nothing else is set. -/
  zero : ∀ p, L.savedSp + 8 ≤ p ∧ p < L.dataBase ∨ L.dataEnd ≤ p → a.byte p = 0

namespace IsInitial

variable (h : a.IsInitial)
include h

/-- Both words of a window can be read. -/
theorem readWord_window (isSlot : L.IsSlot slot) :
    a.readWord (L.cell slot) = .ok freeSentinel ∧ a.readWord (L.cell (slot + 8)) = .ok 0 := by
  obtain ⟨sentinel, zero, -⟩ := h.windows slot isSlot
  have fits := isSlot.fits
  have order := L.ordered
  have behind : L.stackBase = L.dataBase + L.data := rfl
  constructor
  · rw [readWord_eq_ite, isSlot.toNat_cell, sentinel]
    exact if_pos ⟨by omega, by omega⟩
  · rw [readWord_eq_ite, L.toNat_cell (by omega), ← Nat.add_assoc, zero]
    exact if_pos ⟨by omega, by omega⟩

/-- Every window looks free. -/
theorem shapeAt_eq (isSlot : L.IsSlot slot) : Slots.shapeAt a slot = some .free := by
  obtain ⟨sentinel, zero, -⟩ := h.windows slot isSlot
  rw [Slots.shapeAt_eq _ isSlot, sentinel, zero, Shape.classify_freeSentinel]

/-- The first window is the first free one. -/
theorem firstFree_eq : Slots.firstFree a = some 0 := by
  have size := L.data_holds_string
  have isSlot : L.IsSlot 0 := ⟨rfl, by omega⟩
  have windows : L.data / 16 = L.data / 16 - 1 + 1 := by omega
  rw [Slots.firstFree, windows]
  exact Slots.firstFreeFrom_of_free isSlot (h.shapeAt_eq isSlot) _

end IsInitial

/-- Equal words are made of equal bytes. -/
theorem byte_eq_of_wordAt {p q : Nat} (same : a.wordAt p = b.wordAt p) (low : p ≤ q)
    (high : q < p + 8) : a.byte q = b.byte q := by
  have bytes : a.bytes p 8 = b.bytes p 8 := by rw [← bytes_wordAt, ← bytes_wordAt, same]
  have place : p + (q - p) = q := by omega
  have byte := bytes_eq_iff.1 bytes (q - p) (by omega)
  rwa [place] at byte

/-- That leaves no byte open. -/
theorem IsInitial.unique (h : a.IsInitial) (h' : b.IsInitial) : a = b := by
  apply ext_byte
  intro p within
  have stop : L.dataEnd = L.dataBase + L.data := rfl
  have base : L.dataBase = L.savedSp + 16 := rfl
  have low : L.savedSp ≤ p := within.1
  by_cases saved : p < L.savedSp + 8
  · exact byte_eq_of_wordAt (h.savedSp.trans h'.savedSp.symm) low saved
  by_cases inData : L.dataBase ≤ p ∧ p < L.dataEnd
  · have whole := L.data_aligned
    have isSlot : L.IsSlot ((p - L.dataBase) / 16 * 16) := ⟨by omega, by omega⟩
    obtain ⟨first, second, -⟩ := h.windows _ isSlot
    obtain ⟨first', second', -⟩ := h'.windows _ isSlot
    by_cases half : p < L.dataBase + (p - L.dataBase) / 16 * 16 + 8
    · exact byte_eq_of_wordAt (first.trans first'.symm) (by omega) half
    · exact byte_eq_of_wordAt (second.trans second'.symm) (by omega) (by omega)
  · have apart : L.savedSp + 8 ≤ p ∧ p < L.dataBase ∨ L.dataEnd ≤ p := by omega
    rw [h.zero p apart, h'.zero p apart]

theorem byte_zeroed (a : Arena L) (p : Nat) : a.zeroed.byte p = 0 := by
  by_cases within : L.Within p 1
  · obtain ⟨i, inside, rfl⟩ := exists_eq_base_add within
    rw [byte_base_add _ inside]
    simp [zeroed]
  · exact byte_of_not_within _ within

/-- Whatever it held, an arena is set up by a reset. -/
theorem isInitial_reset (a : Arena L) : a.reset.IsInitial := by
  have order := L.ordered
  have bound := L.stop_lt
  have stop : L.dataEnd = L.dataBase + L.data := rfl
  have base : L.savedSp = L.base := rfl
  have first : L.dataBase = L.savedSp + 16 := rfl
  have place : (UInt64.ofNat L.savedSp).toNat = L.savedSp := Word.toNat_ofNat_of_lt (by omega)
  have marked : a.zeroed.SameOutside (a.zeroed.pokeEach (marks L)) L.dataBase L.dataEnd ∧
      ∀ slot, L.IsSlot slot → 0 ≤ slot → Holds _ (L.dataBase + slot) [freeSentinel, 0] :=
    a.zeroed.marked (Nat.zero_mod 16) (Nat.zero_le _) (Nat.le_of_eq (Nat.zero_add L.data).symm)
  have saved := (a.zeroed.pokeEach (marks L)).sameOutside_overlay_word L.savedSp (.ofNat L.stackTop)
  rw [reset, poke, place]
  constructor
  · intro slot isSlot
    exact (marked.2 slot isSlot (Nat.zero_le _)).sameOutside saved (.inr (by omega))
  · apply wordAt_overlay_bytes
    unfold Layout.Within
    omega
  · intro p apart
    rw [saved p (by omega), marked.1 p (by omega), byte_zeroed]

/-- Where zeros stand among the initial bytes, the bytes of a new arena are zero. -/
theorem byte_initial_of_zeros {front back : List Byte} {n p : Nat}
    (split : initialBytes L = front ++ (List.replicate n 0 ++ back))
    (low : L.base + front.length ≤ p) (high : p < L.base + front.length + n) :
    (initial L).byte p = 0 := by
  have part := bytes_initial front (List.replicate n 0) back split
  rw [List.length_replicate] at part
  have inside : p - (L.base + front.length) <
      ((initial L).bytes (L.base + front.length) n).length := by
    rw [length_bytes]
    omega
  have place : L.base + front.length + (p - (L.base + front.length)) = p := by omega
  have byte := List.getElem_of_eq part inside
  rwa [getElem_bytes, List.getElem_replicate, place] at byte

/-- A new arena is set up. -/
theorem isInitial_initial (L : Layout) : (initial L).IsInitial := by
  refine ⟨fun slot isSlot => holds_initial isSlot, wordAt_savedSp_initial L, fun p apart => ?_⟩
  have stop : L.dataEnd = L.dataBase + L.data := rfl
  have base : L.savedSp = L.base := rfl
  have first : L.dataBase = L.savedSp + 16 := rfl
  by_cases within : L.Within p 1
  · rcases apart with second | behind
    · have split : initialBytes L = Word.bytes (.ofNat L.stackTop) ++ (List.replicate 8 0 ++
          ((List.replicate (L.data / 16) freeWindow).flatten ++
            List.replicate (L.stack + L.code + L.literal) 0)) := by
        rw [initialBytes, List.append_assoc, List.append_assoc]
        rfl
      apply byte_initial_of_zeros split
      · rw [Word.length_bytes]
        omega
      · rw [Word.length_bytes]
        omega
    · have whole := L.stop_eq
      have aligned := L.data_aligned
      have high := within.2
      have split : initialBytes L = (Word.bytes (.ofNat L.stackTop) ++ Word.bytes 0 ++
          (List.replicate (L.data / 16) freeWindow).flatten) ++
            (List.replicate (L.stack + L.code + L.literal) 0 ++ []) := by
        rw [initialBytes, List.append_nil]
      have length : (Word.bytes (.ofNat L.stackTop) ++ Word.bytes 0 ++
          (List.replicate (L.data / 16) freeWindow).flatten).length = 16 + L.data := by
        simp only [List.length_append, Word.length_bytes, List.length_flatten, List.map_replicate,
          length_freeWindow, List.sum_replicate_nat]
        omega
      rw [Layout.size] at whole
      apply byte_initial_of_zeros split
      · omega
      · omega
  · exact byte_of_not_within _ within

/-- A reset makes an arena the initial one. -/
theorem reset_eq_initial (a : Arena L) : a.reset = initial L :=
  (isInitial_reset a).unique (isInitial_initial L)

/-- Whatever an arena held, a reset leaves it as it has to be before the first statement. Every window of
the data section holds the words of a free one, and looks free; the scratch stack is empty; every other byte
is zero. None of the words written on the way crosses the border of its section. The first name bound
afterwards gets the first window. -/
theorem reset_complete (a : Arena L) :
    (∀ slot, L.IsSlot slot → a.reset.readWord (L.cell slot) = .ok freeSentinel ∧
        a.reset.readWord (L.cell (slot + 8)) = .ok 0 ∧ Slots.shapeAt a.reset slot = some .free) ∧
      a.reset.readWord (.ofNat L.savedSp) = .ok (.ofNat L.stackTop) ∧
      (∀ p : Word, L.Within p.toNat 1 →
        L.savedSp + 8 ≤ p.toNat ∧ p.toNat < L.dataBase ∨ L.dataEnd ≤ p.toNat →
          a.reset.readByte p = .ok 0) ∧
      (∀ p w, (p, w) ∈ marks L → L.dataBase ≤ p.toNat ∧ p.toNat + 8 ≤ L.dataEnd) ∧
      (L.savedSp ≤ (UInt64.ofNat L.savedSp).toNat ∧
        (UInt64.ofNat L.savedSp).toNat + 8 ≤ L.dataBase) ∧
      ∀ (t : Slots) (name : String), name.utf8ByteSize = 1 → t.lookup name = none →
        t.slotFor a.reset name = .ok (0, t.bind name 0) := by
  have initial := isInitial_reset a
  have order := L.ordered
  have bound := L.stop_lt
  have base : L.savedSp = L.base := rfl
  have first : L.dataBase = L.savedSp + 16 := rfl
  have saved : (UInt64.ofNat L.savedSp).toNat = L.savedSp := Word.toNat_ofNat_of_lt (by omega)
  refine ⟨?_, ?_, ?_, ?_, by omega, ?_⟩
  · intro slot isSlot
    obtain ⟨sentinel, zero⟩ := initial.readWord_window isSlot
    exact ⟨sentinel, zero, initial.shapeAt_eq isSlot⟩
  · rw [readWord_eq_ite, saved, initial.savedSp]
    exact if_pos ⟨by omega, by omega⟩
  · intro p within apart
    rw [readByte_eq_ite, initial.zero _ apart, if_pos within]
  · intro p w mark
    exact marks_inside mark
  · intro t name single unbound
    simp only [Slots.slotFor, single, unbound, initial.firstFree_eq, ne_eq, not_true_eq_false,
      if_false]

/-- Resetting an arena in which every byte is `0xff`. -/
theorem reset_complete_small :
    let a : Arena .small := ⟨Vector.replicate Layout.small.size 0xff⟩
    a.reset.readWord (Layout.small.cell 16) = .ok freeSentinel ∧
      a.reset.readByte (.ofNat Layout.small.codeBase) = .ok 0 ∧
      Slots.slotFor {} a.reset "x" = .ok (0, Slots.bind {} "x" 0) := by
  intro a
  obtain ⟨windows, -, zero, -, -, first⟩ := reset_complete a
  have isSlot : Layout.small.IsSlot 16 := ⟨by decide, by decide⟩
  have within : Layout.small.Within (UInt64.ofNat Layout.small.codeBase).toNat 1 := by decide
  have behind : Layout.small.dataEnd ≤ (UInt64.ofNat Layout.small.codeBase).toNat := by decide
  exact ⟨(windows 16 isSlot).1, zero _ within (.inr behind), first {} "x" (by decide) rfl⟩

end Arena
end Osl
