import Osl.Proofs.Values.Cells
import Osl.Proofs.Values.Reference

/-!
# How values lie in the data section

`Stored g r t next a`: every name with a value in the ledger `r` has a cell of its own that carries it,
all cells are made up of blocks of `g` bytes, and a block that belongs to no cell is vacant. If a block is
narrower than a string, there is none below a cell that belongs to no cell.

Then the search for a free window comes upon cells only, one after another, until it finds a vacant block
(`Stored.exists_free`). So every name gets a slot where its value fits (`Stored.exists_slotFor`), and the
ledger stays stored as values are assigned and names are forgotten.
-/

namespace Osl
set_option autoImplicit false

variable {L : Layout} {g next next' slot slot' site : Nat} {r : Ledger} {t t' : Slots}
  {a b : Arena L} {name other : String} {v v' : Value}

/-- A name has a value, and a slot for the cell of the value. -/
structure HasCell (r : Ledger) (t : Slots) (name : String) (slot : Nat) (v : Value) : Prop where
  bound : t.lookup name = some slot
  value : r.value name = some v

/-- The cell of a name reaches over an offset into the data section. -/
def Covers (r : Ledger) (t : Slots) (name : String) (site : Nat) : Prop :=
  ∃ slot v, HasCell r t name slot v ∧ slot ≤ site ∧ site < slot + v.span

/-- The values of the ledger lie in the data section as the table tells. -/
structure Stored (g : Nat) (r : Ledger) (t : Slots) (next : Nat) (a : Arena L) : Prop where
  block : g = 16 ∨ g = 32
  placed : t.Placed L
  bound : ∀ name, (t.lookup name).isSome = (r.value name).isSome
  carries : ∀ name slot v, HasCell r t name slot v → a.Carries next slot v
  apart : ∀ name other slot slot' v v', HasCell r t name slot v → HasCell r t other slot' v' →
    name ≠ other → slot + v.span ≤ slot' ∨ slot' + v'.span ≤ slot
  whole : ∀ name slot v, HasCell r t name slot v → slot % g = 0 ∧ v.span % g = 0
  vacant : ∀ site, L.IsSlot site → site % g = 0 → (∀ name, ¬ Covers r t name site) → a.Vacant site
  tight : g < 32 → ∀ name slot v, HasCell r t name slot v →
    ∀ site, site < slot → site % g = 0 → ∃ other, Covers r t other site

/-- A slot for a name where a cell of the given width may lie. -/
structure Granted (L : Layout) (g : Nat) (r : Ledger) (t : Slots) (a : Arena L) (name : String)
    (width slot : Nat) : Prop where
  whole : slot % g = 0 ∧ width % g = 0
  inside : slot + width ≤ L.data
  apart : ∀ other slot' v', HasCell r t other slot' v' → other ≠ name →
    slot + width ≤ slot' ∨ slot' + v'.span ≤ slot
  current : (r.value name = none ∧ a.Vacant slot) ∨
    ∃ old, HasCell r t name slot old ∧ old.span = width
  tight : g < 32 → ∀ site, site < slot → site % g = 0 → ∃ other, Covers r t other site

/-- The data sections agree, except perhaps in `n` bytes from a slot on. -/
def Arena.SameBut (a b : Arena L) (slot n : Nat) : Prop :=
  ∀ p, L.dataBase ≤ p → p < L.stackBase →
    p < L.dataBase + slot ∨ L.dataBase + slot + n ≤ p → b.byte p = a.byte p

/-- What lies apart from the changed bytes stays. -/
theorem Arena.SameBut.sameInside {n k : Nat} (same : a.SameBut b slot n)
    (inside : slot' + k ≤ L.data) (apart : slot' + k ≤ slot ∨ slot + n ≤ slot') :
    a.SameInside b (L.dataBase + slot') (L.dataBase + slot' + k) := by
  have := L.stackBase_eq
  exact fun p low high => same p (by omega) (by omega) (by omega)

/-- The cell of a name is determined. -/
theorem HasCell.unique (h : HasCell r t name slot v) (h' : HasCell r t name slot' v') :
    slot = slot' ∧ v = v' := by
  have same := h.bound.symm.trans h'.bound
  have same' := h.value.symm.trans h'.value
  cases same
  cases same'
  exact ⟨rfl, rfl⟩

namespace Stored

variable (stored : Stored g r t next a)

include stored

theorem hasCell_of_value (value : r.value name = some v) : ∃ slot, HasCell r t name slot v := by
  have same := stored.bound name
  rw [value, Option.isSome_some] at same
  obtain ⟨slot, bound⟩ := Option.isSome_iff_exists.1 same
  exact ⟨slot, bound, value⟩

theorem lookup_of_value_none (unset : r.value name = none) : t.lookup name = none := by
  have same := stored.bound name
  rw [unset] at same
  exact Option.isNone_iff_eq_none.1 (by simpa using same)

theorem isSlot (cell : HasCell r t name slot v) : L.IsSlot slot :=
  (stored.placed name slot cell.bound).2

theorem inside (cell : HasCell r t name slot v) : slot + v.span ≤ L.data :=
  (stored.carries name slot v cell).fits (stored.isSlot cell)

theorem window_aligned (aligned : site % g = 0) : site % 16 = 0 := by
  rcases stored.block with rfl | rfl <;> omega

end Stored

/-! ## Looking for a free window -/

/-- The cells of the given names lie one after another from the start of the data section up to
`offset`. -/
structure Chain (g : Nat) (r : Ledger) (t : Slots) (names : List String) (offset : Nat) : Prop where
  distinct : names.Nodup
  whole : offset % g = 0
  total : (names.map r.span).sum = offset
  below : ∀ name ∈ names, ∃ slot v, HasCell r t name slot v ∧ slot + v.span ≤ offset
  covered : ∀ site, site < offset → site % g = 0 → ∃ name ∈ names, Covers r t name site

namespace Chain

variable {names : List String} {offset : Nat}

/-- A cell that reaches over the end of the cells starts there. -/
theorem slot_eq (chain : Chain g r t names offset) (stored : Stored g r t next a)
    (cell : HasCell r t name slot v) (low : slot ≤ offset) (high : offset < slot + v.span) :
    slot = offset := by
  by_cases earlier : slot < offset
  · obtain ⟨other, member, slot', v', cell', low', high'⟩ :=
      chain.covered slot earlier (stored.whole name slot v cell).1
    obtain ⟨slot'', v'', cell'', under⟩ := chain.below other member
    obtain ⟨rfl, rfl⟩ := cell'.unique cell''
    have ne : name ≠ other := by
      rintro rfl
      obtain ⟨rfl, rfl⟩ := cell.unique cell'
      omega
    have apart := stored.apart name other slot slot' v v' cell cell' ne
    omega
  · omega

/-- The cells go on with one that starts where they end. -/
theorem cons (chain : Chain g r t names offset) (stored : Stored g r t next a)
    (cell : HasCell r t name offset v) : Chain g r t (name :: names) (offset + v.span) := by
  have span : r.span name = v.span := by rw [Ledger.span, cell.value]; rfl
  have whole := stored.whole name offset v cell
  have positive := v.span_eq
  have new : name ∉ names := by
    intro member
    obtain ⟨slot, v', cell', under⟩ := chain.below name member
    obtain ⟨rfl, rfl⟩ := cell.unique cell'
    omega
  refine ⟨List.nodup_cons.2 ⟨new, chain.distinct⟩, ?_, ?_, ?_, ?_⟩
  · rw [Nat.add_mod, chain.whole, whole.2]
    exact Nat.zero_mod g
  · rw [List.map_cons, List.sum_cons, chain.total, span, Nat.add_comm]
  · intro other member
    rcases List.mem_cons.1 member with rfl | earlier
    · exact ⟨offset, v, cell, Nat.le_refl _⟩
    · obtain ⟨slot, v', cell', under⟩ := chain.below other earlier
      exact ⟨slot, v', cell', by omega⟩
  · intro site high aligned
    by_cases earlier : site < offset
    · obtain ⟨other, member, covers⟩ := chain.covered site earlier aligned
      exact ⟨other, List.mem_cons_of_mem _ member, covers⟩
    · exact ⟨name, List.mem_cons_self, offset, v, cell, by omega, high⟩

/-- Behind the cells there is room for that of one more name. -/
theorem room (chain : Chain g r t names offset) (unset : r.value name = none)
    (fits : (r.set name (some v)).Fits L.data) : offset + v.span ≤ L.data := by
  have values {other : String} (member : other ∈ names) : ∃ v', r.value other = some v' := by
    obtain ⟨slot, v', cell, -⟩ := chain.below other member
    exact ⟨v', cell.value⟩
  have ne {other : String} (member : other ∈ names) : other ≠ name := by
    rintro rfl
    obtain ⟨v', value⟩ := values member
    rw [unset] at value
    cases value
  have distinct : (name :: names).Nodup :=
    List.nodup_cons.2 ⟨fun member => ne member rfl, chain.distinct⟩
  have total := fits (name :: names) distinct fun other member => by
    rcases List.mem_cons.1 member with rfl | earlier
    · rw [r.value_set_self]
      rfl
    · obtain ⟨v', value⟩ := values earlier
      rw [r.value_set_of_ne _ _ (ne earlier), value]
      rfl
  have others : names.map (r.set name (some v)).span = names.map r.span :=
    List.map_congr_left fun other member => by
      rw [Ledger.span, r.value_set_of_ne _ _ (ne member), Ledger.span]
  have own : (r.set name (some v)).span name = v.span := by
    rw [Ledger.span, r.value_set_self]
    rfl
  rw [List.map_cons, List.sum_cons, others, own, chain.total] at total
  omega

end Chain

/-- As long as there is room for one more cell, the search finds a block of no cell, and every block
below it belongs to a cell. -/
theorem Stored.exists_free (stored : Stored g r t next a) (used : next ≤ L.stop)
    (unset : r.value name = none) (fits : (r.set name (some v)).Fits L.data) (windows : Nat)
    {offset : Nat} {names : List String} (chain : Chain g r t names offset)
    (enough : L.data ≤ offset + 16 * windows) :
    ∃ site, Slots.firstFreeFrom a windows offset = some site ∧ site % g = 0 ∧
      site + v.span ≤ L.data ∧ (∀ other, ¬ Covers r t other site) ∧
      ∀ lower, lower < site → lower % g = 0 → ∃ other, Covers r t other lower := by
  have wide := v.span_eq
  induction windows generalizing offset names with
  | zero =>
    have room := chain.room unset fits
    omega
  | succ windows ih =>
    have room := chain.room unset fits
    have whole := chain.whole
    have isSlot : L.IsSlot offset := ⟨stored.window_aligned whole, by omega⟩
    rw [Slots.firstFreeFrom, if_neg (by omega)]
    by_cases covered : ∃ other, Covers r t other offset
    · obtain ⟨other, slot, v', cell, low, high⟩ := covered
      obtain rfl := chain.slot_eq stored cell low high
      obtain ⟨shape, looks, notFree, span⟩ :=
        (stored.carries other slot v' cell).shapeAt_eq isSlot used
      have next := ih (chain.cons stored cell) (by have := v'.span_eq; omega)
      rw [looks]
      rw [← span] at next
      cases shape with
      | free => exact absurd rfl notFree
      | integer | string => exact next
    · have none : ∀ other, ¬ Covers r t other offset := fun other covers => covered ⟨other, covers⟩
      rw [(stored.vacant offset isSlot whole none).shapeAt_eq isSlot]
      refine ⟨offset, rfl, whole, room, none, fun lower less aligned => ?_⟩
      obtain ⟨other, -, covers⟩ := chain.covered lower less aligned
      exact ⟨other, covers⟩

/-- A block of no cell is apart from every cell, with as much of the data section behind it as a value
needs. -/
theorem Stored.apart_of_uncovered (stored : Stored g r t next a) (aligned : site % g = 0)
    (wide : v.span % g = 0) (uncovered : ∀ other, ¬ Covers r t other site)
    (cell : HasCell r t other slot v') : site + v.span ≤ slot ∨ slot + v'.span ≤ site := by
  by_cases above : site < slot
  · by_cases narrow : g < 32
    · obtain ⟨name, covers⟩ := stored.tight narrow other slot v' cell site above aligned
      exact absurd covers (uncovered name)
    · have whole := (stored.whole other slot v' cell).1
      have block := stored.block
      have span := v.span_eq
      have isBlock : g = 32 := by omega
      subst isBlock
      omega
  · have outside : ¬ site < slot + v'.span := fun below =>
      uncovered other ⟨slot, v', cell, by omega, below⟩
    omega

/-- Every name with room for its value gets a slot for it. -/
theorem Stored.exists_slotFor (stored : Stored g r t next a) (used : next ≤ L.stop)
    (single : name.utf8ByteSize = 1) (wide : v.span % g = 0)
    (kind : ∀ old, r.value name = some old → old.span = v.span)
    (fits : (r.set name (some v)).Fits L.data) :
    ∃ slot t', t.slotFor a name = .ok (slot, t') ∧ Granted L g r t a name v.span slot := by
  cases value : r.value name with
  | some old =>
    obtain ⟨slot, cell⟩ := stored.hasCell_of_value value
    have asked := Slots.slotFor_of_lookup (a := a) single cell.bound
    have span := kind old value
    have inside := stored.inside cell
    rw [span] at inside
    refine ⟨slot, t, asked, ⟨(stored.whole name slot old cell).1, wide⟩, inside, ?_,
      .inr ⟨old, cell, span⟩, fun narrow => stored.tight narrow name slot old cell⟩
    intro other slot' v' cell' ne
    have apart := stored.apart name other slot slot' old v' cell cell' (Ne.symm ne)
    rwa [span] at apart
  | none =>
    have start : Chain g r t [] 0 :=
      ⟨List.nodup_nil, Nat.zero_mod g, rfl, fun _ member => absurd member List.not_mem_nil,
        fun _ below => absurd below (Nat.not_lt_zero _)⟩
    have whole := L.data_aligned
    have span := v.span_eq
    obtain ⟨site, found, aligned, inside, uncovered, below⟩ :=
      stored.exists_free used value fits (L.data / 16) start (by omega)
    have asked : t.slotFor a name = .ok (site, t.bind name site) := by
      simp only [Slots.slotFor, single, ne_eq, not_true_eq_false, if_false,
        stored.lookup_of_value_none value, Slots.firstFree, found]
    have isSlot : L.IsSlot site := ⟨stored.window_aligned aligned, by omega⟩
    exact ⟨site, _, asked, ⟨aligned, wide⟩, inside,
      fun other slot' v' cell _ => stored.apart_of_uncovered aligned wide uncovered cell,
      .inl ⟨value, stored.vacant site isSlot aligned uncovered⟩, fun _ => below⟩

/-! ## Changes -/

/-- The cells after a value was assigned. -/
theorem hasCell_assign {c : Arena L} (asked : t.slotFor c name = .ok (slot, t')) :
    HasCell (r.set name (some v)) t' other slot' v' ↔
      (other = name ∧ slot' = slot ∧ v' = v) ∨ (other ≠ name ∧ HasCell r t other slot' v') := by
  have bound := Slots.lookup_slotFor_self asked
  constructor
  · intro cell
    by_cases here : other = name
    · subst here
      have place := cell.bound
      have value := cell.value
      rw [bound] at place
      rw [r.value_set_self] at value
      cases place
      cases value
      exact .inl ⟨rfl, rfl, rfl⟩
    · refine .inr ⟨here, ?_, ?_⟩
      · rw [← Slots.lookup_slotFor_of_ne asked here]
        exact cell.bound
      · rw [← r.value_set_of_ne name (some v) here]
        exact cell.value
  · rintro (⟨rfl, rfl, rfl⟩ | ⟨ne, cell⟩)
    · exact ⟨bound, r.value_set_self _ _⟩
    · refine ⟨?_, ?_⟩
      · rw [Slots.lookup_slotFor_of_ne asked ne]
        exact cell.bound
      · rw [r.value_set_of_ne name (some v) ne]
        exact cell.value

/-- The cells after a name was forgotten. -/
theorem hasCell_erase :
    HasCell (r.set name none) (t.erase name) other slot' v' ↔
      other ≠ name ∧ HasCell r t other slot' v' := by
  constructor
  · intro cell
    have place := cell.bound
    have value := cell.value
    rw [t.lookup_erase] at place
    split at place
    · cases place
    · rename_i ne
      rw [r.value_set_of_ne name none ne] at value
      exact ⟨ne, place, value⟩
  · rintro ⟨ne, cell⟩
    refine ⟨?_, ?_⟩
    · rw [t.lookup_erase, if_neg ne]
      exact cell.bound
    · rw [r.value_set_of_ne name none ne]
      exact cell.value

/-- Printing changes no cell. -/
theorem hasCell_print {bs : List Byte} :
    HasCell (r.print bs) t name slot v ↔ HasCell r t name slot v :=
  ⟨fun cell => ⟨cell.bound, cell.value⟩, fun cell => ⟨cell.bound, cell.value⟩⟩

theorem Stored.print (stored : Stored g r t next a) (bs : List Byte) :
    Stored g (r.print bs) t next a := by
  have covers {name : String} {site : Nat} : Covers (r.print bs) t name site ↔ Covers r t name site := by
    simp only [Covers, hasCell_print]
  refine ⟨stored.block, stored.placed, stored.bound, ?_, ?_, ?_, ?_, ?_⟩
  · simpa only [hasCell_print] using stored.carries
  · simpa only [hasCell_print] using stored.apart
  · simpa only [hasCell_print] using stored.whole
  · simpa only [covers] using stored.vacant
  · simpa only [hasCell_print, covers] using stored.tight

/-- Only data section and literals matter. -/
theorem Stored.sameValues (stored : Stored g r t next a) (same : a.SameValues b next)
    (grown : next ≤ next') : Stored g r t next' b := by
  have := L.stackBase_eq
  refine ⟨stored.block, stored.placed, stored.bound, ?_, stored.apart, stored.whole, ?_, stored.tight⟩
  · intro name slot v cell
    have inside := stored.inside cell
    exact (stored.carries name slot v cell).sameInside grown (same.data.mono (by omega) (by omega))
      same.literals
  · intro site isSlot aligned uncovered
    have fits := isSlot.fits
    exact (stored.vacant site isSlot aligned uncovered).sameInside
      (same.data.mono (by omega) (by omega))

/-- Whatever was covered stays so, as a name that has a cell keeps it. -/
theorem Granted.covers {c : Arena L} (granted : Granted L g r t c name v.span slot)
    (asked : t.slotFor c name = .ok (slot, t')) (covered : ∃ other, Covers r t other site) :
    ∃ other, Covers (r.set name (some v)) t' other site := by
  obtain ⟨other, slot', v', cell, low, high⟩ := covered
  by_cases here : other = name
  · subst here
    rcases granted.current with ⟨unset, -⟩ | ⟨old, cell', wide⟩
    · rw [cell.value] at unset
      cases unset
    · obtain ⟨rfl, rfl⟩ := cell.unique cell'
      rw [wide] at high
      exact ⟨other, slot', v, (hasCell_assign asked).2 (.inl ⟨rfl, rfl, rfl⟩), low, high⟩
  · exact ⟨other, slot', v', (hasCell_assign asked).2 (.inr ⟨here, cell⟩), low, high⟩

/-- The cell that was given to a name lies apart from the others. -/
theorem Stored.apart_assign {c : Arena L} (stored : Stored g r t next a)
    (asked : t.slotFor c name = .ok (slot, t')) (granted : Granted L g r t c name v.span slot)
    {n₁ n₂ : String} {slot₁ slot₂ : Nat} {v₁ v₂ : Value}
    (cell₁ : HasCell (r.set name (some v)) t' n₁ slot₁ v₁)
    (cell₂ : HasCell (r.set name (some v)) t' n₂ slot₂ v₂) (ne : n₁ ≠ n₂) :
    slot₁ + v₁.span ≤ slot₂ ∨ slot₂ + v₂.span ≤ slot₁ := by
  rcases (hasCell_assign asked).1 cell₁ with ⟨rfl, rfl, rfl⟩ | ⟨ne₁, old₁⟩
  · rcases (hasCell_assign asked).1 cell₂ with ⟨rfl, -, -⟩ | ⟨ne₂, old₂⟩
    · exact absurd rfl ne
    · exact granted.apart n₂ slot₂ v₂ old₂ ne₂
  · rcases (hasCell_assign asked).1 cell₂ with ⟨rfl, rfl, rfl⟩ | ⟨ne₂, old₂⟩
    · exact (granted.apart n₁ slot₁ v₁ old₁ ne₁).symm
    · exact stored.apart n₁ n₂ slot₁ slot₂ v₁ v₂ old₁ old₂ ne

/-- Writing a value into the cell that its name was given stores the ledger with that value. -/
theorem Stored.assign {c : Arena L} (stored : Stored g r t next a)
    (asked : t.slotFor c name = .ok (slot, t')) (granted : Granted L g r t c name v.span slot)
    (same : a.SameBut b slot v.span) (literals : a.SameInside b L.literalBase next)
    (grown : next ≤ next') (carries : b.Carries next' slot v) :
    Stored g (r.set name (some v)) t' next' b := by
  have span := v.span_eq
  have inside := granted.inside
  refine ⟨stored.block, stored.placed.slotFor asked, ?_, ?_, ?_, ?_, ?_, ?_⟩
  · intro other
    by_cases here : other = name
    · rw [here, Slots.lookup_slotFor_self asked, r.value_set_self]
      rfl
    · rw [Slots.lookup_slotFor_of_ne asked here, r.value_set_of_ne _ _ here, stored.bound other]
  · intro other slot' v' cell
    rcases (hasCell_assign asked).1 cell with ⟨rfl, rfl, rfl⟩ | ⟨ne, cell⟩
    · exact carries
    · exact (stored.carries other slot' v' cell).sameInside grown
        (same.sameInside (stored.inside cell) (granted.apart other slot' v' cell ne).symm) literals
  · intro n₁ n₂ slot₁ slot₂ v₁ v₂ cell₁ cell₂ ne
    exact stored.apart_assign asked granted cell₁ cell₂ ne
  · intro other slot' v' cell
    rcases (hasCell_assign asked).1 cell with ⟨rfl, rfl, rfl⟩ | ⟨-, cell⟩
    · exact granted.whole
    · exact stored.whole other slot' v' cell
  · intro site isSlot aligned uncovered
    have before : ∀ other, ¬ Covers r t other site := fun other covered =>
      (granted.covers asked ⟨other, covered⟩).elim uncovered
    have off : ¬ (slot ≤ site ∧ site < slot + v.span) := fun covered =>
      uncovered name ⟨slot, v, (hasCell_assign asked).2 (.inl ⟨rfl, rfl, rfl⟩), covered⟩
    have window := stored.window_aligned granted.whole.1
    have window' := isSlot.aligned
    exact (stored.vacant site isSlot aligned before).sameInside
      (same.sameInside isSlot.fits (by omega))
  · intro narrow other slot' v' cell site below aligned
    rcases (hasCell_assign asked).1 cell with ⟨rfl, rfl, rfl⟩ | ⟨-, cell⟩
    · exact granted.covers asked (granted.tight narrow site below aligned)
    · exact granted.covers asked (stored.tight narrow other slot' v' cell site below aligned)

/-- Forgetting a name whose block is made vacant forgets its value. -/
theorem Stored.erase (stored : Stored 32 r t next a) (cell : HasCell r t name slot v)
    (same : a.SameBut b slot 16) (literals : a.SameInside b L.literalBase next)
    (vacated : b.Vacant slot) : Stored 32 (r.set name none) (t.erase name) next b := by
  have wide : v.span = 32 := by
    have whole := (stored.whole name slot v cell).2
    have span := v.span_eq
    omega
  refine ⟨.inr rfl, stored.placed.erase, ?_, ?_, ?_, ?_, ?_, fun narrow => absurd narrow (by decide)⟩
  · intro other
    rw [t.lookup_erase]
    by_cases here : other = name
    · rw [if_pos here, here, r.value_set_self]
      rfl
    · rw [if_neg here, r.value_set_of_ne _ _ here, stored.bound other]
  · intro other slot' v' cell'
    obtain ⟨ne, cell'⟩ := hasCell_erase.1 cell'
    have apart := stored.apart other name slot' slot v' v cell' cell ne
    exact (stored.carries other slot' v' cell').sameInside (Nat.le_refl _)
      (same.sameInside (stored.inside cell') (by omega)) literals
  · intro n₁ n₂ slot₁ slot₂ v₁ v₂ cell₁ cell₂ ne
    exact stored.apart n₁ n₂ slot₁ slot₂ v₁ v₂ (hasCell_erase.1 cell₁).2 (hasCell_erase.1 cell₂).2 ne
  · intro other slot' v' cell'
    exact stored.whole other slot' v' (hasCell_erase.1 cell').2
  · intro site isSlot aligned uncovered
    have own := (stored.whole name slot v cell).1
    by_cases here : site = slot
    · rw [here]
      exact vacated
    · have before : ∀ other, ¬ Covers r t other site := by
        rintro other ⟨slot', v', cell', low, high⟩
        by_cases forgotten : other = name
        · subst forgotten
          obtain ⟨rfl, rfl⟩ := cell'.unique cell
          omega
        · exact uncovered other ⟨slot', v', hasCell_erase.2 ⟨forgotten, cell'⟩, low, high⟩
      exact (stored.vacant site isSlot aligned before).sameInside
        (same.sameInside isSlot.fits (by omega))

/-- In a new arena nothing is stored. -/
theorem stored_initial (L : Layout) (block : g = 16 ∨ g = 32) :
    Stored g {} {} L.literalBase (Arena.initial L) := by
  have none {name : String} {slot : Nat} {v : Value} : ¬ HasCell {} {} name slot v := fun cell => by
    have bound := cell.bound
    cases bound
  refine ⟨block, Slots.Reachable.empty.placed, fun _ => rfl, fun _ _ _ cell => absurd cell none,
    fun _ _ _ _ _ _ cell => absurd cell none, fun _ _ _ cell => absurd cell none,
    fun site isSlot _ _ => Arena.vacant_initial isSlot, fun _ _ _ _ cell => absurd cell none⟩

end Osl
