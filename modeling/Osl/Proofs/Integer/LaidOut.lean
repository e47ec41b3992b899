import Osl.Proofs.Arena.Frame
import Osl.Proofs.Integer.Reference

/-!
# How a store lies in the data section

`Store.LaidOut s t a`: the names of `s` are those that the table `t` binds, each to a slot of its own
with its value in the cell, and all other windows look as in a new arena. Then the search for a free
window finds one as long as there are fewer names than windows (`exists_firstFree`), and assigning
and forgetting names keep the store laid out.
-/

namespace Osl
set_option autoImplicit false

variable {L : Layout} {s : Store} {t t' : Slots} {a b : Arena L} {name other : String}
  {slot : Nat} {v : Word}

/-- The store lies in the data section as the table tells. -/
structure Store.LaidOut (s : Store) (t : Slots) (a : Arena L) : Prop where
  placed : t.Placed L
  bound : ∀ name, (t.lookup name).isSome = (s.lookup name).isSome
  apart : ∀ name other slot, t.lookup name = some slot → t.lookup other = some slot → name = other
  cell : ∀ name slot v, t.lookup name = some slot → s.lookup name = some v →
    a.Holds (L.dataBase + slot) [v, 0]
  free : ∀ slot, L.IsSlot slot → (∀ name, t.lookup name ≠ some slot) →
    a.Holds (L.dataBase + slot) [freeSentinel, 0]
  plain : ∀ name v, s.lookup name = some v → v.IsPlain

/-- The data sections agree, except perhaps in the window of a slot. -/
def Arena.SameButWindow (a b : Arena L) (slot : Nat) : Prop :=
  ∀ p, L.dataBase ≤ p → p < L.stackBase →
    p < L.dataBase + slot ∨ L.dataBase + slot + 16 ≤ p → b.byte p = a.byte p

/-- What a window holds it holds while another one changes. -/
theorem Arena.Holds.elsewhere {u w : Word} (h : a.Holds (L.dataBase + slot) [u, w]) {changed : Nat}
    (same : a.SameButWindow b changed) (isSlot : L.IsSlot changed) (isSlot' : L.IsSlot slot)
    (ne : slot ≠ changed) : b.Holds (L.dataBase + slot) [u, w] := by
  have top := L.stackBase_eq
  have fits := isSlot'.fits
  have aligned := isSlot.aligned
  have aligned' := isSlot'.aligned
  have window : a.SameInside b (L.dataBase + slot) (L.dataBase + slot + 16) :=
    fun p low high => same p (by omega) (by omega) (by omega)
  exact ⟨(window.wordAt (by omega) (by omega)).trans h.1,
    (window.wordAt (by omega) (by omega)).trans h.2.1, trivial⟩

/-- A plain word before a zero is taken for an integer. -/
theorem Word.IsPlain.classify (h : v.IsPlain) : Shape.classify v 0 = .integer := by
  unfold IsPlain at h
  rw [Shape.classify, if_pos]
  exact ⟨rfl, by rwa [Word.isNegative_iff]⟩

namespace Store.LaidOut

/-- Only the data section matters. -/
theorem sameInside (laid : s.LaidOut t a) (same : a.SameInside b L.dataBase L.stackBase) :
    s.LaidOut t b := by
  have top := L.stackBase_eq
  have holds {slot : Nat} {v w : Word} (isSlot : L.IsSlot slot)
      (h : a.Holds (L.dataBase + slot) [v, w]) : b.Holds (L.dataBase + slot) [v, w] := by
    have fits := isSlot.fits
    exact ⟨(same.wordAt (by omega) (by omega)).trans h.1,
      (same.wordAt (by omega) (by omega)).trans h.2.1, trivial⟩
  refine ⟨laid.placed, laid.bound, laid.apart, ?_, ?_, laid.plain⟩
  · intro name slot v isBound value
    exact holds (laid.placed name slot isBound).2 (laid.cell name slot v isBound value)
  · intro slot isSlot unbound
    exact holds isSlot (laid.free slot isSlot unbound)

theorem value_of_bound (laid : s.LaidOut t a) (bound : t.lookup name = some slot) :
    ∃ v, s.lookup name = some v := by
  have same := laid.bound name
  rw [bound, Option.isSome_some] at same
  exact Option.isSome_iff_exists.1 same.symm

theorem bound_of_value (laid : s.LaidOut t a) (value : s.lookup name = some v) :
    ∃ slot, t.lookup name = some slot := by
  have same := laid.bound name
  rw [value, Option.isSome_some] at same
  exact Option.isSome_iff_exists.1 same

/-- A window is taken for an integer if it is bound. -/
theorem shapeAt_bound (laid : s.LaidOut t a) (bound : t.lookup name = some slot) :
    Slots.shapeAt a slot = some .integer := by
  obtain ⟨v, value⟩ := laid.value_of_bound bound
  have cell := laid.cell name slot v bound value
  rw [Slots.shapeAt_eq a (laid.placed name slot bound).2, cell.1, cell.2.1,
    (laid.plain name v value).classify]

/-- A window is free if it is not bound. -/
theorem shapeAt_unbound (laid : s.LaidOut t a) (isSlot : L.IsSlot slot)
    (unbound : ∀ name, t.lookup name ≠ some slot) : Slots.shapeAt a slot = some .free := by
  have cell := laid.free slot isSlot unbound
  rw [Slots.shapeAt_eq a isSlot, cell.1, cell.2.1, Shape.classify_freeSentinel]

/-- If the walk over the windows finds nothing, it has gone over bound windows only. -/
theorem bound_of_firstFreeFrom (laid : s.LaidOut t a) {windows offset : Nat}
    (aligned : offset % 16 = 0) (inside : offset + 16 * windows ≤ L.data)
    (none : Slots.firstFreeFrom a windows offset = none) :
    ∀ i, i < windows → ∃ name, t.lookup name = some (offset + 16 * i) := by
  induction windows generalizing offset with
  | zero => intro i few; omega
  | succ windows ih =>
    have isSlot : L.IsSlot offset := ⟨aligned, by omega⟩
    by_cases unbound : ∀ name, t.lookup name ≠ some offset
    · rw [Slots.firstFreeFrom, if_neg (by omega), laid.shapeAt_unbound isSlot unbound] at none
      cases none
    · obtain ⟨name, bound⟩ : ∃ name, t.lookup name = some offset := by
        simpa only [ne_eq, Classical.not_forall, Classical.not_not] using unbound
      rw [Slots.firstFreeFrom, if_neg (by omega), laid.shapeAt_bound bound] at none
      have span : Shape.integer.span = 16 := rfl
      have later := ih (by omega) (by omega) none
      intro i few
      cases i with
      | zero => exact ⟨name, bound⟩
      | succ i =>
        obtain ⟨next, isBound⟩ := later i (by omega)
        refine ⟨next, ?_⟩
        rw [isBound]
        congr 1
        omega

/-- With fewer names than windows there is a free window. -/
theorem exists_firstFree (laid : s.LaidOut t a) (room : s.size < L.data / 16) :
    ∃ slot, Slots.firstFree a = some slot := by
  cases found : Slots.firstFree a with
  | some slot => exact ⟨slot, rfl⟩
  | none =>
    have every := laid.bound_of_firstFreeFrom (by omega) (by omega) found
    -- one name for every window, all of them different and in the store
    obtain ⟨f, bound⟩ : ∃ f : Nat → String,
        ∀ i, i < L.data / 16 → t.lookup (f i) = some (0 + 16 * i) := by
      refine ⟨fun i => if few : i < L.data / 16 then (every i few).choose else "", ?_⟩
      intro i few
      simp only [dif_pos few]
      exact (every i few).choose_spec
    have distinct : ((List.range (L.data / 16)).map f).Nodup := by
      refine List.pairwise_map.2 (List.pairwise_lt_range.imp_of_mem ?_)
      intro i j inRange inRange' less same
      have first := bound i (List.mem_range.1 inRange)
      rw [same, bound j (List.mem_range.1 inRange')] at first
      injection first
      omega
    have subset : (List.range (L.data / 16)).map f ⊆ s.bindings.map Prod.fst := by
      intro name member
      obtain ⟨i, inRange, rfl⟩ := List.mem_map.1 member
      obtain ⟨v, value⟩ := laid.value_of_bound (bound i (List.mem_range.1 inRange))
      exact s.mem_names_of_lookup value
    have count := distinct.length_le_of_subset subset
    rw [List.length_map, List.length_range, List.length_map] at count
    unfold size at room
    omega

/-- A free window that was found is nobody's. -/
theorem unbound_of_firstFree (laid : s.LaidOut t a) (found : Slots.firstFree a = some slot) :
    ∀ name, t.lookup name ≠ some slot := by
  intro name bound
  have shape := (Slots.firstFree_spec found).2
  rw [laid.shapeAt_bound bound] at shape
  cases shape

/-- With room for one more name, every name gets a slot that is no one else's. -/
theorem exists_slotFor (laid : s.LaidOut t a) (single : name.utf8ByteSize = 1)
    (room : s.lookup name = none → s.size < L.data / 16) :
    ∃ slot t', t.slotFor a name = .ok (slot, t') ∧
      ∀ other, other ≠ name → t.lookup other ≠ some slot := by
  cases bound : t.lookup name with
  | some slot =>
    refine ⟨slot, t, Slots.slotFor_of_lookup single bound, ?_⟩
    intro other ne isBound
    exact ne (laid.apart other name slot isBound bound)
  | none =>
    have unset : s.lookup name = none := by
      have same := laid.bound name
      rw [bound] at same
      exact Option.isNone_iff_eq_none.1 (by simpa using same.symm)
    obtain ⟨slot, found⟩ := laid.exists_firstFree (room unset)
    have asked : t.slotFor a name = .ok (slot, t.bind name slot) := by
      simp only [Slots.slotFor, single, ne_eq, not_true_eq_false, if_false, bound, found]
    exact ⟨slot, t.bind name slot, asked, fun other _ => laid.unbound_of_firstFree found other⟩

/-- Names have different slots after one of them was given a slot of no other name. -/
theorem apart_slotFor {c : Arena L} (laid : s.LaidOut t a) (asked : t.slotFor c name = .ok (slot, t'))
    (alone : ∀ other, other ≠ name → t.lookup other ≠ some slot) {n₁ n₂ : String} {u : Nat}
    (bound₁ : t'.lookup n₁ = some u) (bound₂ : t'.lookup n₂ = some u) : n₁ = n₂ := by
  have bound := Slots.lookup_slotFor_self asked
  have others (other : String) (ne : other ≠ name) : t'.lookup other = t.lookup other :=
    Slots.lookup_slotFor_of_ne asked ne
  by_cases here₁ : n₁ = name
  · by_cases here₂ : n₂ = name
    · rw [here₁, here₂]
    · rw [here₁, bound] at bound₁
      cases bound₁
      rw [others n₂ here₂] at bound₂
      exact absurd bound₂ (alone n₂ here₂)
  · rw [others n₁ here₁] at bound₁
    by_cases here₂ : n₂ = name
    · rw [here₂, bound] at bound₂
      cases bound₂
      exact absurd bound₁ (alone n₁ here₁)
    · rw [others n₂ here₂] at bound₂
      exact laid.apart n₁ n₂ u bound₁ bound₂

/-- Writing a value into the cell that its name was given lays out the store with that value. -/
theorem assign {c : Arena L} (laid : s.LaidOut t a) (asked : t.slotFor c name = .ok (slot, t'))
    (alone : ∀ other, other ≠ name → t.lookup other ≠ some slot) (plain : v.IsPlain)
    (same : a.SameButWindow b slot) (holds : b.Holds (L.dataBase + slot) [v, 0]) :
    (s.assign name v).LaidOut t' b := by
  have bound := Slots.lookup_slotFor_self asked
  have others (other : String) (ne : other ≠ name) : t'.lookup other = t.lookup other :=
    Slots.lookup_slotFor_of_ne asked ne
  have isSlot := laid.placed.isSlot asked
  refine ⟨laid.placed.slotFor asked, ?_, ?_, ?_, ?_, ?_⟩
  · intro other
    by_cases here : other = name
    · rw [s.lookup_assign, if_pos here, here, bound]
      rfl
    · rw [s.lookup_assign, if_neg here, others other here, laid.bound other]
  · intro n₁ n₂ u bound₁ bound₂
    exact laid.apart_slotFor asked alone bound₁ bound₂
  · intro other u w isBound value
    by_cases here : other = name
    · rw [here, bound] at isBound
      rw [s.lookup_assign, if_pos here] at value
      cases isBound
      cases value
      exact holds
    · rw [s.lookup_assign, if_neg here] at value
      rw [others other here] at isBound
      have ne : u ≠ slot := by
        rintro rfl
        exact alone other here isBound
      exact (laid.cell other u w isBound value).elsewhere same isSlot
        (laid.placed other u isBound).2 ne
  · intro u isSlot' unbound
    have ne : u ≠ slot := by
      rintro rfl
      exact unbound name bound
    have before (other : String) : t.lookup other ≠ some u :=
      fun isBound => unbound other (Slots.lookup_slotFor_of_some asked isBound)
    exact (laid.free u isSlot' before).elsewhere same isSlot isSlot' ne
  · intro other w value
    by_cases here : other = name
    · rw [s.lookup_assign, if_pos here] at value
      cases value
      exact plain
    · rw [s.lookup_assign, if_neg here] at value
      exact laid.plain other w value

/-- Forgetting a name whose cell is marked free forgets its value. -/
theorem erase (laid : s.LaidOut t a) (bound : t.lookup name = some slot)
    (same : a.SameButWindow b slot) (holds : b.Holds (L.dataBase + slot) [freeSentinel, 0]) :
    (s.erase name).LaidOut (t.erase name) b := by
  have isSlot := (laid.placed name slot bound).2
  -- what is still bound was bound before, under another name
  have before {other : String} {u : Nat} (isBound : (t.erase name).lookup other = some u) :
      other ≠ name ∧ t.lookup other = some u := by
    rw [t.lookup_erase] at isBound
    split at isBound
    · cases isBound
    · rename_i ne
      exact ⟨ne, isBound⟩
  refine ⟨laid.placed.erase, ?_, ?_, ?_, ?_, ?_⟩
  · intro other
    rw [t.lookup_erase, s.lookup_erase]
    split
    · rfl
    · exact laid.bound other
  · intro n₁ n₂ u bound₁ bound₂
    exact laid.apart n₁ n₂ u (before bound₁).2 (before bound₂).2
  · intro other u w isBound value
    obtain ⟨ne, isBound'⟩ := before isBound
    rw [s.lookup_erase, if_neg ne] at value
    have away : u ≠ slot := by
      rintro rfl
      exact ne (laid.apart other name u isBound' bound)
    exact (laid.cell other u w isBound' value).elsewhere same isSlot
      (laid.placed other u isBound').2 away
  · intro u isSlot' unbound
    by_cases here : u = slot
    · rw [here]
      exact holds
    · have free (other : String) : t.lookup other ≠ some u := by
        intro isBound
        have ne : other ≠ name := by
          rintro rfl
          rw [bound] at isBound
          cases isBound
          exact here rfl
        exact unbound other (by rw [t.lookup_erase, if_neg ne, isBound])
      exact (laid.free u isSlot' free).elsewhere same isSlot isSlot' here
  · intro other w value
    rw [s.lookup_erase] at value
    split at value
    · cases value
    · exact laid.plain other w value

end Store.LaidOut
end Osl
