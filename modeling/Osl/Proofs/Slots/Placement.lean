import Osl.Arena.Lemmas
import Osl.Slots

/-!
# Where slots lie

Every slot that a table binds is a multiple of 16 and leaves room for two words in the data section
(`Slots.Reachable.placed`), whatever the arenas held over which the table was built. A slot found
for a new name is a window that looks free (`firstFree_spec`).
-/

namespace Osl
set_option autoImplicit false

variable {L : Layout}

/-- A slot that starts a window of the data section. -/
structure Layout.IsSlot (L : Layout) (slot : Nat) : Prop where
  aligned : slot % 16 = 0
  fits : slot + 16 ≤ L.data

/-- The address of a cell, a slot away from the start of the data section. -/
theorem Layout.toNat_cell (L : Layout) {slot : Nat} (h : slot ≤ L.data) :
    (L.cell slot).toNat = L.dataBase + slot := by
  have := L.stop_lt
  have := L.ordered
  have := L.stackBase_eq
  rw [Layout.cell, UInt64.toNat_ofNat']
  exact Nat.mod_eq_of_lt (by omega)

theorem Layout.IsSlot.toNat_cell {slot : Nat} (h : L.IsSlot slot) :
    (L.cell slot).toNat = L.dataBase + slot :=
  L.toNat_cell (by have := h.fits; omega)

/-- The scratch stack has room for two words. -/
theorem Layout.stackBase_add_le (L : Layout) : L.stackBase + 16 ≤ L.stackTop := by
  have := L.stack_pos
  have := L.stack_aligned
  have top : L.stackTop = L.stackBase + L.stack := rfl
  omega

/-- The address of the content that follows the first two words of a cell. -/
theorem Layout.toNat_cell_content (L : Layout) {slot : Nat} (h : slot + 16 ≤ L.data) :
    (L.cell slot + 16).toNat = L.dataBase + slot + 16 := by
  have := L.stop_lt
  have := L.ordered
  have := L.stackBase_eq
  have place : (L.cell slot).toNat = L.dataBase + slot := L.toNat_cell (by omega)
  rw [Word.toNat_add_of_lt (by simp only [place, UInt64.reduceToNat]; omega), place]
  rfl

/-- The address of the cell of a slot. -/
def Layout.IsCell (L : Layout) (cell : Word) : Prop := ∃ slot, L.IsSlot slot ∧ cell = L.cell slot

/-- A cell lies in the data section with its first two words. -/
theorem Layout.IsCell.bounds {cell : Word} (h : L.IsCell cell) :
    L.dataBase ≤ cell.toNat ∧ cell.toNat + 16 ≤ L.stackBase := by
  obtain ⟨slot, isSlot, rfl⟩ := h
  have place := isSlot.toNat_cell
  have fits := isSlot.fits
  have := L.stackBase_eq
  omega

/-- The words of a string in a cell come to lie below the code section. -/
theorem Layout.IsCell.toNat_add {cell k : Word} (h : L.IsCell cell) (small : k.toNat ≤ 24) :
    (cell + k).toNat = cell.toNat + k.toNat ∧ cell.toNat + k.toNat + 8 ≤ L.codeBase := by
  have bounds := h.bounds
  have := L.stop_lt
  have := L.ordered
  have := L.stackBase_add_le
  have top : L.codeBase = L.stackTop := rfl
  refine ⟨?_, by omega⟩
  rw [UInt64.toNat_add]
  exact Nat.mod_eq_of_lt (by omega)

/-- The name that an error is about. -/
def SlotError.name : SlotError → String
  | .invalidName name | .exhausted name => name

namespace Slots

variable {t t' : Slots} {a : Arena L} {name other : String} {slot : Nat}

theorem span_mod (s : Shape) : s.span % 16 = 0 := by cases s <;> decide

/-- The shape of a window is that of its first two words. -/
theorem shapeAt_eq (a : Arena L) (isSlot : L.IsSlot slot) :
    shapeAt a slot = some (Shape.classify (a.wordAt (L.dataBase + slot))
      (a.wordAt (L.dataBase + slot + 8))) := by
  have fits := isSlot.fits
  have := L.ordered
  have := L.stackBase_eq
  have first : (L.cell slot).toNat = L.dataBase + slot := isSlot.toNat_cell
  have second : (L.cell (slot + 8)).toNat = L.dataBase + slot + 8 := by
    rw [L.toNat_cell (by omega), Nat.add_assoc]
  have within : L.Within (L.dataBase + slot) 8 := by
    unfold Layout.Within
    omega
  have within' : L.Within (L.dataBase + slot + 8) 8 := by
    unfold Layout.Within
    omega
  simp only [shapeAt, Arena.readWord_eq_ite, first, second, if_pos within, if_pos within']
  rfl

/-- A window found by walking over windows looks free and is a whole number of windows on. -/
theorem firstFreeFrom_spec {windows offset : Nat} (h : firstFreeFrom a windows offset = some slot) :
    offset ≤ slot ∧ (slot - offset) % 16 = 0 ∧ slot < L.data ∧ shapeAt a slot = some .free := by
  induction windows generalizing offset with
  | zero => cases h
  | succ windows ih =>
    rw [firstFreeFrom] at h
    split at h
    · cases h
    · split at h
      · cases h
      · rename_i inside free
        cases h
        exact ⟨Nat.le_refl _, by omega, by omega, free⟩
      · rename_i shape _ _
        have later := ih h
        have whole := span_mod shape
        exact ⟨by omega, by omega, later.2.2⟩

/-- Looking for a free window stops at one. -/
theorem firstFreeFrom_of_free (isSlot : L.IsSlot slot) (free : shapeAt a slot = some .free)
    (windows : Nat) : firstFreeFrom a (windows + 1) slot = some slot := by
  have fits := isSlot.fits
  rw [firstFreeFrom, if_neg (by omega), free]

/-- The window found for a new name starts a slot and looks free. -/
theorem firstFree_spec (h : firstFree a = some slot) : L.IsSlot slot ∧ shapeAt a slot = some .free := by
  have found := firstFreeFrom_spec h
  have whole := L.data_aligned
  exact ⟨⟨by omega, by omega⟩, found.2.2.2⟩

/-- Taking a name out of a list of bindings takes out its value and no other. -/
theorem lookup_filter_ne {β : Type} (bindings : List (String × β)) (name other : String) :
    (bindings.filter (·.1 != name)).lookup other =
      if other = name then none else bindings.lookup other := by
  induction bindings with
  | nil => simp
  | cons b bs ih =>
    obtain ⟨n, s⟩ := b
    by_cases gone : n = name
    · subst gone
      rw [List.filter_cons_of_neg (by simp), ih, List.lookup_cons]
      by_cases same : other = n
      · rw [if_pos same, if_pos same]
      · rw [if_neg same, if_neg same, beq_false_of_ne same]
    · rw [List.filter_cons_of_pos (by simpa using gone), List.lookup_cons, List.lookup_cons, ih]
      by_cases here : other = n
      · subst here
        simp [gone]
      · rw [beq_false_of_ne here]

/-- Forgetting a name forgets its binding and no other. -/
theorem lookup_erase (t : Slots) (name other : String) :
    (t.erase name).lookup other = if other = name then none else t.lookup other :=
  lookup_filter_ne t.bindings name other

/-- A name that is bound has its slot. -/
theorem slotFor_of_lookup (single : name.utf8ByteSize = 1) (bound : t.lookup name = some slot) :
    t.slotFor a name = .ok (slot, t) := by
  simp only [slotFor, single, ne_eq, not_true_eq_false, if_false, bound]

/-- What the slot of a name is: the one it has, or the first free window, to which it is then
bound. -/
theorem slotFor_spec (h : t.slotFor a name = .ok (slot, t')) :
    name.utf8ByteSize = 1 ∧
      ((t.lookup name = some slot ∧ t' = t) ∨
        (t.lookup name = none ∧ firstFree a = some slot ∧ t' = t.bind name slot)) := by
  unfold slotFor at h
  split at h
  · cases h
  · rename_i single
    refine ⟨by omega, ?_⟩
    split at h
    · rename_i bound
      cases h
      exact .inl ⟨bound, rfl⟩
    · rename_i unbound
      split at h
      · rename_i found
        cases h
        exact .inr ⟨unbound, found, rfl⟩
      · cases h

/-- Why a name has no slot: it is not a single byte, or it is not bound and no window looks free. -/
theorem slotFor_error {e : SlotError} (h : t.slotFor a name = .error e) :
    (name.utf8ByteSize ≠ 1 ∧ e = .invalidName name) ∨
      (t.lookup name = none ∧ firstFree a = none ∧ e = .exhausted name) := by
  unfold slotFor at h
  split at h
  · rename_i invalid
    cases h
    exact .inl ⟨invalid, rfl⟩
  · split at h
    · cases h
    · rename_i unbound
      split at h
      · cases h
      · rename_i full
        cases h
        exact .inr ⟨unbound, full, rfl⟩

/-- The error names the name asked for. -/
theorem slotFor_error_name {e : SlotError} (h : t.slotFor a name = .error e) : e.name = name := by
  rcases slotFor_error h with ⟨-, rfl⟩ | ⟨-, -, rfl⟩ <;> rfl

/-- After asking for its slot a name is bound to it. -/
theorem lookup_slotFor_self (h : t.slotFor a name = .ok (slot, t')) : t'.lookup name = some slot := by
  obtain ⟨-, ⟨bound, rfl⟩ | ⟨-, -, rfl⟩⟩ := slotFor_spec h
  · exact bound
  · exact lookup_bind_self t name slot

/-- Asking for a slot leaves the other names alone. -/
theorem lookup_slotFor_of_ne (h : t.slotFor a name = .ok (slot, t')) (ne : other ≠ name) :
    t'.lookup other = t.lookup other := by
  obtain ⟨-, ⟨-, rfl⟩ | ⟨-, -, rfl⟩⟩ := slotFor_spec h
  · rfl
  · exact lookup_bind_of_ne t slot ne

/-- Asking for a slot keeps every binding. -/
theorem lookup_slotFor_of_some {s : Nat} (h : t.slotFor a name = .ok (slot, t'))
    (bound : t.lookup other = some s) : t'.lookup other = some s := by
  obtain ⟨-, ⟨-, rfl⟩ | ⟨unbound, -, rfl⟩⟩ := slotFor_spec h
  · exact bound
  · have ne : other ≠ name := by
      rintro rfl
      rw [unbound] at bound
      cases bound
    rw [lookup_bind_of_ne t slot ne, bound]

/-- Giving up a slot asks for it and forgets the binding. -/
theorem release_spec (h : t.release a name = .ok (slot, t')) :
    ∃ u, t.slotFor a name = .ok (slot, u) ∧ t' = u.erase name := by
  unfold release at h
  cases asked : t.slotFor a name with
  | error e => rw [asked] at h; cases h
  | ok r => rw [asked] at h; cases h; exact ⟨_, rfl, rfl⟩

/-- Giving up a slot fails as asking for it does. -/
theorem release_error {e : SlotError} (h : t.release a name = .error e) :
    t.slotFor a name = .error e := by
  unfold release at h
  cases asked : t.slotFor a name with
  | error e' => rw [asked] at h; cases h; rfl
  | ok r => rw [asked] at h; cases h

/-- The tables that arise by asking for slots and giving them up, over arenas that may hold
anything. -/
inductive Reachable (L : Layout) : Slots → Prop
  | empty : Reachable L {}
  | slotFor {t t' : Slots} {a : Arena L} {name : String} {slot : Nat} :
      Reachable L t → t.slotFor a name = .ok (slot, t') → Reachable L t'
  | release {t t' : Slots} {a : Arena L} {name : String} {slot : Nat} :
      Reachable L t → t.release a name = .ok (slot, t') → Reachable L t'

/-- Every name bound is a single byte, and its slot starts a window of the data section. -/
def Placed (L : Layout) (t : Slots) : Prop :=
  ∀ name slot, t.lookup name = some slot → name.utf8ByteSize = 1 ∧ L.IsSlot slot

/-- A name that has no slot to ask for is not bound. -/
theorem Placed.lookup_of_error {e : SlotError} (placed : t.Placed L)
    (h : t.slotFor a name = .error e) : t.lookup name = none := by
  rcases slotFor_error h with ⟨invalid, -⟩ | ⟨unbound, -⟩
  · rw [Option.eq_none_iff_forall_ne_some]
    intro slot bound
    exact invalid (placed name slot bound).1
  · exact unbound

/-- Asking for a slot gives one that starts a window. -/
theorem Placed.isSlot (placed : t.Placed L) (h : t.slotFor a name = .ok (slot, t')) :
    L.IsSlot slot := by
  obtain ⟨-, ⟨bound, -⟩ | ⟨-, found, -⟩⟩ := slotFor_spec h
  · exact (placed name slot bound).2
  · exact (firstFree_spec found).1

theorem Placed.slotFor (placed : t.Placed L) (h : t.slotFor a name = .ok (slot, t')) :
    t'.Placed L := by
  intro other s bound
  by_cases same : other = name
  · subst same
    rw [lookup_slotFor_self h] at bound
    cases bound
    exact ⟨(slotFor_spec h).1, placed.isSlot h⟩
  · rw [lookup_slotFor_of_ne h same] at bound
    exact placed other s bound

theorem Placed.erase (placed : t.Placed L) : (t.erase name).Placed L := by
  intro other s bound
  by_cases same : other = name
  · subst same
    rw [lookup_erase, if_pos rfl] at bound
    cases bound
  · rw [lookup_erase, if_neg same] at bound
    exact placed other s bound

theorem Reachable.placed (h : Reachable L t) : t.Placed L := by
  induction h with
  | empty => intro name slot bound; cases bound
  | slotFor _ asked ih => exact ih.slotFor asked
  | release _ released ih =>
    obtain ⟨u, asked, rfl⟩ := release_spec released
    exact (ih.slotFor asked).erase

end Slots
end Osl
