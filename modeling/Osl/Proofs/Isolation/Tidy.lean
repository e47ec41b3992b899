import Osl.Proofs.Isolation.Careful

/-!
# Cells that keep apart

An executor is `Tidy` if the cells of the names that are assigned hold small integers or strings of
their own and share no byte, and the windows of all other bound names look free. A change of one cell
that spares the others leaves their values alone (`Tidy.valueOf_eq`) and the executor tidy
(`Tidy.change`).
-/

namespace Osl
set_option autoImplicit false

variable {L : Layout} {σ : Type} {slot u n : Nat}

/-- The shape of a window stays as long as its bytes do. -/
theorem Slots.shapeAt_sameInside {a b : Arena L} (isSlot : L.IsSlot slot)
    (same : a.SameInside b (L.dataBase + slot) (L.dataBase + slot + 16)) :
    shapeAt b slot = shapeAt a slot := by
  obtain ⟨first, second⟩ := same.head (Nat.le_refl _)
  rw [shapeAt_eq a isSlot, shapeAt_eq b isSlot, first, second]

theorem Arena.Extent.fits {a : Arena L} (h : a.Extent slot n) (isSlot : L.IsSlot slot) :
    16 ≤ n ∧ slot + n ≤ L.data := by
  have fits := isSlot.fits
  cases h with
  | integer _ => exact ⟨Nat.le_refl _, fits⟩
  | string string => exact ⟨by omega, string.fits⟩
  | dangling _ _ => exact ⟨Nat.le_refl _, fits⟩

namespace Executor

variable {names : List String} {x x' : Executor L σ} {name other target : String}

/-- The cells of assigned names hold values and keep apart, those of other names look free. -/
structure Tidy (names : List String) (x : Executor L σ) : Prop where
  order : x.InOrder
  value : ∀ name ∈ names, ∃ slot, x.slotOf name = some slot ∧
    (x.arena.IntegerAt slot ∨ x.arena.StringAt slot)
  free : ∀ name slot, name ∉ names → x.slotOf name = some slot →
    Slots.shapeAt x.arena slot = some .free
  apart : ∀ name ∈ names, ∀ other ∈ names, name ≠ other → ∀ slot slot',
    x.slotOf name = some slot → x.slotOf other = some slot' →
    slot + x.span name ≤ slot' ∨ slot' + x.span other ≤ slot

theorem InOrder.isSlot (order : x.InOrder) (bound : x.slotOf name = some slot) : L.IsSlot slot :=
  (order.slots.placed name slot bound).2

theorem valueOf_eq (bound : x.slotOf name = some slot) :
    x.valueOf name = (Value.read x.arena (L.cell slot)).toOption := by
  rw [valueOf, bound]
  rfl

theorem span_eq (order : x.InOrder) (bound : x.slotOf name = some slot)
    (extent : x.arena.Extent slot n) : x.span name = n := by
  rw [span, valueOf_eq bound]
  exact extent.span_eq (order.isSlot bound)

namespace Tidy

/-- Every bound name has a cell with an extent, that of its value. -/
theorem extent (tidy : x.Tidy names) (bound : x.slotOf name = some slot) :
    x.arena.Extent slot (x.span name) := by
  have isSlot := tidy.order.isSlot bound
  have known {n : Nat} (extent : x.arena.Extent slot n) : x.arena.Extent slot (x.span name) := by
    rwa [span_eq tidy.order bound extent]
  by_cases assigned : name ∈ names
  · obtain ⟨slot', bound', value⟩ := tidy.value name assigned
    rw [bound] at bound'
    cases bound'
    rcases value with integer | string
    · exact known integer.extent
    · exact known (.string string)
  · exact known (Arena.extent_of_free isSlot (tidy.free name slot assigned bound))

/-- The first two words of an assigned cell are in no other cell. -/
theorem apart_head (tidy : x.Tidy names) (assigned : name ∈ names) (ne : name ≠ other)
    {slot' : Nat} (bound : x.slotOf name = some slot) (bound' : x.slotOf other = some slot') :
    slot + 16 ≤ slot' ∨ slot' + x.span other ≤ slot := by
  have isSlot := tidy.order.isSlot bound
  have isSlot' := tidy.order.isSlot bound'
  by_cases assigned' : other ∈ names
  · have two := ((tidy.extent bound).fits isSlot).1
    have apart := tidy.apart name assigned other assigned' ne slot slot' bound bound'
    omega
  · -- the window of the other one looks free, and so it is not the same window
    have free := tidy.free other slot' assigned' bound'
    have away : slot' ≠ slot := by
      rintro rfl
      obtain ⟨u, again, value⟩ := tidy.value name assigned
      rw [bound] at again
      cases again
      rcases value with integer | string
      · exact integer.ne_free isSlot free
      · exact string.ne_free isSlot free
    have span := span_eq tidy.order bound' (Arena.extent_of_free isSlot' free)
    have aligned := isSlot.aligned
    have aligned' := isSlot'.aligned
    omega

end Tidy

/-- From `x` to `x'` the binding of the target and the `n` bytes of the cell at `u` may have changed,
and no other binding and no other byte of the data section. -/
structure Changed (x x' : Executor L σ) (target : String) (u n : Nat) : Prop where
  order : x'.InOrder
  slots : ∀ name, name ≠ target → x'.slotOf name = x.slotOf name
  same : ∀ p, L.dataBase ≤ p → p < L.stackBase → p < L.dataBase + u ∨ L.dataBase + u + n ≤ p →
    x'.arena.byte p = x.arena.byte p

/-- From `x` to `x'` the statement has changed no byte of the data section and no binding, except that
its target, if it had no slot, may have been bound to the first window that looks free. -/
structure Rebound (x : Executor L σ) (s : Statement) (x' : Executor L σ) : Prop where
  order : x'.InOrder
  slots : ∀ name, x'.slotOf name = x.slotOf name ∨ (s.target? = some name ∧ x.slotOf name = none ∧
    ∃ slot, x'.slotOf name = some slot ∧ Slots.firstFree x.arena = some slot)
  same : x.arena.SameInside x'.arena L.dataBase L.stackBase

namespace Rebound

variable {s : Statement}

theorem of_slots (order : x'.InOrder) (slots : x'.slots = x.slots)
    (same : x.arena.SameInside x'.arena L.dataBase L.stackBase) : x.Rebound s x' :=
  ⟨order, fun name => .inl (by rw [slotOf, slotOf, slots]), same⟩

theorem kept (rebound : x.Rebound s x') (bound : x.slotOf name = some slot) :
    x'.slotOf name = some slot := by
  rcases rebound.slots name with same | ⟨-, unbound, -⟩
  · rw [same, bound]
  · rw [unbound] at bound
    cases bound

theorem fresh (rebound : x.Rebound s x') (bound : x'.slotOf name = some slot) :
    x.slotOf name = some slot ∨ Slots.shapeAt x.arena slot = some .free := by
  rcases rebound.slots name with same | ⟨-, -, slot', bound', found⟩
  · exact .inl (same ▸ bound)
  · rw [bound] at bound'
    cases bound'
    exact .inr (Slots.firstFree_spec found).2

end Rebound

/-- A cell apart from the one that has changed. -/
theorem Changed.sameInside {k : Nat} (changed : x.Changed x' target u n)
    (apart : u + n ≤ slot ∨ slot + k ≤ u) (fits : slot + k ≤ L.data) :
    x.arena.SameInside x'.arena (L.dataBase + slot) (L.dataBase + slot + k) := by
  intro p low high
  have := L.stackBase_eq
  exact changed.same p (by omega) (by omega) (by omega)

namespace Tidy

/-- A name whose cell is spared keeps its slot and its value. -/
theorem valueOf_eq (tidy : x.Tidy names) (changed : x.Changed x' target u n) (ne : name ≠ target)
    (bound : x.slotOf name = some slot) (apart : u + n ≤ slot ∨ slot + x.span name ≤ u) :
    x'.slotOf name = some slot ∧ x'.valueOf name = x.valueOf name := by
  have isSlot := tidy.order.isSlot bound
  have extent := tidy.extent bound
  have bound' : x'.slotOf name = some slot := by rw [changed.slots name ne, bound]
  have same := changed.sameInside apart (extent.fits isSlot).2
  refine ⟨bound', ?_⟩
  rw [Executor.valueOf_eq bound, Executor.valueOf_eq bound', extent.read_eq isSlot same]

/-- A name whose cell is spared had the slot before, and its window is as it was. -/
theorem of_spared (tidy : x.Tidy names) (changed : x.Changed x' target u n) (ne : name ≠ target)
    (spared : ∀ slot, x.slotOf name = some slot → u + n ≤ slot ∨ slot + x.span name ≤ u)
    (bound : x'.slotOf name = some slot) :
    x.slotOf name = some slot ∧ x'.span name = x.span name ∧
      x.arena.SameInside x'.arena (L.dataBase + slot) (L.dataBase + slot + 16) := by
  rw [changed.slots name ne] at bound
  have apart := spared slot bound
  have fits := (tidy.extent bound).fits (tidy.order.isSlot bound)
  refine ⟨bound, ?_, changed.sameInside (by omega) (by omega)⟩
  rw [span, span, (tidy.valueOf_eq changed ne bound apart).2]

/-- A change of one cell that spares all others leaves the executor tidy, if the cell holds a value
again or its name is no longer bound. -/
theorem change {names' : List String} (tidy : x.Tidy names) (changed : x.Changed x' target u n)
    (spared : ∀ name slot, name ≠ target → x.slotOf name = some slot →
      u + n ≤ slot ∨ slot + x.span name ≤ u)
    (kept : ∀ name, name ≠ target → (name ∈ names' ↔ name ∈ names))
    (value : target ∈ names' → x'.slotOf target = some u ∧
      (x'.arena.IntegerAt u ∨ x'.arena.StringAt u) ∧ x'.span target ≤ n)
    (unbound : target ∉ names' → x'.slotOf target = none) : x'.Tidy names' := by
  have others {name : String} {slot : Nat} (ne : name ≠ target) (bound : x'.slotOf name = some slot) :=
    tidy.of_spared changed ne (fun slot => spared name slot ne) bound
  refine ⟨changed.order, ?_, ?_, ?_⟩
  · intro name assigned
    by_cases here : name = target
    · subst here
      obtain ⟨bound, held, -⟩ := value assigned
      exact ⟨u, bound, held⟩
    · obtain ⟨slot, bound, held⟩ := tidy.value name ((kept name here).1 assigned)
      have bound' : x'.slotOf name = some slot := by rw [changed.slots name here, bound]
      obtain ⟨-, -, same⟩ := others here bound'
      refine ⟨slot, bound', ?_⟩
      rcases held with integer | string
      · exact .inl (integer.sameInside same)
      · exact .inr (string.sameInside same)
  · intro name slot unassigned bound
    have ne : name ≠ target := by
      rintro rfl
      rw [unbound unassigned] at bound
      cases bound
    obtain ⟨bound', -, same⟩ := others ne bound
    rw [Slots.shapeAt_sameInside (tidy.order.isSlot bound') same]
    exact tidy.free name slot (fun assigned => unassigned ((kept name ne).2 assigned)) bound'
  · intro name assigned other assigned' ne slot slot' bound bound'
    by_cases here : name = target
    · subst here
      obtain ⟨bound₁, -, span⟩ := value assigned
      rw [bound] at bound₁
      cases bound₁
      obtain ⟨before, span', -⟩ := others (Ne.symm ne) bound'
      have apart := spared other slot' (Ne.symm ne) before
      omega
    · obtain ⟨before, span, -⟩ := others here bound
      by_cases here' : other = target
      · subst here'
        obtain ⟨bound₁, -, span'⟩ := value assigned'
        rw [bound'] at bound₁
        cases bound₁
        have apart := spared name slot here before
        omega
      · obtain ⟨before', span', -⟩ := others here' bound'
        rw [span, span']
        exact tidy.apart name ((kept name here).1 assigned) other ((kept other here').1 assigned') ne
          slot slot' before before'

/-- A name that was bound before another one was bound keeps its slot and its value. -/
theorem valueOf_rebound {s : Statement} (tidy : x.Tidy names) (rebound : x.Rebound s x')
    (bound : x.slotOf name = some slot) :
    x'.slotOf name = some slot ∧ x'.valueOf name = x.valueOf name := by
  have := L.stackBase_eq
  have isSlot := tidy.order.isSlot bound
  have extent := tidy.extent bound
  have fits := (extent.fits isSlot).2
  have bound' := rebound.kept bound
  refine ⟨bound', ?_⟩
  rw [Executor.valueOf_eq bound, Executor.valueOf_eq bound',
    extent.read_eq isSlot (rebound.same.mono (by omega) (by omega))]

/-- Binding a name to a window that looks free leaves the executor tidy. -/
theorem rebind {s : Statement} (tidy : x.Tidy names) (rebound : x.Rebound s x') : x'.Tidy names := by
  have := L.stackBase_eq
  have window {slot : Nat} (isSlot : L.IsSlot slot) :
      x.arena.SameInside x'.arena (L.dataBase + slot) (L.dataBase + slot + 16) := by
    have fits := isSlot.fits
    exact rebound.same.mono (by omega) (by omega)
  have known {name : String} {slot : Nat} (assigned : name ∈ names)
      (bound : x'.slotOf name = some slot) : x.slotOf name = some slot ∧
        x'.span name = x.span name := by
    obtain ⟨u, before, -⟩ := tidy.value name assigned
    obtain ⟨after, same⟩ := tidy.valueOf_rebound rebound before
    rw [bound] at after
    cases after
    exact ⟨before, by rw [span, span, same]⟩
  refine ⟨rebound.order, ?_, ?_, ?_⟩
  · intro name assigned
    obtain ⟨slot, bound, held⟩ := tidy.value name assigned
    have same := window (tidy.order.isSlot bound)
    refine ⟨slot, rebound.kept bound, ?_⟩
    rcases held with integer | string
    · exact .inl (integer.sameInside same)
    · exact .inr (string.sameInside same)
  · intro name slot unassigned bound
    have isSlot := rebound.order.isSlot bound
    rw [Slots.shapeAt_sameInside isSlot (window isSlot)]
    rcases rebound.fresh bound with before | free
    · exact tidy.free name slot unassigned before
    · exact free
  · intro name assigned other assigned' ne slot slot' bound bound'
    obtain ⟨before, span⟩ := known assigned bound
    obtain ⟨before', span'⟩ := known assigned' bound'
    rw [span, span']
    exact tidy.apart name assigned other assigned' ne slot slot' before before'

/-- A new executor is tidy. -/
theorem start (L : Layout) (sink : σ) (log : Log) : (start L sink log).Tidy [] := by
  refine ⟨inOrder_start L sink log, ?_, ?_, ?_⟩
  · intro name assigned
    cases assigned
  · intro name slot _ bound
    cases bound
  · intro name assigned
    cases assigned

end Tidy
end Executor
end Osl
