import Osl.Proofs.Executor.Deletion
import Osl.Proofs.Isolation.Outcome
import Osl.Proofs.Isolation.Plan

/-!
# Executors that stand as planned

`Plan.Follows p x` says that the names of `x` have the slots that they have in the plan, and that every
window looks as the plan says. Then the search for a free window ends where it does on the plan, so a
careful assignment writes where there is room for it (`Follows.assign`), which is off the cells of all
other names; and whatever a careful statement does, the executor stands as planned again.
-/

namespace Osl
set_option autoImplicit false

variable {L : Layout} {p : Plan} {x x' : Executor L Spool} {s : Statement} {e : Expr} {k : Kind}
  {name target : String} {slot u : Nat} {v : Value} {routine : Routine}

/-- What a window looks like of which this is known. -/
def Window.Agrees : Window → Option Shape → Prop
  | .vacant, seen => seen = some .free
  | .taken kind, seen => seen = some kind.shape
  | .stale, _ => True

/-- The window of a cell with a value looks like one of the kind that is as wide. -/
theorem Executor.exists_shapeAt (order : x.InOrder) (bound : x.slotOf name = some slot)
    (held : x.arena.IntegerAt slot ∨ x.arena.StringAt slot) :
    ∃ k : Kind, Slots.shapeAt x.arena slot = some k.shape ∧ x.span name = k.span := by
  have isSlot := order.isSlot bound
  rcases held with integer | string
  · exact ⟨.integer, integer.shapeAt_eq isSlot, span_eq order bound integer.extent⟩
  · exact ⟨.string, string.shapeAt_eq isSlot, span_eq order bound (.string string)⟩

namespace Plan

/-- The executor stands as the plan says. -/
structure Follows (p : Plan) (x : Executor L Spool) : Prop where
  tidy : x.Tidy p.names
  slots : ∀ name, x.slotOf name = p.slots.lookup name
  windows : ∀ slot, L.IsSlot slot → (p.window slot).Agrees (Slots.shapeAt x.arena slot)

namespace Follows

theorem start (L : Layout) (sink : Spool) (log : Log) :
    Follows {} (Executor.start L sink log) where
  tidy := .start L sink log
  slots _ := rfl
  windows _ isSlot := (Arena.vacant_initial isSlot).shapeAt_eq isSlot

/-! ## Values -/

/-- The cell of a name with a value is as wide as its kind. -/
theorem span_eq (follows : p.Follows x) (sound : p.Sound L) (member : name ∈ p.names) :
    x.span name = (p.kindOf name).span := by
  obtain ⟨slot, bound, held⟩ := follows.tidy.value name member
  have seen := follows.windows slot (follows.tidy.order.isSlot bound)
  rw [sound.kind_eq member ((follows.slots name).symm.trans bound)] at seen
  obtain ⟨k, looks, span⟩ := Executor.exists_shapeAt follows.tidy.order bound held
  have same : k.shape = (p.kindOf name).shape := Option.some.inj (looks.symm.trans seen)
  rw [span, Kind.span, same, Kind.span]

/-- The window of a bound name without a value is all of its cell. -/
theorem span_of_notMem (follows : p.Follows x) (new : name ∉ p.names)
    (bound : x.slotOf name = some slot) : x.span name = 16 := by
  have free := follows.tidy.free name slot new bound
  have order := follows.tidy.order
  exact Executor.span_eq order bound (Arena.extent_of_free (order.isSlot bound) free)

/-- The plan knows the kind of what an expression makes. -/
theorem kind_eq (follows : p.Follows x) (sound : p.Sound L)
    (known : ∀ name ∈ e.names, name ∈ p.names) (value : e.value? x.valueOf = some v) :
    v.kind = e.kind p.kindOf := by
  refine Expr.kind_of_value? ?_ value
  intro name among v value
  have span := follows.span_eq sound (known name among)
  rw [Executor.span, value] at span
  exact Kind.span_injective (v.span_kind.symm.trans span)

/-! ## Places -/

/-- The search for a free window ends where it does on the plan. -/
theorem firstFreeFrom_eq (follows : p.Follows x) {windows offset : Nat} (aligned : offset % 16 = 0)
    (found : p.vacantFrom L windows offset = some slot) :
    Slots.firstFreeFrom x.arena windows offset = some slot := by
  have whole := L.data_aligned
  induction windows generalizing offset with
  | zero => cases found
  | succ windows ih =>
    rw [vacantFrom] at found
    rw [Slots.firstFreeFrom]
    split at found
    · cases found
    · rename_i inside
      rw [if_neg inside]
      have seen := follows.windows offset ⟨aligned, by omega⟩
      cases known : p.window offset with
      | vacant =>
        rw [known] at found seen
        rw [show Slots.shapeAt x.arena offset = some .free from seen]
        exact found
      | stale =>
        rw [known] at found
        cases found
      | taken kind =>
        rw [known] at found seen
        rw [show Slots.shapeAt x.arena offset = some kind.shape from seen]
        have wide := Slots.span_mod kind.shape
        have aligned' : (offset + kind.span) % 16 = 0 := by
          unfold Kind.span
          omega
        have later := ih aligned' found
        cases kind <;> exact later

/-- The slot that is meant for a name is its place on the plan. -/
theorem meant_eq (follows : p.Follows x) (meant : x.Meant name u)
    (placed : p.place L name = some slot) : u = slot := by
  rw [place, ← follows.slots] at placed
  rcases meant with bound | ⟨unbound, found⟩
  · rw [bound] at placed
    exact Option.some.inj placed
  · rw [unbound] at placed
    have found' := follows.firstFreeFrom_eq (by decide) placed
    exact Option.some.inj (found.symm.trans found')

/-- The cell of a name whose slot is before the place of another one ends there at the latest. -/
theorem ends_before (follows : p.Follows x) (sound : p.Sound L) (placed : p.place L target = some u)
    (isSlot : L.IsSlot u) (bound : x.slotOf name = some slot) (before : slot < u) :
    slot + x.span name ≤ u := by
  have aligned := isSlot.aligned
  have aligned' := (follows.tidy.order.isSlot bound).aligned
  by_cases member : name ∈ p.names
  · have taken := sound.kind_eq member ((follows.slots name).symm.trans bound)
    -- the second half of a string is stale and nobody's place
    have behind : p.kindOf name = .string → u ≠ slot + 16 := by
      rintro string rfl
      rw [string] at taken
      exact sound.place_ne_stale placed (sound.string slot taken).2
    rw [follows.span_eq sound member]
    have apart := (p.kindOf name).apart_of_ne aligned' aligned (Nat.ne_of_gt before) behind
    omega
  · rw [follows.span_of_notMem member bound]
    omega

/-- Where there is room for a value, no other name has a cell. -/
theorem apart (follows : p.Follows x) (sound : p.Sound L) (room : p.Room L target k u)
    (isSlot : L.IsSlot u) (ne : name ≠ target) (bound : x.slotOf name = some slot) :
    u + k.span ≤ slot ∨ slot + x.span name ≤ u := by
  have aligned := isSlot.aligned
  have aligned' := (follows.tidy.order.isSlot bound).aligned
  have planned : p.slots.lookup name = some slot := (follows.slots name).symm.trans bound
  have away : slot ≠ u := by
    rintro rfl
    exact ne (room.sole name planned)
  have behind : k = .string → slot ≠ u + 16 := by
    rintro string rfl
    exact ne ((room.wide string).2 name planned)
  refine (k.apart_of_ne aligned aligned' away behind).imp_right fun before => ?_
  exact follows.ends_before sound room.placed isSlot bound (by omega)

end Follows

theorem Room.inside (room : p.Room L target k u) (isSlot : L.IsSlot u) : u + k.span ≤ L.data := by
  cases k with
  | integer => exact isSlot.fits
  | string => exact (room.wide rfl).1

namespace Follows

/-! ## Statements -/

/-- The windows that a statement has not written look as they did. -/
theorem windows_of_same {q : Plan} (follows : p.Follows x) (isSlot : L.IsSlot slot)
    (window : q.window slot = p.window slot)
    (same : x.arena.SameInside x'.arena (L.dataBase + slot) (L.dataBase + slot + 16)) :
    (q.window slot).Agrees (Slots.shapeAt x'.arena slot) := by
  rw [window, Slots.shapeAt_sameInside isSlot same]
  exact follows.windows slot isSlot

/-- An assignment that writes where there is room spares all other cells. -/
theorem spares (follows : p.Follows x) (sound : p.Sound L) (room : p.Room L target k u)
    (isSlot : L.IsSlot u) (value : e.value? x.valueOf = some v) (span : v.span = k.span)
    (bound : x'.slotOf target = some u) : x.SparesCells (.assign target e) x' := by
  constructor
  · intro u' n writes
    obtain ⟨rfl, rfl⟩ := writes.eq value bound
    rw [span]
    exact room.inside isSlot
  · intro name other u' n slot writes bound'
    obtain ⟨rfl, rfl⟩ := writes.eq value bound
    have ne : name ≠ target := by
      rintro rfl
      exact other rfl
    rw [span]
    exact follows.apart sound room isSlot ne bound'

/-- After a change of one cell all windows look as planned if the one that it starts at does. -/
theorem windows_assign (follows : p.Follows x) (isSlot : L.IsSlot u)
    (changed : x.Changed x' target u k.span) (looks : Slots.shapeAt x'.arena u = some k.shape) :
    ∀ w, L.IsSlot w → ((p.assign target u k).window w).Agrees (Slots.shapeAt x'.arena w) := by
  intro w isSlot'
  by_cases here : w = u
  · rw [here, window_assign_self]
    exact looks
  by_cases behind : k = .string ∧ w = u + 16
  · obtain ⟨rfl, rfl⟩ := behind
    rw [window_assign_behind]
    trivial
  have away : k = .string → w ≠ u + 16 := fun string same => behind ⟨string, same⟩
  have apart := k.apart_of_ne isSlot.aligned isSlot'.aligned here away
  exact follows.windows_of_same isSlot' (window_assign_of_ne here away)
    (changed.sameInside apart isSlot'.fits)

/-- An assignment for whose value there is room spares the cells of other names, and what becomes of the
executor is as planned. -/
theorem assign (follows : p.Follows x) (sound : p.Sound L)
    (careful : (Statement.assign target e).Careful p.names x)
    (room : p.Room L target (e.kind p.kindOf) slot)
    (done : Executor.execute (.assign target e) x = .ok routine x') :
    x.SparesCells (.assign target e) x' ∧ (p.assign target slot (e.kind p.kindOf)).Follows x' := by
  have tidy := follows.tidy
  have outcome := tidy.outcome careful
  rw [done] at outcome
  cases outcome with
  | printed none _ => cases none
  | @assigned _ _ v u _ _ value meant bound changed held =>
    obtain rfl := follows.meant_eq meant room.placed
    have isSlot := changed.order.isSlot bound
    have span : v.span = (e.kind p.kindOf).span := by
      rw [v.span_kind, follows.kind_eq sound careful.1 value]
    have spares := follows.spares sound room isSlot value span bound
    rw [span] at changed held
    refine ⟨spares, tidy.done careful done spares, ?_, follows.windows_assign isSlot changed ?_⟩
    · intro name
      by_cases here : name = target
      · rw [here, bound, lookup_assign_self]
      · rw [changed.slots name here, follows.slots, lookup_assign_of_ne here]
    · obtain ⟨cell, same⟩ := held (room.inside isSlot)
      obtain ⟨k, looks, span'⟩ := Executor.exists_shapeAt changed.order bound cell
      rw [looks, Kind.span_injective (span'.symm.trans same)]

/-- Deleting a name leaves its window vacant. -/
theorem delete (follows : p.Follows x) (careful : (Statement.delete name).Careful p.names x)
    (done : Executor.execute (.delete name) x = .ok routine x') : (p.delete name).Follows x' := by
  have tidy := follows.tidy
  have outcome := tidy.outcome careful
  rw [done] at outcome
  cases outcome with
  | printed none _ => cases none
  | @deleted _ u _ _ _ bound unbound changed =>
    have planned : p.slots.lookup name = some u := (follows.slots name).symm.trans bound
    have placed := tidy.order.slots.placed
    have isSlot' := tidy.order.isSlot bound
    refine ⟨tidy.done careful done (.of_ne (by rintro _ _ ⟨⟩)), ?_, ?_⟩
    · intro other
      rw [lookup_delete]
      split
      · rename_i here
        rw [here, unbound]
      · rename_i ne
        rw [changed.slots other ne, follows.slots]
    · intro w isSlot
      by_cases here : w = u
      · subst here
        rw [window_delete planned]
        obtain ⟨_, bound', held⟩ := tidy.value name careful
        rw [bound] at bound'
        cases bound'
        have whole : ¬ x.arena.Stray w := held.elim (·.not_stray) (·.not_stray)
        exact (Executor.vacant_of_delete placed bound whole done).shapeAt_eq isSlot
      · have aligned := isSlot.aligned
        have aligned' := isSlot'.aligned
        exact follows.windows_of_same isSlot
          (window_delete_of_ne (by rw [planned]; exact fun same => here (Option.some.inj same).symm))
          (changed.sameInside (by omega) isSlot.fits)

/-- A statement that changes no cell leaves all windows as they are planned. -/
theorem windows_rebound (follows : p.Follows x) (rebound : x.Rebound s x') :
    ∀ w, L.IsSlot w → (p.window w).Agrees (Slots.shapeAt x'.arena w) := by
  intro w isSlot
  have := L.stackBase_eq
  have fits := isSlot.fits
  exact follows.windows_of_same isSlot rfl (rebound.same.mono (by omega) (by omega))

/-- A statement that has changed neither slots nor cells. -/
theorem rebound (follows : p.Follows x) (rebound : x.Rebound s x')
    (slots : ∀ name, x'.slotOf name = x.slotOf name) : p.Follows x' :=
  ⟨follows.tidy.rebind rebound, fun name => by rw [slots, follows.slots],
    follows.windows_rebound rebound⟩

/-- Printing changes neither slots nor cells. -/
theorem printed (follows : p.Follows x) (careful : s.Careful p.names x) (none : s.target? = none)
    (done : Executor.execute s x = .ok routine x') : p.Follows x' := by
  have outcome := follows.tidy.outcome careful
  rw [done] at outcome
  cases outcome with
  | printed _ rebound =>
    refine follows.rebound rebound fun name => ?_
    refine (rebound.slots name).resolve_right fun bound => ?_
    rw [none] at bound
    cases bound.1
  | assigned _ _ _ _ _ | deleted _ _ _ _ => cases none

/-- A statement that has bound its target, and has changed no cell. -/
theorem reserve (follows : p.Follows x) (rebound : x.Rebound (.assign target e) x')
    (placed : p.place L target = some slot) (bound : x'.slotOf target ≠ x.slotOf target) :
    (p.reserve L target).Follows x' := by
  refine ⟨follows.tidy.rebind rebound, ?_, follows.windows_rebound rebound⟩
  intro name
  rw [lookup_reserve placed]
  split
  · rename_i here
    subst here
    obtain ⟨-, unbound, u, now, found⟩ := (rebound.slots name).resolve_left bound
    rw [now, follows.meant_eq (.inr ⟨unbound, found⟩) placed]
  · rename_i ne
    rcases rebound.slots name with same | ⟨⟨⟩, -⟩
    · rw [same, follows.slots]
    · exact absurd rfl ne

end Follows
end Plan
end Osl
