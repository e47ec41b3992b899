import Osl.Proofs.Isolation.Execution
import Osl.Proofs.Statement.DataFull

/-!
# Executing careful assignments

An assignment of a small value finds a slot for its target, leaves the value on the scratch stack and
stores it. It fails if there is no slot, no room for a literal or for the routine or on the stack, or
if the window that it was given holds no value and looks longer than the string to be stored; then at
most the target was bound. Otherwise it has written the cell of the target and nothing else.
-/

namespace Osl
set_option autoImplicit false

variable {L : Layout} {σ : Type} {names : List String} {x x' : Executor L σ} {target : String}
  {e : Expr} {v : Value} {slot k : Nat}

namespace Machine

variable [Sink σ] {log : Log} {m : Machine L σ} {ws : List Word} {is : List Instr}

/-- A store of a small value writes its cell and no more, or it faults and writes nothing. -/
theorem ran_store_small (words : v.Words ws) (small : v.IsSmall) (isSlot : L.IsSlot slot)
    (extent : m.arena.Extent slot k)
    (code : CodeAt m.arena m.ip.toNat (.store (L.cell slot) :: is)) (low : L.stackBase ≤ m.sp.toNat)
    (high : m.sp.toNat + 8 * ws.length ≤ L.stackTop) (holds : m.arena.Holds m.sp.toNat ws) :
    (∃ f m', step log m = .error f m' ∧ m'.arena = m.arena ∧
        m'.sp.toNat = m.sp.toNat + 8 * ws.length ∧ m'.entered = m.entered) ∨
      ∃ m', Ran log [.store (L.cell slot)] m m' ∧ m'.sp.toNat = m.sp.toNat + 8 * ws.length ∧
        m.arena.SameOutside m'.arena (L.dataBase + slot) (L.dataBase + slot + v.span) ∧
        (slot + v.span ≤ L.data → (m'.arena.IntegerAt slot ∨ m'.arena.StringAt slot) ∧
          m'.arena.Extent slot v.span) := by
  have place := isSlot.toNat_cell
  have inData := isSlot.fits
  have := L.ordered
  have := L.stackBase_eq
  have := L.stackTop_lt
  have := L.stackBase_add_le
  cases words with
  | integer n =>
    obtain ⟨m', ran, sp, -, held, written⟩ := ran_store_integer code low high holds
      (by omega) (by omega)
    rw [place] at held written
    have integer : m'.arena.IntegerAt slot := ⟨held.2.1, by rw [held.1]; exact small⟩
    exact .inr ⟨m', ran, sp, written, fun _ => ⟨.inl integer, integer.extent⟩⟩
  | string content address front back =>
    have size : (UInt64.ofNat content.length).toNat = content.length :=
      Word.toNat_ofNat_of_lt (by have := small.2; unfold inlineCapacity at this; omega)
    have stored := store_short (m := m.past (.store (L.cell slot))) isSlot extent low high holds
      (by rw [size]; exact small.1) (by rw [size]; exact small.2)
    rcases stored with ⟨f, m', failed, arena, sp, entered⟩ | ⟨m', done, sp, ip, written, string⟩
    · refine .inl ⟨f, m', ?_, arena, sp, entered⟩
      rw [step_eq_exec code]
      exact bind_error failed
    · refine .inr ⟨m', .one code (exec_of_work rfl done) ip ?_, sp, written, fun fits => ?_⟩
      · exact Arena.SameOutside.mono written (by omega) (by omega)
      · exact ⟨.inr (string fits), .string (string fits)⟩

end Machine

namespace Executor

/-- The slot is that of the name, or the name has none and the slot is the first window that looks
free. -/
def Meant (x : Executor L σ) (name : String) (slot : Nat) : Prop :=
  x.slotOf name = some slot ∨ x.slotOf name = none ∧ Slots.firstFree x.arena = some slot

/-- The table `t` binds the target to the slot that is meant for it and the other names as `x` does. -/
structure Binds (x : Executor L σ) (t : Slots) (target : String) (slot : Nat) : Prop where
  bound : t.lookup target = some slot
  others : ∀ name, name ≠ target → t.lookup name = x.slotOf name
  meant : x.Meant target slot

theorem Binds.rebound {s : Statement} (binds : x.Binds x'.slots target slot)
    (own : s.target? = some target) (order : x'.InOrder)
    (same : x.arena.SameInside x'.arena L.dataBase L.stackBase) : x.Rebound s x' := by
  refine ⟨order, fun name => ?_, same⟩
  by_cases here : name = target
  · subst here
    rcases binds.meant with had | ⟨unbound, found⟩
    · exact .inl (binds.bound.trans had.symm)
    · exact .inr ⟨own, unbound, slot, binds.bound, found⟩
  · exact .inl (binds.others name here)

/-- The data section up to a store, with the store, and from it to the end of the routine. -/
theorem Binds.changed {a b : Arena L} {n : Nat} (binds : x.Binds x'.slots target slot)
    (order : x'.InOrder) (before : x.arena.SameInside a L.dataBase L.stackBase)
    (written : a.SameOutside b (L.dataBase + slot) (L.dataBase + slot + n))
    (after : b.SameInside x'.arena L.dataBase L.stackBase) : x.Changed x' target slot n := by
  refine ⟨order, binds.others, ?_⟩
  intro p low high apart
  rw [after p low high, written p apart, before p low high]

/-- Whatever slot the target is given, its cell has an extent. -/
theorem Binds.exists_extent {t : Slots} (binds : x.Binds t target slot) (tidy : x.Tidy names)
    (isSlot : L.IsSlot slot) : ∃ k, x.arena.Extent slot k := by
  rcases binds.meant with had | ⟨-, found⟩
  · exact ⟨_, tidy.extent had⟩
  · exact ⟨16, Arena.extent_of_free isSlot (Slots.firstFree_spec found).2⟩

namespace Tidy

/-- The places of a careful assignment. -/
theorem locate_assign (tidy : x.Tidy names) (known : ∀ name ∈ e.names, name ∈ names)
    (value : e.value? x.valueOf = some v) :
    (∃ f w', (Statement.assign target e).locate x.workspace = .error f w' ∧ w'.slots = x.slots) ∨
      ∃ t w' slot, (Statement.assign target e).locate x.workspace =
          .ok (.assign t (L.cell slot)) w' ∧ L.IsSlot slot ∧ x.Binds w'.slots target slot ∧
        ∀ b : Arena L, x.arena.SameInside b L.dataBase L.stackBase →
          v.Words (t.words b) ∧ t.Readable b := by
  rcases tidy.locate (w := x.workspace) rfl known value with
    ⟨f, failed⟩ | ⟨t, w₁, located, slots, evaluates⟩
  · exact .inl ⟨f, x.workspace, bind_error failed, rfl⟩
  · cases asked : w₁.slots.slotFor w₁.arena target with
    | error err =>
      refine .inl ⟨.slot err, w₁, ?_, slots⟩
      rw [Statement.locate, bind_ok located, bind_error (Compile.cellOf_of_error asked)]
    | ok r =>
      obtain ⟨slot, slots'⟩ := r
      have located' : (Statement.assign target e).locate x.workspace =
          .ok (.assign t (L.cell slot)) { w₁ with slots := slots' } := by
        rw [Statement.locate, bind_ok located, bind_ok (Compile.cellOf_eq asked)]
        rfl
      have placed := tidy.order.slots.placed
      have isSlot : L.IsSlot slot := Slots.Placed.isSlot (t := w₁.slots) (by rwa [slots]) asked
      have := L.ordered
      -- compiling the expression has touched the code and literal sections alone
      have grown := (Expr.extends_of_locate located).sameBelow
      have same : x.arena.SameInside w₁.arena L.dataBase L.stackBase :=
        ((Arena.sameOutside_overlay x.arena L.codeBase _).inside (.inl (by omega))).trans
          (grown.inside (.inl (by omega)))
      refine .inr ⟨t, _, slot, located', isSlot, ⟨Slots.lookup_slotFor_self asked, ?_, ?_⟩, evaluates⟩
      · intro name ne
        rw [Slots.lookup_slotFor_of_ne asked ne, slots]
        rfl
      · obtain ⟨-, ⟨bound, -⟩ | ⟨unbound, found, -⟩⟩ := Slots.slotFor_spec asked
        · rw [slots] at bound
          exact .inl bound
        · rw [slots] at unbound
          rw [Slots.firstFree_sameInside same] at found
          exact .inr ⟨unbound, found⟩

variable [Sink σ]

/-- A routine that comes to a fault before it has written to a cell has at most bound the target. -/
theorem rebound_of_fault {s : Statement} {task : Task} {w' : Workspace L} {m m' : Machine L σ}
    {n : Nat} {f : Fault} (tidy : x.Tidy names) (located : s.locate x.workspace = .ok task w')
    (fits : s.codeSize ≤ L.code) (binds : x.Binds w'.slots target slot)
    (own : s.target? = some target) (steps : Machine.Steps x.log n (x.atBody w' task) m)
    (bound : n < task.code.length)
    (last : Machine.step x.log m = .error f m') (pointer : L.StackPointer m'.sp)
    (entered : m'.entered = true) (same : x.arena.SameInside m'.arena L.dataBase L.stackBase) :
    ∃ f x', execute s x = .error f x' ∧ x.Rebound s x' := by
  obtain ⟨f', x', failed, order, slots, after⟩ :=
    tidy.order.of_fault located fits steps bound last pointer entered
  rw [← slots] at binds
  exact ⟨f', x', failed, binds.rebound own order (same.trans after)⟩

/-- A routine that has written a value into the cell of the target, if there is room for it. -/
theorem changed_of_ran {s : Statement} {task : Task} {w' : Workspace L} {m : Machine L σ}
    {a : Arena L} (tidy : x.Tidy names) (located : s.locate x.workspace = .ok task w')
    (fits : s.codeSize ≤ L.code) (binds : x.Binds w'.slots target slot) (isSlot : L.IsSlot slot)
    (ran : Machine.Ran x.log task.code (x.atBody w' task) m) (pointer : L.StackPointer m.sp)
    (before : x.arena.SameInside a L.dataBase L.stackBase)
    (written : a.SameOutside m.arena (L.dataBase + slot) (L.dataBase + slot + v.span))
    (held : slot + v.span ≤ L.data →
      (m.arena.IntegerAt slot ∨ m.arena.StringAt slot) ∧ m.arena.Extent slot v.span) :
    ∃ routine x', execute s x = .ok routine x' ∧ x'.slotOf target = some slot ∧
      x.Changed x' target slot v.span ∧ (slot + v.span ≤ L.data →
        (x'.arena.IntegerAt slot ∨ x'.arena.StringAt slot) ∧ x'.span target = v.span) := by
  have := L.stackBase_eq
  have inData := isSlot.fits
  obtain ⟨routine, x', done, order, slots, after⟩ := tidy.order.of_ran located fits ran pointer
  rw [← slots] at binds
  have bound : x'.slotOf target = some slot := binds.bound
  refine ⟨routine, x', done, bound, binds.changed order before written after, fun whole => ?_⟩
  obtain ⟨value, extent⟩ := held whole
  have window {n : Nat} (small : slot + n ≤ L.data) :
      m.arena.SameInside x'.arena (L.dataBase + slot) (L.dataBase + slot + n) :=
    after.mono (by omega) (by omega)
  refine ⟨?_, span_eq order bound (extent.sameInside (window whole))⟩
  rcases value with integer | string
  · exact .inl (integer.sameInside (window inData))
  · exact .inr (string.sameInside (window inData))

/-- The run of an assignment whose routine fits. -/
theorem run_assign {t : Located} {w' : Workspace L} (tidy : x.Tidy names) (small : v.IsSmall)
    (located : (Statement.assign target e).locate x.workspace = .ok (.assign t (L.cell slot)) w')
    (isSlot : L.IsSlot slot) (binds : x.Binds w'.slots target slot)
    (evaluates : ∀ b : Arena L, x.arena.SameInside b L.dataBase L.stackBase →
      v.Words (t.words b) ∧ t.Readable b)
    (fits : (Statement.assign target e).codeSize ≤ L.code) :
    (∃ f x', execute (.assign target e) x = .error f x' ∧ x.Rebound (.assign target e) x') ∨
      ∃ routine x', execute (.assign target e) x = .ok routine x' ∧
        x'.slotOf target = some slot ∧ x.Changed x' target slot v.span ∧
        (slot + v.span ≤ L.data →
          (x'.arena.IntegerAt slot ∨ x'.arena.StringAt slot) ∧ x'.span target = v.span) := by
  have := L.stackBase_eq
  have before := sameData_atBody located
  obtain ⟨words, readable⟩ := evaluates _ before
  have order := tidy.order.atBody located
  have aligned := order.aligned
  have low := order.low
  have high := order.high
  have code := codeAt_atBody located fits
  rw [Task.code, List.append_assoc] at code
  have evaluated := t.evaluates_code x.log order code.left readable
  have length : (Task.assign t (L.cell slot)).code.length = t.code.length + 1 := by
    rw [Task.code, List.length_append]
    rfl
  by_cases room : L.stackBase + 8 * t.peak (x.atBody w' (.assign t (L.cell slot))).arena ≤
      (x.atBody w' (.assign t (L.cell slot))).sp.toNat
  · -- the value is left on the stack, and then it is stored
    obtain ⟨m₁, leaves⟩ := evaluated.fits room
    have sp := leaves.pushed.sp
    have pushed := before.trans ((leaves.same order).inside (.inl (Nat.le_refl _)))
    obtain ⟨k, extent⟩ := binds.exists_extent tidy isSlot
    have inside := (extent.fits isSlot).2
    have extent₁ := extent.sameInside (pushed.mono (by omega) (by omega))
    rcases Machine.ran_store_small words small isSlot extent₁
      (leaves.codeAt order code) leaves.low (by omega) leaves.pushed.words with
      ⟨f, m₂, last, arena, sp₂, entered⟩ | ⟨m₂, stored, sp₂, written, held⟩
    · have pointer : L.StackPointer m₂.sp := by constructor <;> omega
      exact .inl (tidy.rebound_of_fault located fits binds rfl leaves.steps (by omega) last pointer
        (entered.trans leaves.pushed.entered) (by rwa [arena]))
    · have pointer : L.StackPointer m₂.sp := by constructor <;> omega
      exact .inr (tidy.changed_of_ran located fits binds isSlot ((leaves.ran order).trans stored)
        pointer pushed written held)
  · obtain ⟨m', n, m₁, bound, steps, last, overflowed⟩ := evaluated.full (Nat.lt_of_not_le room)
    have sp := overflowed.sp
    have pointer : L.StackPointer m'.sp := by constructor <;> omega
    have pushed := before.trans (overflowed.same.inside (.inl (Nat.le_refl _)))
    exact .inl (tidy.rebound_of_fault located fits binds rfl steps (by omega) last pointer
      overflowed.entered pushed)

/-- A careful assignment writes the cell that is meant for its target, or it fails and at most binds the
target. -/
theorem assign (target : String) (tidy : x.Tidy names) (known : ∀ name ∈ e.names, name ∈ names)
    (value : e.value? x.valueOf = some v) (small : v.IsSmall) :
    (∃ f x', execute (.assign target e) x = .error f x' ∧ x.Rebound (.assign target e) x') ∨
      ∃ routine x' slot, x.Meant target slot ∧ execute (.assign target e) x = .ok routine x' ∧
        x'.slotOf target = some slot ∧ x.Changed x' target slot v.span ∧
        (slot + v.span ≤ L.data →
          (x'.arena.IntegerAt slot ∨ x'.arena.StringAt slot) ∧ x'.span target = v.span) := by
  rcases tidy.locate_assign known value with
    ⟨f, w', failed, slots⟩ | ⟨t, w', slot, located, isSlot, binds, evaluates⟩
  · obtain ⟨f', x', failed', order, slots', same⟩ :=
      tidy.order.of_compileError (Statement.compile_of_error failed)
    exact .inl ⟨f', x', failed', .of_slots order (slots'.trans slots) same⟩
  · by_cases fits : (Statement.assign target e).codeSize ≤ L.code
    · rcases tidy.run_assign small located isSlot binds evaluates fits with failed | ⟨routine, x', done⟩
      · exact .inl failed
      · exact .inr ⟨routine, x', slot, binds.meant, done⟩
    · have failed := Statement.compile_of_large located (Nat.lt_of_not_le fits)
      obtain ⟨f', x', failed', order, slots, same⟩ := tidy.order.of_compileError failed
      rw [← slots] at binds
      exact .inl ⟨f', x', failed', binds.rebound rfl order same⟩

end Tidy
end Executor
end Osl
