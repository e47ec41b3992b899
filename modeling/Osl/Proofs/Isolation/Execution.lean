import Osl.Proofs.Isolation.Evaluation
import Osl.Proofs.Isolation.Store
import Osl.Proofs.Machine.Output

/-!
# Executing careful statements

What each statement of a careful program does to a tidy executor. Printing changes no cell and cannot
fail, deleting changes two words of one cell and cannot fail either. An assignment writes the cell of
its target (`Tidy.assign`), or it fails, and then at most its target was bound to the first window that
looks free.
-/

namespace Osl
set_option autoImplicit false

variable {L : Layout} {σ : Type} {names : List String} {slot : Nat} {name : String}

namespace Executor

/-- The body of a routine finds the data section as it is between statements. -/
theorem sameData_atBody {x : Executor L σ} {s : Statement} {task : Task} {w' : Workspace L}
    (located : s.locate x.workspace = .ok task w') :
    x.arena.SameInside (x.atBody w' task).arena L.dataBase L.stackBase := by
  have := L.ordered
  exact (sameInside_atBody located).mono (Nat.le_refl _) (by omega)

theorem InOrder.atBody {x : Executor L σ} {s : Statement} {task : Task} {w' : Workspace L}
    (order : x.InOrder) (located : s.locate x.workspace = .ok task w') :
    L.StackPointer (x.atBody w' task).sp := by
  rw [atBody_sp located]
  exact order.stack

namespace Tidy

section Output

variable {x : Executor L Spool}

/-- Printing the log changes no cell. -/
theorem printLog (tidy : x.Tidy names) :
    ∃ routine x', execute .printLog x = .ok routine x' ∧ x.Rebound .printLog x' := by
  have located : Statement.printLog.locate x.workspace = .ok .printLog x.workspace := rfl
  have fits : Statement.printLog.codeSize ≤ L.code :=
    Nat.le_trans (by decide : 4 ≤ 12) L.twelve_le_code
  have ran : Machine.Ran x.log [.printLog] (x.atBody x.workspace .printLog) _ :=
    .one (codeAt_atBody located fits) (Machine.exec_of_work rfl (Machine.printLog_eq x.log _)) rfl
      (.refl _ _ _)
  obtain ⟨routine, x', done, order, slots, same⟩ :=
    tidy.order.of_ran located fits ran (tidy.order.atBody located)
  exact ⟨routine, x', done, .of_slots order slots ((sameData_atBody located).trans same)⟩

/-- The cell of an assigned name can be printed, and the arena is as before. -/
theorem print_cell (tidy : x.Tidy names) (assigned : name ∈ names) {m : Machine L Spool}
    (same : x.arena.SameInside m.arena L.dataBase L.stackBase) (bound : x.slotOf name = some slot) :
    ∃ sink, Machine.print (L.cell slot) m = .ok () { m with sink } := by
  obtain ⟨slot', bound', held⟩ := tidy.value name assigned
  rw [bound] at bound'
  cases bound'
  have isSlot := tidy.order.isSlot bound
  have place := isSlot.toNat_cell
  have inData := isSlot.fits
  have := L.ordered
  have := L.stackBase_eq
  have window : x.arena.SameInside m.arena (L.dataBase + slot) (L.dataBase + slot + 16) :=
    same.mono (by omega) (by omega)
  have within : L.Within (L.cell slot).toNat 16 := by
    rw [place]
    unfold Layout.Within
    omega
  rcases held with integer | string
  · have here := integer.sameInside window
    have digits := Numeral.length_decimalBytes_le here.small
    exact ⟨_, Machine.print_integer within (by rw [place, here.tag])
      (by rw [place]; exact Nat.le_succ_of_le digits)⟩
  · have here := string.sameInside window
    have room := here.fits
    have short := here.short
    unfold inlineCapacity at short
    refine Machine.print_string within (by rw [place]; exact here.tag) ?_
    rw [place, here.address]
    unfold Layout.Within
    omega

/-- Printing a name changes no cell. -/
theorem print (tidy : x.Tidy names) (assigned : name ∈ names) :
    ∃ routine x', execute (.print name) x = .ok routine x' ∧ x.Rebound (.print name) x' := by
  obtain ⟨slot, bound, -⟩ := tidy.value name assigned
  have single := (tidy.order.slots.placed name slot bound).1
  have located := Statement.locate_print (w := x.workspace) single bound
  have fits : (Statement.print name).codeSize ≤ L.code := L.twelve_le_code
  have before := sameData_atBody located
  obtain ⟨sink, printed⟩ := tidy.print_cell assigned
    (m := (x.atBody x.workspace (.print (L.cell slot))).past (.print (L.cell slot))) before bound
  have ran : Machine.Ran x.log [.print (L.cell slot)] _ _ :=
    .one (codeAt_atBody located fits) (Machine.exec_of_work rfl printed) rfl (.refl _ _ _)
  obtain ⟨routine, x', done, order, slots, same⟩ :=
    tidy.order.of_ran located fits ran (tidy.order.atBody located)
  exact ⟨routine, x', done, .of_slots order slots (before.trans same)⟩

end Output

variable [Sink σ] {x : Executor L σ}

/-- Deleting a name changes the first two words of its cell and forgets the name. -/
theorem delete (tidy : x.Tidy names) (assigned : name ∈ names) :
    ∃ routine x' slot, execute (.delete name) x = .ok routine x' ∧ x.slotOf name = some slot ∧
      x'.slotOf name = none ∧ x.Changed x' name slot 16 := by
  obtain ⟨slot, bound, -⟩ := tidy.value name assigned
  obtain ⟨single, isSlot⟩ := tidy.order.slots.placed name slot bound
  have place := isSlot.toNat_cell
  have inData := isSlot.fits
  have := L.stackBase_eq
  have located := Statement.locate_delete (w := x.workspace) single bound
  have fits : (Statement.delete name).codeSize ≤ L.code := L.twelve_le_code
  have before := sameData_atBody located
  obtain ⟨m, ran, sp, -, -, written⟩ := Machine.ran_release
    (codeAt_atBody located fits) (by omega) (by omega)
  rw [place] at written
  obtain ⟨routine, x', done, order, slots, same⟩ :=
    tidy.order.of_ran located fits ran (by rw [sp]; exact tidy.order.atBody located)
  have lookup (other : String) :
      x'.slotOf other = if other = name then none else x.slotOf other := by
    rw [slotOf, slots]
    exact x.slots.lookup_erase name other
  refine ⟨routine, x', slot, done, bound, by rw [lookup, if_pos rfl], order, ?_, ?_⟩
  · intro other ne
    rw [lookup, if_neg ne]
  · intro p low high apart
    rw [same p low high, written p apart, before p low high]

end Tidy
end Executor
end Osl
