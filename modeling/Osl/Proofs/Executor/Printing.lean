import Osl.Proofs.Executor.Bindings
import Osl.Proofs.Isolation.Execution
import Osl.Proofs.Machine.Printing

/-!
# Printing shows the value of a name

Whatever was executed before, code written over included, printing a bound name writes the value that
`valueOf` gives and a newline, and faults where it gives none (`print_shows_value`). The one proviso is
that the string in the cell does not lie where laying down and entering the routine that prints it
writes.
-/

namespace Osl
set_option autoImplicit false

variable {L : Layout} {σ : Type}

theorem Spool.toList_append_line {s : Spool} (ready : s.isOpen) (text : List Byte) :
    ((s.append text).append ['\n'.toUInt8]).toList = s.toList ++ text ++ ['\n'.toUInt8] := by
  rw [toList_append (by rwa [isOpen_append]), toList_append ready]

namespace Arena

variable {a b : Arena L} {cell : Word}

/-- The string in a cell, if there is one in the arena, does not overlap the bytes from `lo` to `hi`. -/
def StringApart (a : Arena L) (cell : Word) (lo hi : Nat) : Prop :=
  let p := (a.wordAt cell.toNat).toNat
  let n := (a.wordAt (cell.toNat + 8)).toNat
  n ≠ 0 → L.Within p n → p + n ≤ lo ∨ hi ≤ p

instance (a : Arena L) (cell : Word) (lo hi : Nat) : Decidable (a.StringApart cell lo hi) :=
  inferInstanceAs (Decidable (_ → _))

/-- A cell and a string elsewhere are read as before. -/
theorem read_sameOutside {lo hi : Nat} (isCell : L.IsCell cell) (same : a.SameOutside b lo hi)
    (off : hi ≤ L.dataBase ∨ L.codeBase ≤ lo) (apart : a.StringApart cell lo hi) :
    Value.read b cell = Value.read a cell ∧
      b.wordAt cell.toNat = a.wordAt cell.toNat ∧
      b.wordAt (cell.toNat + 8) = a.wordAt (cell.toNat + 8) := by
  have := L.ordered
  have bounds := isCell.bounds
  have first : b.wordAt cell.toNat = a.wordAt cell.toNat := same.wordAt (by omega)
  have second : b.wordAt (cell.toNat + 8) = a.wordAt (cell.toNat + 8) := same.wordAt (by omega)
  refine ⟨?_, first, second⟩
  rw [Value.read_cell a isCell, Value.read_cell b isCell, first, second]
  by_cases zero : a.wordAt (cell.toNat + 8) = 0
  · rw [if_pos zero, if_pos zero]
  · rw [if_neg zero, if_neg zero]
    rw [slice_eq_ite, slice_eq_ite]
    split
    · rename_i within
      have some : (a.wordAt (cell.toNat + 8)).toNat ≠ 0 := fun none =>
        zero (UInt64.toNat_inj.1 none)
      rw [same.bytes (apart some within)]
    · rfl

theorem StringApart.of_words {lo hi : Nat} (apart : a.StringApart cell lo hi)
    (first : b.wordAt cell.toNat = a.wordAt cell.toNat)
    (second : b.wordAt (cell.toNat + 8) = a.wordAt (cell.toNat + 8)) : b.StringApart cell lo hi := by
  unfold StringApart
  rwa [first, second]

end Arena

namespace Executor

variable {x : Executor L σ} {name : String} {slot : Nat}

/-- The body of a routine that prints finds the cell with its value as it was. -/
theorem read_atBody {task : Task} (isCell : L.IsCell (L.cell slot))
    (size : (codeBytes (framed task.code)).length ≤ L.code)
    (code : x.arena.StringApart (L.cell slot) L.codeBase L.literalBase)
    (saved : x.arena.StringApart (L.cell slot) L.savedSp (L.savedSp + 8)) :
    Value.read (x.atBody x.workspace task).arena (L.cell slot) = Value.read x.arena (L.cell slot) := by
  have section' : L.literalBase = L.codeBase + L.code := rfl
  -- two stores to the code section lay the routine out, one saves the caller's stack pointer
  have cleared : x.arena.SameOutside x.workspace.arena L.codeBase L.literalBase :=
    x.arena.sameOutside_clearCode
  have written := x.workspace.arena.sameOutside_overlay L.codeBase (codeBytes (framed task.code))
  have laid : x.arena.SameOutside (x.workspace.withRoutine task) L.codeBase L.literalBase :=
    cleared.trans (written.mono (Nat.le_refl _) (by omega))
  have entered := (x.workspace.withRoutine task).sameOutside_overlay_word L.savedSp Machine.callerSp
  obtain ⟨read, first, second⟩ := Arena.read_sameOutside isCell laid (.inr (Nat.le_refl _)) code
  have below : L.savedSp + 8 ≤ L.dataBase := by
    simp only [Layout.savedSp, Layout.dataBase]
    omega
  have read' := Arena.read_sameOutside isCell entered (.inl below) (saved.of_words first second)
  exact read'.1.trans read

variable [Sink σ]

/-- Printing a bound name with a value writes the value and a newline, if the sink takes them. -/
theorem execute_print_of_value {v : Value} {t : σ} (placed : x.slots.Placed L)
    (bound : x.slotOf name = some slot)
    (code : x.arena.StringApart (L.cell slot) L.codeBase L.literalBase)
    (saved : x.arena.StringApart (L.cell slot) L.savedSp (L.savedSp + 8))
    (value : x.valueOf name = some v) (takes : Sink.TakesLine x.sink v.printed t) :
    ∃ routine x', execute (.print name) x = .ok routine x' ∧ x'.sink = t := by
  obtain ⟨single, isSlot⟩ := placed name slot bound
  have isCell : L.IsCell (L.cell slot) := ⟨slot, isSlot, rfl⟩
  have located := Statement.locate_print (w := x.workspace) single bound
  have fits : (Statement.print name).codeSize ≤ L.code := L.twelve_le_code
  have size := Statement.length_code located
  rw [valueOf_eq bound] at value
  have read : Value.read ((x.atBody x.workspace (.print (L.cell slot))).past
      (.print (L.cell slot))).arena (L.cell slot) = .ok v := by
    rw [Machine.past_arena, read_atBody isCell (by omega) code saved]
    cases read : Value.read x.arena (L.cell slot) with
    | error f =>
      rw [read] at value
      cases value
    | ok w =>
      rw [read] at value
      cases value
      rfl
  obtain ⟨a, printed, kept⟩ := Machine.print_of_read isCell read takes
  have ran : Machine.Ran x.log [.print (L.cell slot)] _ _ :=
    .one (codeAt_atBody located fits) (Machine.exec_of_work rfl printed) rfl kept
  exact ⟨_, _, execute_of_ran located fits ran, rfl⟩

/-- Printing a bound name without a value faults and writes nothing. -/
theorem execute_print_of_none (placed : x.slots.Placed L) (bound : x.slotOf name = some slot)
    (code : x.arena.StringApart (L.cell slot) L.codeBase L.literalBase)
    (saved : x.arena.StringApart (L.cell slot) L.savedSp (L.savedSp + 8))
    (none : x.valueOf name = none) : ∃ p n x',
      execute (.print name) x = .error (.fault x.executed (.memory p n)) x' ∧ x'.sink = x.sink := by
  obtain ⟨single, isSlot⟩ := placed name slot bound
  have isCell : L.IsCell (L.cell slot) := ⟨slot, isSlot, rfl⟩
  have located := Statement.locate_print (w := x.workspace) single bound
  have fits : (Statement.print name).codeSize ≤ L.code := L.twelve_le_code
  have size := Statement.length_code located
  have stepped : Machine.step x.log (x.atBody x.workspace (.print (L.cell slot))) =
      Machine.exec x.log (.print (L.cell slot)) _ := Machine.step_eq_exec (codeAt_atBody located fits)
  rw [valueOf_eq bound] at none
  cases read : Value.read x.arena (L.cell slot) with
  | ok w =>
    rw [read] at none
    cases none
  | error f =>
    have read' : Value.read ((x.atBody x.workspace (.print (L.cell slot))).past
        (.print (L.cell slot))).arena (L.cell slot) = .error f := by
      rw [Machine.past_arena, read_atBody isCell (by omega) code saved, read]
    obtain ⟨p, n, rfl, -⟩ := Machine.HoldsOutside.of_read_error isCell read'
    have failed := Machine.print_of_read_error isCell read'
    have run := Machine.run_framed_fault
      (m := { arena := x.workspace.withRoutine (.print (L.cell slot)), sink := x.sink })
      (codeAt_withRoutine located fits) (.zero _) Nat.zero_lt_one (stepped.trans (bind_error failed))
    exact ⟨p, n, _, execute_fault located fits run, rfl⟩

/-- After any program, whatever became of its statements, printing a bound name writes its value and a
newline if the sink takes them, and if the name has no value it faults and writes nothing. -/
theorem print_shows_value {sink : σ} {log : Log} {p : Program}
    (reached : x = (start L sink log).executeEach p) (bound : x.slotOf name = some slot)
    (code : x.arena.StringApart (L.cell slot) L.codeBase L.literalBase)
    (saved : x.arena.StringApart (L.cell slot) L.savedSp (L.savedSp + 8)) :
    (∀ v, x.valueOf name = some v → ∀ t, Sink.TakesLine x.sink v.printed t →
      ∃ routine x', execute (.print name) x = .ok routine x' ∧ x'.sink = t) ∧
    (x.valueOf name = none → ∃ p n x',
      execute (.print name) x = .error (.fault x.executed (.memory p n)) x' ∧ x'.sink = x.sink) := by
  have unbound : Slots.Reachable L (start L sink log).slots := .empty
  have slots := reachable_slots_executeEach p unbound
  rw [← reached] at slots
  exact ⟨fun v value t takes => execute_print_of_value slots.placed bound code saved value takes,
    execute_print_of_none slots.placed bound code saved⟩

/-- `print x;` after `x = "ab";`. -/
theorem print_shows_pair : ∃ routine x', execute (.print "x") withPair = .ok routine x' ∧
    x'.sink.toList = withPair.sink.toList ++ [97, 98] ++ ['\n'.toUInt8] := by
  have reached : withPair = (start .small (⟨some {}⟩ : Spool) .missing).executeEach
      [.assign "x" (.str [97, 98])] := by
    rw [executeEach_cons, executeEach_nil, withPair]
  have state : withPair.slotOf "x" = some 0 ∧
      withPair.arena.StringApart (Layout.small.cell 0) Layout.small.codeBase Layout.small.literalBase ∧
      withPair.arena.StringApart (Layout.small.cell 0) Layout.small.savedSp
        (Layout.small.savedSp + 8) ∧
      withPair.valueOf "x" = some (.string [97, 98]) ∧ withPair.sink.isOpen = true := by
    decide +kernel
  obtain ⟨bound, code, saved, value, ready⟩ := state
  have shows := print_shows_value reached bound code saved
  obtain ⟨routine, x', done, printed⟩ := shows.1 _ value _ (Spool.takesLine _ [97, 98])
  refine ⟨routine, x', done, ?_⟩
  rw [printed, Spool.toList_append_line ready]

end Executor
end Osl
