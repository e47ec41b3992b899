import Osl.Proofs.Executor.Bindings
import Osl.Proofs.Isolation.Execution
import Osl.Proofs.Values.Cells

/-!
# What deleting a name leaves in its cell

Deleting a bound name always succeeds and unbinds it. The length of a string becomes zero, and its first
word stays; an integer gives way to the free sentinel (`execute_delete`). So the window of the cell looks
free afterwards, unless the word that stays passes for an integer (`delete_frees_window`). A printed
number leaves such a word behind if its digits run over into the second word of its cell
(`not_free_after_print`).
-/

namespace Osl
set_option autoImplicit false

variable {L : Layout} {σ : Type} {a : Arena L} {slot : Nat}

/-- The cell at a slot has a length like a string, before which stands a word that would be taken for an
integer without it. -/
def Arena.Stray (a : Arena L) (slot : Nat) : Prop :=
  a.wordAt (L.dataBase + slot + 8) ≠ 0 ∧ (a.wordAt (L.dataBase + slot)).IsPlain

instance (a : Arena L) (slot : Nat) : Decidable (a.Stray slot) := inferInstanceAs (Decidable (_ ∧ _))

theorem Arena.IntegerAt.not_stray (h : a.IntegerAt slot) : ¬ a.Stray slot := fun stray => stray.1 h.tag

theorem Arena.StringAt.not_stray (h : a.StringAt slot) : ¬ a.Stray slot := by
  rintro ⟨-, plain⟩
  have address := h.address
  have fits := h.fits
  have := L.base_high
  have := L.ordered
  have := L.stackBase_eq
  have := L.stop_lt
  unfold Word.IsPlain at plain
  omega

namespace Executor

variable {x : Executor L σ} {name : String} [Sink σ]

/-- Deleting a bound name succeeds and leaves two words in its cell that depend on the former two. -/
theorem execute_delete (placed : x.slots.Placed L) (bound : x.slotOf name = some slot) :
    ∃ routine x', execute (.delete name) x = .ok routine x' ∧ x'.slots = x.slots.erase name ∧
      x'.arena.wordAt (L.dataBase + slot + 8) = 0 ∧
      x'.arena.wordAt (L.dataBase + slot) =
        if x.arena.wordAt (L.dataBase + slot + 8) = 0 then freeSentinel
        else x.arena.wordAt (L.dataBase + slot) := by
  obtain ⟨single, isSlot⟩ := placed name slot bound
  have place := isSlot.toNat_cell
  have inData := isSlot.fits
  have := L.stackBase_eq
  have located : (Statement.delete name).locate x.workspace = .ok _ _ :=
    Statement.locate_delete single bound
  have fits : (Statement.delete name).codeSize ≤ L.code := L.twelve_le_code
  have code := codeAt_atBody located fits
  have before := sameData_atBody located
  have first : Arena.wordAt _ (L.dataBase + slot) = _ := before.wordAt (by omega) (by omega)
  have second : Arena.wordAt _ (L.dataBase + slot + 8) = _ := before.wordAt (by omega) (by omega)
  -- leaving the scratch stack writes below the data section
  have saved (m : Machine L σ) := m.arena.sameOutside_save m.sp
  by_cases integer : x.arena.wordAt (L.dataBase + slot + 8) = 0
  · obtain ⟨m, ran, -, -, freed, -⟩ : ∃ m, Machine.Ran x.log _ _ m ∧ _ :=
      Machine.ran_release code (by omega) (by omega)
    rw [place] at freed
    obtain ⟨sentinel, zero, -⟩ := freed (second.trans integer)
    refine ⟨_, _, execute_of_ran located fits ran, rfl, ?_, ?_⟩
    · exact ((saved m).wordAt (.inr (by omega))).trans zero
    · rw [if_pos integer]
      exact ((saved m).wordAt (.inr (by omega))).trans sentinel
  · obtain ⟨m, ran, -, -, kept, zero, -⟩ : ∃ m, Machine.Ran x.log _ _ m ∧ _ :=
      Machine.ran_release_string code (by omega) (by omega) (by rw [place, second]; exact integer)
    rw [place] at kept zero
    refine ⟨_, _, execute_of_ran located fits ran, rfl, ?_, ?_⟩
    · exact ((saved m).wordAt (.inr (by omega))).trans zero
    · rw [if_neg integer]
      exact ((saved m).wordAt (.inr (by omega))).trans (kept.trans first)

/-- Without a stray length nothing is left in the cell that was deleted. -/
theorem vacant_of_delete {routine : Routine} {x' : Executor L σ} (placed : x.slots.Placed L)
    (bound : x.slotOf name = some slot) (tidy : ¬ x.arena.Stray slot)
    (done : execute (.delete name) x = .ok routine x') : x'.arena.Vacant slot := by
  obtain ⟨_, _, done', -, second, first⟩ := execute_delete placed bound
  rw [done] at done'
  cases done'
  refine ⟨?_, second⟩
  rw [first]
  split
  · exact Word.not_isPlain_freeSentinel
  · rename_i string
    exact fun plain => tidy ⟨string, plain⟩

/-- After every program, whatever became of its statements, deleting a bound name succeeds and unbinds
it. Its window looks free afterwards, and the search for a free window ends there if it comes by; but
where a stray length is taken away, the window looks like that of an integer. -/
theorem delete_frees_window {L : Layout} {sink : σ} {log : Log} {p : Program} {name : String}
    {slot : Nat} (bound : ((start L sink log).executeEach p).slotOf name = some slot) :
    ∃ routine x', execute (.delete name) ((start L sink log).executeEach p) = .ok routine x' ∧
      x'.slotOf name = none ∧
      (¬ ((start L sink log).executeEach p).arena.Stray slot →
        Slots.shapeAt x'.arena slot = some .free ∧
          ∀ windows, Slots.firstFreeFrom x'.arena (windows + 1) slot = some slot) ∧
      (((start L sink log).executeEach p).arena.Stray slot →
        Slots.shapeAt x'.arena slot = some .integer) := by
  have reach : Slots.Reachable L ((start L sink log).executeEach p).slots :=
    reachable_slots_executeEach p .empty
  have isSlot := (reach.placed name slot bound).2
  obtain ⟨routine, x', done, slots, second, first⟩ := execute_delete reach.placed bound
  refine ⟨routine, x', done, ?_, fun tidy => ?_, fun stray => ?_⟩
  · rw [slotOf, slots, Slots.lookup_erase, if_pos rfl]
  · have free := (vacant_of_delete reach.placed bound tidy done).shapeAt_eq isSlot
    exact ⟨free, Slots.firstFreeFrom_of_free isSlot free⟩
  · rw [if_neg stray.1] at first
    rw [Slots.shapeAt_eq _ isSlot, first, second, stray.2.classify]

/-- Deleting `x` after `x = 7;`. -/
theorem delete_frees_seven : ∃ routine x',
    execute (.delete "x") (small.executeEach [.assign "x" (.int 7)]) = .ok routine x' ∧
      x'.slotOf "x" = none ∧ Slots.shapeAt x'.arena 0 = some .free := by
  have state : (small.executeEach [.assign "x" (.int 7)]).slotOf "x" = some 0 ∧
      ¬ (small.executeEach [.assign "x" (.int 7)]).arena.Stray 0 := by
    decide +kernel
  obtain ⟨routine, x', done, unbound, frees, -⟩ := delete_frees_window state.1
  exact ⟨routine, x', done, unbound, (frees state.2).1⟩

/-- `x = -1; print x;`: the number has twenty digits, and eight of them stay in the second word. -/
def printedNegative : Program := [.assign "x" (.neg (.int 1)), .print "x"]

/-- Deleting `x` after `x = -1; print x;` unbinds it, but its window is not free. -/
theorem not_free_after_print :
    (small.executeEach printedNegative).slotOf "x" = some 0 ∧
      (small.executeEach printedNegative).failure (.delete "x") = none ∧
      Slots.shapeAt (small.executeEach (printedNegative ++ [.delete "x"])).arena 0 ≠ some .free := by
  decide +kernel

end Executor
end Osl
