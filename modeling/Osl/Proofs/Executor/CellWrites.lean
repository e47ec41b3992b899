import Mathlib.Data.List.Basic
import Osl.Proofs.Executor.Bindings
import Osl.Proofs.Executor.Exhaustion
import Osl.Proofs.Executor.Faults
import Osl.Proofs.Machine.Assigning
import Osl.Proofs.Statement.DataFull

/-!
# What an assignment writes to the cell of its target

An assignment that succeeds and copies no string in place executes one store, and all that the store
writes is the cell of the target (`assignsCell_executeEach`). A name is bound to a window of sixteen
bytes before the value is known, and nothing asks later whether the value fits. So a string in the last
window of the data section reaches sixteen bytes into the scratch stack (`exists_store_past_dataEnd`),
and never is an assignment refused for the size of its value.
-/

namespace Osl
set_option autoImplicit false

variable {L : Layout} {σ : Type} {slot : Nat}

namespace Arena

variable {a b : Arena L}

/-- A change of a range alone lays over it what lies there afterwards. -/
theorem SameOutside.eq_overlay {p n : Nat} (same : a.SameOutside b p (p + n)) :
    b = a.overlay p (b.bytes p n) := by
  apply ext_byte
  intro q within
  rw [byte_overlay _ _ _ _ within]
  by_cases inside : p ≤ q ∧ q - p < (b.bytes p n).length
  · rw [dif_pos inside, getElem_bytes, Nat.add_sub_cancel' inside.1]
  · rw [length_bytes] at inside
    rw [dif_neg (by rwa [length_bytes])]
    exact same q (by omega)

/-- From `a` to `b` the bytes `bs` were written to the cell at a slot, for a value with the given tag,
and nothing else was written. They lie in the data section, but for a string in its last window, which
takes the lowest sixteen bytes of the scratch stack as well. -/
structure CellWritten (a b : Arena L) (slot : Nat) (tag : Word) (bs : List Byte) : Prop where
  written : b = a.overlay (L.dataBase + slot) bs
  size : bs.length = if tag = 0 then 16 else 32
  inData : tag = 0 ∨ L.dataBase + slot + 16 ≠ L.dataEnd →
    L.dataBase + slot + bs.length ≤ L.dataEnd
  spilled : L.dataBase + slot + bs.length ≤ L.dataEnd + 16 ∧ L.dataEnd + 16 ≤ L.stackTop

end Arena

/-- As many whole words as a value has, written to a slot, are a cell. -/
theorem Layout.IsSlot.cellWritten {a b : Arena L} {tag : Word} {n : Nat} (isSlot : L.IsSlot slot)
    (size : n = if tag = 0 then 2 else 4)
    (same : a.SameOutside b (L.dataBase + slot) (L.dataBase + slot + 8 * n)) :
    ∃ bs, a.CellWritten b slot tag bs := by
  have aligned := isSlot.aligned
  have inData := isSlot.fits
  have := L.data_aligned
  have room := L.stackBase_add_le
  have data : L.dataEnd = L.dataBase + L.data := rfl
  have stack : L.stackBase = L.dataEnd := rfl
  refine ⟨_, same.eq_overlay, ?_, ?_, ?_⟩
  · rw [Arena.length_bytes, size]
    split <;> rfl
  · intro fits
    rw [Arena.length_bytes, size]
    split
    · omega
    · rename_i string
      have before := fits.resolve_left string
      omega
  · rw [Arena.length_bytes, size]
    split <;> omega

namespace Machine

variable [Sink σ] {log : Log} {m m' m₁ m₂ : Machine L σ} {cell : Word} {is : List Instr} {n : Nat}

/-- A step of a run that returns does not fault. -/
theorem step_ne_error {status : Word} {f : Fault} (ran : run log m = .ok status m')
    (steps : Steps log n m.atStart m₁) (bound : n < stepBound L) : step log m₁ ≠ .error f m₂ := by
  intro failed
  rw [run_of_fault steps failed bound] at ran
  cases ran

/-- From `start` on one store is executed, that of the cell at a slot. It succeeds, and the cell is all that
it writes. -/
def StoresCell (log : Log) (start : Machine L σ) (slot : Nat) : Prop :=
  ∃ m m' bs, (∀ cell m₁, Executes log start (.store cell) m₁ ↔ cell = L.cell slot ∧ m₁ = m) ∧
    store (L.cell slot) m = .ok () m' ∧
    m.arena.CellWritten m'.arena slot (m.arena.wordAt (m.sp.toNat + 8)) bs

theorem framed_assign (is : List Instr) (cell : Word) :
    framed (is ++ [.store cell]) = (.enter :: is) ++ [.store cell, .leave, .ret] := by
  rw [framed, List.append_assoc]
  rfl

/-- Of the instructions of an assignment the one behind its operands is a store, and no other. -/
theorem eq_of_framed_eq {other : Word} {done rest : List Instr} (operands : ∀ i ∈ is, i.IsOperand)
    (split : framed (is ++ [.store cell]) = done ++ .store other :: rest) :
    done = .enter :: is ∧ other = cell := by
  rw [framed_assign] at split
  have here : Instr.store other ∉ .enter :: is := by
    intro member
    rcases List.mem_cons.1 member with same | member
    · cases same
    · exact operands _ member
  have behind : Instr.store other ∉ [Instr.leave, .ret] := by simp
  obtain ⟨same, stores, -⟩ := (List.append_cons_inj_of_notMem here behind).1 split
  cases stores
  exact ⟨same.symm, rfl⟩

/-- Whichever store the routine of an assignment comes to, it is the one behind the operands. -/
theorem Assigning.eq_of_fetch_store {other : Word}
    (start : Assigning cell (framed (is ++ [.store cell])) m) (operands : ∀ i ∈ is, i.IsOperand)
    (isCell : L.IsCell cell) (afresh : StoresAfresh log m) (steps : Steps log n m m₁)
    (fetched : fetch m₁ = .ok (.store other) m₂) : n = is.length + 1 ∧ other = cell := by
  obtain ⟨done, rest, split, length, there⟩ := start.steps isCell afresh steps
  obtain ⟨i, rest, rfl⟩ := there.phase.exists_cons
  rw [fetch_eq there.code] at fetched
  cases fetched
  obtain ⟨rfl, same⟩ := eq_of_framed_eq operands split
  exact ⟨length.symm, same⟩

/-- The routine of an assignment that returns and copies nothing in place executes one store, the one it
was compiled with, and it succeeds. -/
theorem Assigning.executes_store {status : Word}
    (start : Assigning cell (framed (is ++ [.store cell])) m.atStart)
    (code : CodeAt m.arena L.codeBase (framed (is ++ [.store cell])))
    (operands : ∀ i ∈ is, i.IsOperand) (isCell : L.IsCell cell) (afresh : StoresAfresh log m.atStart)
    (ran : run log m = .ok status m') :
    ∃ m₁ m₂, (∀ other m₃, Executes log m.atStart (.store other) m₃ ↔ other = cell ∧ m₃ = m₁) ∧
      store cell m₁ = .ok () m₂ ∧ ¬ m₁.CopiesInPlace cell := by
  have time := length_lt_stepBound code
  rw [length_framed, List.length_append, List.length_singleton] at time
  have start' := start
  rw [framed_assign] at start'
  have goesOn : ∀ i ∈ Instr.enter :: is, i ≠ .ret := by
    rintro i member rfl
    rcases List.mem_cons.1 member with same | member
    · cases same
    · exact operands _ member
  obtain ⟨n, m₁, bound, steps, there | ⟨f, m₂, failed⟩⟩ := start'.exists_steps isCell afresh goesOn
  · have fetched : fetch m₁ = .ok (.store cell) (m₁.past (.store cell)) := fetch_eq there.code
    obtain ⟨rfl, -⟩ := start.eq_of_fetch_store operands isCell afresh steps fetched
    refine ⟨m₁.past (.store cell), ?_⟩
    cases stored : store cell (m₁.past (.store cell)) with
    | error f m₂ =>
      have failed : Machine.step log m₁ = .error f m₂ :=
        (step_eq_exec there.code).trans (bind_error stored)
      exact absurd failed (step_ne_error ran steps (by omega))
    | ok _ m₂ =>
      refine ⟨m₂, fun other m₃ => ⟨?_, ?_⟩, rfl, afresh _ _ _ _ steps fetched⟩
      · -- as many steps lead to the other store, and so to the same machine
        rintro ⟨k, m₄, steps', fetched'⟩
        obtain ⟨rfl, rfl⟩ := start.eq_of_fetch_store operands isCell afresh steps' fetched'
        cases steps.unique steps'
        rw [fetched] at fetched'
        cases fetched'
        exact ⟨rfl, rfl⟩
      · rintro ⟨rfl, rfl⟩
        exact ⟨_, m₁, steps, fetched⟩
  · rw [List.length_cons] at bound
    exact absurd failed (step_ne_error ran steps (by omega))

end Machine

namespace Executor

open Machine

variable {x x' : Executor L σ} {s : Statement} {target : String} {e : Expr} {w' : Workspace L}

/-- The machine in front of the routine of an assignment. -/
theorem assigning_atStart {value : Located} {cell : Word} (sink : σ)
    (located : (Statement.assign target e).locate x.workspace = .ok (.assign value cell) w')
    (fits : (Statement.assign target e).codeSize ≤ L.code) :
    Assigning cell (framed (value.code ++ [.store cell]))
      (Machine.atStart { arena := w'.withRoutine (.assign value cell), sink }) := by
  have start : (Machine.atStart { arena := w'.withRoutine (.assign value cell), sink }).ip.toNat =
      L.codeBase := toNat_codeBase L
  refine ⟨codeAt_atStart sink located fits, ?_⟩
  have operands := value.isOperand_code
  obtain ⟨i, rest, first, pushes⟩ := value.exists_code_cons
  rw [start, first]
  rw [first] at operands
  refine .entering ?_ operands
  rcases pushes with ⟨w, rfl⟩ | ⟨read, -, rfl⟩ <;> rfl

variable [Sink σ]

/-- How an executor assigns to a name. -/
structure AssignsCell (x : Executor L σ) (target : String) (e : Expr) : Prop where
  /-- If the assignment succeeds and nothing is copied in place, the cell of the target is stored to. -/
  stored : ∀ routine y routine' x', install (.assign target e) x = .ok routine y →
    Executor.execute (.assign target e) x = .ok routine' x' → StoresAfresh x.log y.atStart →
    ∃ slot, x'.slotOf target = some slot ∧ StoresCell x.log y.atStart slot
  /-- The data section is found exhausted only if a name has no slot and no window looks free. -/
  exhausted : ∀ k name x',
    Executor.execute (.assign target e) x = .error (.compile k (.slot (.exhausted name))) x' →
    x.slotOf name = none ∧ Slots.firstFree x.arena = none

/-- An assignment that succeeds and copies nothing in place writes the cell of its target. -/
theorem store_of_execute {routine routine' : Routine} {y : Executor L σ}
    (reach : Slots.Reachable L x.slots) (installed : install (.assign target e) x = .ok routine y)
    (done : execute (.assign target e) x = .ok routine' x') (afresh : StoresAfresh x.log y.atStart) :
    ∃ slot, x'.slotOf target = some slot ∧ StoresCell x.log y.atStart slot := by
  obtain ⟨task, w', located, fits, -, rfl⟩ := install_eq_ok installed
  have code := codeAt_withRoutine located fits
  have cells := Statement.cells_locate located reach
  have grown := Statement.grows_locate (.assign target e) x.workspace
  rw [endState_ok located] at grown
  obtain ⟨value, w₁, slot, -, rfl, bound⟩ := Statement.locate_assign_eq_ok located
  have isSlot := ((grown.reachable reach).placed target slot bound).2
  have isCell := cells (L.cell slot) List.mem_cons_self
  obtain ⟨task, w₂, status, m₀, located', -, ran, rfl⟩ := execute_eq_ok done
  rw [located] at located'
  cases located'
  obtain ⟨m, m', only, stored, fresh⟩ := (assigning_atStart x.sink located fits).executes_store code
    value.isOperand_code isCell afresh ran
  obtain ⟨ws, moved, size⟩ := store_afresh isCell stored fresh
  have same := moved.same
  rw [isSlot.toNat_cell] at same
  obtain ⟨bs, written⟩ := isSlot.cellWritten size same
  exact ⟨slot, bound, m, m', bs, only, stored, written⟩

/-- A statement finds the data section exhausted only if it is. -/
theorem full_of_exhausted {k : Nat} {name : String}
    (failed : execute s x = .error (.compile k (.slot (.exhausted name))) x') :
    x.slotOf name = none ∧ Slots.firstFree x.arena = none := by
  have cleared := x.arena.sameOutside_clearCode
  have := L.ordered
  have data : x.arena.SameInside x.arena.clearCode L.dataBase L.stackBase :=
    cleared.inside (.inl (by omega))
  obtain ⟨w', noted, -⟩ := execute_eq_compileError failed
  obtain ⟨unbound, full⟩ := Statement.noRoomFor_of_exhausted noted
  exact ⟨unbound, (Slots.firstFree_sameInside data).symm.trans full⟩

/-- After every program, whatever became of its statements, and so whatever the cells, the stack and the
saved stack pointer hold. -/
theorem assignsCell_executeEach (L : Layout) (sink : σ) (log : Log) (p : Program) (target : String)
    (e : Expr) : ((start L sink log).executeEach p).AssignsCell target e where
  stored _ _ _ _ installed done afresh :=
    store_of_execute (reachable_slots_executeEach p .empty) installed done afresh
  exhausted _ _ _ failed := full_of_exhausted failed

/-- Whether the routine of a statement ends within `n` steps and copies no string to where a cell
points. -/
def afreshFor (n : Nat) (s : Statement) (x : Executor L σ) : Bool :=
  match install s x with
  | .ok _ y => y.atStart.avoids copies x.log n
  | .error _ _ => false

theorem exists_install_of_afreshFor {n : Nat} (h : x.afreshFor n s = true) :
    ∃ routine y, install s x = .ok routine y ∧ StoresAfresh x.log y.atStart := by
  rw [afreshFor] at h
  cases installed : install s x with
  | ok routine y =>
    rw [installed] at h
    exact ⟨routine, y, rfl, storesAfresh_of_avoids h⟩
  | error f y =>
    rw [installed] at h
    cases h

/-- `x = "ab";` in a new executor of the small layout, whose data section is one string. -/
theorem assignsCell_pair : ∃ routine y,
    install (.assign "x" (.str [97, 98])) small = .ok routine y ∧ StoresCell small.log y.atStart 0 := by
  have state : small.failure (.assign "x" (.str [97, 98])) = none ∧
      small.afreshFor 8 (.assign "x" (.str [97, 98])) = true ∧
      (endState (execute (.assign "x" (.str [97, 98]))) small).slotOf "x" = some 0 := by
    decide +kernel
  obtain ⟨ends, spared, first⟩ := state
  obtain ⟨routine, y, installed, afresh⟩ := exists_install_of_afreshFor spared
  obtain ⟨routine', done⟩ := exists_execute_of_failure ends
  have assigns : small.AssignsCell "x" (.str [97, 98]) :=
    assignsCell_executeEach .small (⟨some {}⟩ : Spool) .missing [] "x" (.str [97, 98])
  obtain ⟨slot, bound, stores⟩ := assigns.stored routine y routine' _ installed done afresh
  rw [first] at bound
  cases bound
  exact ⟨routine, y, installed, stores⟩

/-- The cell of the store that the routine of a statement comes to after `n` steps, and the byte at an
address before and after it. -/
def byteAtStore (n p : Nat) (s : Statement) (x : Executor L σ) : Option (Word × Byte × Byte) :=
  match install s x with
  | .error _ _ => none
  | .ok _ y =>
    match y.atStart.after x.log n with
    | none => none
    | some m₁ =>
      match fetch m₁ with
      | .ok (.store cell) m =>
        match store cell m with
        | .ok _ m' => some (cell, m.arena.byte p, m'.arena.byte p)
        | .error _ _ => none
      | _ => none

theorem executes_of_byteAtStore {n p : Nat} {cell : Word} {b b' : Byte} {routine : Routine}
    {y : Executor L σ} (h : x.byteAtStore n p s = some (cell, b, b'))
    (installed : install s x = .ok routine y) :
    ∃ m m', Executes x.log y.atStart (.store cell) m ∧ store cell m = .ok () m' ∧
      m.arena.byte p = b ∧ m'.arena.byte p = b' := by
  simp only [byteAtStore, installed] at h
  split at h
  · cases h
  · rename_i m₁ gone
    split at h
    · rename_i other m fetched
      split at h
      · rename_i m' stored
        cases h
        exact ⟨m, m', ⟨n, m₁, steps_of_after gone, fetched⟩, stored, rfl, rfl⟩
      · cases h
    · cases h

/-- The executor after `x = 1;`, which leaves the last window of the small layout free. -/
def withOne : Executor .small Spool := small.executeEach [.assign "x" (.int 1)]

/-- A store may write past the end of the data section, and nothing fails: `y = "ab";` after `x = 1;`
changes the lowest byte of the scratch stack. -/
theorem exists_store_past_dataEnd :
    ∃ (routine routine' : Routine) (y x' : Executor .small Spool) (m m' : Machine .small Spool),
      install (.assign "y" (.str [97, 98])) withOne = .ok routine y ∧
      execute (.assign "y" (.str [97, 98])) withOne = .ok routine' x' ∧
      StoresAfresh withOne.log y.atStart ∧ x'.slotOf "y" = some 16 ∧
      Executes withOne.log y.atStart (.store (Layout.small.cell 16)) m ∧
      store (Layout.small.cell 16) m = .ok () m' ∧
      m'.arena.byte Layout.small.dataEnd ≠ m.arena.byte Layout.small.dataEnd := by
  have state : withOne.failure (.assign "y" (.str [97, 98])) = none ∧
      withOne.afreshFor 8 (.assign "y" (.str [97, 98])) = true ∧
      (endState (execute (.assign "y" (.str [97, 98]))) withOne).slotOf "y" = some 16 ∧
      withOne.byteAtStore 5 Layout.small.dataEnd (.assign "y" (.str [97, 98])) =
        some (Layout.small.cell 16, 0, 97) := by
    decide +kernel
  obtain ⟨ends, spared, bound, changed⟩ := state
  obtain ⟨routine, y, installed, afresh⟩ := exists_install_of_afreshFor spared
  obtain ⟨routine', done⟩ := exists_execute_of_failure ends
  obtain ⟨m, m', executes, stored, before, now⟩ := executes_of_byteAtStore changed installed
  refine ⟨routine, routine', y, _, m, m', installed, done, afresh, bound, executes, stored, ?_⟩
  rw [before, now]
  decide

end Executor
end Osl
