import Osl.Proofs.Executor.Execution
import Osl.Proofs.Instr.Decoding
import Osl.Proofs.Statement.Shape

/-!
# The shape of routines

A statement whose names and literals resolve has a routine exactly if its size, which its syntax tells,
is at most that of the code section. The routine then decodes to the foretold work of the statement
between entering the scratch stack and leaving it, and installing it cannot fail any more
(`Executor.routine_shape`).
-/

namespace Osl
set_option autoImplicit false

variable {L : Layout} {σ : Type}

/-- The routine of a statement that is compiled over a workspace. -/
structure Statement.IsRoutine (s : Statement) (w : Workspace L) (r : Routine) : Prop where
  size : r.size = s.codeSize
  /-- The instructions take up the whole routine, one right behind the other. -/
  entries : r.entries = (Instr.placed 0 (framed (s.work w.cell w.literals.next))).map
    fun (offset, i) => (offset, .instr i)
  code : r.code = codeBytes (framed (s.work w.cell w.literals.next))
  work : ∀ i ∈ s.work w.cell w.literals.next, i ≠ .enter ∧ i ≠ .leave ∧ i ≠ .ret

namespace Statement

variable {s : Statement} {w w' : Workspace L} {task : Task}

/-- The routine of a statement that has got its places. -/
theorem isRoutine_of_locate (located : s.locate w = .ok task w') :
    s.IsRoutine w (Routine.assemble (framed task.code)) := by
  have foretold := code_of_locate located
  refine ⟨?_, ?_, ?_, ?_⟩
  · rw [Routine.size, Routine.code_assemble]
    exact length_code located
  · rw [Routine.entries_assemble, foretold]
  · rw [Routine.code_assemble, foretold]
    rfl
  · rw [← foretold]
    exact fun i member => Task.ne_of_mem_code member

/-- A statement whose names and literals resolve does not fit exactly if it is too large. -/
theorem compile_overflow_iff (resolves : w.Resolves s.names s.literalSize) (size capacity : Nat) :
    (∃ w', s.compile w = .error (.codeOverflow size capacity) w') ↔
      L.code < s.codeSize ∧ size = s.codeSize ∧ capacity = L.code := by
  obtain ⟨task, w', located⟩ := exists_locate resolves
  by_cases fits : s.codeSize ≤ L.code
  · constructor
    · rintro ⟨w₁, failed⟩
      rw [compile_of_locate located fits] at failed
      cases failed
    · rintro ⟨large, -⟩
      exact absurd fits (Nat.not_le_of_lt large)
  · have large := Nat.lt_of_not_le fits
    have failed := compile_of_large located large
    constructor
    · rintro ⟨w₁, failed'⟩
      rw [failed] at failed'
      cases failed'
      exact ⟨large, rfl, rfl⟩
    · rintro ⟨-, rfl, rfl⟩
      exact ⟨w', failed⟩

/-- A statement whose names and literals resolve and that fits has a routine. -/
theorem exists_isRoutine (resolves : w.Resolves s.names s.literalSize) (fits : s.codeSize ≤ L.code) :
    ∃ r w', s.compile w = .ok r w' ∧ s.IsRoutine w r := by
  obtain ⟨task, w', located⟩ := exists_locate resolves
  exact ⟨_, w', compile_of_locate located fits, isRoutine_of_locate located⟩

end Statement

namespace Executor

/-- Installing a statement adds nothing to compiling it but a write to the code section. -/
structure InstallsCompiled (s : Statement) (x : Executor L σ) : Prop where
  /-- The write succeeds, and what it touches lies in the code section. -/
  writes : ∀ r w', s.compile x.workspace = .ok r w' →
    ∃ b, Arena.write (.ofNat L.codeBase) r.code w'.arena = .ok () b ∧
      w'.arena.SameOutside b L.codeBase (L.codeBase + r.size) ∧ L.codeBase + r.size ≤ L.literalBase ∧
      install s x = .ok r { x with arena := b, slots := w'.slots, literals := w'.literals }
  /-- It fails only where compiling does. -/
  fails : ∀ e x', install s x = .error e x' → ∃ w', s.compile x.workspace = .error e w'

theorem installsCompiled (s : Statement) (x : Executor L σ) : x.InstallsCompiled s where
  writes r w' compiled := by
    obtain ⟨task, located, rfl, fits⟩ := Statement.compile_eq_ok compiled
    have size : (Routine.assemble (framed task.code)).size = s.codeSize :=
      (Statement.isRoutine_of_locate located).size
    have written := w'.arena.sameOutside_overlay L.codeBase (codeBytes (framed task.code))
    rw [Statement.length_code located, ← size] at written
    refine ⟨_, write_routine located fits, written, ?_, install_of_locate located fits⟩
    rw [size]
    exact Nat.add_le_add_left fits L.codeBase
  fails e x' failed := by
    cases compiled : s.compile x.workspace with
    | error e' w' =>
      rw [install_of_error compiled] at failed
      cases failed
      exact ⟨w', rfl⟩
    | ok r w' =>
      obtain ⟨task, located, -, fits⟩ := Statement.compile_eq_ok compiled
      rw [install_of_locate located fits] at failed
      cases failed

/-- Every statement whose names and literals resolve has a routine of the size and the shape that its
syntax tells, unless the code section is too small for it, and whatever is compiled is installed. -/
theorem routine_shape {s : Statement} {w : Workspace L} (resolves : w.Resolves s.names s.literalSize)
    (x : Executor L σ) :
    (∀ size capacity, (∃ w', s.compile w = .error (.codeOverflow size capacity) w') ↔
        L.code < s.codeSize ∧ size = s.codeSize ∧ capacity = L.code) ∧
      (s.codeSize ≤ L.code → ∃ r w', s.compile w = .ok r w' ∧ s.IsRoutine w r) ∧
      x.InstallsCompiled s :=
  ⟨Statement.compile_overflow_iff resolves, Statement.exists_isRoutine resolves, installsCompiled s x⟩

/-- `x = -2;` on a new executor, where the code section has room for all of its 49 bytes. -/
theorem routine_shape_negative :
    let x : Executor .small Buffer := start .small {} .missing
    x.workspace.Resolves ["x"] 0 ∧
      ∃ r w', (Statement.assign "x" (.neg (.int 2))).compile x.workspace = .ok r w' ∧ r.size = 49 ∧
        r.code = codeBytes [.enter, .push 0, .push 2, .push 0, .push 0, .arith .sub,
          .store (Layout.small.cell 0), .leave, .ret] := by
  intro x
  have slot : x.workspace.slot? "x" = some 0 := by decide +kernel
  have resolves : x.workspace.Resolves ["x"] 0 := by
    refine ⟨?_, x.literals.high⟩
    rw [List.forall_mem_singleton, slot]
    exact ⟨by decide, rfl⟩
  obtain ⟨-, fitting, -⟩ := routine_shape (s := .assign "x" (.neg (.int 2))) resolves x
  obtain ⟨r, w', compiled, shape⟩ := fitting (by decide)
  have code := shape.code
  simp only [Statement.work, Workspace.cell, slot] at code
  exact ⟨resolves, r, w', compiled, shape.size, code⟩

end Executor
end Osl
