import Osl.Proofs.Executor.Execution
import Osl.Proofs.Statement.Compiling

/-!
# What installing a statement leaves behind

Installing a statement compiles it over the workspace of the executor and writes into the code section
besides. So a statement that does not compile keeps the cells, the scratch stack, the saved stack
pointer, the literals laid down before and the output, however far compiling has come
(`Executor.compiles_and_installs_within`).
-/

namespace Osl
set_option autoImplicit false

variable {L : Layout} {σ : Type}

/-- The right operand is laid down by the time that the left one is found to be no name. -/
theorem Statement.compile_invalid_left {w : Workspace L} {op : Arith} {target name : String} {content : List Byte}
    (fits : w.literals.next + (content.length + 1) ≤ L.stop) (invalid : name.utf8ByteSize ≠ 1) :
    ∃ w', (assign target (.arith op (.var name) (.str content))).compile w =
        .error (.slot (.invalidName name)) w' ∧
      w'.literals.next = w.literals.next + (content.length + 1) := by
  have laid := Compile.intern_of_le fits
  obtain ⟨w', same, next⟩ : ∃ w', Compile.intern content w = .ok _ w' ∧
      w'.literals.next = w.literals.next + (content.length + 1) := ⟨_, laid, rfl⟩
  have refused : w'.slots.slotFor w'.arena name = .error (.invalidName name) := if_pos invalid
  have right : (Expr.str content).locate w = .ok _ w' := bind_ok same
  have left : (Expr.var name).locate w' = .error (.slot (.invalidName name)) w' :=
    bind_error (Compile.cellOf_of_error refused)
  refine ⟨w', compile_of_error (bind_error ?_), next⟩
  rw [Expr.locate, bind_ok right, bind_error left]

namespace Executor

/-- What installing a statement does to the executor, whether there is a routine or not. -/
structure InstallsWithin (s : Statement) (x x' : Executor L σ) : Prop where
  /-- The bytes that are written lie in the code section, or are those of the literals added. -/
  arena : ∀ p, p < L.codeBase ∨ L.literalBase ≤ p → p < x.literals.next ∨ x'.literals.next ≤ p →
    x'.arena.byte p = x.arena.byte p
  slots : x'.slots = (endState s.compile x.workspace).slots
  literals : x'.literals = (endState s.compile x.workspace).literals
  sink : x'.sink = x.sink
  log : x'.log = x.log
  executed : x'.executed = x.executed

/-- What is left of the executor where a statement does not compile. -/
structure KeptUncompiled (x x' : Executor L σ) : Prop where
  savedSp : x'.arena.wordAt L.savedSp = x.arena.wordAt L.savedSp
  data : x.arena.SameInside x'.arena L.dataBase L.dataEnd
  stack : x.arena.SameInside x'.arena L.stackBase L.stackTop
  /-- Everything that was laid into the literal section before. -/
  literals : x.arena.SameInside x'.arena L.literalBase x.literals.next
  sink : x'.sink = x.sink

variable {s : Statement} {x x' : Executor L σ}

theorem installsWithin (s : Statement) (x : Executor L σ) :
    x.InstallsWithin s (endState (install s) x) := by
  have cleared := x.arena.sameOutside_clearCode
  have grown := (s.grows_compile x.workspace).same
  cases compiled : s.compile x.workspace with
  | error e w' =>
    rw [endState_error compiled] at grown
    rw [endState_error (install_of_error compiled)]
    have ended : endState s.compile x.workspace = w' := endState_error compiled
    refine ⟨fun p apart free => ?_, by rw [ended], by rw [ended], rfl, rfl, rfl⟩
    exact (grown p free).trans (cleared p apart)
  | ok routine w' =>
    obtain ⟨task, located, -, fits⟩ := Statement.compile_eq_ok compiled
    rw [endState_ok compiled] at grown
    rw [endState_ok (install_of_locate located fits)]
    have ended : endState s.compile x.workspace = w' := endState_ok compiled
    have written := sameOutside_withRoutine located fits
    refine ⟨fun p apart free => ?_, by rw [ended], by rw [ended], rfl, rfl, rfl⟩
    calc (w'.withRoutine task).byte p = w'.arena.byte p := written p apart
      _ = x.arena.clearCode.byte p := grown p free
      _ = x.arena.byte p := cleared p apart

/-- Everything but the code section and the literals added is kept. -/
theorem InstallsWithin.kept (h : x.InstallsWithin s x') : x.KeptUncompiled x' := by
  have := L.ordered
  have low := x.literals.low
  have below : x.arena.SameInside x'.arena L.base L.codeBase :=
    fun p _ high => h.arena p (.inl high) (.inl (by omega))
  have top : L.stackTop = L.codeBase := rfl
  have end' : L.dataEnd = L.stackBase := rfl
  refine ⟨?_, below.mono (by omega) (by omega), below.mono (by omega) (by omega),
    fun p low' high => h.arena p (.inr low') (.inl high), h.sink⟩
  exact below.wordAt (Nat.le_refl _) (by simp only [Layout.savedSp, Layout.dataBase] at *; omega)

/-- A statement that has no routine changes what installing it has changed. -/
theorem kept_of_compileError [Sink σ] {k : Nat} {e : CompileError}
    (failed : execute s x = .error (.compile k e) x') : x.KeptUncompiled x' := by
  obtain ⟨w', noted, rfl⟩ := execute_eq_compileError failed
  have kept := (installsWithin s x).kept
  rw [endState_error (install_of_error noted)] at kept
  exact ⟨kept.savedSp, kept.data, kept.stack, kept.literals, kept.sink⟩

/-- Compiling touches only what it owns, whatever it comes to, and installing rewrites only the code
section besides. -/
theorem compiles_and_installs_within [Sink σ] (s : Statement) (w : Workspace L)
    (reach : Slots.Reachable L w.slots) (x : Executor L σ) :
    s.CompilesWithin w (endState s.compile w) ∧ x.InstallsWithin s (endState (install s) x) ∧
      (∀ e x', install s x = .error e x' → x.KeptUncompiled x') ∧
      ∀ k e x', execute s x = .error (.compile k e) x' → x.KeptUncompiled x' := by
  refine ⟨s.compilesWithin reach, installsWithin s x, fun e x' failed => ?_,
    fun k e x' failed => kept_of_compileError failed⟩
  have within := installsWithin s x
  rw [endState_error failed] at within
  exact within.kept

/-- `x = long + "ab";` on a new executor leaves a literal behind. -/
theorem compiles_and_installs_within_invalid :
    let x : Executor .tiny Buffer := start .tiny {} .missing
    let s : Statement := .assign "x" (.arith .add (.var "long") (.str [0x61, 0x62]))
    Slots.Reachable .tiny x.slots ∧
      ∃ w', s.compile x.workspace = .error (.slot (.invalidName "long")) w' ∧
        w'.slots.lookup "long" = none ∧
        x.workspace.arena.SameOutside w'.arena x.literals.next (x.literals.next + 3) := by
  intro x s
  have reach : Slots.Reachable .tiny x.slots := .empty
  obtain ⟨w', failed, next⟩ : ∃ w', s.compile x.workspace = _ ∧ _ :=
    Statement.compile_invalid_left (by decide : Layout.tiny.literalBase + 3 ≤ Layout.tiny.stop) (by decide)
  obtain ⟨within, -⟩ := compiles_and_installs_within s x.workspace reach x
  rw [endState_error failed] at within
  have arena := within.arena
  rw [next] at arena
  exact ⟨reach, w', failed, within.unbound _ failed, arena⟩

end Executor
end Osl
