import Osl.Proofs.Expr.Located

/-!
# Statements with places

As for expressions, compiling the work of a statement is giving places to its literals and variables
(`Statement.locate`) and writing code (`Task.code`). The size of the routine depends on the shape of
the statement alone (`Statement.codeSize`), and every cell that an instruction names is that of a
slot.
-/

namespace Osl
set_option autoImplicit false

variable {L : Layout}

/-- A statement whose literals and variables have got their places. -/
inductive Task
  | assign (value : Located) (cell : Word)
  | print (cell : Word)
  | release (cell : Word)
  | printLog
  deriving DecidableEq

open Compile in
/-- Gives the literals and variables of a statement their places, the target of an assignment
last. -/
def Statement.locate : Statement → Compile L Task
  | .assign target e => do
    let value ← e.locate
    return .assign value (← cellOf target)
  | .print name => return .print (← cellOf name)
  | .delete name => return .release (← releasedCellOf name)
  | .printLog => return .printLog

namespace Task

/-- The code that does the work. -/
def code : Task → List Instr
  | .assign value cell => value.code ++ [.store cell]
  | .print cell => [.print cell]
  | .release cell => [.release cell]
  | .printLog => [.printLog]

/-- The cells that the work reads or writes. -/
def cells : Task → List Word
  | .assign value cell => cell :: value.cells
  | .print cell | .release cell => [cell]
  | .printLog => []

end Task

namespace Statement

theorem body_eq (s : Statement) : (s.body : Compile L (List Instr)) = Task.code <$> s.locate := by
  cases s with
  | assign target e => simp [body, locate, Task.code, Expr.code_eq]
  | print name | delete name | printLog => simp [body, locate, Task.code]

end Statement

/-- The number of bytes of the code of an expression. -/
def Expr.codeSize : Expr → Nat
  | .int _ => 18
  | .str _ => 36
  | .var _ => 9
  | .arith _ l r => l.codeSize + r.codeSize + 1
  | .neg e => e.codeSize + 19

/-- The number of bytes of the routine of a statement. -/
def Statement.codeSize : Statement → Nat
  | .assign _ e => e.codeSize + 12
  | .print _ | .delete _ => 12
  | .printLog => 4

/-- The room that the literals of an expression take up in the literal section, each with a zero byte
behind it. -/
def Expr.literalSize : Expr → Nat
  | .int _ | .var _ => 0
  | .str content => content.length + 1
  | .arith _ l r => l.literalSize + r.literalSize
  | .neg e => e.literalSize

/-- The room that the literals of a statement take up. -/
def Statement.literalSize : Statement → Nat
  | .assign _ e => e.literalSize
  | .print _ | .delete _ | .printLog => 0

/-- Every code section has room for a routine without an expression. -/
theorem Layout.twelve_le_code (L : Layout) : 12 ≤ L.code := by
  have := L.code_pos
  have := L.code_aligned
  omega

theorem length_codeBytes_framed (is : List Instr) :
    (codeBytes (framed is)).length = (codeBytes is).length + 3 := by
  have ends : (codeBytes [.leave, .ret]).length = 2 := by decide
  rw [framed, codeBytes_cons, codeBytes_append, List.length_append, List.length_append, ends]
  show 1 + _ = _
  omega

/-- The code of an expression has the size that its shape tells. -/
theorem Expr.length_code {e : Expr} {w w' : Workspace L} {t : Located} (h : e.locate w = .ok t w') :
    (codeBytes t.code).length = e.codeSize := by
  induction e generalizing w w' t with
  | int n => cases h; rfl
  | str content =>
    obtain ⟨header, w₁, -, rest⟩ := bind_eq_ok h
    cases rest
    rfl
  | var name =>
    obtain ⟨cell, w₁, -, rest⟩ := bind_eq_ok h
    cases rest
    rfl
  | arith op l r ihl ihr =>
    obtain ⟨right, w₁, first, h₁⟩ := bind_eq_ok h
    obtain ⟨left, w₂, second, rest⟩ := bind_eq_ok h₁
    cases rest
    have operator : (codeBytes [.arith op]).length = 1 := by cases op <;> rfl
    have sizes := ihl second
    have sizes' := ihr first
    rw [Located.code, codeBytes_append, codeBytes_append, List.length_append, List.length_append,
      operator, sizes, sizes', codeSize]
    omega
  | neg e ih =>
    obtain ⟨inner, w₁, first, rest⟩ := bind_eq_ok h
    cases rest
    have size := ih first
    rw [Located.code, codeBytes_append, List.length_append, size, codeSize]
    rfl

/-- The routine of a statement has the size that its shape tells. -/
theorem Statement.length_code {s : Statement} {w w' : Workspace L} {task : Task}
    (h : s.locate w = .ok task w') : (codeBytes (framed task.code)).length = s.codeSize := by
  rw [length_codeBytes_framed]
  cases s with
  | assign target e =>
    obtain ⟨value, w₁, first, h₁⟩ := bind_eq_ok h
    obtain ⟨cell, w₂, -, rest⟩ := bind_eq_ok h₁
    cases rest
    rw [Task.code, codeBytes_append, List.length_append, Expr.length_code first]
    rfl
  | print name =>
    obtain ⟨cell, w₁, -, rest⟩ := bind_eq_ok h
    cases rest
    rfl
  | delete name =>
    obtain ⟨cell, w₁, -, rest⟩ := bind_eq_ok h
    cases rest
    rfl
  | printLog => cases h; rfl

namespace Statement

/-- The places of an assignment are those of its value and the slot that its target has then. -/
theorem locate_assign_eq_ok {w w' : Workspace L} {target : String} {e : Expr} {task : Task}
    (h : (assign target e).locate w = .ok task w') :
    ∃ value w₁ slot, e.locate w = .ok value w₁ ∧ task = .assign value (L.cell slot) ∧
      w'.slots.lookup target = some slot := by
  obtain ⟨value, w₁, first, rest⟩ := bind_eq_ok h
  obtain ⟨cell, w₂, given, last⟩ := bind_eq_ok rest
  cases last
  obtain ⟨slot, slots, asked, rfl, rfl⟩ := Compile.cellOf_eq_ok given
  exact ⟨value, w₁, slot, first, rfl, Slots.lookup_slotFor_self asked⟩

/-- The place of a name that is printed. -/
theorem locate_print {w : Workspace L} {name : String} {slot : Nat}
    (single : name.utf8ByteSize = 1) (bound : w.slots.lookup name = some slot) :
    (print name).locate w = .ok (.print (L.cell slot)) w := by
  rw [locate, bind_ok (Compile.cellOf_of_lookup single bound)]
  rfl

/-- The place of a name that is deleted, which is forgotten already. -/
theorem locate_delete {w : Workspace L} {name : String} {slot : Nat}
    (single : name.utf8ByteSize = 1) (bound : w.slots.lookup name = some slot) :
    (delete name).locate w =
      .ok (.release (L.cell slot)) { w with slots := w.slots.erase name } := by
  rw [locate, bind_ok (Compile.releasedCellOf_of_lookup single bound)]
  rfl

/-- Giving a statement its places makes the workspace grow. -/
theorem grows_locate (s : Statement) : Always Workspace.Grows (s.locate : Compile L Task) := by
  cases s with
  | assign target e =>
    refine Always.bind .trans (fun w => (e.extends_locate w).toGrows) fun _ => ?_
    exact Always.bind .trans (fun w => (Compile.extends_cellOf target w).toGrows) fun _ =>
      Always.pure .refl _
  | print name =>
    exact Always.bind .trans (fun w => (Compile.extends_cellOf name w).toGrows) fun _ =>
      Always.pure .refl _
  | delete name =>
    exact Always.bind .trans (Compile.grows_releasedCellOf name) fun _ => Always.pure .refl _
  | printLog => exact Always.pure .refl _

/-- The cells of a statement are those of slots. -/
theorem cells_locate {s : Statement} {w w' : Workspace L} {task : Task}
    (h : s.locate w = .ok task w') (reach : Slots.Reachable L w.slots) :
    ∀ cell ∈ task.cells, L.IsCell cell := by
  cases s with
  | assign target e =>
    obtain ⟨value, w₁, first, h₁⟩ := bind_eq_ok h
    obtain ⟨cell, w₂, given, rest⟩ := bind_eq_ok h₁
    cases rest
    obtain ⟨slot, slots, asked, rfl, -⟩ := Compile.cellOf_eq_ok given
    have reach₁ := (Expr.extends_of_locate first).reachable reach
    intro cell member
    rcases List.mem_cons.1 member with same | read
    · exact ⟨slot, reach₁.placed.isSlot asked, same⟩
    · exact Expr.cells_locate first reach cell read
  | print name =>
    obtain ⟨cell, w₁, given, rest⟩ := bind_eq_ok h
    cases rest
    obtain ⟨slot, slots, asked, rfl, -⟩ := Compile.cellOf_eq_ok given
    simp only [Task.cells, List.mem_singleton, forall_eq]
    exact ⟨slot, reach.placed.isSlot asked, rfl⟩
  | delete name =>
    obtain ⟨cell, w₁, given, rest⟩ := bind_eq_ok h
    cases rest
    obtain ⟨slot, slots, released, rfl, -⟩ := Compile.releasedCellOf_eq_ok given
    obtain ⟨u, asked, -⟩ := Slots.release_spec released
    simp only [Task.cells, List.mem_singleton, forall_eq]
    exact ⟨slot, reach.placed.isSlot asked, rfl⟩
  | printLog => cases h; simp [Task.cells]

theorem body_of_locate {s : Statement} {w w' : Workspace L} {task : Task}
    (h : s.locate w = .ok task w') : s.body w = .ok task.code w' := by
  rw [body_eq]
  change (s.locate.map _) w = _
  simp only [EStateM.map, h]

/-- The work of a statement that has code has got its places. -/
theorem body_eq_ok {s : Statement} {w w' : Workspace L} {body : List Instr}
    (h : s.body w = .ok body w') : ∃ task, s.locate w = .ok task w' ∧ body = task.code := by
  rw [body_eq] at h
  change (s.locate.map _) w = _ at h
  cases located : s.locate w with
  | ok task w₁ => simp only [EStateM.map, located] at h; cases h; exact ⟨task, rfl, rfl⟩
  | error e w₁ => simp only [EStateM.map, located] at h; cases h

/-- A statement that does not get its places is not compiled. -/
theorem compile_of_error {s : Statement} {w w' : Workspace L} {e : CompileError}
    (h : s.locate w = .error e w') : s.compile w = .error e w' := by
  have failed : s.body w = .error e w' := by
    rw [body_eq]
    change (s.locate.map _) w = _
    simp only [EStateM.map, h]
  rw [compile, bind_error failed]

/-- A statement whose routine does not fit is not compiled. -/
theorem compile_of_large {s : Statement} {w w' : Workspace L} {task : Task}
    (h : s.locate w = .ok task w') (large : L.code < s.codeSize) :
    s.compile w = .error (.codeOverflow s.codeSize L.code) w' := by
  have size : (Routine.assemble (framed task.code)).size = s.codeSize := by
    rw [Routine.size, Routine.code_assemble]
    exact length_code h
  rw [compile, bind_ok (body_of_locate h), size, if_pos large]
  rfl

/-- A statement whose routine fits is compiled. -/
theorem compile_of_locate {s : Statement} {w w' : Workspace L} {task : Task}
    (h : s.locate w = .ok task w') (fits : s.codeSize ≤ L.code) :
    s.compile w = .ok (Routine.assemble (framed task.code)) w' := by
  have small : ¬ L.code < (Routine.assemble (framed task.code)).size := by
    have size := length_code h
    rw [Routine.size, Routine.code_assemble]
    unfold codeBytes at size
    omega
  rw [compile, bind_ok (body_of_locate h), if_neg small]
  rfl

/-- A statement that is compiled has got its places, and its routine fits. -/
theorem compile_eq_ok {s : Statement} {w w' : Workspace L} {r : Routine}
    (h : s.compile w = .ok r w') :
    ∃ task, s.locate w = .ok task w' ∧ r = Routine.assemble (framed task.code) ∧
      s.codeSize ≤ L.code := by
  cases located : s.locate w with
  | error e w₁ =>
    rw [compile_of_error located] at h
    cases h
  | ok task w₁ =>
    by_cases fits : s.codeSize ≤ L.code
    · rw [compile_of_locate located fits] at h
      cases h
      exact ⟨task, rfl, rfl, fits⟩
    · rw [compile_of_large located (Nat.lt_of_not_le fits)] at h
      cases h

/-- Compiling changes the workspace only while the statement gets its places. -/
theorem always_compile {R : Workspace L → Workspace L → Prop} (s : Statement) (refl : ∀ w, R w w)
    (trans : ∀ {w w' w''}, R w w' → R w' w'' → R w w'') (located : Always R s.locate) :
    Always R (s.compile : Compile L Routine) := by
  have body : Always R (s.body : Compile L (List Instr)) := by
    rw [body_eq]
    exact located.map _
  refine Always.bind trans body fun is => ?_
  dsimp only
  split
  · exact Always.bind trans (Always.throw refl _) fun _ => Always.pure refl _
  · exact Always.pure refl _

/-- Compiling makes the workspace grow, also when it fails. -/
theorem grows_compile (s : Statement) : Always Workspace.Grows (s.compile : Compile L Routine) :=
  s.always_compile .refl .trans s.grows_locate

end Statement
end Osl
