import Osl.Proofs.Statement.DataFull

/-!
# The code of a statement before it is compiled

Compiling binds names but writes to no cell, so every name without a slot gets the same one, the first
window that looked free at the start. Literals are laid down one behind another. So the code of a
statement is known at the start already (`Statement.work`), and also whether its names and literals find
their places (`Workspace.Resolves`).
-/

namespace Osl
set_option autoImplicit false

variable {L : Layout}

/-- The code of an expression, the right operand of an operator first. The literals lie from `next` on,
and `cell` tells the cells of the variables. -/
def Expr.postOrder (cell : String → Word) (next : Nat) : Expr → List Instr
  | .int n => [.push 0, .push n]
  | .str content => (Header.of (.ofNat next) content).words.reverse.map .push
  | .var name => [.load (cell name)]
  | .arith op l r =>
    r.postOrder cell next ++ (l.postOrder cell (next + r.literalSize) ++ [.arith op])
  | .neg e => e.postOrder cell next ++ [.push 0, .push 0, .arith .sub]

/-- The code that does the work of a statement. -/
def Statement.work (cell : String → Word) (next : Nat) : Statement → List Instr
  | .assign target e => e.postOrder cell next ++ [.store (cell target)]
  | .print name => [.print (cell name)]
  | .delete name => [.release (cell name)]
  | .printLog => [.printLog]

namespace Workspace

/-- The slot of a name, or the one that it will be given. -/
def slot? (w : Workspace L) (name : String) : Option Nat :=
  (w.slots.lookup name).or (Slots.firstFree w.arena)

/-- The cell of a name. -/
def cell (w : Workspace L) (name : String) : Word := L.cell ((w.slot? name).getD 0)

/-- The names are single bytes and have slots or can be given them, and there is room for `size` bytes
of literals. -/
structure Resolves (w : Workspace L) (names : List String) (size : Nat) : Prop where
  names : ∀ name ∈ names, name.utf8ByteSize = 1 ∧ (w.slot? name).isSome
  literals : w.literals.next + size ≤ L.stop

/-- From `w` to `w'` names were given the slots that were meant for them, and `size` bytes of literals
were laid down. -/
structure Spends (size : Nat) (w w' : Workspace L) : Prop where
  slot? : ∀ name, w'.slot? name = w.slot? name
  next : w'.literals.next = w.literals.next + size

namespace Spends

variable {w w' w'' : Workspace L} {m n : Nat}

theorem refl (w : Workspace L) : w.Spends 0 w := ⟨fun _ => rfl, rfl⟩

theorem trans (h : w.Spends m w') (h' : w'.Spends n w'') : w.Spends (m + n) w'' :=
  ⟨fun name => (h'.slot? name).trans (h.slot? name), by rw [h'.next, h.next, Nat.add_assoc]⟩

theorem cell (h : w.Spends m w') : w'.cell = w.cell := by
  funext name
  rw [Workspace.cell, h.slot?, Workspace.cell]

/-- What resolves later resolves at the start, with the literals laid down since. -/
theorem resolves_iff (h : w.Spends m w') (names : List String) :
    w'.Resolves names n ↔ w.Resolves names (m + n) := by
  have next := h.next
  constructor
  · rintro ⟨valid, room⟩
    exact ⟨fun name member => h.slot? name ▸ valid name member, by omega⟩
  · rintro ⟨valid, room⟩
    exact ⟨fun name member => h.slot? name ▸ valid name member, by omega⟩

end Spends

end Workspace

namespace Slots

variable {a : Arena L} {t t' : Slots} {name : String} {slot : Nat}

/-- The slot that a name is given was meant for it, and those meant for the others stay so. -/
theorem slotFor_or (h : t.slotFor a name = .ok (slot, t')) :
    (t.lookup name).or (firstFree a) = some slot ∧
      ∀ other, (t'.lookup other).or (firstFree a) = (t.lookup other).or (firstFree a) := by
  obtain ⟨-, ⟨bound, rfl⟩ | ⟨unbound, found, rfl⟩⟩ := slotFor_spec h
  · exact ⟨by rw [bound, Option.some_or], fun _ => rfl⟩
  · refine ⟨by rw [unbound, Option.none_or, found], fun other => ?_⟩
    by_cases same : other = name
    · subst same
      rw [lookup_bind_self, unbound, Option.some_or, Option.none_or, found]
    · rw [lookup_bind_of_ne t slot same]

/-- A name for which a slot is meant is given it. -/
theorem exists_slotFor_of_or (single : name.utf8ByteSize = 1)
    (meant : ((t.lookup name).or (firstFree a)).isSome) : ∃ slot t', t.slotFor a name = .ok (slot, t') := by
  cases asked : t.slotFor a name with
  | ok r => exact ⟨r.1, r.2, rfl⟩
  | error e =>
    rcases slotFor_error asked with ⟨invalid, -⟩ | ⟨unbound, full, -⟩
    · exact absurd single invalid
    · rw [unbound, full] at meant
      cases meant

end Slots

namespace Compile

variable {w w' : Workspace L} {name : String} {cell : Word} {content : List Byte} {header : Header}

theorem cellOf_spec (h : cellOf name w = .ok cell w') :
    w.Resolves [name] 0 ∧ cell = w.cell name ∧ w.Spends 0 w' := by
  obtain ⟨slot, slots, asked, rfl, rfl⟩ := cellOf_eq_ok h
  obtain ⟨meant, same⟩ := Slots.slotFor_or asked
  have own : w.slot? name = some slot := meant
  refine ⟨⟨?_, w.literals.high⟩, by rw [Workspace.cell, own, Option.getD_some], same, rfl⟩
  rw [List.forall_mem_singleton, own]
  exact ⟨(Slots.slotFor_spec asked).1, rfl⟩

theorem exists_cellOf {n : Nat} (resolves : w.Resolves [name] n) :
    ∃ cell w', cellOf name w = .ok cell w' := by
  obtain ⟨single, meant⟩ := resolves.names name (List.mem_singleton_self name)
  obtain ⟨slot, slots, asked⟩ := Slots.exists_slotFor_of_or single meant
  exact ⟨_, _, cellOf_eq asked⟩

theorem releasedCellOf_spec (h : releasedCellOf name w = .ok cell w') :
    w.Resolves [name] 0 ∧ cell = w.cell name := by
  obtain ⟨slot, slots, released, rfl, rfl⟩ := releasedCellOf_eq_ok h
  obtain ⟨u, asked, rfl⟩ := Slots.release_spec released
  obtain ⟨resolves, given, -⟩ := cellOf_spec (cellOf_eq asked)
  exact ⟨resolves, given⟩

theorem exists_releasedCellOf {n : Nat} (resolves : w.Resolves [name] n) :
    ∃ cell w', releasedCellOf name w = .ok cell w' := by
  obtain ⟨single, meant⟩ := resolves.names name (List.mem_singleton_self name)
  obtain ⟨slot, slots, asked⟩ := Slots.exists_slotFor_of_or single meant
  have released : w.slots.release w.arena name = .ok (slot, slots.erase name) := by
    rw [Slots.release, asked]
    rfl
  exact ⟨_, _, releasedCellOf_eq released⟩

/-- A literal is laid down apart from the windows, so the free ones stay free. -/
theorem intern_spec (h : intern content w = .ok header w') :
    w.Resolves [] (content.length + 1) ∧ header = Header.of (.ofNat w.literals.next) content ∧
      w.Spends (content.length + 1) w' := by
  by_cases fits : w.literals.next + (content.length + 1) ≤ L.stop
  · have extended := extends_intern content w
    rw [endState_ok h] at extended
    rw [intern_of_le fits] at h
    cases h
    have := L.ordered
    have data : Arena.SameInside _ _ L.dataBase L.stackBase :=
      extended.sameBelow.inside (.inl (by omega))
    refine ⟨⟨by simp, fits⟩, rfl, fun name => ?_, rfl⟩
    exact congrArg (w.slots.lookup name).or (Slots.firstFree_sameInside data)
  · rw [intern_of_lt (Nat.lt_of_not_le fits)] at h
    cases h

end Compile

namespace Expr

variable {e : Expr} {w w' : Workspace L} {t : Located}

theorem spends_of_locate (h : e.locate w = .ok t w') : w.Spends e.literalSize w' := by
  induction e generalizing w w' t with
  | int n => cases h; exact .refl w
  | str content =>
    obtain ⟨header, w₁, laid, last⟩ := bind_eq_ok h
    cases last
    exact (Compile.intern_spec laid).2.2
  | var name =>
    obtain ⟨cell, w₁, given, last⟩ := bind_eq_ok h
    cases last
    exact (Compile.cellOf_spec given).2.2
  | arith op l r ihl ihr =>
    obtain ⟨right, w₁, first, rest⟩ := bind_eq_ok h
    obtain ⟨left, w₂, second, last⟩ := bind_eq_ok rest
    cases last
    have spent := (ihr first).trans (ihl second)
    rwa [Nat.add_comm] at spent
  | neg e ih =>
    obtain ⟨inner, w₁, first, last⟩ := bind_eq_ok h
    cases last
    exact ih first

/-- The code of an expression is the one foretold. -/
theorem code_of_locate (h : e.locate w = .ok t w') :
    t.code = e.postOrder w.cell w.literals.next := by
  induction e generalizing w w' t with
  | int n => cases h; rfl
  | str content =>
    obtain ⟨header, w₁, laid, last⟩ := bind_eq_ok h
    cases last
    obtain ⟨-, rfl, -⟩ := Compile.intern_spec laid
    rfl
  | var name =>
    obtain ⟨cell, w₁, given, last⟩ := bind_eq_ok h
    cases last
    obtain ⟨-, rfl, -⟩ := Compile.cellOf_spec given
    rfl
  | arith op l r ihl ihr =>
    obtain ⟨right, w₁, first, rest⟩ := bind_eq_ok h
    obtain ⟨left, w₂, second, last⟩ := bind_eq_ok rest
    cases last
    have spent := spends_of_locate first
    rw [Located.code, ihr first, ihl second, spent.cell, spent.next, postOrder]
  | neg e ih =>
    obtain ⟨inner, w₁, first, last⟩ := bind_eq_ok h
    cases last
    rw [Located.code, ih first, postOrder]
    rfl

/-- An expression that has got its places has found names and room. -/
theorem resolves_of_locate (h : e.locate w = .ok t w') : w.Resolves e.names e.literalSize := by
  induction e generalizing w w' t with
  | int n => exact ⟨by simp [names], w.literals.high⟩
  | str content =>
    obtain ⟨header, w₁, laid, -⟩ := bind_eq_ok h
    exact (Compile.intern_spec laid).1
  | var name =>
    obtain ⟨cell, w₁, given, -⟩ := bind_eq_ok h
    exact (Compile.cellOf_spec given).1
  | arith op l r ihl ihr =>
    obtain ⟨right, w₁, first, rest⟩ := bind_eq_ok h
    obtain ⟨left, w₂, second, -⟩ := bind_eq_ok rest
    have before := ((spends_of_locate first).resolves_iff l.names).1 (ihl second)
    refine ⟨fun name member => ?_, by rw [literalSize, Nat.add_comm l.literalSize]; exact before.literals⟩
    rcases List.mem_append.1 member with inLeft | inRight
    · exact before.names name inLeft
    · exact (ihr first).names name inRight
  | neg e ih =>
    obtain ⟨inner, w₁, first, -⟩ := bind_eq_ok h
    exact ih first

/-- An expression gets its places where there are names and room for it. -/
theorem exists_locate (resolves : w.Resolves e.names e.literalSize) :
    ∃ t w', e.locate w = .ok t w' := by
  induction e generalizing w with
  | int n => exact ⟨_, _, rfl⟩
  | str content => exact ⟨_, _, bind_ok (Compile.intern_of_le resolves.literals)⟩
  | var name =>
    obtain ⟨cell, w', given⟩ := Compile.exists_cellOf resolves
    exact ⟨_, _, bind_ok given⟩
  | arith op l r ihl ihr =>
    have room := resolves.literals
    rw [literalSize] at room
    obtain ⟨right, w₁, first⟩ := ihr (w := w)
      ⟨fun name member => resolves.names name (List.mem_append_right _ member), by omega⟩
    have later : w₁.Resolves l.names l.literalSize := by
      rw [(spends_of_locate first).resolves_iff]
      exact ⟨fun name member => resolves.names name (List.mem_append_left _ member), by omega⟩
    obtain ⟨left, w₂, second⟩ := ihl later
    exact ⟨_, _, (bind_ok first).trans (bind_ok second)⟩
  | neg e ih =>
    obtain ⟨inner, w₁, first⟩ := ih resolves
    exact ⟨_, _, bind_ok first⟩

end Expr

/-- The work of a statement does not enter or leave the scratch stack and does not return. -/
theorem Task.ne_of_mem_code {task : Task} {i : Instr} (member : i ∈ task.code) :
    i ≠ .enter ∧ i ≠ .leave ∧ i ≠ .ret := by
  cases task with
  | assign value cell =>
    rcases List.mem_append.1 member with inValue | last
    · rcases Located.mem_code inValue with ⟨w, rfl⟩ | ⟨c, -, rfl⟩ | ⟨op, rfl⟩ <;> simp
    · rw [List.mem_singleton.1 last]
      simp
  | print cell | release cell | printLog =>
    rw [List.mem_singleton.1 member]
    simp

namespace Statement

variable {s : Statement} {w w' : Workspace L} {task : Task}

/-- The code of a statement is the one foretold. -/
theorem code_of_locate (h : s.locate w = .ok task w') : task.code = s.work w.cell w.literals.next := by
  cases s with
  | assign target e =>
    obtain ⟨value, w₁, first, rest⟩ := bind_eq_ok h
    obtain ⟨cell, w₂, given, last⟩ := bind_eq_ok rest
    cases last
    obtain ⟨-, rfl, -⟩ := Compile.cellOf_spec given
    rw [Task.code, Expr.code_of_locate first, (Expr.spends_of_locate first).cell, work]
  | print name =>
    obtain ⟨cell, w₁, given, last⟩ := bind_eq_ok h
    cases last
    obtain ⟨-, rfl, -⟩ := Compile.cellOf_spec given
    rfl
  | delete name =>
    obtain ⟨cell, w₁, given, last⟩ := bind_eq_ok h
    cases last
    obtain ⟨-, rfl⟩ := Compile.releasedCellOf_spec given
    rfl
  | printLog => cases h; rfl

/-- A statement that has got its places has found names and room. -/
theorem resolves_of_locate (h : s.locate w = .ok task w') : w.Resolves s.names s.literalSize := by
  cases s with
  | assign target e =>
    obtain ⟨value, w₁, first, rest⟩ := bind_eq_ok h
    obtain ⟨cell, w₂, given, -⟩ := bind_eq_ok rest
    have own := ((Expr.spends_of_locate first).resolves_iff [target]).1 (Compile.cellOf_spec given).1
    refine ⟨fun name member => ?_, own.literals⟩
    rcases List.mem_cons.1 member with rfl | read
    · exact own.names name (List.mem_singleton_self name)
    · exact (Expr.resolves_of_locate first).names name read
  | print name =>
    obtain ⟨cell, w₁, given, -⟩ := bind_eq_ok h
    exact (Compile.cellOf_spec given).1
  | delete name =>
    obtain ⟨cell, w₁, given, -⟩ := bind_eq_ok h
    exact (Compile.releasedCellOf_spec given).1
  | printLog => exact ⟨by simp [names], w.literals.high⟩

/-- A statement gets its places where there are names and room for it. -/
theorem exists_locate (resolves : w.Resolves s.names s.literalSize) :
    ∃ task w', s.locate w = .ok task w' := by
  cases s with
  | assign target e =>
    obtain ⟨value, w₁, first⟩ := Expr.exists_locate (e := e) (w := w)
      ⟨fun name member => resolves.names name (List.mem_cons_of_mem _ member), resolves.literals⟩
    have own : w₁.Resolves [target] 0 := by
      rw [(Expr.spends_of_locate first).resolves_iff]
      refine ⟨?_, resolves.literals⟩
      rw [List.forall_mem_singleton]
      exact resolves.names target List.mem_cons_self
    obtain ⟨cell, w₂, given⟩ := Compile.exists_cellOf own
    exact ⟨_, _, (bind_ok first).trans (bind_ok given)⟩
  | print name =>
    obtain ⟨cell, w', given⟩ := Compile.exists_cellOf resolves
    exact ⟨_, _, bind_ok given⟩
  | delete name =>
    obtain ⟨cell, w', given⟩ := Compile.exists_releasedCellOf resolves
    exact ⟨_, _, bind_ok given⟩
  | printLog => exact ⟨_, _, rfl⟩

/-- Names and literals are all that a statement can lack to get its places. -/
theorem exists_locate_iff :
    (∃ task w', s.locate w = .ok task w') ↔ w.Resolves s.names s.literalSize :=
  ⟨fun ⟨_, _, h⟩ => resolves_of_locate h, exists_locate⟩

end Statement
end Osl
