import Osl.Proofs.Compile.Workspace
import Osl.Proofs.Machine.Code
import Osl.Proofs.Machine.Operands

/-!
# Expressions with places

Compiling an expression does two things: it gives its literals and variables their places, and it
writes code. `Expr.locate` does the first, and `Located.code` is then a plain function
(`Expr.code_eq`). On a located expression it can be said which words its code leaves on the stack
(`Located.words`) and how many it holds there at most on the way (`Located.peak`).
-/

namespace Osl
set_option autoImplicit false

variable {L : Layout}

/-- An expression whose string literals and variables have got their places. -/
inductive Located
  | int (n : Word)
  | str (h : Header)
  | var (cell : Word)
  | arith (op : Arith) (l r : Located)
  | neg (e : Located)
  deriving DecidableEq

open Compile in
/-- Gives the literals and variables of an expression their places, the right operand first. -/
def Expr.locate : Expr → Compile L Located
  | .int n => return .int n
  | .str content => return .str (← intern content)
  | .var name => return .var (← cellOf name)
  | .arith op l r => do
    let right ← r.locate
    let left ← l.locate
    return .arith op left right
  | .neg e => return .neg (← e.locate)

namespace Located

/-- The code of a located expression. -/
def code : Located → List Instr
  | .int n => Compile.pushInt n
  | .str h => Compile.pushHeader h
  | .var cell => [.load cell]
  | .arith op l r => r.code ++ (l.code ++ [.arith op])
  | .neg e => e.code ++ (Compile.pushInt 0 ++ [.arith .sub])

/-- The words of the value of a located expression, the topmost first. -/
def words (a : Arena L) : Located → List Word
  | .int n => [n, 0]
  | .str h => h.words
  | .var cell => a.cellWords cell
  | .arith op l r => op.combine (l.words a ++ r.words a)
  | .neg e =>
    match e.words a with
    | w :: ws => (0 - w) :: ws
    | [] => []

/-- The greatest number of words that the code of a located expression holds on the stack. -/
def peak (a : Arena L) : Located → Nat
  | .int _ => 2
  | .str _ => 4
  | .var cell => (a.cellWords cell).length
  | .arith _ l r => max (r.peak a) ((r.words a).length + l.peak a)
  | .neg e => max (e.peak a) ((e.words a).length + 2)

/-- The cells that a located expression reads. -/
def cells : Located → List Word
  | .int _ | .str _ => []
  | .var cell => [cell]
  | .arith _ l r => l.cells ++ r.cells
  | .neg e => e.cells

/-- The code of an expression pushes words, loads its cells and computes. -/
theorem mem_code {t : Located} {i : Instr} (member : i ∈ t.code) :
    (∃ w, i = .push w) ∨ (∃ cell ∈ t.cells, i = .load cell) ∨ ∃ op, i = .arith op := by
  have pushes (ws : List Word) (member : i ∈ ws.map Instr.push) : ∃ w, i = .push w := by
    obtain ⟨w, -, same⟩ := List.mem_map.1 member
    exact ⟨w, same.symm⟩
  induction t with
  | int n => exact .inl (pushes [0, n] member)
  | str h => exact .inl (pushes h.words.reverse member)
  | var cell => exact .inr (.inl ⟨cell, List.mem_singleton_self cell, List.mem_singleton.1 member⟩)
  | arith op l r ihl ihr =>
    rcases List.mem_append.1 member with inRight | later
    · refine (ihr inRight).imp_right (Or.imp_left ?_)
      rintro ⟨cell, read, same⟩
      exact ⟨cell, List.mem_append_right _ read, same⟩
    · rcases List.mem_append.1 later with inLeft | operator
      · refine (ihl inLeft).imp_right (Or.imp_left ?_)
        rintro ⟨cell, read, same⟩
        exact ⟨cell, List.mem_append_left _ read, same⟩
      · exact .inr (.inr ⟨op, List.mem_singleton.1 operator⟩)
  | neg e ih =>
    rcases List.mem_append.1 member with inner | later
    · exact ih inner
    · rcases List.mem_append.1 later with zero | operator
      · exact .inl (pushes [0, 0] zero)
      · exact .inr (.inr ⟨.sub, List.mem_singleton.1 operator⟩)

end Located

/-- Compiling an expression is giving it its places and writing its code. -/
theorem Expr.code_eq (e : Expr) : (e.code : Compile L (List Instr)) = Located.code <$> e.locate := by
  induction e with
  | int n | str content | var name => simp [Expr.code, locate, Located.code]
  | arith op l r ihl ihr => simp [Expr.code, locate, Located.code, ihl, ihr]
  | neg e ih => simp [Expr.code, locate, Located.code, ih]

theorem Expr.code_eq_ok {e : Expr} {w w' : Workspace L} {is : List Instr} (h : e.code w = .ok is w') :
    ∃ t, e.locate w = .ok t w' ∧ is = t.code := by
  rw [Expr.code_eq] at h
  change (e.locate.map _) w = _ at h
  cases located : e.locate w with
  | ok t w₁ => simp only [EStateM.map, located] at h; cases h; exact ⟨t, rfl, rfl⟩
  | error f w₁ => simp only [EStateM.map, located] at h; cases h

theorem Expr.code_eq_of_locate {e : Expr} {w w' : Workspace L} {t : Located}
    (h : e.locate w = .ok t w') : e.code w = .ok t.code w' := by
  rw [Expr.code_eq]
  change (e.locate.map _) w = _
  simp only [EStateM.map, h]

/-- The place of a variable that is bound. -/
theorem Expr.locate_var {w : Workspace L} {name : String} {slot : Nat}
    (single : name.utf8ByteSize = 1) (bound : w.slots.lookup name = some slot) :
    (Expr.var name).locate w = .ok (.var (L.cell slot)) w := by
  rw [Expr.locate, bind_ok (Compile.cellOf_of_lookup single bound)]
  rfl

/-- Giving an expression its places only adds to the workspace. -/
theorem Expr.extends_locate (e : Expr) : Always Workspace.Extends (e.locate : Compile L Located) := by
  induction e with
  | int n => exact Always.pure .refl _
  | str content =>
    exact Always.bind .trans (Compile.extends_intern content) fun _ => Always.pure .refl _
  | var name =>
    exact Always.bind .trans (Compile.extends_cellOf name) fun _ => Always.pure .refl _
  | arith op l r ihl ihr =>
    exact Always.bind .trans ihr fun _ => Always.bind .trans ihl fun _ => Always.pure .refl _
  | neg e ih => exact Always.bind .trans ih fun _ => Always.pure .refl _

theorem Expr.extends_of_locate {e : Expr} {w w' : Workspace L} {t : Located}
    (h : e.locate w = .ok t w') : w.Extends w' := by
  have always := e.extends_locate w
  rwa [endState_ok h] at always

/-- The cells of an expression are those of slots. -/
theorem Expr.cells_locate {e : Expr} {w w' : Workspace L} {t : Located} (h : e.locate w = .ok t w')
    (reach : Slots.Reachable L w.slots) :
    ∀ cell ∈ t.cells, L.IsCell cell := by
  induction e generalizing w w' t with
  | int n => cases h; simp [Located.cells]
  | str content =>
    obtain ⟨header, w₁, -, rest⟩ := bind_eq_ok h
    cases rest
    simp [Located.cells]
  | var name =>
    obtain ⟨cell, w₁, given, rest⟩ := bind_eq_ok h
    cases rest
    obtain ⟨slot, slots, asked, rfl, -⟩ := Compile.cellOf_eq_ok given
    simp only [Located.cells, List.mem_singleton, forall_eq]
    exact ⟨slot, reach.placed.isSlot asked, rfl⟩
  | arith op l r ihl ihr =>
    obtain ⟨right, w₁, first, h₁⟩ := bind_eq_ok h
    obtain ⟨left, w₂, second, rest⟩ := bind_eq_ok h₁
    cases rest
    intro cell member
    rcases List.mem_append.1 member with inLeft | inRight
    · exact ihl second ((extends_of_locate first).reachable reach) cell inLeft
    · exact ihr first reach cell inRight
  | neg e ih =>
    obtain ⟨inner, w₁, first, rest⟩ := bind_eq_ok h
    cases rest
    have cells := ih first reach
    exact cells

end Osl
