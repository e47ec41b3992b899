import Osl.Proofs.Arena.Initial
import Osl.Proofs.Expr.Evaluation
import Osl.Proofs.Statement.Shape

/-!
# The words of an expression

Which words the code of an expression leaves on the stack can be told from its syntax, once it is known
in which cells its variables lie and from where on its literals (`Expr.words`). When an expression is
compiled, the cells are those of the slots to which its names are bound then, and the literals lie one
behind another from the first free byte of the literal section on (`Expr.Compiled`). The code pushes
those words, or overflows the stack if there is less room than the peak of the expression
(`Expr.evaluates_of_code`).
-/

namespace Osl
set_option autoImplicit false

variable {L : Layout} {a b : Arena L} {next : Nat}

namespace Expr

/-- The words of the value of an expression, the topmost first. Arithmetic combines the words of both
operands, whatever they hold. The literals of the right operand come before those of the left one. -/
def words (cell : String → Word) (next : Nat) (a : Arena L) : Expr → List Word
  | .int n => [n, 0]
  | .str content => (Header.of (.ofNat next) content).words
  | .var name => a.cellWords (cell name)
  | .arith op l r => op.combine (l.words cell (next + r.literalSize) a ++ r.words cell next a)
  | .neg e =>
    match e.words cell next a with
    | w :: ws => (0 - w) :: ws
    | [] => []

/-- The greatest number of words that the code of an expression holds on the stack. -/
def peak (cell : String → Word) (next : Nat) (a : Arena L) : Expr → Nat
  | .int _ => 2
  | .str _ => 4
  | .var name => (a.cellWords (cell name)).length
  | .arith _ l r =>
    max (r.peak cell next a) ((r.words cell next a).length + l.peak cell (next + r.literalSize) a)
  | .neg e => max (e.peak cell next a) ((e.words cell next a).length + 2)

/-- The contents of the literals of an expression lie from `next` on, each with a zero byte behind it. -/
def LaidAt (a : Arena L) (next : Nat) : Expr → Prop
  | .int _ | .var _ => True
  | .str content => a.bytes next (content.length + 1) = content ++ [0]
  | .arith _ l r => r.LaidAt a next ∧ l.LaidAt a (next + r.literalSize)
  | .neg e => e.LaidAt a next

theorem LaidAt.sameInside {e : Expr} (laid : e.LaidAt a next)
    (same : a.SameInside b next (next + e.literalSize)) : e.LaidAt b next := by
  induction e generalizing next with
  | int n | var name => trivial
  | str content => exact (same.bytes (Nat.le_refl _) (Nat.le_refl _)).trans laid
  | arith op l r ihl ihr =>
    rw [literalSize] at same
    exact ⟨ihr laid.1 (same.mono (Nat.le_refl _) (by omega)),
      ihl laid.2 (same.mono (by omega) (by omega))⟩
  | neg e ih => exact ih laid same

/-- Compiling the expression has led from `w` to `w'` and given the code `is`. -/
structure Compiled (e : Expr) (w : Workspace L) (is : List Instr) (w' : Workspace L) : Prop where
  code : is = e.postOrder w.cell w.literals.next
  /-- Every name is bound now, and the cell that is read for it is that of its slot. -/
  bound : ∀ name ∈ e.names, ∃ slot, w'.slots.lookup name = some slot ∧ L.IsSlot slot ∧
    w.cell name = L.cell slot
  laid : e.LaidAt w'.arena w.literals.next
  next : w'.literals.next = w.literals.next + e.literalSize
  /-- No byte was written but those of the literals. -/
  same : w.arena.SameOutside w'.arena w.literals.next w'.literals.next

section Locate

variable {e : Expr} {w w' : Workspace L} {t : Located}

/-- An expression that has got its places has the words and the peak that its syntax tells. -/
theorem words_of_locate (located : e.locate w = .ok t w') (a : Arena L) :
    t.words a = e.words w.cell w.literals.next a ∧ t.peak a = e.peak w.cell w.literals.next a := by
  induction e generalizing w w' t with
  | int n => cases located; exact ⟨rfl, rfl⟩
  | str content =>
    obtain ⟨header, w₁, laid, last⟩ := bind_eq_ok located
    cases last
    obtain ⟨-, rfl, -⟩ := Compile.intern_spec laid
    exact ⟨rfl, rfl⟩
  | var name =>
    obtain ⟨cell, w₁, given, last⟩ := bind_eq_ok located
    cases last
    obtain ⟨-, rfl, -⟩ := Compile.cellOf_spec given
    exact ⟨rfl, rfl⟩
  | arith op l r ihl ihr =>
    obtain ⟨right, w₁, first, rest⟩ := bind_eq_ok located
    obtain ⟨left, w₂, second, last⟩ := bind_eq_ok rest
    cases last
    have spent := spends_of_locate first
    have reads := ihl second
    rw [spent.cell, spent.next] at reads
    constructor
    · rw [Located.words, words, (ihr first).1, reads.1]
    · rw [Located.peak, peak, (ihr first).1, (ihr first).2, reads.2]
  | neg e ih =>
    obtain ⟨inner, w₁, first, last⟩ := bind_eq_ok located
    cases last
    obtain ⟨sameWords, samePeak⟩ := ih first
    rw [Located.words, Located.peak, words, peak, sameWords, samePeak]
    exact ⟨rfl, rfl⟩

/-- It reads the cells of its names. -/
theorem cells_of_locate (located : e.locate w = .ok t w') : t.cells = e.names.map w.cell := by
  induction e generalizing w w' t with
  | int n => cases located; rfl
  | str content =>
    obtain ⟨header, w₁, -, last⟩ := bind_eq_ok located
    cases last
    rfl
  | var name =>
    obtain ⟨cell, w₁, given, last⟩ := bind_eq_ok located
    cases last
    obtain ⟨-, rfl, -⟩ := Compile.cellOf_spec given
    rfl
  | arith op l r ihl ihr =>
    obtain ⟨right, w₁, first, rest⟩ := bind_eq_ok located
    obtain ⟨left, w₂, second, last⟩ := bind_eq_ok rest
    cases last
    have cells := ihl second
    rw [(spends_of_locate first).cell] at cells
    rw [Located.cells, names, List.map_append, ihr first, cells]
  | neg e ih =>
    obtain ⟨inner, w₁, first, last⟩ := bind_eq_ok located
    cases last
    have cells : inner.cells = e.names.map w.cell := ih first
    exact cells

/-- Its names are bound. -/
theorem lookup_of_locate (located : e.locate w = .ok t w') :
    ∀ name ∈ e.names, ∃ slot, w'.slots.lookup name = some slot := by
  induction e generalizing w w' t with
  | int n => simp [names]
  | str content => simp [names]
  | var name =>
    obtain ⟨cell, w₁, given, last⟩ := bind_eq_ok located
    cases last
    obtain ⟨slot, slots, asked, -, rfl⟩ := Compile.cellOf_eq_ok given
    rw [names, List.forall_mem_singleton]
    exact ⟨slot, Slots.lookup_slotFor_self asked⟩
  | arith op l r ihl ihr =>
    obtain ⟨right, w₁, first, rest⟩ := bind_eq_ok located
    obtain ⟨left, w₂, second, last⟩ := bind_eq_ok rest
    cases last
    intro name member
    rcases List.mem_append.1 member with inLeft | inRight
    · exact ihl second name inLeft
    · obtain ⟨slot, bound⟩ := ihr first name inRight
      exact ⟨slot, (extends_of_locate second).kept name slot bound⟩
  | neg e ih =>
    obtain ⟨inner, w₁, first, last⟩ := bind_eq_ok located
    cases last
    exact ih first

/-- Its literals are laid down. -/
theorem laidAt_of_locate (located : e.locate w = .ok t w') : e.LaidAt w'.arena w.literals.next := by
  induction e generalizing w w' t with
  | int n | var name => trivial
  | str content =>
    obtain ⟨header, w₁, laid, last⟩ := bind_eq_ok located
    cases last
    have room : w.literals.next + (content.length + 1) ≤ L.stop :=
      (Compile.intern_spec laid).1.literals
    rw [Compile.intern_of_le room] at laid
    cases laid
    have := w.literals.low
    have := L.ordered
    have within : L.Within w.literals.next (content ++ [0]).length := by
      rw [List.length_append, List.length_singleton]
      unfold Layout.Within
      omega
    have written := w.arena.bytes_overlay within
    rwa [List.length_append, List.length_singleton] at written
  | arith op l r ihl ihr =>
    obtain ⟨right, w₁, first, rest⟩ := bind_eq_ok located
    obtain ⟨left, w₂, second, last⟩ := bind_eq_ok rest
    cases last
    have next := (spends_of_locate first).next
    have laid := ihl second
    rw [next] at laid
    -- the literals of the left operand lie behind those of the right one
    have kept : w₁.arena.SameInside w'.arena w.literals.next (w.literals.next + r.literalSize) :=
      (extends_of_locate second).same.inside (.inl (Nat.le_of_eq next.symm))
    exact ⟨(ihr first).sameInside kept, laid⟩
  | neg e ih =>
    obtain ⟨inner, w₁, first, last⟩ := bind_eq_ok located
    cases last
    exact ih first

theorem compiled_of_locate (reach : Slots.Reachable L w.slots) (located : e.locate w = .ok t w') :
    e.Compiled w t.code w' where
  code := code_of_locate located
  bound name member := by
    obtain ⟨slot, bound⟩ := lookup_of_locate located name member
    have meant : w.slot? name = some slot := by
      rw [← (spends_of_locate located).slot? name, Workspace.slot?, bound, Option.some_or]
    have reached := (extends_of_locate located).reachable reach
    exact ⟨slot, bound, (reached.placed name slot bound).2, by
      rw [Workspace.cell, meant, Option.getD_some]⟩
  laid := laidAt_of_locate located
  next := (spends_of_locate located).next
  same := (extends_of_locate located).same

end Locate

open Machine

/-- An expression compiles exactly if its names and literals find their places. Its code, wherever it
lies, then evaluates to the words that its syntax tells, over the cells of the slots of its names and the
literals laid down for it, provided the cells that hold strings lie in the data section. -/
theorem evaluates_of_code {e : Expr} {w : Workspace L} (reach : Slots.Reachable L w.slots) :
    ((∃ is w', e.code w = .ok is w') ↔ w.Resolves e.names e.literalSize) ∧
      ∀ is w', e.code w = .ok is w' → e.Compiled w is w' ∧
        ∀ {σ : Type} [Sink σ] (log : Log) (m : Machine L σ), CodeAt m.arena m.ip.toNat is →
          L.StackPointer m.sp →
          (∀ name ∈ e.names, m.arena.wordAt ((w.cell name).toNat + 8) ≠ 0 →
            (w.cell name).toNat + 32 ≤ L.dataEnd) →
          Evaluates log is m (e.words w.cell w.literals.next m.arena)
            (e.peak w.cell w.literals.next m.arena) := by
  refine ⟨⟨?_, ?_⟩, fun is w' compiled => ?_⟩
  · rintro ⟨is, w', compiled⟩
    obtain ⟨t, located, -⟩ := code_eq_ok compiled
    exact resolves_of_locate located
  · intro resolves
    obtain ⟨t, w', located⟩ := exists_locate resolves
    exact ⟨t.code, w', code_eq_of_locate located⟩
  · obtain ⟨t, located, rfl⟩ := code_eq_ok compiled
    refine ⟨compiled_of_locate reach located, fun log m code order strings => ?_⟩
    have reads := words_of_locate located m.arena
    rw [← reads.1, ← reads.2]
    refine t.evaluates_code log order code fun cell member => ?_
    have bounds := (cells_locate located reach cell member).bounds
    have := L.ordered
    rw [cells_of_locate located, List.mem_map] at member
    obtain ⟨name, read, rfl⟩ := member
    exact ⟨by omega, bounds.2, strings name read⟩

end Expr

/-- The workspace of the first statement. -/
def Workspace.start (L : Layout) : Workspace L := ⟨Arena.initial L, {}, Literals.empty L⟩

/-- `x + "ab"` -/
def Expr.stringSum : Expr := .arith .add (.var "x") (.str [97, 98])

/-- Its code where the cell of `x` is the first and the literal section is empty. -/
def sumCode : List Instr :=
  [.push 0, .push 0x6261, .push 2, .push 0x1000d0, .load 0x100020, .arith .add]

/-- A machine in front of that code, the cell of `x` holding the words of a string. -/
def Machine.beforeSum : Machine Layout.small Buffer where
  arena := ((Arena.initial _).overlay Layout.small.dataBase
    ([0x100090, 2, 3, 0].flatMap Word.bytes)).overlay Layout.small.codeBase (codeBytes sumCode)
  sink := {}
  sp := .ofNat Layout.small.stackTop

/-- A string plus a string: the address of the first is added to its own third word, and the fourth
word is left over on top of the second. The sum takes up the whole stack on the way. -/
theorem Expr.evaluates_string_sum : Slots.Reachable .small (Workspace.start .small).slots ∧
    ∃ w', stringSum.code (.start .small) = .ok sumCode w' ∧
      (∃ slot, w'.slots.lookup "x" = some slot ∧ Layout.small.cell slot = 0x100020) ∧
      w'.arena.bytes 0x1000d0 3 = [97, 98, 0] ∧
      Machine.Evaluates .missing sumCode .beforeSum [0x100093, 0, 0x1000d0, 2, 0x6261, 0] 8 := by
  have reach : Slots.Reachable .small (Workspace.start .small).slots := .empty
  obtain ⟨compiles, evaluates⟩ := evaluates_of_code (e := stringSum) reach
  have meant : (Workspace.start .small).slot? "x" = some 0 := by decide +kernel
  have cell : (Workspace.start .small).cell "x" = 0x100020 := by
    rw [Workspace.cell, meant]
    rfl
  have resolves : (Workspace.start .small).Resolves stringSum.names stringSum.literalSize := by
    refine ⟨?_, by decide⟩
    intro name member
    rw [List.mem_singleton.1 member, meant]
    exact ⟨by decide, rfl⟩
  obtain ⟨is, w', compiled⟩ := compiles.2 resolves
  obtain ⟨shape, evaluated⟩ := evaluates is w' compiled
  have code : is = sumCode := by
    rw [shape.code, stringSum, postOrder, postOrder, postOrder, cell]
    decide +kernel
  subst code
  obtain ⟨slot, bound, -, place⟩ := shape.bound "x" (List.mem_singleton_self _)
  refine ⟨reach, w', compiled, ⟨slot, bound, place.symm.trans cell⟩, shape.laid.1, ?_⟩
  have whole : ∀ name ∈ stringSum.names,
      Machine.beforeSum.arena.wordAt (((Workspace.start .small).cell name).toNat + 8) ≠ 0 →
        ((Workspace.start .small).cell name).toNat + 32 ≤ Layout.small.dataEnd := by
    intro name member _
    rw [List.mem_singleton.1 member, cell]
    decide
  have leaves := evaluated .missing Machine.beforeSum
    ⟨by decide +kernel, by decide +kernel, by decide +kernel⟩
    ⟨by decide +kernel, by decide +kernel, by decide +kernel⟩ whole
  have words : stringSum.words (Workspace.start .small).cell (Workspace.start .small).literals.next
      Machine.beforeSum.arena = [0x100093, 0, 0x1000d0, 2, 0x6261, 0] := by
    simp only [stringSum, Expr.words, cell]
    decide +kernel
  have peak : stringSum.peak (Workspace.start .small).cell (Workspace.start .small).literals.next
      Machine.beforeSum.arena = 8 := by
    simp only [stringSum, Expr.peak, Expr.words, cell]
    decide +kernel
  rwa [words, peak] at leaves

end Osl
