import Osl.Proofs.Expr.Located
import Osl.Proofs.Machine.Fragment

/-!
# What the code of an expression does

The code of an expression pushes the words of its value, strings and all, and it overflows the
scratch stack exactly when the room is less than its peak (`Located.evaluates_code`).
-/

namespace Osl
set_option autoImplicit false

variable {L : Layout}

namespace Located

variable {a b : Arena L} {t l r : Located} {op : Arith}

/-- The words of every cell that is read lie below the scratch stack. -/
def Readable (a : Arena L) (t : Located) : Prop :=
  ∀ cell ∈ t.cells, L.base ≤ cell.toNat ∧ cell.toNat + 16 ≤ L.stackBase ∧
    (a.wordAt (cell.toNat + 8) ≠ 0 → cell.toNat + 32 ≤ L.stackBase)

theorem Readable.left (h : (arith op l r).Readable a) : l.Readable a :=
  fun cell member => h cell (List.mem_append_left _ member)

theorem Readable.right (h : (arith op l r).Readable a) : r.Readable a :=
  fun cell member => h cell (List.mem_append_right _ member)

/-- Every value has two words at least. -/
theorem two_le_length_words (a : Arena L) (t : Located) : 2 ≤ (t.words a).length := by
  induction t with
  | int n => exact Nat.le_refl 2
  | str h => exact Nat.le_add_left 2 2
  | var cell =>
    rw [words, Arena.cellWords, Arena.length_words]
    split <;> omega
  | arith op l r ihl ihr =>
    have both : ((l.words a) ++ (r.words a)).length = (l.words a).length + (r.words a).length :=
      List.length_append
    have combined := op.length_combine (l.words a ++ r.words a) (by omega)
    rw [words]
    omega
  | neg e ih =>
    rw [words]
    split
    · rename_i w ws same
      rwa [same] at ih
    · rename_i same
      rwa [same] at ih

/-- The words of a negation are what subtraction makes of zero and the words of the operand. -/
theorem words_neg (a : Arena L) (e : Located) :
    (neg e).words a = Arith.sub.combine ([0, 0] ++ e.words a) := by
  have two := two_le_length_words a e
  rw [words]
  split
  · rename_i w ws same
    rw [same]
    rfl
  · rename_i same
    rw [same] at two
    cases two

theorem cellWords_sameOutside {lo hi : Nat} {cell : Word} (same : a.SameOutside b lo hi)
    (apart : cell.toNat + 16 ≤ lo)
    (string : a.wordAt (cell.toNat + 8) ≠ 0 → cell.toNat + 32 ≤ lo) :
    b.cellWords cell = a.cellWords cell := by
  have second : b.wordAt (cell.toNat + 8) = a.wordAt (cell.toNat + 8) := same.wordAt (by omega)
  unfold Arena.cellWords
  rw [second]
  split
  · exact same.words (by omega)
  · rename_i tagged
    have := string tagged
    exact same.words (by omega)

/-- Work on the scratch stack changes nothing that an expression reads. -/
theorem words_sameOutside {lo hi : Nat} (same : a.SameOutside b lo hi) (low : L.stackBase ≤ lo)
    (readable : t.Readable a) : t.words b = t.words a ∧ t.peak b = t.peak a := by
  induction t with
  | int n | str h => exact ⟨rfl, rfl⟩
  | var cell =>
    have place := readable cell (List.mem_singleton_self cell)
    have cells : b.cellWords cell = a.cellWords cell :=
      cellWords_sameOutside same (by omega) fun tagged => Nat.le_trans (place.2.2 tagged) low
    exact ⟨cells, congrArg List.length cells⟩
  | arith op l r ihl ihr =>
    have left := ihl readable.left
    have right := ihr readable.right
    simp only [words, peak, left, right, and_self]
  | neg e ih =>
    have inner := ih readable
    simp only [words, peak, inner, and_self]

theorem Readable.sameOutside {lo hi : Nat} (readable : t.Readable a) (same : a.SameOutside b lo hi)
    (low : L.stackBase ≤ lo) : t.Readable b := by
  intro cell member
  have place := readable cell member
  have second : b.wordAt (cell.toNat + 8) = a.wordAt (cell.toNat + 8) := same.wordAt (by omega)
  rw [second]
  exact place

open Machine

variable {σ : Type} [Sink σ] {log : Log} {m : Machine L σ}

/-- The code of an expression evaluates to its words. -/
theorem evaluates_code (t : Located) (log : Log) (order : L.StackPointer m.sp)
    (code : CodeAt m.arena m.ip.toNat t.code) (readable : t.Readable m.arena) :
    Evaluates log t.code m (t.words m.arena) (t.peak m.arena) := by
  induction t generalizing m with
  | int n => exact evaluates_pushes [n, 0] order code
  | str h => exact evaluates_pushes h.words order code
  | var cell =>
    have place := readable cell (List.mem_singleton_self cell)
    exact evaluates_load order code place.1 place.2.1 place.2.2
  | arith op l r ihl ihr =>
    rw [Located.code, ← List.append_assoc] at code ⊢
    have left := two_le_length_words m.arena l
    have right := two_le_length_words m.arena r
    have operands : Evaluates log (r.code ++ l.code) m (l.words m.arena ++ r.words m.arena)
        ((arith op l r).peak m.arena) := by
      refine (ihr order code.left.left readable.right).append fun m₁ first => ?_
      -- the right operand was left on the stack, so the left one still reads the same cells
      have same := first.same order
      have reads := words_sameOutside same (Nat.le_refl _) readable.left
      have next := ihl (first.stackPointer order) (first.codeAt order code.left)
        (readable.left.sameOutside same (Nat.le_refl _))
      rwa [reads.1, reads.2] at next
    exact operands.arith op order code (by rw [List.length_append]; omega)
  | neg e ih =>
    rw [Located.code, ← List.append_assoc] at code ⊢
    have two := two_le_length_words m.arena e
    have operands : Evaluates log (e.code ++ Compile.pushInt 0) m ([0, 0] ++ e.words m.arena)
        ((neg e).peak m.arena) := by
      refine (ih order code.left.left readable).append fun m₁ first => ?_
      exact evaluates_pushes [0, 0] (first.stackPointer order) (first.codeAt order code.left)
    rw [words_neg]
    exact operands.arith .sub order code (by rw [List.length_append, List.length_cons]; omega)

end Located

end Osl
