import Osl.Proofs.Expr.Evaluation

/-!
# Integer expressions

An expression without strings stands for a word once its variables do (`Expr.HasWord`). Wherever their
cells hold these words its code needs no new places, leaves its word and no more, and takes up as much
stack as its shape tells (`Expr.HasWord.locate`).
-/

namespace Osl
set_option autoImplicit false

variable {L : Layout} {look : String → Word → Prop}

/-- The number of bytes of scratch stack that an expression needs. -/
def Expr.stackNeed : Expr → Nat
  | .int _ | .var _ => 16
  | .str _ => 32
  | .arith _ l r => max r.stackNeed (16 + l.stackNeed)
  | .neg e => max e.stackNeed 32

/-- The expression stands for a word, with every variable for one that `look` allows. -/
inductive Expr.HasWord (look : String → Word → Prop) : Expr → Word → Prop
  | int (n : Word) : HasWord look (.int n) n
  | var {name : String} {n : Word} : look name n → HasWord look (.var name) n
  | arith {op : Arith} {l r : Expr} {m n : Word} :
      HasWord look l m → HasWord look r n → HasWord look (.arith op l r) (op.apply m n)
  | neg {e : Expr} {n : Word} : HasWord look e n → HasWord look (.neg e) (0 - n)

/-- The code of a variable whose cell holds an integer. -/
theorem Located.words_var {b : Arena L} {slot : Nat} {v : Word} (isSlot : L.IsSlot slot)
    (cell : b.Holds (L.dataBase + slot) [v, 0]) :
    (var (L.cell slot)).words b = [v, 0] ∧ (var (L.cell slot)).Readable b := by
  have place := isSlot.toNat_cell
  have fits := isSlot.fits
  have := L.ordered
  have := L.stackBase_eq
  constructor
  · simp only [words, Arena.cellWords, place, cell.2.1, if_true, Arena.words, cell.1]
  · intro cell' member
    rw [List.mem_singleton.1 member, place]
    exact ⟨by omega, by omega, fun tagged => absurd cell.2.1 tagged⟩

/-- If the variables are bound, no new places are needed. Wherever their cells hold their words, the
code leaves the word of the expression. -/
theorem Expr.HasWord.locate {e : Expr} {n : Word} {w : Workspace L} (integer : e.HasWord look n)
    (bound : ∀ name v, look name v → name.utf8ByteSize = 1 ∧
      ∃ slot, w.slots.lookup name = some slot ∧ L.IsSlot slot) :
    ∃ t, e.locate w = .ok t w ∧ ∀ b : Arena L,
      (∀ name v slot, look name v → w.slots.lookup name = some slot →
        b.Holds (L.dataBase + slot) [v, 0]) →
      t.words b = [n, 0] ∧ 8 * t.peak b = e.stackNeed ∧ t.Readable b := by
  induction integer with
  | int n =>
    refine ⟨.int n, rfl, fun b _ => ⟨rfl, rfl, ?_⟩⟩
    intro cell member
    cases member
  | @var name n here =>
    obtain ⟨single, slot, found, isSlot⟩ := bound name n here
    refine ⟨.var (L.cell slot), Expr.locate_var single found, fun b cells => ?_⟩
    obtain ⟨words, readable⟩ := Located.words_var isSlot (cells name n slot here found)
    refine ⟨words, ?_, readable⟩
    rw [Located.peak, ← Located.words, words]
    rfl
  | @arith op l r m n _ _ ihl ihr =>
    obtain ⟨tl, located, evaluates⟩ := ihl
    obtain ⟨tr, located', evaluates'⟩ := ihr
    refine ⟨.arith op tl tr, ?_, fun b cells => ?_⟩
    · rw [Expr.locate, bind_ok located', bind_ok located]
      rfl
    · obtain ⟨words, need, readable⟩ := evaluates b cells
      obtain ⟨words', need', readable'⟩ := evaluates' b cells
      refine ⟨?_, ?_, ?_⟩
      · rw [Located.words, words, words']
        rfl
      · rw [Located.peak, words', Expr.stackNeed, ← need, ← need']
        simp only [List.length_cons, List.length_nil]
        omega
      · intro cell member
        rcases List.mem_append.1 member with inLeft | inRight
        · exact readable cell inLeft
        · exact readable' cell inRight
  | @neg e n _ ih =>
    obtain ⟨t, located, evaluates⟩ := ih
    refine ⟨.neg t, ?_, fun b cells => ?_⟩
    · rw [Expr.locate, bind_ok located]
      rfl
    · obtain ⟨words, need, readable⟩ := evaluates b cells
      refine ⟨by rw [Located.words, words], ?_, readable⟩
      rw [Located.peak, words, Expr.stackNeed, ← need]
      simp only [List.length_cons, List.length_nil]
      omega

end Osl
