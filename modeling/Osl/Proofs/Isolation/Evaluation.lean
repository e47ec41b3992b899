import Osl.Proofs.Expr.Integer
import Osl.Proofs.Isolation.Tidy

/-!
# Expressions over tidy cells

In a tidy executor an expression of assigned names needs no new slots, and its code leaves its value:
for an integer two words, for a string the four of a header that has the length of the string. Only a
string literal may fail to be placed.
-/

namespace Osl
set_option autoImplicit false

variable {L : Layout} {σ : Type} {names : List String} {x : Executor L σ} {e : Expr} {n : Word}
  {content : List Byte} {b : Arena L} {slot : Nat}

/-- The words that a value has on the scratch stack. Of a string only the length is told. -/
inductive Value.Words : Value → List Word → Prop
  | integer (n : Word) : Words (.integer n) [n, 0]
  | string (content : List Byte) (address front back : Word) :
      Words (.string content) [address, .ofNat content.length, front, back]

/-- An expression whose value is an integer stands for it. -/
theorem Expr.hasWord_of_value? {look : String → Option Value} {p : String → Prop}
    (known : ∀ name ∈ e.names, p name) (value : e.value? look = some (.integer n)) :
    e.HasWord (fun name n => p name ∧ look name = some (.integer n)) n := by
  induction e generalizing n with
  | int m =>
    cases value
    exact .int m
  | str content => cases value
  | var name => exact .var ⟨known name (List.mem_singleton_self name), value⟩
  | arith op l r ihl ihr =>
    obtain ⟨m, k, left, right, made⟩ := value?_arith value
    cases made
    exact .arith (ihl (fun name member => known name (List.mem_append_left _ member)) left)
      (ihr (fun name member => known name (List.mem_append_right _ member)) right)
  | neg e ih =>
    obtain ⟨k, inner, made⟩ := value?_neg value
    cases made
    exact .neg (ih known inner)

namespace Executor.Tidy

/-- What the cell of an assigned name holds and what its value is. -/
theorem value_cases (tidy : x.Tidy names) {name : String} (assigned : name ∈ names) :
    ∃ slot, name.utf8ByteSize = 1 ∧ x.slotOf name = some slot ∧ L.IsSlot slot ∧
      ((x.arena.IntegerAt slot ∧
          x.valueOf name = some (.integer (x.arena.wordAt (L.dataBase + slot)))) ∨
        x.arena.StringAt slot ∧ ∃ content, x.valueOf name = some (.string content) ∧
          content.length = (x.arena.wordAt (L.dataBase + slot + 8)).toNat) := by
  obtain ⟨slot, bound, held⟩ := tidy.value name assigned
  obtain ⟨single, isSlot⟩ := tidy.order.slots.placed name slot bound
  refine ⟨slot, single, bound, isSlot, ?_⟩
  rw [Executor.valueOf_eq bound, Value.read_eq x.arena isSlot]
  rcases held with integer | string
  · refine .inl ⟨integer, ?_⟩
    rw [if_pos integer.tag]
    rfl
  · have := L.ordered
    have := L.stackBase_eq
    have fits := string.fits
    have short := string.short
    have within : L.Within (x.arena.wordAt (L.dataBase + slot)).toNat
        (x.arena.wordAt (L.dataBase + slot + 8)).toNat := by
      unfold inlineCapacity at short
      rw [string.address]
      unfold Layout.Within
      omega
    rw [if_neg string.tag, Arena.slice_eq_ite, if_pos within]
    exact .inr ⟨string, _, rfl, x.arena.length_bytes _ _⟩

/-- An expression that is an integer needs no places, and its code leaves the integer. -/
theorem locate_integer {w : Workspace L} (tidy : x.Tidy names) (slots : w.slots = x.slots)
    (known : ∀ name ∈ e.names, name ∈ names) (value : e.value? x.valueOf = some (.integer n)) :
    ∃ t, e.locate w = .ok t w ∧ ∀ b : Arena L, x.arena.SameInside b L.dataBase L.stackBase →
      t.words b = [n, 0] ∧ t.Readable b := by
  have := L.stackBase_eq
  have lookup (name : String) : w.slots.lookup name = x.slotOf name := by rw [slots, slotOf]
  have integer := Expr.hasWord_of_value? known value
  have bound : ∀ name m, name ∈ names ∧ x.valueOf name = some (.integer m) →
      name.utf8ByteSize = 1 ∧ ∃ slot, w.slots.lookup name = some slot ∧ L.IsSlot slot := by
    rintro name m ⟨assigned, -⟩
    obtain ⟨slot, single, bound, isSlot, -⟩ := tidy.value_cases assigned
    exact ⟨single, slot, by rw [lookup, bound], isSlot⟩
  obtain ⟨t, located, evaluates⟩ := integer.locate bound
  refine ⟨t, located, fun b same => ?_⟩
  have cells : ∀ name m slot, name ∈ names ∧ x.valueOf name = some (.integer m) →
      w.slots.lookup name = some slot → b.Holds (L.dataBase + slot) [m, 0] := by
    rintro name m slot ⟨assigned, isInteger⟩ found
    obtain ⟨slot', -, bound', isSlot, held⟩ := tidy.value_cases assigned
    rw [lookup, bound'] at found
    cases found
    have fits := isSlot.fits
    rcases held with ⟨cell, isInteger'⟩ | ⟨-, content, isString, -⟩
    · rw [isInteger', Option.some.injEq, Value.integer.injEq] at isInteger
      subst isInteger
      have window : x.arena.SameInside b (L.dataBase + slot) (L.dataBase + slot + 16) :=
        same.mono (by omega) (by omega)
      obtain ⟨first, second⟩ := window.head (Nat.le_refl _)
      exact ⟨first, by rw [second, cell.tag], trivial⟩
    · rw [isString] at isInteger
      cases isInteger
  obtain ⟨words, -, readable⟩ := evaluates b cells
  exact ⟨words, readable⟩

/-- The header of a string in its own cell. -/
theorem words_string (string : x.arena.StringAt slot) (isSlot : L.IsSlot slot)
    (same : x.arena.SameInside b L.dataBase L.stackBase) :
    (Located.var (L.cell slot)).Readable b ∧
      ∃ address front back, (Located.var (L.cell slot)).words b =
        [address, x.arena.wordAt (L.dataBase + slot + 8), front, back] := by
  have place := isSlot.toNat_cell
  have fits := string.fits
  have := L.ordered
  have := L.stackBase_eq
  have second : b.wordAt (L.dataBase + slot + 8) = x.arena.wordAt (L.dataBase + slot + 8) :=
    same.wordAt (by omega) (by omega)
  constructor
  · intro cell member
    rw [List.mem_singleton.1 member, place]
    exact ⟨by omega, by omega, fun _ => by omega⟩
  · simp only [Located.words, Arena.cellWords, place, second, if_neg string.tag, Arena.words]
    exact ⟨_, _, _, rfl⟩

/-- An expression that is a string needs no slots, though a literal may find no room; its code leaves
a header with the length of the string. -/
theorem locate_string {w : Workspace L} (tidy : x.Tidy names) (slots : w.slots = x.slots)
    (known : ∀ name ∈ e.names, name ∈ names) (value : e.value? x.valueOf = some (.string content)) :
    (∃ f, e.locate w = .error f w) ∨
      ∃ t w', e.locate w = .ok t w' ∧ w'.slots = w.slots ∧
        ∀ b : Arena L, x.arena.SameInside b L.dataBase L.stackBase →
          (Value.string content).Words (t.words b) ∧ t.Readable b := by
  cases e with
  | int m => cases value
  | str literal =>
    cases value
    by_cases fits : w.literals.next + (content.length + 1) ≤ L.stop
    · have laid := Compile.intern_of_le fits
      have located : (Expr.str content).locate w =
          .ok (.str (Header.of (.ofNat w.literals.next) content)) _ := bind_ok laid
      refine .inr ⟨_, _, located, rfl, fun b _ => ⟨?_, ?_⟩⟩
      · exact .string content _ _ _
      · intro cell member
        cases member
    · have failed := Compile.intern_of_lt (Nat.lt_of_not_le fits)
      exact .inl ⟨_, bind_error failed⟩
  | var name =>
    obtain ⟨slot, single, bound, isSlot, held⟩ :=
      tidy.value_cases (known name (List.mem_singleton_self name))
    rw [Expr.value?] at value
    rcases held with ⟨-, isInteger⟩ | ⟨string, content', isString, length⟩
    · rw [isInteger] at value
      cases value
    · rw [isString] at value
      cases value
      rw [slotOf, ← slots] at bound
      refine .inr ⟨_, w, Expr.locate_var single bound, rfl, fun b same => ?_⟩
      obtain ⟨readable, address, front, back, words⟩ := words_string string isSlot same
      have whole : UInt64.ofNat content.length = x.arena.wordAt (L.dataBase + slot + 8) := by
        rw [length, UInt64.ofNat_toNat]
      rw [words, ← whole]
      exact ⟨.string content _ _ _, readable⟩
  | arith op l r =>
    obtain ⟨m, k, -, -, made⟩ := Expr.value?_arith value
    cases made
  | neg e =>
    obtain ⟨k, -, made⟩ := Expr.value?_neg value
    cases made

/-- An expression of assigned names needs no slots, and its code leaves the words of its value. -/
theorem locate {w : Workspace L} {v : Value} (tidy : x.Tidy names) (slots : w.slots = x.slots)
    (known : ∀ name ∈ e.names, name ∈ names) (value : e.value? x.valueOf = some v) :
    (∃ f, e.locate w = .error f w) ∨
      ∃ t w', e.locate w = .ok t w' ∧ w'.slots = w.slots ∧
        ∀ b : Arena L, x.arena.SameInside b L.dataBase L.stackBase →
          v.Words (t.words b) ∧ t.Readable b := by
  cases v with
  | integer n =>
    obtain ⟨t, located, evaluates⟩ := tidy.locate_integer slots known value
    refine .inr ⟨t, w, located, rfl, fun b same => ?_⟩
    obtain ⟨words, readable⟩ := evaluates b same
    rw [words]
    exact ⟨.integer n, readable⟩
  | string content => exact tidy.locate_string slots known value

end Executor.Tidy
end Osl
