import Osl.Proofs.Isolation.Evaluation
import Osl.Proofs.Values.Store
import Osl.Proofs.Values.Stored

/-!
# Expressions over a stored ledger

Over a ledger that is stored, an expression with a value needs no new slots, and its literals take up as
much room as its shape tells. Its code leaves the words of its value, and they spell it
(`Stored.locate`).
-/

namespace Osl
set_option autoImplicit false

variable {L : Layout} {g next slot : Nat} {r : Ledger} {t : Slots} {a b : Arena L} {e : Expr}
  {v : Value} {content : List Byte} {n : Word} {name : String} {w : Workspace L}

/-- What the code of a located expression does where the arena is `b`: it leaves words that spell the
value, on as much stack as is needed. -/
structure Located.Yields (g next : Nat) (b : Arena L) (e : Expr) (t : Located) (v : Value) : Prop where
  spelt : v.Spelt g next b (t.words b)
  need : 8 * t.peak b = e.need v
  readable : t.Readable b

/-- A cell that a name is given holds its value, if it has one. -/
theorem Granted.holding {width : Nat} (granted : Granted L g r t a name width slot)
    (stored : Stored g r t next a) : a.Holding next slot width (r.value name) := by
  rcases granted.current with ⟨unset, vacant⟩ | ⟨old, cell, span⟩
  · rw [unset]
    exact .nothing vacant
  · rw [cell.value]
    exact .value (stored.carries name slot old cell) span

/-- An integer expression needs no places. -/
theorem Stored.locate_integer (stored : Stored g r w.slots next w.arena)
    (names : ∀ name ∈ e.names, name.utf8ByteSize = 1)
    (value : e.value? r.value = some (.integer n)) :
    ∃ t, e.locate w = .ok t w ∧ ∀ b : Arena L, w.arena.SameInside b L.dataBase L.stackBase →
      t.Yields g next b e (.integer n) := by
  have := L.stackBase_eq
  have integer := Expr.hasWord_of_value? names value
  have bound : ∀ name m, name.utf8ByteSize = 1 ∧ r.value name = some (.integer m) →
      name.utf8ByteSize = 1 ∧ ∃ slot, w.slots.lookup name = some slot ∧ L.IsSlot slot := by
    rintro name m ⟨single, value⟩
    obtain ⟨slot, cell⟩ := stored.hasCell_of_value value
    exact ⟨single, slot, cell.bound, stored.isSlot cell⟩
  obtain ⟨t, located, evaluates⟩ := integer.locate bound
  refine ⟨t, located, fun b same => ?_⟩
  have cells : ∀ name m slot, name.utf8ByteSize = 1 ∧ r.value name = some (.integer m) →
      w.slots.lookup name = some slot → b.Holds (L.dataBase + slot) [m, 0] := by
    rintro name m slot ⟨-, value⟩ found
    have cell : HasCell r w.slots name slot (.integer m) := ⟨found, value⟩
    obtain ⟨⟨first, second, -⟩, -⟩ := stored.carries name slot _ cell
    have inside : slot + 16 ≤ L.data := stored.inside cell
    exact ⟨(same.wordAt (by omega) (by omega)).trans first,
      (same.wordAt (by omega) (by omega)).trans second, trivial⟩
  obtain ⟨words, need, readable⟩ := evaluates b cells
  refine ⟨?_, need, readable⟩
  rw [words]
  exact .integer n

/-- The header of a literal that was laid down at `p` spells it. -/
theorem Header.spelt_of (g : Nat) {p : Nat} (pos : 0 < content.length) (low : L.literalBase ≤ p)
    (room : p + (content.length + 1) ≤ L.stop)
    (literals : (a.overlay p (content ++ [0])).SameInside b L.literalBase (p + (content.length + 1))) :
    SpeltString g (p + (content.length + 1)) b content (.ofNat p) (Header.of (.ofNat p) content).low
      (Header.of (.ofNat p) content).high := by
  have := L.ordered
  have := L.stop_lt
  have place : (UInt64.ofNat p).toNat = p := Word.toNat_ofNat_of_lt (by omega)
  have length : (content ++ [(0 : Byte)]).length = content.length + 1 := by simp
  have within : L.Within p (content ++ [(0 : Byte)]).length := by
    unfold Layout.Within
    omega
  have written := a.bytes_overlay within
  rw [length] at written
  refine ⟨pos, ?_, Header.take_of _, .inr ⟨?_, ?_⟩⟩
  · rw [place, literals.bytes low (by omega), ← Arena.take_bytes _ _ (Nat.le_succ content.length),
      written]
    exact List.take_left' rfl
  · rw [place]
    exact low
  · rw [place]
    omega

/-- A string literal is laid down behind the others. -/
theorem Expr.locate_str (g : Nat) (pos : 0 < content.length)
    (room : w.literals.next + (content.length + 1) ≤ L.stop) :
    ∃ t w', (Expr.str content).locate w = .ok t w' ∧ w'.slots = w.slots ∧
      w'.literals.next = w.literals.next + (content.length + 1) ∧
      w.arena.SameOutside w'.arena w.literals.next w'.literals.next ∧
      ∀ b : Arena L, w'.arena.SameInside b L.literalBase w'.literals.next →
        t.Yields g w'.literals.next b (.str content) (.string content) := by
  have laid := Compile.intern_of_le room
  have located : (Expr.str content).locate w =
      .ok (.str (Header.of (.ofNat w.literals.next) content)) _ := bind_ok laid
  have same := w.arena.sameOutside_overlay w.literals.next (content ++ [0])
  have length : (content ++ [(0 : Byte)]).length = content.length + 1 := by simp
  rw [length] at same
  refine ⟨_, _, located, rfl, rfl, same, fun b literals => ⟨.string ?_, rfl, ?_⟩⟩
  · exact Header.spelt_of g pos w.literals.low room literals
  · intro cell member
    cases member

/-- The words of a cell that carries a string spell it. -/
theorem Arena.CarriesString.yields (carries : b.CarriesString next slot content) (used : next ≤ L.stop)
    (whole : slot % g = 0) (name : String) :
    (Located.var (L.cell slot)).Yields g next b (.var name) (.string content) := by
  have := L.ordered
  have := L.stackBase_eq
  have inside := carries.fits
  have place : (L.cell slot).toNat = L.dataBase + slot := L.toNat_cell (by omega)
  have second := carries.second_ne used
  have cells : b.cellWords (L.cell slot) = [b.wordAt (L.dataBase + slot), .ofNat content.length,
      b.wordAt (L.dataBase + slot + 16), b.wordAt (L.dataBase + slot + 16 + 8)] := by
    rw [Arena.cellWords, place, if_neg second]
    simp only [Arena.words, carries.length]
  refine ⟨?_, ?_, ?_⟩
  · rw [Located.words, cells]
    refine .string ⟨carries.pos, carries.bytes, fun short => ?_, ?_⟩
    · have bytes := carries.bytes
      rcases carries.place with ⟨-, address⟩ | ⟨long, -⟩
      · rw [address, ← b.take_bytes _ short] at bytes
        rw [b.bytes_two]
        exact bytes
      · omega
    · rcases carries.place with ⟨short, address⟩ | ⟨-, low, high⟩
      · exact .inl ⟨slot, whole, inside, short, address⟩
      · exact .inr ⟨low, high⟩
  · rw [Located.peak, cells]
    rfl
  · intro cell member
    rw [List.mem_singleton.1 member, place]
    exact ⟨by omega, by omega, fun _ => by omega⟩

/-- An expression with a value needs no new slots, and its code leaves words that spell the value. -/
theorem Stored.locate (stored : Stored g r w.slots w.literals.next w.arena)
    (names : ∀ name ∈ e.names, name.utf8ByteSize = 1) (value : e.value? r.value = some v)
    (pos : ∀ content, e = .str content → 0 < content.length)
    (room : w.literals.next + e.literalSize ≤ L.stop) :
    ∃ t w', e.locate w = .ok t w' ∧ w'.slots = w.slots ∧
      w'.literals.next = w.literals.next + e.literalSize ∧
      w.arena.SameOutside w'.arena w.literals.next w'.literals.next ∧
      ∀ b : Arena L, w'.arena.SameValues b w'.literals.next → t.Yields g w'.literals.next b e v := by
  cases v with
  | integer n =>
    obtain ⟨t, located, yields⟩ := stored.locate_integer names value
    have none := Expr.literalSize_of_integer value
    exact ⟨t, w, located, rfl, by rw [none, Nat.add_zero], .refl _ _ _, fun b same => yields b same.data⟩
  | string content =>
    cases e with
    | int m => cases value
    | str literal =>
      cases value
      obtain ⟨t, w', located, slots, next, same, yields⟩ := Expr.locate_str g (pos content rfl) room
      exact ⟨t, w', located, slots, next, same, fun b same => yields b same.literals⟩
    | var name =>
      obtain ⟨slot, cell⟩ := stored.hasCell_of_value value
      have located := Expr.locate_var (names name (List.mem_singleton_self name)) cell.bound
      have := L.stackBase_eq
      have inside : slot + 32 ≤ L.data := stored.inside cell
      refine ⟨_, w, located, rfl, rfl, .refl _ _ _, fun b same => ?_⟩
      have carries : w.arena.CarriesString w.literals.next slot content := stored.carries name slot _ cell
      have carries' := carries.sameInside (Nat.le_refl _) (same.data.mono (by omega) (by omega))
        same.literals
      exact carries'.yields w.literals.high (stored.whole name slot _ cell).1 name
    | arith op l r =>
      obtain ⟨m, k, -, -, made⟩ := Expr.value?_arith value
      cases made
    | neg e =>
      obtain ⟨k, -, made⟩ := Expr.value?_neg value
      cases made

end Osl
