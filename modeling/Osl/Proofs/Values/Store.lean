import Osl.Proofs.Machine.Cells
import Osl.Proofs.Values.Cells
import Osl.Proofs.Values.Reference

/-!
# Storing a value

The words that spell a value on the scratch stack (`Value.Spelt`) are stored into a cell that is vacant or
carries a value of the same kind. Afterwards the cell carries what the assignment leaves of both
(`ran_store_value`): a longer string replaces the old one, in the cell or among the literals, and one that
is no longer goes over the beginning of the old one.
-/

namespace Osl
set_option autoImplicit false

variable {L : Layout} {g next slot : Nat} {a b : Arena L} {content : List Byte}
  {address front back : Word} {ws : List Word} {v : Value}

/-- Where the content of a string on the stack lies: in a cell whose slot is a whole number of blocks, or
among the literals. -/
def Source (L : Layout) (g next : Nat) (address : Word) (content : List Byte) : Prop :=
  (∃ slot, slot % g = 0 ∧ slot + 32 ≤ L.data ∧ content.length ≤ inlineCapacity ∧
      address.toNat = L.dataBase + slot + 16) ∨
    L.literalBase ≤ address.toNat ∧ address.toNat + content.length ≤ next

/-- Four words that are the header of a string: its content lies where they say, and a short one is
repeated in the last two. -/
structure SpeltString (g next : Nat) (a : Arena L) (content : List Byte) (address front back : Word) :
    Prop where
  pos : 0 < content.length
  bytes : a.bytes address.toNat content.length = content
  repeated : content.length ≤ inlineCapacity →
    (Word.bytes front ++ Word.bytes back).take content.length = content
  source : Source L g next address content

/-- The words of a value on the scratch stack. -/
inductive Value.Spelt (g next : Nat) (a : Arena L) : Value → List Word → Prop
  | integer (n : Word) : Spelt g next a (.integer n) [n, 0]
  | string {content : List Byte} {address front back : Word} :
      SpeltString g next a content address front back →
      Spelt g next a (.string content) [address, .ofNat content.length, front, back]

namespace SpeltString

variable (h : SpeltString g next a content address front back)

include h

theorem within (used : next ≤ L.stop) : L.Within address.toNat content.length := by
  have := L.ordered
  have := L.stackBase_eq
  unfold Layout.Within
  rcases h.source with ⟨slot, -, inside, short, place⟩ | ⟨low, high⟩
  · unfold inlineCapacity at short
    omega
  · omega

theorem toNat_length (used : next ≤ L.stop) :
    (UInt64.ofNat content.length).toNat = content.length ∧ content.length < 0x8000000000000000 := by
  have within := h.within used
  have := L.stop_lt
  unfold Layout.Within at within
  exact ⟨Word.toNat_ofNat_of_lt (by omega), by omega⟩

theorem length_ne (used : next ≤ L.stop) : UInt64.ofNat content.length ≠ 0 := by
  intro zero
  have length := (h.toNat_length used).1
  have pos := h.pos
  rw [zero] at length
  have none : (0 : Word).toNat = 0 := rfl
  omega

/-- How the length compares with another one. -/
theorem signedLe_length (used : next ≤ L.stop) {w : Word} (small : w.toNat < 0x8000000000000000) :
    Word.signedLe (.ofNat content.length) w = decide (content.length ≤ w.toNat) := by
  obtain ⟨length, less⟩ := h.toNat_length used
  have compare := Word.signedLe_iff (v := .ofNat content.length) (w := w) (by omega) small
  rw [length] at compare
  rw [Bool.eq_iff_iff, compare, decide_eq_true_eq]

end SpeltString

/-- Writing the words of a short string into its cell, with the address of its content there, makes the
cell carry it. -/
theorem SpeltString.carries_inline (h : SpeltString g next a content address front back)
    (inside : slot + 32 ≤ L.data) (short : content.length ≤ inlineCapacity)
    (holds : b.Holds (L.dataBase + slot) [L.cell slot + 16, .ofNat content.length, front, back]) :
    b.CarriesString next slot content := by
  have words := holds.bytes_content
  have window : slot + 16 ≤ L.data := by omega
  have place := L.toNat_cell_content window
  obtain ⟨first, second, -⟩ := holds
  refine ⟨inside, h.pos, second, ?_, .inl ⟨short, by rw [first, place]⟩⟩
  unfold inlineCapacity at short
  rw [first, place, ← b.take_bytes _ short, words]
  exact h.repeated short

/-- Writing the words of a long string into a cell makes the cell carry it. -/
theorem SpeltString.carries_header (h : SpeltString g next a content address front back)
    (inside : slot + 32 ≤ L.data) (long : inlineCapacity < content.length)
    (literals : a.SameInside b L.literalBase next)
    (holds : b.Holds (L.dataBase + slot) [address, .ofNat content.length, front, back]) :
    b.CarriesString next slot content := by
  obtain ⟨first, second, -⟩ := holds
  rcases h.source with ⟨-, -, -, short, -⟩ | ⟨low, high⟩
  · omega
  · refine ⟨inside, h.pos, second, ?_, .inr ⟨long, by rw [first]; exact low, by rw [first]; exact high⟩⟩
    rw [first, literals.bytes low high]
    exact h.bytes

/-- Copying a string over the beginning of one that is at least as long, and short itself, makes the cell
carry what is left of both. -/
theorem Arena.CarriesString.copied {old : List Byte} (h : a.CarriesString next slot old)
    (spelt : SpeltString 32 next a content address front back) (aligned : slot % 32 = 0)
    (shorter : content.length ≤ old.length) (short : old.length ≤ inlineCapacity) :
    L.Within (L.dataBase + slot + 16) content.length ∧
      (a.forwardCopy address.toNat (L.dataBase + slot + 16) content.length).CarriesString next slot
        (content ++ old.drop content.length) := by
  have := L.ordered
  have := L.stackBase_eq
  have inside := h.fits
  have target : (a.wordAt (L.dataBase + slot)).toNat = L.dataBase + slot + 16 := by
    rcases h.place with ⟨-, place⟩ | ⟨long, -⟩
    · exact place
    · omega
  unfold inlineCapacity at short
  have within : L.Within (L.dataBase + slot + 16) content.length := by
    unfold Layout.Within
    omega
  -- the source is this very content, that of another cell, or a literal
  have order : L.dataBase + slot + 16 ≤ address.toNat ∨
      address.toNat + content.length ≤ L.dataBase + slot + 16 := by
    rcases spelt.source with ⟨other, whole, -, -, place⟩ | ⟨low, -⟩ <;> omega
  have same := a.sameOutside_forwardCopy address.toNat (L.dataBase + slot + 16) content.length
  have first := same.wordAt (q := L.dataBase + slot) (.inl (by omega))
  have second := same.wordAt (q := L.dataBase + slot + 8) (.inl (by omega))
  have copied := (a.bytes_forwardCopy within order).trans spelt.bytes
  have length : (content ++ old.drop content.length).length = old.length := by
    rw [List.length_append, List.length_drop]
    omega
  refine ⟨within, inside, by rw [length]; exact h.pos, by rw [second, length]; exact h.length, ?_,
    .inl ⟨by rw [length]; exact short, by rw [first, target]⟩⟩
  have split : old.length = content.length + (old.length - content.length) := by omega
  have bytes := h.bytes
  rw [target] at bytes
  rw [first, target, length, split, Arena.bytes_add, copied,
    same.bytes (.inr (Nat.le_refl _)), ← a.drop_bytes _ shorter, bytes]

/-- What a cell holds before a value of the given width is stored into it. -/
inductive Arena.Holding (a : Arena L) (next slot width : Nat) : Option Value → Prop
  | nothing : a.Vacant slot → Holding a next slot width none
  | value {old : Value} : a.Carries next slot old → old.span = width →
      Holding a next slot width (some old)

/-- What a cell holds stays while the cell and the literals do. -/
theorem Arena.Holding.sameInside {width : Nat} {old : Option Value}
    (h : a.Holding next slot width old)
    (cell : a.SameInside b (L.dataBase + slot) (L.dataBase + slot + width)) (wide : 16 ≤ width)
    (literals : a.SameInside b L.literalBase next) : b.Holding next slot width old := by
  cases h with
  | nothing vacant => exact .nothing (vacant.sameInside (cell.mono (Nat.le_refl _) (by omega)))
  | value carries span =>
    refine .value (carries.sameInside (Nat.le_refl _) ?_ literals) span
    rwa [span]

namespace Machine

variable {σ : Type} {m : Machine L σ} {old : Option Value}

/-- A string that is longer than the second word of the cell tells replaces what the cell holds: all of it
goes into the cell if it fits, and else its header does. -/
theorem store_replaces (inside : slot + 16 ≤ L.data) (used : next ≤ L.stop)
    (low : L.stackBase ≤ m.sp.toNat) (high : m.sp.toNat + 32 ≤ L.stackTop)
    (holds : m.arena.Holds m.sp.toNat [address, .ofNat content.length, front, back])
    (spelt : SpeltString g next m.arena content address front back)
    (longer : (m.arena.wordAt (L.dataBase + slot + 8)).toInt64.toInt < content.length) :
    ∃ m' first, store (L.cell slot) m = .ok () m' ∧
      Moved m m' (L.dataBase + slot) [first, .ofNat content.length, front, back] ∧
      (content.length ≤ inlineCapacity ∧ first = L.cell slot + 16 ∨
        inlineCapacity < content.length ∧ first = address) := by
  have := L.ordered
  have := L.stackBase_eq
  have place : (L.cell slot).toNat = L.dataBase + slot := L.toNat_cell (by omega)
  have more : Word.signedLe (.ofNat content.length)
      (m.arena.wordAt ((L.cell slot).toNat + 8)) = false := by
    rw [place, Word.signedLe_ofNat (spelt.toNat_length used).2]
    exact decide_eq_false (by omega)
  have sixteen : (UInt64.ofNat inlineCapacity).toNat = inlineCapacity := rfl
  have fits := spelt.signedLe_length used (w := .ofNat inlineCapacity) (by decide)
  rw [sixteen] at fits
  by_cases short : content.length ≤ inlineCapacity
  · rw [decide_eq_true short] at fits
    obtain ⟨m', stored, moved⟩ := store_inline (L.cell slot) low high holds (spelt.length_ne used)
      (by omega) (by omega) more fits
    rw [place] at moved
    exact ⟨m', _, stored, moved, .inl ⟨short, rfl⟩⟩
  · rw [decide_eq_false short] at fits
    obtain ⟨m', stored, moved⟩ := store_header (L.cell slot) low high holds (spelt.length_ne used)
      (by omega) (by omega) more fits
    rw [place] at moved
    exact ⟨m', _, stored, moved, .inr ⟨Nat.lt_of_not_le short, rfl⟩⟩

/-- A string that is no longer than the second word of the cell tells is copied to where the first word
points. -/
theorem store_overlays (inside : slot + 16 ≤ L.data) (used : next ≤ L.stop)
    (low : L.stackBase ≤ m.sp.toNat) (high : m.sp.toNat + 32 ≤ L.stackTop)
    (holds : m.arena.Holds m.sp.toNat [address, .ofNat content.length, front, back])
    (spelt : SpeltString g next m.arena content address front back)
    (shorter : (content.length : Int) ≤ (m.arena.wordAt (L.dataBase + slot + 8)).toInt64.toInt)
    (within : L.Within (m.arena.wordAt (L.dataBase + slot)).toNat content.length) :
    store (L.cell slot) m = .ok () { m with
      sp := m.sp + 8 + 24
      arena := m.arena.forwardCopy address.toNat (m.arena.wordAt (L.dataBase + slot)).toNat
        content.length } := by
  have := L.ordered
  have := L.stackBase_eq
  have place : (L.cell slot).toNat = L.dataBase + slot := L.toNat_cell (by omega)
  obtain ⟨length, small⟩ := spelt.toNat_length used
  have less : Word.signedLe (.ofNat content.length)
      (m.arena.wordAt ((L.cell slot).toNat + 8)) = true := by
    rw [place, Word.signedLe_ofNat small]
    exact decide_eq_true shorter
  rw [store_in_place (L.cell slot) low high holds (spelt.length_ne used) (by omega) (by omega) less,
    length, place]
  simp only [update, Arena.copy_of_within (spelt.within used) within]

/-- A string that is longer than the one in the cell replaces it. -/
theorem store_longer (inside : slot + 32 ≤ L.data) (used : next ≤ L.stop)
    (low : L.stackBase ≤ m.sp.toNat) (high : m.sp.toNat + 32 ≤ L.stackTop)
    (holds : m.arena.Holds m.sp.toNat [address, .ofNat content.length, front, back])
    (spelt : SpeltString g next m.arena content address front back)
    (small : (m.arena.wordAt (L.dataBase + slot + 8)).toNat < 0x8000000000000000)
    (longer : (m.arena.wordAt (L.dataBase + slot + 8)).toNat < content.length) :
    ∃ m' ws, store (L.cell slot) m = .ok () m' ∧ Moved m m' (L.dataBase + slot) ws ∧ ws.length = 4 ∧
      m'.arena.CarriesString next slot content := by
  have := L.ordered
  have := L.stackBase_eq
  have window : slot + 16 ≤ L.data := by omega
  obtain ⟨m', first, stored, moved, ⟨short, rfl⟩ | ⟨long, rfl⟩⟩ := store_replaces window used low
    high holds spelt (by rw [Word.toInt_toInt64 small]; omega)
  · exact ⟨m', _, stored, moved, rfl, spelt.carries_inline inside short moved.words⟩
  · have literals : m.arena.SameInside m'.arena L.literalBase next :=
      moved.same.inside (.inr (by simp only [List.length_cons, List.length_nil]; omega))
    exact ⟨m', _, stored, moved, rfl, spelt.carries_header inside long literals moved.words⟩

/-- A string that is no longer than the one in the cell goes over its beginning. -/
theorem store_shorter {content' : List Byte} (aligned : slot % 32 = 0) (used : next ≤ L.stop)
    (low : L.stackBase ≤ m.sp.toNat) (high : m.sp.toNat + 32 ≤ L.stackTop)
    (holds : m.arena.Holds m.sp.toNat [address, .ofNat content.length, front, back])
    (spelt : SpeltString 32 next m.arena content address front back)
    (carries : m.arena.CarriesString next slot content')
    (shorter : content.length ≤ content'.length) (short : content'.length ≤ inlineCapacity) :
    store (L.cell slot) m = .ok () { m with
        sp := m.sp + 8 + 24
        arena := m.arena.forwardCopy address.toNat (L.dataBase + slot + 16) content.length } ∧
      (m.arena.forwardCopy address.toNat (L.dataBase + slot + 16) content.length).CarriesString next
        slot (content ++ content'.drop content.length) := by
  have inside := carries.fits
  have window : slot + 16 ≤ L.data := by omega
  obtain ⟨current, small⟩ := carries.toNat_length used
  have target : (m.arena.wordAt (L.dataBase + slot)).toNat = L.dataBase + slot + 16 := by
    rcases carries.place with ⟨-, here⟩ | ⟨long, -⟩
    · exact here
    · omega
  obtain ⟨within, copied⟩ := carries.copied spelt aligned shorter short
  have stored := store_overlays window used low high holds spelt
    (by rw [Word.toInt_toInt64 (by omega)]; omega) (by rw [target]; exact within)
  rw [target] at stored
  exact ⟨stored, copied⟩

variable [Sink σ] {log : Log} {is : List Instr}

/-- The instruction that stores a string which replaces a shorter one, or none. -/
theorem ran_store_longer (code : CodeAt m.arena m.ip.toNat (.store (L.cell slot) :: is))
    (inside : slot + 32 ≤ L.data) (used : next ≤ L.stop) (low : L.stackBase ≤ m.sp.toNat)
    (high : m.sp.toNat + 32 ≤ L.stackTop)
    (holds : m.arena.Holds m.sp.toNat [address, .ofNat content.length, front, back])
    (spelt : SpeltString g next m.arena content address front back)
    (small : (m.arena.wordAt (L.dataBase + slot + 8)).toNat < 0x8000000000000000)
    (longer : (m.arena.wordAt (L.dataBase + slot + 8)).toNat < content.length) :
    ∃ m', Ran log [.store (L.cell slot)] m m' ∧ m'.sp.toNat = m.sp.toNat + 32 ∧ m'.sink = m.sink ∧
      m'.arena.CarriesString next slot content ∧
      m.arena.SameOutside m'.arena (L.dataBase + slot) (L.dataBase + slot + 32) := by
  have := L.ordered
  have := L.stackBase_eq
  obtain ⟨m', words, stored, moved, four, carries⟩ := store_longer
    (m := m.past (.store (L.cell slot))) inside used low high holds spelt small longer
  have same := moved.same
  have sp := moved.sp
  rw [four] at same sp
  exact ⟨m', .one code (exec_of_work rfl stored) moved.ip (same.mono (by omega) (by omega)), sp,
    moved.sink, carries, same⟩

/-- The instruction that stores a string over the beginning of one that is at least as long. -/
theorem ran_store_shorter {content' : List Byte}
    (code : CodeAt m.arena m.ip.toNat (.store (L.cell slot) :: is)) (aligned : slot % 32 = 0)
    (used : next ≤ L.stop) (low : L.stackBase ≤ m.sp.toNat) (high : m.sp.toNat + 32 ≤ L.stackTop)
    (holds : m.arena.Holds m.sp.toNat [address, .ofNat content.length, front, back])
    (spelt : SpeltString 32 next m.arena content address front back)
    (carries : m.arena.CarriesString next slot content')
    (shorter : content.length ≤ content'.length) (short : content'.length ≤ inlineCapacity) :
    ∃ m', Ran log [.store (L.cell slot)] m m' ∧ m'.sp.toNat = m.sp.toNat + 32 ∧ m'.sink = m.sink ∧
      m'.arena.CarriesString next slot (content ++ content'.drop content.length) ∧
      m.arena.SameOutside m'.arena (L.dataBase + slot) (L.dataBase + slot + 32) := by
  have := L.ordered
  have := L.stackBase_eq
  have top : L.codeBase = L.stackTop := rfl
  have inside := carries.fits
  obtain ⟨stored, copied⟩ := store_shorter (m := m.past (.store (L.cell slot))) aligned used
    low high holds spelt carries shorter short
  have same := m.arena.sameOutside_forwardCopy address.toNat (L.dataBase + slot + 16) content.length
  unfold inlineCapacity at short
  exact ⟨_, .one code (exec_of_work rfl stored) rfl (same.mono (by omega) (by omega)),
    toNat_sp_add_string (m := m) high, rfl, copied, same.mono (by omega) (by omega)⟩

/-- The instruction that stores a value into a cell that is vacant or has a value of the same kind. -/
theorem ran_store_value (code : CodeAt m.arena m.ip.toNat (.store (L.cell slot) :: is))
    (inside : slot + v.span ≤ L.data) (used : next ≤ L.stop) (low : L.stackBase ≤ m.sp.toNat)
    (high : m.sp.toNat + 8 * ws.length ≤ L.stackTop) (holds : m.arena.Holds m.sp.toNat ws)
    (spelt : v.Spelt g next m.arena ws) (holding : m.arena.Holding next slot v.span old)
    (plain : ∀ n, v = .integer n → n.IsPlain)
    (short : ∀ content content', old = some (.string content') → v = .string content →
      content.length ≤ content'.length → content'.length ≤ inlineCapacity ∧ g = 32 ∧ slot % 32 = 0) :
    ∃ m', Ran log [.store (L.cell slot)] m m' ∧ m'.sp.toNat = m.sp.toNat + 8 * ws.length ∧
      m'.sink = m.sink ∧ m'.arena.Carries next slot (v.laidOver old) ∧
      m.arena.SameOutside m'.arena (L.dataBase + slot) (L.dataBase + slot + v.span) := by
  cases spelt with
  | integer n =>
    simp only [List.length_cons, List.length_nil] at high ⊢
    have inside : slot + 16 ≤ L.data := inside
    have := L.ordered
    have := L.stackBase_eq
    have top : L.codeBase = L.stackTop := rfl
    have place : (L.cell slot).toNat = L.dataBase + slot := L.toNat_cell (by omega)
    obtain ⟨m', ran, sp, sink, words, same⟩ :=
      ran_store_integer code low high holds (by omega) (by omega)
    rw [place] at words same
    rw [Value.laidOver_integer]
    exact ⟨m', ran, sp, sink, ⟨words, plain n rfl⟩, same⟩
  | @string content address front back string =>
    have inside : slot + 32 ≤ L.data := inside
    cases holding with
    | nothing vacant =>
      have zero : (m.arena.wordAt (L.dataBase + slot + 8)).toNat = 0 := by
        rw [vacant.second]
        rfl
      have pos := string.pos
      exact ran_store_longer code inside used low high holds string (by omega) (by omega)
    | @value v' carries width =>
      cases v' with
      | integer n => cases width
      | string content' =>
        have carries : m.arena.CarriesString next slot content' := carries
        obtain ⟨current, small⟩ := carries.toNat_length used
        by_cases shorter : content.length ≤ content'.length
        · obtain ⟨few, rfl, aligned⟩ := short content content' rfl rfl shorter
          exact ran_store_shorter code aligned used low high holds string carries shorter few
        · rw [Value.laidOver_longer (by omega)]
          exact ran_store_longer code inside used low high holds string (by omega) (by omega)

end Machine
end Osl
