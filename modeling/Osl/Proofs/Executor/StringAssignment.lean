import Osl.Proofs.Executor.Atomicity

/-!
# Assigning a string literal

What `x = "..."` does to the data section and to the literals, whatever the cell of `x` holds. The second
word of the cell, taken as a signed number, decides. If the literal is longer, it replaces the value of
the cell, in the cell or by its address among the literals; if it is not, it goes over the beginning of
what the first word points at, and the cell stays as it is (`assignsString_executeEach`).

The cell may be the last window of the data section. Then the last two words of the new header lie in
the scratch stack, and the lemmas about cells that carry a string do not apply.
-/

namespace Osl
set_option autoImplicit false

variable {L : Layout} {σ : Type} {g next slot : Nat} {content : List Byte} {address front back : Word}

/-- The range lies where values are stored: in the data section, or among the literals below `next`. -/
def Layout.HoldsValues (L : Layout) (next p n : Nat) : Prop :=
  L.dataBase ≤ p ∧ p + n ≤ L.dataEnd ∨ L.literalBase ≤ p ∧ p + n ≤ next

theorem Layout.HoldsValues.within {p n : Nat} (h : L.HoldsValues next p n) (used : next ≤ L.stop) :
    L.Within p n := by
  have := L.ordered
  have end' : L.dataEnd = L.stackBase := rfl
  unfold Layout.Within
  rcases h with ⟨low, high⟩ | ⟨low, high⟩ <;> omega

namespace Arena

variable {a b c : Arena L}

/-- All that values are stored in agrees, except perhaps `n` bytes from `p` on. -/
def SameValuesBut (a b : Arena L) (next p n : Nat) : Prop :=
  ∀ q, L.HoldsValues next q 1 → q < p ∨ p + n ≤ q → b.byte q = a.byte q

namespace SameValues

theorem byte {p : Nat} (h : a.SameValues b next) (stored : L.HoldsValues next p 1) :
    b.byte p = a.byte p := by
  rcases stored with ⟨low, high⟩ | ⟨low, high⟩
  · exact h.data p low high
  · exact h.literals p low high

theorem bytes {p n : Nat} (h : a.SameValues b next) (stored : L.HoldsValues next p n) :
    b.bytes p n = a.bytes p n := by
  rcases stored with ⟨low, high⟩ | ⟨low, high⟩
  · exact h.data.bytes low high
  · exact h.literals.bytes low high

/-- Nothing that values are stored in has changed, but a range has afterwards. -/
theorem but {p n : Nat} (h : a.SameValues b next) (same : b.SameOutside c p (p + n)) :
    a.SameValuesBut c next p n :=
  fun q stored outside => (same q outside).trans (h.byte stored)

end SameValues

/-- Nothing above the saved stack pointer has changed. -/
theorem SameInside.sameValues (same : a.SameInside b L.dataBase L.stop) (used : next ≤ L.stop) :
    a.SameValues b next := by
  have := L.ordered
  exact ⟨same.mono (Nat.le_refl _) (by omega), same.mono (by omega) used⟩

namespace SameValuesBut

variable {p n : Nat}

theorem trans (h : a.SameValuesBut b next p n) (same : b.SameValues c next) :
    a.SameValuesBut c next p n :=
  fun q stored outside => (same.byte stored).trans (h q stored outside)

/-- Bytes that values are stored in are the same apart from the range. -/
theorem bytes {q k : Nat} (h : a.SameValuesBut b next p n) (stored : L.HoldsValues next q k)
    (apart : q + k ≤ p ∨ p + n ≤ q) : b.bytes q k = a.bytes q k := by
  apply bytes_eq_iff.2
  intro i less
  apply h
  · rcases stored with ⟨low, high⟩ | ⟨low, high⟩
    · exact .inl ⟨by omega, by omega⟩
    · exact .inr ⟨by omega, by omega⟩
  · omega

theorem wordAt {q : Nat} (h : a.SameValuesBut b next p n) (stored : L.HoldsValues next q 8)
    (apart : q + 8 ≤ p ∨ p + n ≤ q) : b.wordAt q = a.wordAt q := by
  rw [Arena.wordAt, h.bytes stored apart, Arena.wordAt]

end SameValuesBut

/-- The first two words of the cell at a slot are the address and the length of a string, which lies above
the saved stack pointer. -/
structure PointsTo (a : Arena L) (slot : Nat) (content : List Byte) : Prop where
  length : a.wordAt (L.dataBase + slot + 8) = .ofNat content.length
  bytes : a.bytes (a.wordAt (L.dataBase + slot)).toNat content.length = content
  low : L.dataBase ≤ (a.wordAt (L.dataBase + slot)).toNat
  high : (a.wordAt (L.dataBase + slot)).toNat + content.length ≤ L.stop

namespace PointsTo

theorem sameInside (h : a.PointsTo slot content) (isSlot : L.IsSlot slot)
    (same : a.SameInside b L.dataBase L.stop) : b.PointsTo slot content := by
  have := L.ordered
  have := L.stackBase_eq
  have fits := isSlot.fits
  have first := same.wordAt (q := L.dataBase + slot) (by omega) (by omega)
  have second := same.wordAt (q := L.dataBase + slot + 8) (by omega) (by omega)
  constructor
  · rw [second, h.length]
  · rw [first, same.bytes h.low h.high, h.bytes]
  · rw [first]
    exact h.low
  · rw [first]
    exact h.high

/-- Such a cell reads as the string. -/
theorem read_eq (h : a.PointsTo slot content) (isSlot : L.IsSlot slot) (pos : 0 < content.length) :
    Value.read a (L.cell slot) = .ok (.string content) := by
  have := L.ordered
  have := L.stop_lt
  have low := h.low
  have high := h.high
  have length : (UInt64.ofNat content.length).toNat = content.length :=
    Word.toNat_ofNat_of_lt (by omega)
  have string : UInt64.ofNat content.length ≠ 0 := by
    intro zero
    rw [zero] at length
    have none : (0 : Word).toNat = 0 := rfl
    omega
  have within : L.Within (a.wordAt (L.dataBase + slot)).toNat content.length := by
    unfold Layout.Within
    omega
  rw [Value.read_eq a isSlot, h.length, if_neg string, length, Arena.slice_eq_ite, if_pos within, h.bytes]
  rfl

end PointsTo

/-- Where new bytes went over the beginning of the string that a cell points at, the cell points at what is
left of both. -/
theorem SameValuesBut.pointsTo {p : Nat} (h : a.SameValuesBut b next p content.length)
    (first : (b.wordAt (L.dataBase + slot)).toNat = p) (bytes : b.bytes p content.length = content)
    (shorter : content.length ≤ (b.wordAt (L.dataBase + slot + 8)).toNat)
    (whole : L.HoldsValues next p (b.wordAt (L.dataBase + slot + 8)).toNat) (used : next ≤ L.stop) :
    b.PointsTo slot (content ++
      (a.bytes p (b.wordAt (L.dataBase + slot + 8)).toNat).drop content.length) := by
  have := L.ordered
  have within := whole.within used
  generalize second : b.wordAt (L.dataBase + slot + 8) = tag at *
  obtain ⟨rest, split⟩ : ∃ rest, tag.toNat = content.length + rest := ⟨_, (Nat.add_sub_cancel' shorter).symm⟩
  have behind : L.HoldsValues next (p + content.length) rest := by
    rcases whole with ⟨low, high⟩ | ⟨low, high⟩
    · exact .inl ⟨by omega, by omega⟩
    · exact .inr ⟨by omega, by omega⟩
  have length : (content ++ (a.bytes p tag.toNat).drop content.length).length = tag.toNat := by
    rw [List.length_append, List.length_drop, length_bytes]
    omega
  constructor
  · rw [length, second, UInt64.ofNat_toNat]
  · rw [first, length, split, a.drop_bytes p (Nat.le_add_right _ _), Nat.add_sub_cancel_left, bytes_add,
      bytes, h.bytes behind (.inr (Nat.le_refl _))]
  · rw [first]
    rcases whole with ⟨low, -⟩ | ⟨low, -⟩ <;> omega
  · rw [first, length]
    exact within.2

end Arena

namespace Machine

variable {m m' : Machine L σ}

/-- What a string is replaced by is what the cell points at. -/
theorem Moved.pointsTo {first : Word}
    (moved : Moved m m' (L.dataBase + slot) [first, .ofNat content.length, front, back])
    (isSlot : L.IsSlot slot) (used : next ≤ L.stop)
    (spelt : SpeltString g next m.arena content address front back)
    (literal : L.literalBase ≤ address.toNat)
    (place : content.length ≤ inlineCapacity ∧ first = L.cell slot + 16 ∨
      inlineCapacity < content.length ∧ first = address) : m'.arena.PointsTo slot content := by
  have := L.ordered
  have := L.stackBase_eq
  have := L.stop_lt
  have top : L.codeBase = L.stackTop := rfl
  have fits := isSlot.fits
  have stack := L.stackBase_add_le
  have within := spelt.within used
  obtain ⟨first', second, -⟩ := moved.words
  rcases place with ⟨short, rfl⟩ | ⟨-, rfl⟩
  · -- the first word is the address of the last two, and these begin with the string
    have inCell := L.toNat_cell_content fits
    have words := moved.words.bytes_content
    unfold inlineCapacity at short
    constructor
    · exact second
    · rw [first', inCell, ← m'.arena.take_bytes _ short, words]
      exact spelt.repeated short
    · rw [first', inCell]
      omega
    · rw [first', inCell]
      omega
  · constructor
    · exact second
    · rw [first', moved.same.bytes (.inr (by simp only [List.length_cons, List.length_nil]; omega)),
        spelt.bytes]
    · rw [first']
      omega
    · rw [first']
      exact within.2

/-- Above the scratch stack a push is refused. -/
theorem step_push_above [Sink σ] {w : Word} {is : List Instr} (log : Log)
    (code : CodeAt m.arena m.ip.toNat (.push w :: is)) (above : L.stackTop + 8 ≤ m.sp.toNat) :
    step log m = .error (.stackOverflow (m.sp - 8)) (m.past (.push w)) := by
  have refused : L.stackTop ≤ (m.sp - 8).toNat := by
    rw [Word.toNat_sub_of_le (by simp only [UInt64.reduceToNat]; omega)]
    simp only [UInt64.reduceToNat]
    omega
  rw [step_eq_exec code]
  apply bind_error
  rw [push, bind_ok get_apply, past_sp, if_pos (.inr refused)]
  rfl

end Machine

namespace Executor

open Machine

variable {x : Executor L σ} {name : String} {t : Slots} {w' : Workspace L} {m m' : Machine L σ}

variable [Sink σ]

/-- An assignment whose store succeeds and spares the saved stack pointer and the code is executed. -/
theorem execute_of_store {target : String} {e : Expr} {value : Located} {cell : Word}
    (located : (Statement.assign target e).locate x.workspace = .ok (.assign value cell) w')
    (fits : (Statement.assign target e).codeSize ≤ L.code)
    (steps : Steps x.log value.code.length (x.atBody w' (.assign value cell)) m)
    (before : x.BeforeStore cell m) (stored : store cell (m.past (.store cell)) = .ok () m')
    (ip : m'.ip = (m.past (.store cell)).ip) (system : m.arena.SameInside m'.arena L.base L.dataBase)
    (code : m.arena.SameInside m'.arena L.codeBase L.literalBase) :
    ∃ routine x', execute (.assign target e) x = .ok routine x' ∧ x'.slots = w'.slots ∧
      m'.arena.SameInside x'.arena L.dataBase L.stop := by
  have stepped : Machine.step x.log m = .ok none m' := by
    rw [step_eq_exec before.code]
    exact exec_of_work rfl stored
  have body : Steps x.log (Task.assign value cell).code.length (x.atBody w' (.assign value cell)) m' := by
    rw [Task.code, List.length_append]
    exact steps.trans (.one stepped)
  have rest : CodeAt m'.arena m'.ip.toNat [.leave, .ret] := by
    rw [ip, toNat_ip_past before.code]
    exact before.code.tail.sameInside code
  have caller : m'.arena.wordAt L.savedSp = callerSp := by
    rw [← before.caller]
    apply system.wordAt (Nat.le_refl _)
    simp only [Layout.dataBase]
    omega
  have saved := m'.arena.sameOutside_save m'.sp
  exact ⟨_, _, execute_of_steps located fits body rest caller, rfl, saved.inside (.inr (Nat.le_refl _))⟩

/-- The routine that assigns a literal has come to its store, and the header of the literal is on the
stack. -/
structure LiteralOnStack (x : Executor L σ) (name : String) (content : List Byte) (slot : Nat)
    (w' : Workspace L) (m : Machine L σ) : Prop extends BeforeStore x (L.cell slot) m where
  located : (Statement.assign name (.str content)).locate x.workspace =
    .ok (x.literalTask content slot) w'
  bound : w'.slots.lookup name = some slot
  fits : (Statement.assign name (.str content)).codeSize ≤ L.code
  room : x.literals.next + (content.length + 1) ≤ L.stop
  steps : Steps x.log 4 (x.atBody w' (x.literalTask content slot)) m
  low : L.stackBase ≤ m.sp.toNat
  high : m.sp.toNat + 32 ≤ L.stackTop
  holds : m.arena.Holds m.sp.toNat (Header.of (.ofNat x.literals.next) content).words
  spelt : SpeltString 16 (x.literals.next + (content.length + 1)) m.arena content (.ofNat x.literals.next)
    (Header.of (.ofNat x.literals.next) content).low (Header.of (.ofNat x.literals.next) content).high

/-- With room for the routine, the literal and its header the routine comes to its store. -/
theorem exists_literalOnStack (asked : x.slots.slotFor x.arena name = .ok (slot, t))
    (room : x.literals.next + (content.length + 1) ≤ L.stop) (code : 48 ≤ L.code)
    (order : L.StackPointer x.savedSp) (free : L.stackBase + 32 ≤ x.savedSp.toNat)
    (pos : 0 < content.length) : ∃ w' m, x.LiteralOnStack name content slot w' m := by
  obtain ⟨w', located, rfl, next, arena⟩ := locate_assign_str asked room
  have fits : (Statement.assign name (.str content)).codeSize ≤ L.code := code
  have sp := atBody_sp located
  have body : CodeAt _ _ (Compile.pushHeader _ ++ [.store (L.cell slot), .leave, .ret]) :=
    codeAt_atBody located fits
  have pointer : L.StackPointer (x.atBody w' (x.literalTask content slot)).sp := by
    rw [sp]
    exact order
  have evaluates : Evaluates x.log _ _ (Header.of (.ofNat x.literals.next) content).words 4 :=
    evaluates_pushes _ pointer body.left
  obtain ⟨m, leaves⟩ := evaluates.fits (by rw [sp]; exact free)
  have before := beforeStore_of_leaves located fits order leaves
  have pushed : m.sp.toNat + 32 = _ := leaves.pushed.sp
  have same := (sameValues_atBody located fits).trans
    (sameValues_of_stack (leaves.same pointer))
  have literals := same.literals
  rw [next, arena] at literals
  refine ⟨w', m, { before with
    located, fits, room
    bound := Slots.lookup_slotFor_self asked
    steps := leaves.steps
    low := leaves.low
    high := ?_
    holds := leaves.pushed.words
    spelt := Header.spelt_of 16 pos x.literals.low room literals }⟩
  rw [pushed, sp]
  exact order.high

/-- How a literal is assigned to a name whose cell is at a slot. Its second word, taken as a signed number,
decides whether the literal replaces what the cell holds or goes over the beginning of the bytes that the
first word points at. -/
structure AssignsString (x : Executor L σ) (name : String) (slot : Nat) (content : List Byte) : Prop where
  replaces : (x.arena.wordAt (L.dataBase + slot + 8)).toInt64.toInt < content.length →
    ∃ routine x', execute (.assign name (.str content)) x = .ok routine x' ∧
      x'.valueOf name = some (.string content) ∧
      x.arena.SameValuesBut x'.arena x.literals.next (L.dataBase + slot) 32
  overlays : (content.length : Int) ≤ (x.arena.wordAt (L.dataBase + slot + 8)).toInt64.toInt →
    ∀ p, (x.arena.wordAt (L.dataBase + slot)).toNat = p →
    L.HoldsValues x.literals.next p content.length →
    p + content.length ≤ L.dataBase + slot ∨ L.dataBase + slot + 16 ≤ p →
    ∃ routine x', execute (.assign name (.str content)) x = .ok routine x' ∧
      x'.arena.wordAt (L.dataBase + slot) = x.arena.wordAt (L.dataBase + slot) ∧
      x'.arena.wordAt (L.dataBase + slot + 8) = x.arena.wordAt (L.dataBase + slot + 8) ∧
      x'.arena.bytes p content.length = content ∧
      x.arena.SameValuesBut x'.arena x.literals.next p content.length ∧
      ∀ length, (x.arena.wordAt (L.dataBase + slot + 8)).toNat = length →
        L.HoldsValues x.literals.next p length →
        x'.valueOf name = some (.string (content ++ (x.arena.bytes p length).drop content.length))

namespace LiteralOnStack

variable (loaded : x.LiteralOnStack name content slot w' m) (isSlot : L.IsSlot slot)

include loaded isSlot

/-- A literal that is longer than the cell tells replaces what the cell holds. -/
theorem replaces (longer : (x.arena.wordAt (L.dataBase + slot + 8)).toInt64.toInt < content.length) :
    ∃ routine x', execute (.assign name (.str content)) x = .ok routine x' ∧
      x'.valueOf name = some (.string content) ∧
      x.arena.SameValuesBut x'.arena x.literals.next (L.dataBase + slot) 32 := by
  have := L.ordered
  have := L.stackBase_eq
  have stack := L.stackBase_add_le
  have top : L.codeBase = L.stackTop := rfl
  have fits := isSlot.fits
  have used := x.literals.high
  have literal : L.literalBase ≤ (UInt64.ofNat x.literals.next).toNat := by
    rw [x.literals.toNat_next]
    exact x.literals.low
  have second := loaded.same.data.wordAt (q := L.dataBase + slot + 8) (by omega) (by omega)
  obtain ⟨m', first, stored, moved, place⟩ := store_replaces (m := m.past (.store (L.cell slot))) fits
    loaded.room loaded.low loaded.high loaded.holds loaded.spelt
    (by rw [past_arena, second]; exact longer)
  have points := moved.pointsTo isSlot loaded.room loaded.spelt literal place
  have same : Arena.SameOutside _ _ _ (L.dataBase + slot + 32) := moved.same
  obtain ⟨routine, x', done, slots, kept⟩ := execute_of_store loaded.located loaded.fits loaded.steps
    loaded.toBeforeStore stored moved.ip (same.inside (.inl (Nat.le_add_right _ _)))
    (same.inside (.inr (by omega)))
  refine ⟨routine, x', done, ?_, (loaded.same.but same).trans (kept.sameValues used)⟩
  have bound : x'.slotOf name = some slot := by
    rw [slotOf, slots]
    exact loaded.bound
  rw [valueOf_eq bound, (points.sameInside isSlot kept).read_eq isSlot loaded.spelt.pos]
  rfl

/-- A literal that is no longer than the cell tells goes over the beginning of what the cell points at. -/
theorem overlays {p : Nat}
    (shorter : (content.length : Int) ≤ (x.arena.wordAt (L.dataBase + slot + 8)).toInt64.toInt)
    (place : (x.arena.wordAt (L.dataBase + slot)).toNat = p)
    (stored : L.HoldsValues x.literals.next p content.length)
    (apart : p + content.length ≤ L.dataBase + slot ∨ L.dataBase + slot + 16 ≤ p) :
    ∃ routine x', execute (.assign name (.str content)) x = .ok routine x' ∧
      x'.slotOf name = some slot ∧
      x'.arena.wordAt (L.dataBase + slot) = x.arena.wordAt (L.dataBase + slot) ∧
      x'.arena.wordAt (L.dataBase + slot + 8) = x.arena.wordAt (L.dataBase + slot + 8) ∧
      x'.arena.bytes p content.length = content ∧
      x.arena.SameValuesBut x'.arena x.literals.next p content.length := by
  have := L.ordered
  have := L.stackBase_eq
  have end' : L.dataEnd = L.stackBase := rfl
  have fits := isSlot.fits
  have used := x.literals.high
  have within := stored.within used
  have address := x.literals.toNat_next
  have low := x.literals.low
  have first := loaded.same.data.wordAt (q := L.dataBase + slot) (by omega) (by omega)
  have second := loaded.same.data.wordAt (q := L.dataBase + slot + 8) (by omega) (by omega)
  have copied := store_overlays (m := m.past (.store (L.cell slot))) fits loaded.room loaded.low
    loaded.high loaded.holds loaded.spelt (by rw [past_arena, second]; exact shorter)
    (by rw [past_arena, first, place]; exact within)
  have source : (Header.of (.ofNat x.literals.next) content).address.toNat = x.literals.next := address
  rw [past_arena, first, place, source] at copied
  have same := m.arena.sameOutside_forwardCopy x.literals.next p content.length
  -- the literal lies behind all that it may go over
  have order : p ≤ x.literals.next ∨ x.literals.next + content.length ≤ p := by
    rcases stored with ⟨-, high⟩ | ⟨-, high⟩ <;> omega
  have bytes := m.arena.bytes_forwardCopy within order
  have spelt := loaded.spelt.bytes
  rw [address] at spelt
  -- neither the saved stack pointer nor the code is where values are stored
  have elsewhere : L.dataBase ≤ p ∧ (L.literalBase ≤ p ∨ p + content.length ≤ L.codeBase) := by
    rcases stored with ⟨low, high⟩ | ⟨low, high⟩ <;> omega
  obtain ⟨routine, x', done, slots, kept⟩ := execute_of_store loaded.located loaded.fits loaded.steps
    loaded.toBeforeStore copied rfl (same.inside (.inl elsewhere.1)) (same.inside elsewhere.2)
  have values := kept.sameValues used
  have but := (loaded.same.but same).trans values
  refine ⟨routine, x', done, ?_, ?_, ?_, ?_, but⟩
  · rw [slotOf, slots]
    exact loaded.bound
  · exact but.wordAt (.inl (by omega)) (by omega)
  · exact but.wordAt (.inl (by omega)) (by omega)
  · rw [values.bytes stored]
    exact bytes.trans spelt

end LiteralOnStack

/-- All that matters is how the table of slots has come about. -/
theorem AssignsString.of_reachable (reach : Slots.Reachable L x.slots)
    (asked : x.slots.slotFor x.arena name = .ok (slot, t))
    (room : x.literals.next + (content.length + 1) ≤ L.stop) (code : 48 ≤ L.code)
    (order : L.StackPointer x.savedSp) (free : L.stackBase + 32 ≤ x.savedSp.toNat)
    (pos : 0 < content.length) : x.AssignsString name slot content := by
  have isSlot : L.IsSlot slot := reach.placed.isSlot asked
  obtain ⟨w', m, loaded⟩ := exists_literalOnStack asked room code order free pos
  constructor
  · intro longer
    exact loaded.replaces isSlot longer
  · intro shorter p place stored apart
    obtain ⟨routine, x', done, bound, first, second, bytes, but⟩ :=
      loaded.overlays isSlot shorter place stored apart
    refine ⟨routine, x', done, first, second, bytes, but, ?_⟩
    rintro length rfl whole
    have used := x.literals.high
    have within := whole.within used
    have := L.stop_lt
    unfold Layout.Within at within
    rw [Word.toInt_toInt64 (by omega)] at shorter
    rw [← second] at shorter whole
    have points := but.pointsTo (by rw [first, place]) bytes (by omega) whole used
    rw [second] at points
    rw [valueOf_eq bound, points.read_eq isSlot (by rw [List.length_append]; omega)]
    rfl

/-- After every program, whatever became of its statements and whatever the cells hold: with a saved stack
pointer that routines may work with and room for the routine, the literal and its header. -/
theorem assignsString_executeEach (L : Layout) (sink : σ) (log : Log) (p : Program) (name : String)
    (content : List Byte) (code : 48 ≤ L.code) (pos : 0 < content.length) :
    let x := (start L sink log).executeEach p
    L.StackPointer x.savedSp → L.stackBase + 32 ≤ x.savedSp.toNat →
    x.literals.next + (content.length + 1) ≤ L.stop →
    ∀ slot t, x.slots.slotFor x.arena name = .ok (slot, t) → x.AssignsString name slot content :=
  fun order free room _ _ asked =>
    .of_reachable (reachable_slots_executeEach p .empty) asked room code order free pos

/-- The executor of the tiny layout after `x = "abcdef";`. -/
def withSix : Executor .tiny Spool :=
  (start .tiny ⟨some {}⟩ .missing).executeEach [.assign "x" (.str [97, 98, 99, 100, 101, 102])]

/-- A short literal goes over the beginning of the string in the cell, and a longer one replaces it. -/
theorem assignsString_six :
    (∃ routine x', execute (.assign "x" (.str [88, 89])) withSix = .ok routine x' ∧
      x'.valueOf "x" = some (.string [88, 89, 99, 100, 101, 102])) ∧
    ∃ routine x', execute (.assign "x" (.str [48, 49, 50, 51, 52, 53, 54])) withSix = .ok routine x' ∧
      x'.valueOf "x" = some (.string [48, 49, 50, 51, 52, 53, 54]) := by
  have state : withSix.savedSp = .ofNat Layout.tiny.stackTop ∧ withSix.slotOf "x" = some 0 ∧
      withSix.literals.next = Layout.tiny.literalBase + 7 ∧
      withSix.arena.wordAt (Layout.tiny.dataBase + 0) = 0x100030 ∧
      withSix.arena.wordAt (Layout.tiny.dataBase + 0 + 8) = 6 ∧
      withSix.arena.bytes 0x100030 6 = [97, 98, 99, 100, 101, 102] := by
    decide +kernel
  obtain ⟨saved, bound, next, first, second, bytes⟩ := state
  have order : Layout.tiny.StackPointer withSix.savedSp := by
    rw [saved]
    constructor <;> decide
  have free : Layout.tiny.stackBase + 32 ≤ withSix.savedSp.toNat := by
    rw [saved]
    decide
  have assigns (content : List Byte) (pos : 0 < content.length)
      (room : withSix.literals.next + (content.length + 1) ≤ Layout.tiny.stop) :
      withSix.AssignsString "x" 0 content := by
    have asked := Slots.slotFor_of_lookup (a := withSix.arena) (by decide) bound
    unfold withSix at order free room asked ⊢
    exact assignsString_executeEach .tiny (⟨some {}⟩ : Spool) .missing
      [.assign "x" (.str [97, 98, 99, 100, 101, 102])] "x" content (by decide) pos order free room 0 _
      asked
  constructor
  · have two := assigns [88, 89] (by decide) (by rw [next]; decide)
    obtain ⟨routine, x', done, -, -, -, -, value⟩ := two.overlays (by rw [second]; decide) 0x100030
      (by rw [first]; rfl) (.inl (by decide)) (.inr (by decide))
    refine ⟨routine, x', done, ?_⟩
    rw [value 6 (by rw [second]; rfl) (.inl (by decide)), bytes]
    rfl
  · have seven := assigns [48, 49, 50, 51, 52, 53, 54] (by decide) (by rw [next]; decide)
    obtain ⟨routine, x', done, value, -⟩ := seven.replaces (by rw [second]; decide)
    exact ⟨routine, x', done, value⟩

/-- Above the scratch stack the first word of the header is refused, and no literal is assigned. -/
theorem execute_str_of_above (asked : x.slots.slotFor x.arena name = .ok (slot, t))
    (room : x.literals.next + (content.length + 1) ≤ L.stop) (code : 48 ≤ L.code)
    (above : L.stackTop + 8 ≤ x.savedSp.toNat) :
    ∃ x', execute (.assign name (.str content)) x =
      .error (.fault x.executed (.stackOverflow (x.savedSp - 8))) x' := by
  obtain ⟨w', located, -⟩ := locate_assign_str asked room
  have fits : (Statement.assign name (.str content)).codeSize ≤ L.code := code
  have sp := atBody_sp located
  have body : CodeAt _ _ (.push _ :: _) := codeAt_atBody located fits
  have last := step_push_above x.log body (by rw [sp]; exact above)
  rw [sp] at last
  exact ⟨_, execute_fault located fits (run_framed_fault (codeAt_withRoutine located fits) (.zero _)
    (Nat.zero_lt_succ 4) last)⟩

/-- A routine that puts an address above the scratch stack into the cell of the saved stack pointer. -/
def raise : List Instr := [.push 0, .push (.ofNat (Layout.roomy.stackTop + 8)), .store 0x100010, .ret]

/-- `t = "\xde\xff..." + 0; t = "...";`: the second string is copied to the address of the first, which is
in the code section, and goes on as the routine. -/
def raised : Executor .roomy Spool :=
  (start .roomy ⟨some {}⟩ .missing).executeEach
    [.assign "t" (.arith .add (.str (0xde :: (List.replicate 7 0xff ++ [28]))) (.int 0)),
      .assign "t" (.str (codeBytes raise))]

/-- A saved stack pointer that is whole words above the lowest address of the scratch stack and leaves room
for a header may still lie above the stack, and then no literal is assigned. -/
theorem not_assignsString_raised :
    ∃ slot t, raised.slots.slotFor raised.arena "x" = .ok (slot, t) ∧
      (raised.savedSp.toNat - Layout.roomy.stackBase) % 8 = 0 ∧
      Layout.roomy.stackBase + 32 ≤ raised.savedSp.toNat ∧
      raised.literals.next + (([97] : List Byte).length + 1) ≤ Layout.roomy.stop ∧ 48 ≤ Layout.roomy.code ∧
      (raised.arena.wordAt (Layout.roomy.dataBase + slot + 8)).toInt64.toInt < ([97] : List Byte).length ∧
      ∀ routine x', execute (.assign "x" (.str [97])) raised ≠ .ok routine x' := by
  have state : raised.savedSp = .ofNat (Layout.roomy.stackTop + 8) ∧
      (raised.slots.slotFor raised.arena "x").toOption.map Prod.fst = some 32 ∧
      raised.literals.next = Layout.roomy.literalBase + 39 ∧
      raised.arena.wordAt (Layout.roomy.dataBase + 32 + 8) = 0 := by
    decide +kernel
  obtain ⟨saved, found, next, second⟩ := state
  have room : raised.literals.next + (([97] : List Byte).length + 1) ≤ Layout.roomy.stop := by
    rw [next]
    decide
  cases asked : raised.slots.slotFor raised.arena "x" with
  | error e =>
    rw [asked] at found
    cases found
  | ok r =>
    obtain ⟨slot, t⟩ := r
    rw [asked] at found
    cases found
    obtain ⟨_, failed⟩ := execute_str_of_above asked room (by decide) (by rw [saved]; decide)
    refine ⟨32, t, rfl, ?_, ?_, room, by decide, ?_, ?_⟩
    · rw [saved]
      decide
    · rw [saved]
      decide
    · rw [second]
      decide
    · intro routine x' done
      rw [failed] at done
      cases done

end Executor
end Osl
