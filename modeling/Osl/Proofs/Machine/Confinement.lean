import Osl.Cell.Access
import Osl.Proofs.Machine.Code
import Osl.Proofs.Slots.Placement
import Osl.Proofs.Text.Numeral

/-!
# What the work of a routine leaves alone

Between entering and leaving, an instruction moves no instruction pointer and switches no stack, and
from a stack pointer in order it keeps the stack pointer in order and writes nothing into the code
section (`Confined`), whether it ends or faults. The one exception is a store that copies a string
over the old content of a cell: the content lies wherever the cell says, and that may be the code
section (`CopiesToCode`).
-/

namespace Osl.Machine
set_option autoImplicit false

variable {L : Layout} {σ α β : Type} {m m' m'' : Machine L σ}

/-- From `m` to `m'` no stack was switched, and with a stack pointer in order the code section was
left alone. -/
structure Confined (m m' : Machine L σ) : Prop where
  ip : m'.ip = m.ip
  entered : m'.entered = m.entered
  order : L.StackPointer m.sp → L.StackPointer m'.sp
  code : L.StackPointer m.sp → m.arena.SameInside m'.arena L.codeBase L.literalBase

namespace Confined

theorem refl (m : Machine L σ) : Confined m m := ⟨rfl, rfl, id, fun _ => .refl _ _ _⟩

theorem trans (h : Confined m m') (h' : Confined m' m'') : Confined m m'' :=
  ⟨h'.ip.trans h.ip, h'.entered.trans h.entered, fun order => h'.order (h.order order),
    fun order => (h.code order).trans (h'.code (h.order order))⟩

/-- A change of the arena below the code section. -/
theorem of_below {lo hi : Nat} {arena : Arena L} (same : m.arena.SameOutside arena lo hi)
    (below : hi ≤ L.codeBase) : Confined m { m with arena } :=
  ⟨rfl, rfl, id, fun _ => same.inside (.inr below)⟩

end Confined

/-! ## Reading and writing -/

/-- Reading from the arena changes nothing. -/
theorem reading_state (f : Arena L → Except Fault α) (m : Machine L σ) :
    endState (reading f) m = m := by
  unfold endState reading
  cases f m.arena <;> rfl

/-- What a reading gives, if it gives something. -/
theorem reading_eq_ok {f : Arena L → Except Fault α} {v : α} (h : reading f m = .ok v m') :
    f m.arena = .ok v ∧ m' = m := by
  unfold reading at h
  cases read : f m.arena with
  | ok w =>
    rw [read] at h
    cases h
    exact ⟨rfl, rfl⟩
  | error e =>
    rw [read] at h
    cases h

theorem confined_reading (f : Arena L → Except Fault α) :
    Always Confined (reading f : Exec L σ α) := by
  intro m
  rw [reading_state]
  exact .refl m

theorem confined_readWord (p : Word) : Always Confined (readWord p : Exec L σ Word) :=
  confined_reading _

theorem confined_write {p : Word} {bs : List Byte} (below : p.toNat + bs.length ≤ L.codeBase) :
    Always Confined (update (Arena.write p bs) : Exec L σ Unit) := by
  intro m
  by_cases within : L.Within p.toNat bs.length
  · have done : (update (Arena.write p bs) : Exec L σ Unit) m =
        .ok () { m with arena := m.arena.overlay p.toNat bs } := by
      simp only [update, Arena.write_eq_ite, if_pos within]
    rw [endState_ok done]
    exact .of_below (Arena.sameOutside_overlay _ _ _) below
  · have failed : (update (Arena.write p bs) : Exec L σ Unit) m =
        .error (.memory p bs.length) m := by
      simp only [update, Arena.write_eq_ite, if_neg within]
    rw [endState_error failed]
    exact .refl m

theorem confined_writeWord {p : Word} (w : Word) (below : p.toNat + 8 ≤ L.codeBase) :
    Always Confined (writeWord p w : Exec L σ Unit) :=
  confined_write (by rwa [Word.length_bytes])

/-- Changing the arena changes nothing else. -/
theorem update_state (f : Arena.Update L) (m : Machine L σ) :
    endState (update f) m = { m with arena := endState f m.arena } := by
  cases changed : f m.arena <;> simp only [endState, update, changed]

/-- Writing to the sink changes nothing else. -/
theorem emit_state [Sink σ] (bs : List Byte) (m : Machine L σ) :
    endState (emit bs) m = { m with sink := (Sink.write m.sink bs).2 } := by
  cases written : Sink.write m.sink bs with
  | mk result sink => cases result <;> simp only [endState, emit, written]

theorem confined_emit [Sink σ] (bs : List Byte) : Always Confined (emit bs : Exec L σ Unit) := by
  intro m
  rw [emit_state]
  exact ⟨rfl, rfl, id, fun _ => .refl _ _ _⟩

/-! ## The scratch stack -/

/-- A push writes a word that starts on the scratch stack, or it changes nothing. -/
theorem push_cases (w : Word) (m : Machine L σ) :
    (∃ f, push w m = .error f m) ∨
      (L.stackBase ≤ (m.sp - 8).toNat ∧ (m.sp - 8).toNat < L.stackTop ∧ push w m = .ok () { m with
        sp := m.sp - 8, arena := m.arena.overlay (m.sp - 8).toNat (Word.bytes w) }) := by
  by_cases full : (m.sp - 8).toNat < L.stackBase ∨ L.stackTop ≤ (m.sp - 8).toNat
  · left
    rw [push, bind_ok get_apply, if_pos full]
    exact ⟨_, rfl⟩
  · right
    have := L.ordered
    have top : L.codeBase = L.stackTop := rfl
    have whole := L.code_aligned
    have size := L.code_pos
    have code : L.literalBase = L.codeBase + L.code := rfl
    have within : L.Within (m.sp - 8).toNat 8 := by
      unfold Layout.Within
      omega
    refine ⟨by omega, by omega, ?_⟩
    rw [push, bind_ok get_apply, if_neg full]
    change (writeWord _ _ >>= _) m = _
    rw [bind_ok (writeWord_eq m w within), modify_apply]

theorem confined_push (w : Word) : Always Confined (push w : Exec L σ Unit) := by
  intro m
  rcases push_cases w m with ⟨f, failed⟩ | ⟨low', high', done⟩
  · rw [endState_error failed]
    exact .refl m
  · have top : L.codeBase = L.stackTop := rfl
    have := L.eight_lt_stackBase
    have below (order : L.StackPointer m.sp) : (m.sp - 8).toNat + 8 = m.sp.toNat := by
      have low := order.low
      have place : (m.sp - 8).toNat = m.sp.toNat - 8 :=
        Word.toNat_sub_of_le (by simp only [UInt64.reduceToNat]; omega)
      omega
    have written := Arena.sameOutside_overlay_word m.arena (m.sp - 8).toNat w
    rw [endState_ok done]
    refine ⟨rfl, rfl, fun order => ?_, fun order => written.inside (.inr ?_)⟩
    · have high := order.high
      have aligned := order.aligned
      have place := below order
      show L.StackPointer (m.sp - 8)
      constructor <;> omega
    · have high := order.high
      have place := below order
      omega

/-- A word that is not on the stack cannot be looked at. -/
theorem peek_under {offset : Word}
    (under : m.sp.toNat < L.stackBase ∨ L.stackTop < m.sp.toNat + offset.toNat + 8) :
    peek offset m = .error (.stackUnderflow m.sp) m := by
  rw [peek, bind_ok get_apply, if_pos under]
  rfl

/-- Looking at a word of the stack changes nothing. -/
theorem peek_state (offset : Word) (m : Machine L σ) : endState (peek offset) m = m := by
  by_cases under : m.sp.toNat < L.stackBase ∨ L.stackTop < m.sp.toNat + offset.toNat + 8
  · rw [endState_error (peek_under under)]
  · rw [endState_ok (peek_eq offset (by omega) (by omega))]

/-- What looking at a word of the stack gives, if it gives something. -/
theorem peek_eq_ok {offset w : Word} (h : peek offset m = .ok w m') :
    m' = m ∧ L.stackBase ≤ m.sp.toNat ∧ m.sp.toNat + offset.toNat + 8 ≤ L.stackTop ∧
      w = m.arena.wordAt (m.sp.toNat + offset.toNat) := by
  by_cases under : m.sp.toNat < L.stackBase ∨ L.stackTop < m.sp.toNat + offset.toNat + 8
  · rw [peek_under under] at h
    cases h
  · rw [peek_eq offset (by omega) (by omega)] at h
    injection h with value state
    exact ⟨state.symm, by omega, by omega, value.symm⟩

theorem confined_peek (offset : Word) : Always Confined (peek offset : Exec L σ Word) := by
  intro m
  rw [peek_state]
  exact .refl m

/-- Moving the stack pointer up by whole words, not past the top. -/
theorem Confined.of_raise {n : Word} (whole : n.toNat % 8 = 0)
    (fits : m.sp.toNat + n.toNat ≤ L.stackTop) : Confined m { m with sp := m.sp + n } := by
  have := L.stackTop_lt
  have place : (m.sp + n).toNat = m.sp.toNat + n.toNat := Word.toNat_add_of_lt (by omega)
  refine ⟨rfl, rfl, fun order => ?_, fun _ => .refl _ _ _⟩
  have low := order.low
  have aligned := order.aligned
  constructor <;> (rw [place]; omega)

theorem confined_pop : Always Confined (pop : Exec L σ Word) := by
  intro m
  cases looked : peek 0 m with
  | error f m' =>
    have same : m' = m := by
      have state := peek_state 0 m
      rwa [endState_error looked] at state
    have failed : pop m = .error f m' := by
      rw [pop, bind_error looked]
    rw [endState_error failed, same]
    exact .refl m
  | ok w m' =>
    obtain ⟨rfl, low, high, -⟩ := peek_eq_ok looked
    have popped : pop m' = .ok (m'.arena.wordAt m'.sp.toNat) { m' with sp := m'.sp + 8 } :=
      pop_eq low high
    rw [endState_ok popped]
    exact .of_raise rfl high

/-- Dropping bytes does not move the stack pointer past the top, or it changes nothing. -/
theorem drop_cases (n : Word) (m : Machine L σ) :
    (∃ f, drop n m = .error f m) ∨
      (m.sp.toNat + n.toNat ≤ L.stackTop ∧ drop n m = .ok () { m with sp := m.sp + n }) := by
  by_cases beyond : L.stackTop < m.sp.toNat + n.toNat
  · left
    rw [drop, bind_ok get_apply, if_pos beyond]
    exact ⟨_, rfl⟩
  · exact .inr ⟨by omega, drop_eq (by omega)⟩

theorem confined_drop {n : Word} (whole : n.toNat % 8 = 0) :
    Always Confined (drop n : Exec L σ Unit) := by
  intro m
  rcases drop_cases n m with ⟨f, failed⟩ | ⟨high, done⟩
  · rw [endState_error failed]
    exact .refl m
  · rw [endState_ok done]
    exact .of_raise whole high

theorem confined_popTo {p : Word} (below : p.toNat + 8 ≤ L.codeBase) :
    Always Confined (popTo p : Exec L σ Unit) :=
  .bind .trans confined_pop fun w => confined_writeWord w below

/-! ## Instructions -/

theorem confined_arith (op : Arith) : Always Confined (arith op : Exec L σ Unit) :=
  .bind .trans (confined_peek 0) fun _ => .bind .trans (confined_peek 16) fun _ =>
    .bind .trans (confined_drop rfl) fun _ => confined_push _

/-- A load is made up of readings and pushes. -/
theorem load_closed {P : {γ : Type} → Exec L σ γ → Prop}
    (bind : ∀ {γ δ : Type} {work : Exec L σ γ} {rest : γ → Exec L σ δ}, P work → (∀ v, P (rest v)) →
      P (work >>= rest))
    (read : ∀ p, P (readWord p)) (push : ∀ w, P (push w)) (cell : Word) : P (load cell) := by
  have pushRead (p : Word) : P (readWord p >>= Machine.push : Exec L σ Unit) := bind (read p) push
  refine bind (read (cell + 8)) fun second => ?_
  cases Tag.of second with
  | integer => exact bind (push 0) fun _ => pushRead cell
  | string length =>
    show P (readWord (cell + 24) >>= fun w => Machine.push w >>= fun _ =>
      readWord (cell + 16) >>= fun w => Machine.push w >>= fun _ =>
      readWord (cell + 8) >>= fun w => Machine.push w >>= fun _ => readWord cell >>= Machine.push)
    refine bind (read _) fun _ => bind (push _) fun _ => ?_
    refine bind (read _) fun _ => bind (push _) fun _ => ?_
    refine bind (read _) fun _ => bind (push _) fun _ => ?_
    exact pushRead cell

theorem confined_load (cell : Word) : Always Confined (load cell : Exec L σ Unit) :=
  load_closed (P := Always Confined) (.bind .trans) confined_readWord confined_push cell

/-- A store is made up of looks at the stack, readings, pops to the cell and at most one copy. -/
theorem store_closed {P : {γ : Type} → Exec L σ γ → Prop}
    (bind : ∀ {γ δ : Type} {work : Exec L σ γ} {rest : γ → Exec L σ δ}, P work → (∀ v, P (rest v)) →
      P (work >>= rest))
    (read : ∀ p, P (readWord p)) (write : ∀ p w, P (writeWord p w)) (peek : P (peek 8))
    (pop : P pop) (drop : P (drop 24)) (copy : ∀ p q n, P (update (Arena.copy p q n))) (cell : Word) :
    P (store cell) := by
  have popTo (p : Word) : P (popTo p) := bind pop (write p)
  refine bind peek fun second => ?_
  cases Tag.of second with
  | integer => exact bind (popTo _) fun _ => popTo _
  | string length =>
    have rest : P (Machine.popTo (cell + 8) >>= fun _ => Machine.popTo (cell + 16) >>= fun _ =>
        Machine.popTo (cell + 24)) := bind (popTo _) fun _ => bind (popTo _) fun _ => popTo _
    refine bind (read _) fun current => ?_
    split
    · exact bind (read _) fun _ => bind pop fun _ => bind drop fun _ => copy _ _ _
    · split
      · exact bind pop fun _ => bind (write _ _) fun _ => rest
      · exact bind (popTo _) fun _ => rest

/-- A print is made up of readings, writes and output. -/
theorem print_closed [Sink σ] {P : {γ : Type} → Exec L σ γ → Prop}
    (bind : ∀ {γ δ : Type} {work : Exec L σ γ} {rest : γ → Exec L σ δ}, P work → (∀ v, P (rest v)) →
      P (work >>= rest))
    (read : ∀ p, P (readWord p)) (slice : ∀ p n, P (reading (·.slice p n)))
    (write : ∀ p bs, P (update (Arena.write p bs))) (emit : ∀ bs, P (emit bs)) (cell : Word) :
    P (print cell) := by
  refine bind (read cell) fun first => bind (read (cell + 8)) fun second => ?_
  cases Tag.of second with
  | string length => exact bind (slice _ _) fun _ => bind (emit _) fun _ => emit _
  | integer =>
    exact bind (write _ _) fun _ => bind (slice _ _) fun _ => bind (emit _) fun _ =>
      bind (write _ _) fun _ => emit _

/-- Printing the log is output, piece by piece. -/
theorem printLog_closed [Sink σ] {P : Exec L σ Unit → Prop} (nothing : P (pure ()))
    (bind : ∀ {work rest : Exec L σ Unit}, P work → P rest → P (work >>= fun _ => rest))
    (emit : ∀ bs, P (emit bs)) (log : Log) : P (printLog log) := by
  unfold printLog
  induction log.pieces with
  | nil => exact nothing
  | cons bs pieces ih => exact bind (emit bs) ih

theorem length_decimalBytes_toNat (w : Word) : (Numeral.decimalBytes w.toNat).length ≤ 20 := by
  have bound := w.toNat_lt
  exact (Numeral.length_decimalBytes_le_iff (by decide)).2 (by omega)

variable {cell : Word}

theorem confined_print [Sink σ] (isCell : L.IsCell cell) :
    Always Confined (print cell : Exec L σ Unit) := by
  have third := isCell.toNat_add (k := 16) (by decide)
  simp only [UInt64.reduceToNat] at third
  refine .bind .trans (confined_readWord cell) fun first => ?_
  refine .bind .trans (confined_readWord (cell + 8)) fun second => ?_
  cases Tag.of second with
  | string length =>
    exact .bind .trans (confined_reading _) fun _ => .bind .trans (confined_emit _) fun _ =>
      confined_emit _
  | integer =>
    have digits := length_decimalBytes_toNat first
    exact .bind .trans (confined_write (by omega)) fun _ => .bind .trans (confined_reading _) fun _ =>
      .bind .trans (confined_emit _) fun _ =>
        .bind .trans (confined_writeWord _ (by omega)) fun _ => confined_emit _

theorem confined_printLog [Sink σ] (log : Log) : Always Confined (printLog log : Exec L σ Unit) :=
  printLog_closed (.pure .refl ()) (fun first next => .bind .trans first fun _ => next)
    confined_emit log

theorem confined_release (isCell : L.IsCell cell) :
    Always Confined (update (Arena.markFree cell) : Exec L σ Unit) := by
  have first := isCell.toNat_add (k := 0) (by decide)
  have second := isCell.toNat_add (k := 8) (by decide)
  simp only [UInt64.reduceToNat] at first second
  intro m
  cases read : m.arena.readWord (cell + 8) with
  | error f =>
    have failed : (update (Arena.markFree cell) : Exec L σ Unit) m = .error f m := by
      simp only [update, Arena.markFree, read]
    rw [endState_error failed]
    exact .refl m
  | ok word =>
    cases tag : Tag.of word with
    | integer =>
      have same : (update (Arena.markFree cell) : Exec L σ Unit) m =
          writeWord cell freeSentinel m := by
        simp only [update, Arena.markFree, read, tag, writeWord]
      unfold endState
      rw [same]
      exact confined_writeWord freeSentinel (by omega) m
    | string length =>
      have same : (update (Arena.markFree cell) : Exec L σ Unit) m = writeWord (cell + 8) 0 m := by
        simp only [update, Arena.markFree, read, tag, writeWord]
      unfold endState
      rw [same]
      exact confined_writeWord 0 (by omega) m

/-! ## Stores -/

/-- A store to the cell copies the string on top of the stack over the old content of the cell, and
that lies, in part at least, in the code section. -/
structure CopiesToCode (m : Machine L σ) (cell : Word) : Prop where
  low : L.stackBase ≤ m.sp.toNat
  high : m.sp.toNat + 32 ≤ L.stackTop
  string : m.arena.wordAt (m.sp.toNat + 8) ≠ 0
  inPlace : Word.signedLe (m.arena.wordAt (m.sp.toNat + 8)) (m.arena.wordAt (cell.toNat + 8))
  source : L.Within (m.arena.wordAt m.sp.toNat).toNat (m.arena.wordAt (m.sp.toNat + 8)).toNat
  target : L.Within (m.arena.wordAt cell.toNat).toNat (m.arena.wordAt (m.sp.toNat + 8)).toNat
  reaches : (m.arena.wordAt cell.toNat).toNat < L.literalBase ∧
    L.codeBase < (m.arena.wordAt cell.toNat).toNat + (m.arena.wordAt (m.sp.toNat + 8)).toNat

instance (m : Machine L σ) (cell : Word) : Decidable (m.CopiesToCode cell) :=
  decidable_of_iff (L.stackBase ≤ m.sp.toNat ∧ m.sp.toNat + 32 ≤ L.stackTop ∧
      m.arena.wordAt (m.sp.toNat + 8) ≠ 0 ∧
      Word.signedLe (m.arena.wordAt (m.sp.toNat + 8)) (m.arena.wordAt (cell.toNat + 8)) ∧
      L.Within (m.arena.wordAt m.sp.toNat).toNat (m.arena.wordAt (m.sp.toNat + 8)).toNat ∧
      L.Within (m.arena.wordAt cell.toNat).toNat (m.arena.wordAt (m.sp.toNat + 8)).toNat ∧
      (m.arena.wordAt cell.toNat).toNat < L.literalBase ∧
        L.codeBase < (m.arena.wordAt cell.toNat).toNat + (m.arena.wordAt (m.sp.toNat + 8)).toNat)
    ⟨fun ⟨low, high, string, inPlace, source, target, reaches⟩ =>
      ⟨low, high, string, inPlace, source, target, reaches⟩,
    fun h => ⟨h.low, h.high, h.string, h.inPlace, h.source, h.target, h.reaches⟩⟩

/-- A copy that stays off the code section. -/
theorem confined_copy {source target : Word} {n : Nat} (m : Machine L σ)
    (apart : L.Within source.toNat n → L.Within target.toNat n →
      L.literalBase ≤ target.toNat ∨ target.toNat + n ≤ L.codeBase) :
    Confined m (endState (update (Arena.copy source target n)) m) := by
  by_cases within : L.Within source.toNat n ∧ L.Within target.toNat n
  · have done : (update (Arena.copy source target n) : Exec L σ Unit) m =
        .ok () { m with arena := m.arena.forwardCopy source.toNat target.toNat n } := by
      simp only [update, Arena.copy_of_within within.1 within.2]
    have same := Arena.sameOutside_forwardCopy m.arena source.toNat target.toNat n
    have off := apart within.1 within.2
    rw [endState_ok done]
    exact ⟨rfl, rfl, id, fun _ => same.inside (by omega)⟩
  · obtain ⟨f, copied⟩ := Arena.copy_of_not_within (a := m.arena) within
    have failed : (update (Arena.copy source target n) : Exec L σ Unit) m = .error f m := by
      simp only [update, copied]
    rw [endState_error failed]
    exact .refl m

/-- Storing a string that does not go over the old content. -/
theorem confined_storeString_header (isCell : L.IsCell cell) (length : Word) :
    Always Confined
      (if Word.signedLe length (.ofNat inlineCapacity) then do
        let _ ← pop
        writeWord cell (cell + 16)
        popTo (cell + 8)
        popTo (cell + 16)
        popTo (cell + 24)
      else do
        popTo cell
        popTo (cell + 8)
        popTo (cell + 16)
        popTo (cell + 24) : Exec L σ Unit) := by
  have first := isCell.toNat_add (k := 0) (by decide)
  have second := isCell.toNat_add (k := 8) (by decide)
  have third := isCell.toNat_add (k := 16) (by decide)
  have fourth := isCell.toNat_add (k := 24) (by decide)
  simp only [UInt64.reduceToNat] at first second third fourth
  have rest : Always Confined
      (popTo (cell + 8) >>= fun _ => popTo (cell + 16) >>= fun _ => popTo (cell + 24) :
        Exec L σ Unit) :=
    .bind .trans (confined_popTo (by omega)) fun _ =>
      .bind .trans (confined_popTo (by omega)) fun _ => confined_popTo (by omega)
  split
  · exact .bind .trans confined_pop fun _ =>
      .bind .trans (confined_writeWord _ (by omega)) fun _ => rest
  · exact .bind .trans (confined_popTo (by omega)) fun _ => rest

/-- Storing a string over the old content, which does not reach into the code section. -/
theorem confined_copyString {target length : Word} (m : Machine L σ) (low : L.stackBase ≤ m.sp.toNat)
    (high : m.sp.toNat + 16 ≤ L.stackTop)
    (apart : m.sp.toNat + 32 ≤ L.stackTop →
      L.Within (m.arena.wordAt m.sp.toNat).toNat length.toNat →
      L.Within target.toNat length.toNat →
      L.literalBase ≤ target.toNat ∨ target.toNat + length.toNat ≤ L.codeBase) :
    Confined m (endState (do
      let source ← pop
      drop 24
      update (Arena.copy source target length.toNat)) m) := by
  have := L.stackTop_lt
  have next : (m.sp + 8).toNat = m.sp.toNat + 8 := Word.toNat_add_eight (by omega)
  have popped : Confined m { m with sp := m.sp + 8 } :=
    .of_raise rfl (by simp only [UInt64.reduceToNat]; omega)
  rw [endState_bind_ok (pop_eq low (by omega))]
  by_cases whole : m.sp.toNat + 32 ≤ L.stackTop
  · have fits : (m.sp + 8).toNat + (24 : Word).toNat ≤ L.stackTop := by
      simp only [UInt64.reduceToNat, next]
      omega
    rw [endState_bind_ok (drop_eq (m := { m with sp := m.sp + 8 }) fits)]
    have dropped : Confined { m with sp := m.sp + 8 } { m with sp := m.sp + 8 + 24 } :=
      .of_raise rfl fits
    exact (popped.trans dropped).trans (confined_copy _ (apart whole))
  · have beyond : L.stackTop < (m.sp + 8).toNat + (24 : Word).toNat := by
      simp only [UInt64.reduceToNat, next]
      omega
    have failed : drop 24 { m with sp := m.sp + 8 } =
        .error (.stackUnderflow (m.sp + 8 + 24)) { m with sp := m.sp + 8 } := by
      rw [drop, bind_ok get_apply, if_pos beyond]
      rfl
    rw [endState_error (bind_error failed)]
    exact popped

/-- A store that does not copy into the code section. -/
theorem confined_store (isCell : L.IsCell cell) (m : Machine L σ) (spares : ¬ m.CopiesToCode cell) :
    Confined m (endState (store cell) m) := by
  have := L.ordered
  have first := isCell.toNat_add (k := 0) (by decide)
  have second := isCell.toNat_add (k := 8) (by decide)
  have low' := isCell.bounds.1
  simp only [UInt64.reduceToNat] at first second
  cases looked : peek 8 m with
  | error f m' =>
    have same : m' = m := by
      have state := peek_state 8 m
      rwa [endState_error looked] at state
    have failed : store cell m = .error f m' := by
      rw [store, bind_error looked]
    rw [endState_error failed, same]
    exact .refl m
  | ok length m' =>
    obtain ⟨rfl, low, high, value⟩ := peek_eq_ok looked
    simp only [UInt64.reduceToNat] at high value
    rw [store, endState_bind_ok looked]
    by_cases zero : length = 0
    · rw [zero, Tag.of_zero]
      have moved : Always Confined (popTo cell >>= fun _ => popTo (cell + 8) : Exec L σ Unit) :=
        .bind .trans (confined_popTo (by omega)) fun _ => confined_popTo (by omega)
      exact moved m'
    · rw [Tag.of_ne_zero zero]
      have current : readWord (cell + 8) m' = .ok (m'.arena.wordAt (cell.toNat + 8)) m' := by
        rw [readWord_eq m' (by unfold Layout.Within; omega), second.1]
      have target : readWord cell m' = .ok (m'.arena.wordAt cell.toNat) m' :=
        readWord_eq m' (by unfold Layout.Within; omega)
      show Confined m' (endState (storeString cell length) m')
      rw [storeString, endState_bind_ok current]
      by_cases inPlace : Word.signedLe length (m'.arena.wordAt (cell.toNat + 8))
      · rw [if_pos inPlace, endState_bind_ok target]
        refine confined_copyString m' low (by omega) fun whole source target => ?_
        -- otherwise the copy would reach into the code section
        rw [value] at zero inPlace source target ⊢
        by_cases reaches : (m'.arena.wordAt cell.toNat).toNat < L.literalBase ∧
            L.codeBase < (m'.arena.wordAt cell.toNat).toNat +
              (m'.arena.wordAt (m'.sp.toNat + 8)).toNat
        · exact absurd ⟨low, whole, zero, inPlace, source, target, reaches⟩ spares
        · omega
      · rw [if_neg inPlace]
        exact confined_storeString_header isCell length m'

end Osl.Machine
