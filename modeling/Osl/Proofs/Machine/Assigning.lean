import Osl.Proofs.Machine.Balance
import Osl.Proofs.Machine.ScratchStack

/-!
# The routine of an assignment on any stack pointer

A string may have been copied over the saved stack pointer, and then a routine works on whatever word
it finds there. A push checks only where its word starts, so that on a stack pointer which is not whole
words above the lowest address of the scratch stack it may reach seven bytes into the code section. The
instructions that lie there are those the machine has come past by then (`Assigning.step`): the first
operand of an assignment is nine bytes long. So the store is executed as it was compiled, and unless it
copies a string in place, it finds on the stack all that it pops and moves that into the cell
(`store_afresh`).
-/

namespace Osl
set_option autoImplicit false

variable {L : Layout} {σ : Type}

/-- The instructions that the code of an expression is made up of. -/
def Instr.IsOperand : Instr → Prop
  | .push _ | .load _ | .arith _ => True
  | .enter | .leave | .ret | .store _ | .print _ | .release _ | .printLog => False

theorem Located.isOperand_code (t : Located) : ∀ i ∈ t.code, i.IsOperand := by
  intro i member
  rcases mem_code member with ⟨w, rfl⟩ | ⟨cell, -, rfl⟩ | ⟨op, rfl⟩ <;> trivial

namespace Machine

variable {α : Type} {m m' m₁ : Machine L σ} {cell : Word} {i : Instr} {is rest : List Instr}

/-! ## A store that does not copy in place -/

theorem pop_eq_ok {w : Word} (popped : pop m = .ok w m') :
    m.sp.toNat + 8 ≤ L.stackTop ∧ m'.sp.toNat = m.sp.toNat + 8 := by
  obtain ⟨v, m₁, peeked, moved⟩ := bind_eq_ok popped
  obtain ⟨rfl, -, high, -⟩ := peek_eq_ok peeked
  have := L.stackTop_lt
  cases moved
  exact ⟨high, Word.toNat_add_eight (by omega)⟩

theorem sp_of_writeWord {p w : Word} (written : writeWord p w m = .ok () m') : m'.sp = m.sp := by
  have kept : KeepsStack m (endState (writeWord p w) m) := keepsStack_update _ m
  rw [endState_ok written] at kept
  exact kept.sp

theorem popTo_eq_ok {p : Word} (done : popTo p m = .ok () m') :
    m.sp.toNat + 8 ≤ L.stackTop ∧ m'.sp.toNat = m.sp.toNat + 8 := by
  obtain ⟨w, m₁, popped, written⟩ := bind_eq_ok done
  rw [sp_of_writeWord written]
  exact pop_eq_ok popped

/-- Three words that are popped lie on the stack. -/
theorem high_of_three {p q r : Word}
    (done : (popTo p >>= fun _ => popTo q >>= fun _ => popTo r : Exec L σ Unit) m = .ok () m') :
    m.sp.toNat + 24 ≤ L.stackTop := by
  obtain ⟨_, m₁, first, done⟩ := bind_eq_ok done
  obtain ⟨_, m₂, second, third⟩ := bind_eq_ok done
  have := popTo_eq_ok first
  have := popTo_eq_ok second
  have := popTo_eq_ok third
  omega

/-- A string that is not copied in place has four words on the stack if its store succeeds. -/
theorem high_of_storeString {length : Word} (isCell : L.IsCell cell)
    (stored : storeString cell length m = .ok () m')
    (longer : Word.signedLe length (m.arena.wordAt (cell.toNat + 8)) = false) :
    m.sp.toNat + 32 ≤ L.stackTop := by
  have := L.ordered
  have bounds := isCell.bounds
  have next := isCell.toNat_add (k := 8) (by decide)
  simp only [UInt64.reduceToNat] at next
  have current : readWord (cell + 8) m = .ok (m.arena.wordAt (cell.toNat + 8)) m := by
    rw [readWord_eq m (by unfold Layout.Within; omega), next.1]
  rw [storeString, bind_ok current, if_neg (by rw [longer]; exact Bool.false_ne_true)] at stored
  split at stored
  · obtain ⟨_, m₁, popped, stored⟩ := bind_eq_ok stored
    obtain ⟨_, m₂, written, stored⟩ := bind_eq_ok stored
    have first := pop_eq_ok popped
    have rest := high_of_three stored
    rw [sp_of_writeWord written] at rest
    omega
  · obtain ⟨_, m₁, popped, stored⟩ := bind_eq_ok stored
    have first := popTo_eq_ok popped
    have rest := high_of_three stored
    omega

/-- A store that succeeds without copying in place has moved two words into the cell if the value is
tagged as an integer, and four if it is tagged as a string. -/
theorem store_afresh (isCell : L.IsCell cell) (stored : store cell m = .ok () m')
    (afresh : ¬ m.CopiesInPlace cell) :
    ∃ ws, Moved m m' cell.toNat ws ∧
      ws.length = if m.arena.wordAt (m.sp.toNat + 8) = 0 then 2 else 4 := by
  have := L.ordered
  have bounds := isCell.bounds
  obtain ⟨tag, m₀, peeked, rest⟩ := bind_eq_ok stored
  obtain ⟨rfl, low, high, same⟩ := peek_eq_ok peeked
  simp only [UInt64.reduceToNat] at high same
  by_cases zero : m₀.arena.wordAt (m₀.sp.toNat + 8) = 0
  · obtain ⟨m₁, again, moved⟩ := store_integer cell low high
      ⟨rfl, zero, trivial⟩ (by omega) (by omega)
    rw [stored] at again
    cases again
    exact ⟨_, moved, (if_pos zero).symm⟩
  · have longer : Word.signedLe tag (m₀.arena.wordAt (cell.toNat + 8)) = false := by
      rw [same, ← Bool.not_eq_true]
      exact fun inPlace => afresh ⟨zero, inPlace⟩
    rw [Tag.of_ne_zero (by rwa [same])] at rest
    have all := high_of_storeString isCell rest longer
    rw [same] at longer
    rw [if_neg zero]
    cases short : Word.signedLe (m₀.arena.wordAt (m₀.sp.toNat + 8)) (.ofNat inlineCapacity) with
    | true =>
      obtain ⟨m₁, again, moved⟩ := store_inline cell low all ⟨rfl, rfl, rfl, rfl, trivial⟩ zero
        (by omega) bounds.2 longer short
      rw [stored] at again
      cases again
      exact ⟨_, moved, rfl⟩
    | false =>
      obtain ⟨m₁, again, moved⟩ := store_header cell low all ⟨rfl, rfl, rfl, rfl, trivial⟩ zero
        (by omega) bounds.2 longer short
      rw [stored] at again
      cases again
      exact ⟨_, moved, rfl⟩

/-! ## Operands -/

/-- From `m` to `m'` words were written that start on the scratch stack. -/
structure Spills (m m' : Machine L σ) : Prop where
  ip : m'.ip = m.ip
  same : m.arena.SameOutside m'.arena L.stackBase (L.codeBase + 7)

namespace Spills

theorem refl (m : Machine L σ) : Spills m m := ⟨rfl, .refl _ _ _⟩

theorem trans {m'' : Machine L σ} (h : Spills m m') (h' : Spills m' m'') : Spills m m'' :=
  ⟨h'.ip.trans h.ip, h.same.trans h'.same⟩

end Spills

theorem spills_readWord (p : Word) : Always Spills (readWord p : Exec L σ Word) := by
  intro m
  rw [readWord, reading_state]
  exact .refl m

theorem spills_peek (offset : Word) : Always Spills (peek offset : Exec L σ Word) := by
  intro m
  rw [peek_state]
  exact .refl m

theorem spills_drop (n : Word) : Always Spills (drop n : Exec L σ Unit) := by
  intro m
  rcases drop_cases n m with ⟨f, failed⟩ | ⟨-, done⟩
  · rw [endState_error failed]
    exact .refl m
  · rw [endState_ok done]
    exact ⟨rfl, .refl _ _ _⟩

theorem spills_push (w : Word) : Always Spills (push w : Exec L σ Unit) := by
  intro m
  rcases push_cases w m with ⟨f, failed⟩ | ⟨low, high, done⟩
  · rw [endState_error failed]
    exact .refl m
  · have top : L.codeBase = L.stackTop := rfl
    have written := Arena.sameOutside_overlay_word m.arena (m.sp - 8).toNat w
    rw [endState_ok done]
    exact ⟨rfl, written.mono low (by omega)⟩

theorem spills_load (cell : Word) : Always Spills (load cell : Exec L σ Unit) :=
  load_closed (P := Always Spills) (.bind .trans) spills_readWord spills_push cell

theorem spills_arith (op : Arith) : Always Spills (arith op : Exec L σ Unit) :=
  .bind .trans (spills_peek 0) fun _ => .bind .trans (spills_peek 16) fun _ =>
    .bind .trans (spills_drop 24) fun _ => spills_push _

variable [Sink σ] {log : Log}

theorem spills_exec (operand : i.IsOperand) : Always Spills (exec log i : Exec L σ (Option Word)) := by
  cases i with
  | enter | leave | ret | store | print | release | printLog => cases operand
  | push w => exact .bind .trans (spills_push w) fun _ => .pure .refl _
  | load cell => exact .bind .trans (spills_load cell) fun _ => .pure .refl _
  | arith op => exact .bind .trans (spills_arith op) fun _ => .pure .refl _

/-! ## The routine -/

/-- No store on the way from `m` copies a string to where its cell points. -/
def StoresAfresh (log : Log) (m : Machine L σ) : Prop :=
  ∀ n m₁ m₂ cell, Steps log n m m₁ → fetch m₁ = .ok (.store cell) m₂ → ¬ m₂.CopiesInPlace cell

theorem StoresAfresh.tail (h : StoresAfresh log m) (first : step log m = .ok none m') :
    StoresAfresh log m' :=
  fun n m₁ m₂ cell steps fetched => h (n + 1) m₁ m₂ cell (.succ first steps) fetched

instance (m : Machine L σ) (cell : Word) : Decidable (m.CopiesInPlace cell) :=
  decidable_of_iff (_ ∧ _) ⟨fun h => ⟨h.1, h.2⟩, fun h => ⟨h.string, h.inPlace⟩⟩

/-- Whether the next step copies a string to where its cell points. -/
def copies (m : Machine L σ) : Bool :=
  match fetch m with
  | .ok (.store cell) m' => decide (m'.CopiesInPlace cell)
  | _ => false

theorem storesAfresh_of_avoids {n : Nat} (h : m.avoids copies log n = true) : StoresAfresh log m := by
  intro k m₁ m₂ cell steps fetched inPlace
  have harmless := eq_false_of_avoids h steps
  rw [copies, fetched] at harmless
  exact of_decide_eq_false harmless inPlace

/-- Where the routine of an assignment to a cell goes on with which instructions. What is pushed by the
next operand does not reach the one behind it. -/
inductive AssignPhase (L : Layout) (cell : Word) : Nat → List Instr → Prop
  | entering {i : Instr} {is : List Instr} : i.encode.length = 9 → (∀ j ∈ i :: is, j.IsOperand) →
      AssignPhase L cell L.codeBase (framed (i :: is ++ [.store cell]))
  | computing {p : Nat} {is : List Instr} : (∀ j ∈ is, j.IsOperand) →
      (∀ j ∈ is.head?, L.codeBase + 7 ≤ p + j.encode.length) →
      AssignPhase L cell p (is ++ [.store cell, .leave, .ret])
  | stored {p : Nat} : AssignPhase L cell p [.leave, .ret]
  | left {p : Nat} : AssignPhase L cell p [.ret]

/-- The machine runs the routine of an assignment to a cell and has the given instructions ahead. -/
structure Assigning (cell : Word) (is : List Instr) (m : Machine L σ) : Prop where
  code : CodeAt m.arena m.ip.toNat is
  phase : AssignPhase L cell m.ip.toNat is

theorem AssignPhase.exists_cons {p : Nat} (h : AssignPhase L cell p is) : ∃ i rest, is = i :: rest := by
  cases h with
  | entering | stored | left => exact ⟨_, _, rfl⟩
  | @computing _ is => cases is <;> exact ⟨_, _, rfl⟩

/-- An operand is followed by the next one. -/
theorem Assigning.step_operand (operands : ∀ j ∈ i :: rest, j.IsOperand)
    (clear : L.codeBase + 7 ≤ m.ip.toNat + i.encode.length)
    (code : CodeAt m.arena m.ip.toNat (i :: (rest ++ [.store cell, .leave, .ret])))
    (stepped : step log m = .ok none m') :
    Assigning cell (rest ++ [.store cell, .leave, .ret]) m' := by
  have spills : Spills _ (endState (exec log i) (m.past i)) :=
    spills_exec (operands i List.mem_cons_self) (m.past i)
  rw [step_eq_exec code] at stepped
  rw [endState_ok stepped] at spills
  have place := toNat_ip_past code
  refine ⟨codeAt_next code spills.ip spills.same clear, ?_⟩
  rw [spills.ip, place]
  exact .computing (fun j member => operands j (List.mem_cons_of_mem _ member))
    fun j _ => Nat.le_trans clear (Nat.le_add_right _ _)

/-- A store that does not copy in place leaves what comes behind it alone. -/
theorem Assigning.step_store (isCell : L.IsCell cell)
    (code : CodeAt m.arena m.ip.toNat [.store cell, .leave, .ret]) (afresh : StoresAfresh log m)
    (stepped : step log m = .ok none m') : Assigning cell [.leave, .ret] m' := by
  rw [step_eq_exec code] at stepped
  obtain ⟨_, m₁, stored, last⟩ := bind_eq_ok stepped
  cases last
  obtain ⟨ws, moved, length⟩ := store_afresh isCell stored (afresh 0 m _ cell (.zero m) (fetch_eq code))
  have reach := (isCell.toNat_add (k := 24) (by decide)).2
  simp only [UInt64.reduceToNat] at reach
  have few : ws.length ≤ 4 := by
    rw [length]
    split <;> omega
  have low := code.low
  exact ⟨codeAt_next code moved.ip moved.same (by omega), .stored⟩

/-- The routine goes on with one instruction after another. -/
theorem Assigning.step (h : Assigning cell (i :: rest) m) (isCell : L.IsCell cell)
    (afresh : StoresAfresh log m) (stepped : step log m = .ok none m') : Assigning cell rest m' := by
  have := L.ordered
  obtain ⟨code, phase⟩ := h
  have low := code.low
  generalize place : m.ip.toNat = p at phase
  generalize all : i :: rest = is at phase
  cases phase with
  | @entering j js nine operands =>
    cases all
    rw [step_eq_exec code] at stepped
    cases stepped
    have entered := m.arena.sameOutside_save m.sp
    refine ⟨codeAt_next code rfl entered (by omega), ?_⟩
    have next := toNat_ip_past code
    rw [place] at next
    show AssignPhase L cell (m.past .enter).ip.toNat (j :: js ++ [.store cell] ++ [.leave, .ret])
    rw [List.append_assoc, next]
    refine .computing operands ?_
    rintro _ ⟨⟩
    rw [nine]
    omega
  | @computing _ js operands clear =>
    cases js with
    | nil =>
      cases all
      exact step_store isCell code afresh stepped
    | cons j js =>
      cases all
      exact step_operand operands (by rw [place]; exact clear i rfl) code stepped
  | stored =>
    cases all
    rw [step_eq_exec code] at stepped
    obtain ⟨_, m₁, gone, last⟩ := bind_eq_ok stepped
    cases last
    by_cases found : m.arena.wordAt L.savedSp = callerSp
    · have done : leave (m.past .leave) = .ok () _ := leave_ok found
      rw [done] at gone
      cases gone
      exact ⟨codeAt_next code rfl (m.arena.sameOutside_save m.sp) (by omega), .left⟩
    · have failed : leave (m.past .leave) = .error _ _ := leave_switched found
      rw [failed] at gone
      cases gone
  | left =>
    cases all
    rw [step_eq_exec code] at stepped
    cases stepped

/-- After any number of steps the routine has done as many of its instructions and goes on with the
others. -/
theorem Assigning.steps {n : Nat} (h : Assigning cell is m) (isCell : L.IsCell cell)
    (afresh : StoresAfresh log m) (steps : Steps log n m m') :
    ∃ done rest, is = done ++ rest ∧ done.length = n ∧ Assigning cell rest m' := by
  induction steps generalizing is with
  | zero m => exact ⟨[], is, rfl, rfl, h⟩
  | succ first _ ih =>
    obtain ⟨i, rest, rfl⟩ := h.phase.exists_cons
    obtain ⟨done, later, rfl, length, there⟩ := ih (h.step isCell afresh first) (afresh.tail first)
    exact ⟨i :: done, later, rfl, by rw [List.length_cons, length], there⟩

/-- The instructions of the routine are executed one after another until one of them fails. -/
theorem Assigning.exists_steps (h : Assigning cell (is ++ rest) m) (isCell : L.IsCell cell)
    (afresh : StoresAfresh log m) (goesOn : ∀ i ∈ is, i ≠ .ret) :
    ∃ n m', n ≤ is.length ∧ Steps log n m m' ∧
      (Assigning cell rest m' ∨ ∃ f m'', Machine.step log m' = .error f m'') := by
  induction is generalizing m with
  | nil => exact ⟨0, m, Nat.le_refl 0, .zero m, .inl h⟩
  | cons i is ih =>
    have stepped : Machine.step log m = exec log i (m.past i) := step_eq_exec h.code
    cases run : exec log i (m.past i) with
    | error f m' =>
      exact ⟨0, m, Nat.zero_le _, .zero m, .inr ⟨f, m', stepped.trans run⟩⟩
    | ok status m' =>
      cases status with
      | some status => exact absurd (eq_ret_of_exec run) (goesOn i List.mem_cons_self)
      | none =>
        have first := stepped.trans run
        obtain ⟨n, m'', bound, steps, there⟩ := ih (h.step isCell afresh first) (afresh.tail first)
          fun j member => goesOn j (List.mem_cons_of_mem _ member)
        exact ⟨n + 1, m'', Nat.succ_le_succ bound, .succ first steps, there⟩

end Machine
end Osl
