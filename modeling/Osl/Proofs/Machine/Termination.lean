import Osl.Proofs.Machine.ScratchStack

/-!
# Every run ends

The machine goes through memory in one direction: an instruction is taken from where the instruction
pointer is, the pointer goes past it, and no instruction sets it (`keepsIp_exec`). That depends on
nothing that lies in the arena, so it does not matter what the bytes are, whether instructions have
written over others or the stacks have been exchanged. An instruction that is fetched lies in the
arena as a whole (`fetch_eq_ok`), so the distance to the end of the arena bounds the number of steps.

`Ends` is the loop without any bound on its steps. `exists_ends` says that it comes to an end from
every state, and `Ends.run_eq` that `Machine.run`, which counts its steps, ends in the same way.
-/

namespace Osl
set_option autoImplicit false

/-! ## Sizes of instructions -/

/-- An instruction without an operand is one byte. -/
theorem Opcode.length_encode_of_bare {op : Opcode} {i : Instr} (h : op.form = .bare i) :
    i.encode.length = 1 := by
  cases op <;> cases h <;> rfl

/-- An instruction with an operand is nine bytes. -/
theorem Opcode.length_encode_of_withOperand {op : Opcode} {make : Word → Instr}
    (h : op.form = .withOperand make) (w : Word) : (make w).encode.length = 9 := by
  cases op <;> cases h <;> rfl

namespace Machine

variable {L : Layout} {σ α : Type} {m m' m'' : Machine L σ} {i : Instr}

/-! ## Fetching -/

theorem fetchOpcode_eq_ok {op : Opcode} (h : fetchOpcode m = .ok op m') :
    L.Within m.ip.toNat 1 ∧ m' = { m with ip := m.ip + 1 } := by
  rw [fetchOpcode, bind_ok get_apply] at h
  obtain ⟨byte, m₁, run, rest⟩ := bind_eq_ok h
  obtain ⟨read, rfl⟩ := reading_eq_ok run
  cases decoded : Opcode.ofByte? byte with
  | none =>
    rw [decoded] at rest
    cases rest
  | some op' =>
    rw [decoded] at rest
    cases rest
    rw [Arena.readByte_eq_ite] at read
    split at read
    · exact ⟨‹_›, rfl⟩
    · cases read

theorem fetchOperand_eq_ok {w : Word} (h : fetchOperand m = .ok w m') :
    L.Within m.ip.toNat 8 ∧ m' = { m with ip := m.ip + 8 } := by
  rw [fetchOperand, bind_ok get_apply] at h
  obtain ⟨word, m₁, run, rest⟩ := bind_eq_ok h
  obtain ⟨read, rfl⟩ := reading_eq_ok run
  cases rest
  rw [Arena.readWord_eq_ite] at read
  split at read
  · exact ⟨‹_›, rfl⟩
  · cases read

/-- An instruction that is fetched lies in the arena, and the instruction pointer goes past it. -/
theorem fetch_eq_ok (h : fetch m = .ok i m') :
    L.Within m.ip.toNat i.encode.length ∧ m' = m.past i := by
  have := L.stop_lt
  obtain ⟨op, m₁, opcode, rest⟩ := bind_eq_ok h
  obtain ⟨within, rfl⟩ := fetchOpcode_eq_ok opcode
  cases form : op.form with
  | bare j =>
    rw [form] at rest
    cases rest
    have size := Opcode.length_encode_of_bare form
    rw [past, size]
    exact ⟨within, rfl⟩
  | withOperand make =>
    rw [form] at rest
    obtain ⟨w, m₂, operand, made⟩ := bind_eq_ok rest
    obtain ⟨within', rfl⟩ := fetchOperand_eq_ok operand
    cases made
    have size := Opcode.length_encode_of_withOperand form w
    have nine : m.ip + 1 + 8 = m.ip + .ofNat 9 := by grind
    have next : (m.ip + 1).toNat = m.ip.toNat + 1 := by
      have := within.2
      exact Word.toNat_add_of_lt (by simp only [UInt64.reduceToNat]; omega)
    rw [past, size, ← nine]
    refine ⟨?_, rfl⟩
    unfold Layout.Within at *
    dsimp only at within'
    omega

/-! ## No instruction sets the instruction pointer -/

/-- From `m` to `m'` the instruction pointer has not moved. -/
def KeepsIp (m m' : Machine L σ) : Prop := m'.ip = m.ip

namespace KeepsIp

theorem refl (m : Machine L σ) : KeepsIp m m := rfl

theorem trans (h : KeepsIp m m') (h' : KeepsIp m' m'') : KeepsIp m m'' := Eq.trans h' h

theorem of_confined {work : Exec L σ α} (h : Always Confined work) : Always KeepsIp work :=
  fun m => (h m).ip

theorem modify {f : Machine L σ → Machine L σ} (h : ∀ m, KeepsIp m (f m)) :
    Always KeepsIp (modify f : Exec L σ Unit) := h

end KeepsIp

theorem keepsIp_update (f : Arena.Update L) : Always KeepsIp (update f : Exec L σ Unit) := by
  intro m
  rw [update_state]
  rfl

theorem keepsIp_store (cell : Word) : Always KeepsIp (store cell : Exec L σ Unit) :=
  store_closed (P := Always KeepsIp) (.bind .trans) (fun p => .of_confined (confined_readWord p))
    (fun _ _ => keepsIp_update _) (.of_confined (confined_peek 8)) (.of_confined confined_pop)
    (.of_confined (confined_drop rfl)) (fun _ _ _ => keepsIp_update _) cell

theorem keepsIp_leave : Always KeepsIp (leave : Exec L σ Unit) := by
  intro m
  rw [endState_leave]
  rfl

variable [Sink σ] {log : Log} {n k : Nat}

theorem keepsIp_print (cell : Word) : Always KeepsIp (print cell : Exec L σ Unit) :=
  print_closed (P := Always KeepsIp) (.bind .trans) (fun p => .of_confined (confined_readWord p))
    (fun _ _ => .of_confined (confined_reading _)) (fun _ _ => keepsIp_update _)
    (fun bs => .of_confined (confined_emit bs)) cell

/-- Whatever its operand is and however it ends, an instruction leaves the instruction pointer where
fetching has put it. -/
theorem keepsIp_exec (log : Log) (i : Instr) :
    Always KeepsIp (exec log i : Exec L σ (Option Word)) := by
  have thenNone {work : Exec L σ Unit} (keeps : Always KeepsIp work) :
      Always KeepsIp (work >>= fun _ => pure (none : Option Word)) :=
    .bind .trans keeps fun _ => .pure .refl _
  cases i with
  | enter => exact thenNone (.modify fun _ => rfl)
  | leave => exact thenNone keepsIp_leave
  | ret => exact .pure .refl _
  | push w => exact thenNone (.of_confined (confined_push w))
  | load cell => exact thenNone (.of_confined (confined_load cell))
  | store cell => exact thenNone (keepsIp_store cell)
  | arith op => exact thenNone (.of_confined (confined_arith op))
  | print cell => exact thenNone (keepsIp_print cell)
  | release cell => exact thenNone (keepsIp_update _)
  | printLog => exact thenNone (.of_confined (confined_printLog log))

/-- A step that goes on has moved the instruction pointer past an instruction in the arena. -/
theorem ip_of_step (h : step log m = .ok none m') :
    ∃ i : Instr, L.Within m.ip.toNat i.encode.length ∧ m'.ip.toNat = m.ip.toNat + i.encode.length := by
  obtain ⟨i, m₁, fetched, run⟩ := bind_eq_ok h
  obtain ⟨within, rfl⟩ := fetch_eq_ok fetched
  have kept : m'.ip = (m.past i).ip := by
    have kept := keepsIp_exec log i (m.past i)
    rwa [endState_ok run] at kept
  exact ⟨i, within, by rw [kept, toNat_ip_past_of_within within]⟩

/-- The instruction pointer moves on, and not past the end of the arena. -/
theorem ip_lt_of_step (h : step log m = .ok none m') :
    m.ip.toNat < m'.ip.toNat ∧ m'.ip.toNat ≤ L.stop := by
  obtain ⟨i, within, moved⟩ := ip_of_step h
  have size := i.length_encode_pos
  have inside := within.2
  omega

/-! ## The loop -/

/-- From `m` on, the machine ends with `r` in its `n`-th step if it is let run for as long as it goes
on. A fault puts the stacks back. -/
inductive Ends (log : Log) : Nat → Machine L σ → EStateM.Result Fault (Machine L σ) Word → Prop
  | returned {m m' : Machine L σ} {status : Word} :
      step log m = .ok (some status) m' → Ends log 1 m (.ok status m')
  | faulted {m m' : Machine L σ} {f : Fault} :
      step log m = .error f m' → Ends log 1 m (.error f m'.unwind)
  | goesOn {n : Nat} {m m' : Machine L σ} {r : EStateM.Result Fault (Machine L σ) Word} :
      step log m = .ok none m' → Ends log n m' r → Ends log (n + 1) m r

/-- The machine comes to an end from every state. The induction is on the distance to the end of the
arena, which every step that goes on makes smaller. -/
theorem exists_ends (log : Log) (m : Machine L σ) :
    ∃ n ≤ L.stop - m.ip.toNat + 1, ∃ r, Ends log n m r := by
  generalize distance : L.stop - m.ip.toNat = d
  induction d using Nat.strongRecOn generalizing m with
  | _ d ih =>
    cases stepped : step log m with
    | error f m' => exact ⟨1, by omega, _, .faulted stepped⟩
    | ok status m' =>
      cases status with
      | some status => exact ⟨1, by omega, _, .returned stepped⟩
      | none =>
        have moved := ip_lt_of_step stepped
        obtain ⟨n, bound, r, ends⟩ := ih (L.stop - m'.ip.toNat) (by omega) m' rfl
        exact ⟨n + 1, by omega, r, .goesOn stepped ends⟩

/-- The last step of a run, behind the steps that have gone on. -/
theorem Ends.exists_last {r : EStateM.Result Fault (Machine L σ) Word} (h : Ends log n m r) :
    ∃ k m', n = k + 1 ∧ Steps log k m m' ∧
      ((∃ status m'', step log m' = .ok (some status) m'' ∧ r = .ok status m'') ∨
        ∃ f m'', step log m' = .error f m'' ∧ r = .error f m''.unwind) := by
  induction h with
  | returned last => exact ⟨0, _, rfl, .zero _, .inl ⟨_, _, last, rfl⟩⟩
  | faulted last => exact ⟨0, _, rfl, .zero _, .inr ⟨_, _, last, rfl⟩⟩
  | goesOn first _ ih =>
    obtain ⟨k, m', rfl, steps, last⟩ := ih
    exact ⟨k + 1, m', rfl, .succ first steps, last⟩

/-- `run`, which stops counting after `stepBound L` steps, ends as the loop does that ends by then. -/
theorem Ends.run_eq {r : EStateM.Result Fault (Machine L σ) Word} (h : Ends log n m.atStart r)
    (bound : n ≤ stepBound L) : run log m = r := by
  obtain ⟨k, m', rfl, steps, last⟩ := h.exists_last
  rcases last with ⟨status, m'', returned, rfl⟩ | ⟨f, m'', failed, rfl⟩
  · exact run_of_return steps returned bound
  · exact run_of_fault steps failed bound

/-- From whatever lies in the arena, a run comes to a status or a fault in as many steps as there are
addresses from the start of the code section to the end of the arena, and one more; for the
instruction pointer moves on in each step that neither returns nor faults. -/
theorem run_ends (log : Log) (m : Machine L σ) :
    (∃ n ≤ L.stop - L.codeBase + 1, Ends log n m.atStart (run log m)) ∧
      ∀ m₁ m₂ : Machine L σ, step log m₁ = .ok none m₂ →
        m₁.ip.toNat < m₂.ip.toNat ∧ m₂.ip.toNat ≤ L.stop := by
  refine ⟨?_, fun m₁ m₂ => ip_lt_of_step⟩
  have := L.ordered
  have := L.stop_lt
  have start : m.atStart.ip.toNat = L.codeBase := Word.toNat_ofNat_of_lt (by omega)
  obtain ⟨n, bound, r, ends⟩ := exists_ends log m.atStart
  rw [start] at bound
  rw [ends.run_eq bound]
  exact ⟨n, bound, ends⟩

end Machine
end Osl
