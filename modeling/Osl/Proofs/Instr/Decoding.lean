import Osl.Proofs.Machine.Code

/-!
# Decoding

Code is cut into instructions in two places: `Routine.entries` walks over a list of bytes, and the
machine fetches one instruction after another from its arena. Both meet the instructions that were
encoded, each at its offset (`Routine.entries_assemble`, `Machine.fetchEach_eq`), because each takes
exactly the bytes of one instruction and leaves off where the next one starts. An operand is never
looked at as code, whatever its bytes are.
-/

namespace Osl
set_option autoImplicit false

namespace Instr

/-- Every operation code, with an operand exactly if it takes one, is an instruction. -/
theorem exists_iff {op : Opcode} {operand : Option Word} :
    (∃ i : Instr, i.opcode = op ∧ i.operand? = operand) ↔
      (operand.isSome ↔ op.operandSize = Word.size) := by
  constructor
  · rintro ⟨i, rfl, rfl⟩
    cases i with
    | arith op => cases op <;> decide
    | push | load | store | print | release => simp [operand?, opcode, Opcode.operandSize, Opcode.form]
    | enter | leave | ret | printLog => decide
  · intro takes
    cases operand with
    | none =>
      cases op with
      | enter => exact ⟨.enter, rfl, rfl⟩
      | leave => exact ⟨.leave, rfl, rfl⟩
      | ret => exact ⟨.ret, rfl, rfl⟩
      | add => exact ⟨.arith .add, rfl, rfl⟩
      | sub => exact ⟨.arith .sub, rfl, rfl⟩
      | mul => exact ⟨.arith .mul, rfl, rfl⟩
      | printLog => exact ⟨.printLog, rfl, rfl⟩
      | push | load | store | print | release => exact absurd takes (by decide)
    | some w =>
      cases op with
      | push => exact ⟨.push w, rfl, rfl⟩
      | load => exact ⟨.load w, rfl, rfl⟩
      | store => exact ⟨.store w, rfl, rfl⟩
      | print => exact ⟨.print w, rfl, rfl⟩
      | release => exact ⟨.release w, rfl, rfl⟩
      | enter | leave | ret | add | sub | mul | printLog =>
        simp [Opcode.operandSize, Opcode.form] at takes

/-- Instructions, each with its offset, when the first lies at `offset` and each next one right behind
the one before. -/
def placed (offset : Nat) : List Instr → List (Nat × Instr)
  | [] => []
  | i :: is => (offset, i) :: placed (offset + i.encode.length) is

theorem map_snd_placed (offset : Nat) (is : List Instr) : (placed offset is).map (·.2) = is := by
  induction is generalizing offset with
  | nil => rfl
  | cons i is ih => rw [placed, List.map_cons, ih]

/-- The operation code of an instruction comes first, and as many bytes follow as it asks for. -/
theorem exists_encode_eq_cons (i : Instr) :
    ∃ operand, i.encode = i.opcode.byte :: operand ∧ operand.length = i.opcode.operandSize := by
  unfold encode Opcode.operandSize
  cases operand : i.operand? with
  | none => exact ⟨[], rfl, by rw [form_of_operand?_eq_none operand]; rfl⟩
  | some w =>
    obtain ⟨make, form, -⟩ := form_of_operand?_eq_some operand
    exact ⟨Word.bytes w, rfl, by rw [form, Word.length_bytes]⟩

end Instr

namespace Routine

open Instr (placed)

variable {i : Instr} {is js : List Instr}

/-- Where an instruction lies it is read, whatever follows. -/
theorem Entry.read_encode {b : Byte} {operand : List Byte} (encoded : i.encode = b :: operand)
    (rest : List Byte) : Entry.read b (operand ++ rest) = .instr i := by
  unfold Instr.encode at encoded
  cases given : i.operand? with
  | none =>
    rw [given, Opcode.emit] at encoded
    cases encoded
    rw [Entry.read, Opcode.ofByte?_byte]
    simp only [Instr.form_of_operand?_eq_none given]
  | some w =>
    rw [given, Opcode.emit] at encoded
    cases encoded
    obtain ⟨make, form, made⟩ := Instr.form_of_operand?_eq_some given
    have taken : (Word.bytes w ++ rest).take Word.size = Word.bytes w :=
      List.take_left' (Word.length_bytes w)
    rw [Entry.read, Opcode.ofByte?_byte]
    simp only [form, taken, Word.length_bytes, if_true, Word.ofBytes_bytes, made]

/-- The bytes to be skipped are those of the entry before. -/
theorem entriesFrom_skip (bs rest : List Byte) (offset : Nat) :
    entriesFrom bs.length offset (bs ++ rest) = entriesFrom 0 (offset + bs.length) rest := by
  induction bs generalizing offset with
  | nil => rfl
  | cons b bs ih =>
    rw [List.length_cons, List.cons_append, entriesFrom, ih, Nat.add_assoc, Nat.add_comm 1]

theorem entriesFrom_codeBytes (is : List Instr) (offset : Nat) :
    entriesFrom 0 offset (codeBytes is) =
      (placed offset is).map fun (offset, i) => (offset, .instr i) := by
  induction is generalizing offset with
  | nil => rfl
  | cons i is ih =>
    obtain ⟨operand, encoded, size⟩ := i.exists_encode_eq_cons
    rw [codeBytes_cons, encoded, List.cons_append, entriesFrom, Entry.read_encode encoded]
    simp only [Entry.operandSize, ← size]
    rw [entriesFrom_skip, ih, placed, List.map_cons, encoded, List.length_cons, Nat.add_assoc,
      Nat.add_comm 1]

/-- Walking over assembled code meets the instructions at their offsets, and nothing else. -/
theorem entries_assemble (is : List Instr) :
    (assemble is).entries = (placed 0 is).map fun (offset, i) => (offset, .instr i) := by
  rw [entries, code_assemble]
  exact entriesFrom_codeBytes is 0

/-- Code belongs to one list of instructions only. -/
theorem assemble_injective (same : (assemble is).code = (assemble js).code) : is = js := by
  have entries : (assemble is).entries = (assemble js).entries := by rw [Routine.entries, same]; rfl
  rw [entries_assemble, entries_assemble] at entries
  have same : placed 0 is = placed 0 js := by
    refine (List.map_inj_right ?_).1 entries
    rintro ⟨o, i⟩ ⟨o', i'⟩ eq
    cases eq
    rfl
  rw [← Instr.map_snd_placed 0 is, ← Instr.map_snd_placed 0 js, same]

end Routine

namespace Machine

open Instr (placed)

variable {L : Layout} {σ : Type}

/-- Fetches `n` instructions one after another and tells where each of them lay. -/
def fetchEach : (n : Nat) → Exec L σ (List (Nat × Instr))
  | 0 => return []
  | n + 1 => do
    let ip := (← get).ip
    let i ← fetch
    return (ip.toNat, i) :: (← fetchEach n)

/-- Wherever code lies in the arena, the machine fetches the instructions it was made of, ends up right
behind it, and is otherwise as before. -/
theorem fetchEach_eq {m : Machine L σ} {is : List Instr}
    (within : L.Within m.ip.toNat (codeBytes is).length)
    (bytes : m.arena.bytes m.ip.toNat (codeBytes is).length = codeBytes is) :
    fetchEach is.length m =
      .ok (placed m.ip.toNat is) { m with ip := m.ip + .ofNat (codeBytes is).length } := by
  induction is generalizing m with
  | nil =>
    have stays : m.ip + .ofNat 0 = m.ip := UInt64.add_zero m.ip
    simp only [codeBytes_nil, List.length_nil, stays]
    rfl
  | cons i is ih =>
    rw [codeBytes_cons, List.length_append] at within bytes
    rw [Arena.bytes_add] at bytes
    have ⟨head, tail⟩ := List.append_inj bytes (by simp)
    have first : L.Within m.ip.toNat i.encode.length := ⟨within.1, by have := within.2; omega⟩
    have next := toNat_ip_past_of_within first
    have rest : fetchEach is.length (m.past i) = .ok (placed (m.past i).ip.toNat is)
        { m.past i with ip := (m.past i).ip + .ofNat (codeBytes is).length } :=
      ih (by rw [next]; exact ⟨Nat.le_add_right_of_le within.1, by have := within.2; omega⟩)
        (by rw [next]; exact tail)
    have behind : (m.past i).ip + .ofNat (codeBytes is).length =
        m.ip + .ofNat (i.encode.length + (codeBytes is).length) := by
      rw [past, UInt64.ofNat_add, UInt64.add_assoc]
    rw [List.length_cons, fetchEach, bind_ok get_apply, bind_ok (fetch_of_bytes first head),
      bind_ok rest, placed, next, behind, codeBytes_cons, List.length_append]
    rfl

end Machine
end Osl
