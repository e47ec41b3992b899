import Osl.Proofs.Executor.Printing
import Osl.Proofs.Integer.Correctness
import Osl.Proofs.Values.Simulation

/-!
# Assigning a string literal and printing it

In a new executor, printing a name to which a string was assigned writes the bytes of the string, zeros
included, and a newline. The empty string is the exception: its length is the tag of an integer, so it is
stored as one, and what is printed is the address of its content (`create_assign_print`).
-/

namespace Osl
set_option autoImplicit false

variable {L : Layout} {name : String} {v : Value}

/-- With one value in it a ledger fits. -/
theorem Ledger.fits_single (L : Layout) (name : String) (v : Value) :
    (({} : Ledger).set name (some v)).Fits L.data := by
  have whole := L.data_holds_string
  refine HasAtMost.fits fun names distinct values => ?_
  have among : names ⊆ [name] := by
    intro other member
    have bound := values other member
    by_cases same : other = name
    · exact List.mem_singleton.2 same
    · rw [value_set_of_ne _ _ _ same] at bound
      cases bound
  have few := distinct.length_le_of_subset among
  rw [List.length_singleton] at few
  omega

namespace Executor

/-- A string that is not empty is assigned and printed. -/
theorem assign_print_string (L : Layout) (log : Log) (code : 48 ≤ L.code) (stack : 32 ≤ L.stack)
    {content : List Byte} (pos : 0 < content.length) (room : content.length + 1 ≤ L.literal)
    (single : name.utf8ByteSize = 1) :
    ∃ routine y routine' z,
      execute (.assign name (.str content)) (start L (⟨some {}⟩ : Spool) log) = .ok routine y ∧
      execute (.print name) y = .ok routine' z ∧ z.sink.toList = content ++ ['\n'.toUInt8] := by
  have follows := follows_start L log (.inr rfl)
  have value : (Expr.str content).value? (({} : Ledger).value) = some (.string content) := rfl
  have admits : ({} : Ledger).Admits L 32 name (.str content) (.string content) := by
    refine ⟨?_, code, stack, Nat.mod_self 32, ?_, ?_, ?_, ?_, Ledger.fits_single L name _⟩
    · intro other member
      rw [List.mem_singleton.1 member, single]
    · rintro n ⟨⟩
    · rintro literal ⟨⟩
      exact pos
    · rintro old ⟨⟩
    · rintro literal literal' ⟨⟩
  have used : (start L (⟨some {}⟩ : Spool) log).literals.next = L.literalBase := rfl
  have stop : L.stop = L.literalBase + L.literal := rfl
  have size : (Expr.str content).literalSize = content.length + 1 := rfl
  obtain ⟨routine, y, done, -, -, follows'⟩ := follows.assign value admits (by omega)
  have known : (({} : Ledger).set name (some (Value.string content))).value name =
      some (.string content) := Ledger.value_set_self _ _ _
  obtain ⟨routine', z, printed, -, -, follows''⟩ := follows'.print known (by rintro n ⟨⟩)
  exact ⟨routine, y, routine', z, done, printed, follows''.output⟩

section Empty

variable {x : Executor L Spool}

/-- Where nothing has a value, an assignment of the empty string finds a cell for an integer. -/
theorem locate_empty (follows : x.Follows 16 {}) (room : x.literals.next + 1 ≤ L.stop)
    (single : name.utf8ByteSize = 1) :
    ∃ slot w', (Statement.assign name (.str [])).locate x.workspace =
        .ok (.assign (.str (.of (.ofNat x.literals.next) [])) (L.cell slot)) w' ∧
      L.IsSlot slot ∧ w'.slots.Placed L ∧ w'.slots.lookup name = some slot := by
  have stored := follows.stored
  obtain ⟨slot, t, asked, -⟩ := stored.exists_slotFor (v := .integer 0) x.literals.high single rfl
    (by rintro old ⟨⟩) (Ledger.fits_single L name _)
  have room : x.literals.next + (([] : List Byte).length + 1) ≤ L.stop := room
  obtain ⟨w', located, rfl, -⟩ := locate_assign_str asked room
  exact ⟨slot, w', located, stored.placed.isSlot asked, stored.placed.slotFor asked,
    Slots.lookup_slotFor_self asked⟩

/-- The empty string is stored as its address is as an integer. -/
theorem assign_empty (follows : x.Follows 16 {}) (room : x.literals.next + 1 ≤ L.stop)
    (code : 48 ≤ L.code) (stack : 32 ≤ L.stack) (single : name.utf8ByteSize = 1) :
    ∃ routine y slot, execute (.assign name (.str [])) x = .ok routine y ∧ y.sink = x.sink ∧
      y.slots.Placed L ∧ y.slotOf name = some slot ∧
      y.arena.Holds (L.dataBase + slot) [.ofNat x.literals.next, 0] := by
  have := L.ordered
  have := L.stackBase_eq
  have top : L.stackTop = L.stackBase + L.stack := rfl
  obtain ⟨slot, w', located, isSlot, placed, bound⟩ := locate_empty follows room single
  have place := isSlot.toNat_cell
  have inData := isSlot.fits
  have fits : (Statement.assign name (.str [])).codeSize ≤ L.code := code
  have start := follows.toNat_sp_atBody located
  have whole := L.stack_aligned
  have order : L.StackPointer (x.atBody w' (.assign (.str (.of (.ofNat x.literals.next) []))
      (L.cell slot))).sp := by
    constructor <;> omega
  have ahead := codeAt_atBody located fits
  rw [Task.code, List.append_assoc] at ahead
  -- four words are pushed, but their tag is that of an integer, and two of them are stored
  obtain ⟨m, leaves⟩ := (Located.evaluates_code _ x.log order ahead.left
    (fun cell member => absurd member List.not_mem_nil)).fits (by
      rw [start, top]
      exact Nat.add_le_add_left stack _)
  have words : m.arena.Holds m.sp.toNat [.ofNat x.literals.next, 0, _, _] := leaves.pushed.words
  have sp : m.sp.toNat + 32 = _ := leaves.pushed.sp
  obtain ⟨m', stored, -, sink, holds, -⟩ : ∃ m', Machine.Ran x.log _ m m' ∧ _ :=
    Machine.ran_store_integer (leaves.codeAt order ahead) leaves.low (by omega)
      ⟨words.1, words.2.1, trivial⟩ (by omega) (by omega)
  rw [place] at holds
  have saved := m'.arena.sameOutside_save m'.sp
  refine ⟨_, _, slot, execute_of_ran located fits ((leaves.ran order).trans stored), ?_, placed, bound,
    holds.sameOutside saved (.inr (by omega))⟩
  exact sink.trans leaves.pushed.sink

/-- A name whose cell holds an integer is printed in decimal, however many digits that takes. -/
theorem print_tagged_integer {slot : Nat} {n : Word} (placed : x.slots.Placed L)
    (bound : x.slotOf name = some slot) (holds : x.arena.Holds (L.dataBase + slot) [n, 0])
    (ready : x.sink.isOpen) :
    ∃ routine y, execute (.print name) x = .ok routine y ∧
      y.sink.toList = x.sink.toList ++ Numeral.decimalBytes n.toNat ++ ['\n'.toUInt8] := by
  have isSlot := (placed name slot bound).2
  have apart (lo hi : Nat) : x.arena.StringApart (L.cell slot) lo hi := by
    intro string _
    rw [isSlot.toNat_cell, holds.2.1] at string
    exact absurd rfl string
  have value : x.valueOf name = some (.integer n) := by
    rw [valueOf_eq bound, Value.read_eq _ isSlot, if_pos holds.2.1, holds.1]
    rfl
  obtain ⟨routine, y, done, sink⟩ := execute_print_of_value placed bound (apart _ _) (apart _ _) value
    (x.sink.takesLine _)
  exact ⟨routine, y, done, by rw [sink, Spool.toList_append_line ready]; rfl⟩

end Empty

/-- In a new executor, with room for the routine, its operands and the literal, assigning a string and
printing it succeeds and writes the string and a newline; for the empty string it writes the address of
the literal section instead. -/
theorem create_assign_print {c : Config} {world : Surroundings} {x : Executor L Spool}
    (created : create c world = .ok ⟨L, x⟩) (code : 48 ≤ L.code) (stack : 32 ≤ L.stack)
    (content : List Byte) (room : content.length + 1 ≤ L.literal) (name : String)
    (single : name.utf8ByteSize = 1) :
    ∃ routine y routine' z, execute (.assign name (.str content)) x = .ok routine y ∧
      execute (.print name) y = .ok routine' z ∧
      z.sink.toList = (if content = [] then Numeral.decimalBytes L.literalBase else content) ++
        ['\n'.toUInt8] := by
  rw [eq_start_of_create created]
  by_cases empty : content = []
  · subst empty
    have := L.stop_lt
    have := L.ordered
    have stop : L.stop = L.literalBase + L.literal := rfl
    have address : (UInt64.ofNat L.literalBase).toNat = L.literalBase :=
      Word.toNat_ofNat_of_lt (by omega)
    have follows := follows_start L world.log (.inl rfl)
    have unused : (start L (⟨some {}⟩ : Spool) world.log).literals.next = L.literalBase := rfl
    obtain ⟨routine, y, slot, done, sink, placed, bound, holds⟩ :=
      assign_empty follows (by omega) code stack single
    obtain ⟨routine', z, printed, output⟩ :=
      print_tagged_integer placed bound holds (by rw [sink]; exact follows.ready)
    refine ⟨routine, y, routine', z, done, printed, ?_⟩
    rw [output, sink, follows.output, unused, address, if_pos rfl]
    rfl
  · rw [if_neg empty]
    exact assign_print_string L world.log code stack (List.length_pos_iff.2 empty) room single

/-- `x = "\x00a"; print x;` with the sections of the standard sizes. -/
theorem create_assign_print_zero : ∃ x routine y routine' z,
    create {} {} = .ok ⟨.standard, x⟩ ∧ execute (.assign "x" (.str [0, 97])) x = .ok routine y ∧
      execute (.print "x") y = .ok routine' z ∧ z.sink.toList = [0, 97, 10] := by
  have created : create {} {} = .ok ⟨.standard, start .standard ⟨some {}⟩ .missing⟩ :=
    create_of_layout rfl (by decide) rfl
  obtain ⟨routine, y, routine', z, done, printed, output⟩ := create_assign_print created (by decide)
    (by decide) [0, 97] (by decide) "x" (by decide)
  exact ⟨_, routine, y, routine', z, created, done, printed, output⟩

/-- `x = ""; print x;` succeeds, but it does not write an empty line. -/
theorem assign_print_empty_ne :
    small.failure (.assign "x" (.str [])) = none ∧
      (small.executeEach [.assign "x" (.str [])]).failure (.print "x") = none ∧
      (small.executeEach [.assign "x" (.str []), .print "x"]).sink.toList ≠ ['\n'.toUInt8] := by
  decide +kernel

end Executor
end Osl
