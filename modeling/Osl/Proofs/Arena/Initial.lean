import Osl.Arena.Initial
import Osl.Proofs.Arena.Frame
import Osl.Proofs.Slots.Placement

/-!
# What a new arena holds

The saved stack pointer of a new arena is that of an empty stack, and each of its windows holds the
free sentinel and a zero.
-/

namespace Osl
set_option autoImplicit false

namespace Arena

variable {L : Layout} {a : Arena L}

/-- Words that are written one after another are held. -/
theorem holds_of_bytes {p : Nat} {ws : List Word}
    (h : a.bytes p (8 * ws.length) = ws.flatMap Word.bytes) : a.Holds p ws := by
  induction ws generalizing p with
  | nil => trivial
  | cons w ws ih =>
    have size : 8 * (w :: ws).length = 8 + 8 * ws.length := by
      rw [List.length_cons]
      omega
    rw [size, bytes_add, List.flatMap_cons] at h
    obtain ⟨first, rest⟩ := List.append_inj h (by simp)
    refine ⟨?_, ih rest⟩
    rw [wordAt, Word.size, first, Word.ofBytes_bytes]

/-- A part of the initial bytes lies where it stands among them. -/
theorem bytes_initial (front part back : List Byte) (h : initialBytes L = front ++ (part ++ back)) :
    (initial L).bytes (L.base + front.length) part.length = part := by
  have size := length_initialBytes L
  rw [h, List.length_append, List.length_append] at size
  apply List.ext_getElem (by simp)
  intro i _ inside
  have place : L.base + front.length + i = L.base + (front.length + i) := Nat.add_assoc _ _ _
  rw [getElem_bytes, place, byte_base_add _ (by omega)]
  simp only [initial, h, Vector.getElem_mk, List.getElem_toArray]
  rw [List.getElem_append_right (by omega), List.getElem_append_left (by omega)]
  congr 1
  omega

/-- The scratch stack of a new arena is empty. -/
theorem wordAt_savedSp_initial (L : Layout) :
    (initial L).wordAt L.savedSp = .ofNat L.stackTop := by
  have part := bytes_initial [] (Word.bytes (.ofNat L.stackTop)) _
    (by rw [initialBytes, List.nil_append, List.append_assoc, List.append_assoc])
  have holds : (initial L).Holds L.base [.ofNat L.stackTop] := by
    apply holds_of_bytes
    simpa using part
  exact holds.1

/-- Every window of a new arena is free. -/
theorem holds_initial {slot : Nat} (isSlot : L.IsSlot slot) :
    (initial L).Holds (L.dataBase + slot) [freeSentinel, 0] := by
  have aligned := isSlot.aligned
  have fits := isSlot.fits
  obtain ⟨k, rfl⟩ : ∃ k, slot = 16 * k := ⟨slot / 16, by omega⟩
  obtain ⟨m, windows⟩ : ∃ m, L.data / 16 = k + (m + 1) := ⟨L.data / 16 - (k + 1), by omega⟩
  have split : (List.replicate (L.data / 16) freeWindow).flatten =
      (List.replicate k freeWindow).flatten ++
        (freeWindow ++ (List.replicate m freeWindow).flatten) := by
    rw [windows, ← List.replicate_append_replicate, List.flatten_append, List.replicate_succ,
      List.flatten_cons]
  have part := bytes_initial (L := L)
    (Word.bytes (.ofNat L.stackTop) ++ Word.bytes 0 ++ (List.replicate k freeWindow).flatten)
    freeWindow
    ((List.replicate m freeWindow).flatten ++ List.replicate (L.stack + L.code + L.literal) 0)
    (by simp only [initialBytes, split, List.append_assoc])
  have before : (Word.bytes (.ofNat L.stackTop) ++ Word.bytes 0 ++
      (List.replicate k freeWindow).flatten).length = 16 + 16 * k := by
    simp only [List.length_append, Word.length_bytes, List.length_flatten, List.map_replicate,
      length_freeWindow, List.sum_replicate_nat]
    omega
  rw [before, length_freeWindow] at part
  apply holds_of_bytes
  rw [Layout.dataBase, Nat.add_assoc]
  simpa [freeWindow] using part

end Arena

/-- A layout of small sections. -/
def Layout.small : Layout where
  base := 0x100010
  data := 32
  stack := 64
  code := 80
  literal := 32
  base_aligned := by decide
  data_aligned := by decide
  stack_aligned := by decide
  code_aligned := by decide
  literal_aligned := by decide
  base_high := by decide
  data_holds_string := by decide
  stack_pos := by decide
  code_pos := by decide
  literal_pos := by decide
  below_sign := by decide

/-- A layout whose data section holds one integer and one string. -/
def Layout.tiny : Layout where
  base := 0x100010
  data := 48
  stack := 32
  code := 48
  literal := 16
  base_aligned := by decide
  data_aligned := by decide
  stack_aligned := by decide
  code_aligned := by decide
  literal_aligned := by decide
  base_high := by decide
  data_holds_string := by decide
  stack_pos := by decide
  code_pos := by decide
  literal_pos := by decide
  below_sign := by decide

/-- A layout whose data and literal sections hold several strings. -/
def Layout.roomy : Layout where
  base := 0x100010
  data := 64
  stack := 64
  code := 80
  literal := 64
  base_aligned := by decide
  data_aligned := by decide
  stack_aligned := by decide
  code_aligned := by decide
  literal_aligned := by decide
  base_high := by decide
  data_holds_string := by decide
  stack_pos := by decide
  code_pos := by decide
  literal_pos := by decide
  below_sign := by decide

end Osl
