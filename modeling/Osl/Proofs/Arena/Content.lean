import Osl.Cell.Shape
import Osl.Proofs.Arena.Frame

/-!
# Contents of strings

Bytes of an arena as strings use them: as parts of a longer range, as the bytes of the words of a
header, and as the target of a copy, which comes out right as long as no byte of the source is
overwritten before it is read (`bytes_forwardCopy`).
-/

namespace Osl
set_option autoImplicit false

namespace Word

theorem ofBytes_replicate_zero (n : Nat) : ofBytes (List.replicate n 0) = 0 := by
  induction n with
  | zero => rfl
  | succ n ih =>
    rw [List.replicate_succ, ofBytes, ih]
    rfl

/-- Zeros behind the bytes of a word do not change it. -/
theorem ofBytes_append_zeros (bs : List Byte) (n : Nat) :
    ofBytes (bs ++ List.replicate n 0) = ofBytes bs := by
  induction bs with
  | nil => exact ofBytes_replicate_zero n
  | cons b bs ih => rw [List.cons_append, ofBytes, ih, ofBytes]

/-- A word that few bytes spell is filled up with zeros. -/
theorem bytes_ofBytes_of_le {bs : List Byte} (short : bs.length ≤ 8) :
    bytes (ofBytes bs) = bs ++ List.replicate (8 - bs.length) 0 := by
  have whole : (bs ++ List.replicate (8 - bs.length) 0).length = 8 := by
    rw [List.length_append, List.length_replicate]
    omega
  rw [← ofBytes_append_zeros bs (8 - bs.length), bytes_ofBytes whole]

end Word

/-- The last two words of a header are the first sixteen bytes of the content, filled up with zeros. -/
theorem Header.bytes_of (address : Word) (content : List Byte) :
    Word.bytes (Header.of address content).low ++ Word.bytes (Header.of address content).high =
      content.take inlineCapacity ++ List.replicate (inlineCapacity - content.length) 0 := by
  have front : (content.take 8).length ≤ 8 := List.length_take_le 8 content
  have back : ((content.take 16).drop 8).length ≤ 8 := by
    rw [List.length_drop, List.length_take]
    omega
  simp only [Header.of, inlineCapacity, Word.bytes_ofBytes_of_le front, Word.bytes_ofBytes_of_le back]
  by_cases few : content.length ≤ 8
  · have none : (content.take 16).drop 8 = [] := List.drop_of_length_le (by
      rw [List.length_take]
      omega)
    have zeros : 16 - content.length = 8 - content.length + 8 := by omega
    rw [none, List.take_of_length_le few, List.take_of_length_le (by omega), zeros,
      ← List.replicate_append_replicate, List.append_assoc]
    rfl
  · have full : (content.take 8).length = 8 := List.length_take_of_le (by omega)
    have half : content.take 8 = (content.take 16).take 8 := by
      rw [List.take_take]
      rfl
    have zeros : 8 - ((content.take 16).drop 8).length = 16 - content.length := by
      rw [List.length_drop, List.length_take]
      omega
    rw [full, zeros, half, Nat.sub_self, List.replicate_zero, List.append_nil, ← List.append_assoc,
      List.take_append_drop]

/-- The last two words of a header begin with the content, if it is short. -/
theorem Header.take_of (address : Word) {content : List Byte}
    (short : content.length ≤ inlineCapacity) :
    (Word.bytes (Header.of address content).low ++ Word.bytes (Header.of address content).high).take
      content.length = content := by
  rw [bytes_of, List.take_of_length_le short]
  exact List.take_left

namespace Arena

variable {L : Layout} {a : Arena L}

/-- A range begins with every shorter one. -/
theorem take_bytes (a : Arena L) (p : Nat) {k n : Nat} (le : k ≤ n) :
    (a.bytes p n).take k = a.bytes p k := by
  obtain ⟨d, rfl⟩ : ∃ d, n = k + d := ⟨n - k, by omega⟩
  rw [bytes_add]
  exact List.take_left' (a.length_bytes p k)

/-- What follows a part of a range. -/
theorem drop_bytes (a : Arena L) (p : Nat) {k n : Nat} (le : k ≤ n) :
    (a.bytes p n).drop k = a.bytes (p + k) (n - k) := by
  obtain ⟨d, rfl⟩ : ∃ d, n = k + d := ⟨n - k, by omega⟩
  rw [bytes_add, Nat.add_sub_cancel_left]
  exact List.drop_left' (a.length_bytes p k)

theorem bytes_wordAt (a : Arena L) (p : Nat) : Word.bytes (a.wordAt p) = a.bytes p 8 :=
  Word.bytes_ofBytes (a.length_bytes p 8)

/-- Two words that lie one after the other are the bytes there. -/
theorem bytes_two (a : Arena L) (p : Nat) :
    Word.bytes (a.wordAt p) ++ Word.bytes (a.wordAt (p + 8)) = a.bytes p 16 := by
  rw [bytes_wordAt, bytes_wordAt, ← bytes_add]

/-- The last two words of a header are the bytes behind the first two. -/
theorem Holds.bytes_content {p : Nat} {first second front back : Word}
    (h : a.Holds p [first, second, front, back]) :
    a.bytes (p + 16) 16 = Word.bytes front ++ Word.bytes back := by
  obtain ⟨-, -, third, fourth, -⟩ := h
  rw [← bytes_two, ← third, ← fourth]

/-- The first byte of a copy is never written again. -/
theorem byte_forwardCopy_first (a : Arena L) (src n : Nat) {dst : Nat} (first : L.Within dst 1) :
    (a.forwardCopy src dst (n + 1)).byte dst = a.byte src := by
  have rest := sameOutside_forwardCopy (a.set dst (a.byte src)) (src + 1) (dst + 1) n
  rw [forwardCopy, rest dst (.inl (Nat.lt_succ_self dst)), byte_set _ _ _ _ first, if_pos rfl]

/-- A copy that overwrites no byte before reading it is a copy of what was there. -/
theorem bytes_forwardCopy (a : Arena L) {src dst n : Nat} (within : L.Within dst n)
    (order : dst ≤ src ∨ src + n ≤ dst) :
    (a.forwardCopy src dst n).bytes dst n = a.bytes src n := by
  induction n generalizing a src dst with
  | zero => rfl
  | succ n ih =>
    have first : L.Within dst 1 := by
      unfold Layout.Within at *
      omega
    have later : L.Within (dst + 1) n := by
      unfold Layout.Within at *
      omega
    have rest := ih (a := a.set dst (a.byte src)) later (by omega : dst + 1 ≤ src + 1 ∨ _)
    have untouched : (a.set dst (a.byte src)).bytes (src + 1) n = a.bytes (src + 1) n :=
      (a.sameOutside_set dst (a.byte src)).bytes (by omega)
    rw [bytes_succ, bytes_succ, byte_forwardCopy_first a src n first, forwardCopy, rest, untouched]

end Arena
end Osl
