import Osl.Text.Utf8

/-!
# Decoding encoded text

The bytes of a character are read back as one piece (`pieces_encode`), so that the text of a
well-formed byte string is the text that was encoded (`lossy_encode`).
-/

namespace Osl.Utf8
set_option autoImplicit false

/-! ## Single bytes -/

theorem Lead.of_two {x : Nat} (low : 2 ≤ x) (high : x < 0x20) :
    Lead.of (x + 0xc0) = .opening ⟨x, 1, 0x80, 0xbf⟩ := by
  unfold Lead.of
  rw [if_neg (by omega), if_neg (by omega), if_pos (by omega), Nat.add_sub_cancel]

/-- The lead byte of three, which narrows the range of the second byte at two places. -/
theorem Lead.of_three {x y : Nat} (high : x < 0x10) (within : 0x80 ≤ y ∧ y ≤ 0xbf)
    (shortest : x = 0 → 0xa0 ≤ y) (scalar : x = 0xd → y ≤ 0x9f) :
    ∃ first last, Lead.of (x + 0xe0) = .opening ⟨x, 2, first, last⟩ ∧ first ≤ y ∧ y ≤ last := by
  unfold Lead.of
  rw [if_neg (by omega), if_neg (by omega), if_neg (by omega)]
  by_cases zero : x = 0
  · subst zero
    exact ⟨0xa0, 0xbf, rfl, shortest rfl, within.2⟩
  by_cases thirteen : x = 0xd
  · subst thirteen
    exact ⟨0x80, 0x9f, rfl, within.1, scalar rfl⟩
  rw [if_neg (by omega), if_neg (by omega), if_pos (by omega), Nat.add_sub_cancel]
  exact ⟨0x80, 0xbf, rfl, within⟩

/-- The lead byte of four, which narrows the range of the second byte at both ends. -/
theorem Lead.of_four {x y : Nat} (high : x ≤ 4) (within : 0x80 ≤ y ∧ y ≤ 0xbf)
    (shortest : x = 0 → 0x90 ≤ y) (scalar : x = 4 → y ≤ 0x8f) :
    ∃ first last, Lead.of (x + 0xf0) = .opening ⟨x, 3, first, last⟩ ∧ first ≤ y ∧ y ≤ last := by
  unfold Lead.of
  rw [if_neg (by omega), if_neg (by omega), if_neg (by omega), if_neg (by omega), if_neg (by omega),
    if_neg (by omega)]
  by_cases zero : x = 0
  · subst zero
    exact ⟨0x90, 0xbf, rfl, shortest rfl, within.2⟩
  by_cases four : x = 4
  · subst four
    exact ⟨0x80, 0x8f, rfl, within.1, scalar rfl⟩
  rw [if_neg (by omega), if_pos (by omega), Nat.add_sub_cancel]
  exact ⟨0x80, 0xbf, rfl, within⟩

variable {p : Opening} {n : Nat} {bs : List Byte}

theorem toNat_byte (small : n < 256) : (UInt8.ofNat n).toNat = n := by
  rw [UInt8.toNat_ofNat']
  exact Nat.mod_eq_of_lt small

theorem piecesFrom_opening (small : n < 256) (lead : Lead.of n = .opening p) :
    piecesFrom none (UInt8.ofNat n :: bs) = piecesFrom (some p) bs := by
  simp only [piecesFrom, start, toNat_byte small, lead, List.nil_append]

/-- A byte that continues a sequence with more to come. -/
theorem piecesFrom_next (small : n < 0x40) (within : p.low ≤ n + 0x80 ∧ n + 0x80 ≤ p.high)
    (more : 1 < p.missing) : piecesFrom (some p) (UInt8.ofNat (n + 0x80) :: bs) =
      piecesFrom (some { bits := p.bits * 64 + n, missing := p.missing - 1 }) bs := by
  simp only [piecesFrom, Opening.next, toNat_byte (show n + 0x80 < 256 by omega), within, and_self,
    if_true, Nat.not_le_of_lt more, if_false, Nat.add_sub_cancel, List.nil_append]

/-- The byte that completes a sequence. -/
theorem piecesFrom_last (small : n < 0x40) (within : p.low ≤ n + 0x80 ∧ n + 0x80 ≤ p.high)
    (last : p.missing = 1) : piecesFrom (some p) (UInt8.ofNat (n + 0x80) :: bs) =
      some (Char.ofNat (p.bits * 64 + n)) :: piecesFrom none bs := by
  simp only [piecesFrom, Opening.next, toNat_byte (show n + 0x80 < 256 by omega), within, and_self,
    if_true, last, Nat.le_refl, Nat.add_sub_cancel, List.cons_append, List.nil_append]

/-! ## Characters -/

variable {v : Nat}

theorem piecesFrom_one (high : v ≤ 0x7f) :
    piecesFrom none (UInt8.ofNat v :: bs) = some (Char.ofNat v) :: piecesFrom none bs := by
  have lead : Lead.of v = .whole (Char.ofNat v) := if_pos (by omega)
  simp only [piecesFrom, start, toNat_byte (show v < 256 by omega), lead, List.cons_append,
    List.nil_append]

theorem piecesFrom_two (low : 0x7f < v) (high : v ≤ 0x7ff) :
    piecesFrom none (UInt8.ofNat (v / 64 % 32 + 0xc0) :: UInt8.ofNat (v % 64 + 0x80) :: bs) =
      some (Char.ofNat v) :: piecesFrom none bs := by
  have lead := Lead.of_two (x := v / 64 % 32) (by omega) (by omega)
  rw [piecesFrom_opening (by omega) lead, piecesFrom_last (by omega) (by simp; omega) rfl]
  have value : v / 64 % 32 * 64 + v % 64 = v := by omega
  rw [value]

theorem piecesFrom_three (low : 0x7ff < v) (high : v ≤ 0xffff)
    (scalar : v < 0xd800 ∨ 0xdfff < v) :
    piecesFrom none (UInt8.ofNat (v / 4096 % 16 + 0xe0) :: UInt8.ofNat (v / 64 % 64 + 0x80) ::
      UInt8.ofNat (v % 64 + 0x80) :: bs) = some (Char.ofNat v) :: piecesFrom none bs := by
  obtain ⟨first, last, lead, within⟩ := Lead.of_three (x := v / 4096 % 16)
    (y := v / 64 % 64 + 0x80) (by omega) (by omega) (by omega) (by omega)
  rw [piecesFrom_opening (by omega) lead, piecesFrom_next (by omega) within (by simp),
    piecesFrom_last (by omega) (by simp; omega) rfl]
  have value : (v / 4096 % 16 * 64 + v / 64 % 64) * 64 + v % 64 = v := by omega
  rw [value]

theorem piecesFrom_four (low : 0xffff < v) (high : v < 0x110000) :
    piecesFrom none (UInt8.ofNat (v / 262144 % 8 + 0xf0) :: UInt8.ofNat (v / 4096 % 64 + 0x80) ::
      UInt8.ofNat (v / 64 % 64 + 0x80) :: UInt8.ofNat (v % 64 + 0x80) :: bs) =
      some (Char.ofNat v) :: piecesFrom none bs := by
  obtain ⟨first, last, lead, within⟩ := Lead.of_four (x := v / 262144 % 8)
    (y := v / 4096 % 64 + 0x80) (by omega) (by omega) (by omega) (by omega)
  rw [piecesFrom_opening (by omega) lead, piecesFrom_next (by omega) within (by simp),
    piecesFrom_next (by omega) (by simp; omega) (by simp),
    piecesFrom_last (by omega) (by simp; omega) rfl]
  have value : ((v / 262144 % 8 * 64 + v / 4096 % 64) * 64 + v / 64 % 64) * 64 + v % 64 = v := by omega
  rw [value]

/-- The bytes of a character are one piece. -/
theorem piecesFrom_encodeChar (c : Char) (bs : List Byte) :
    piecesFrom none (String.utf8EncodeChar c ++ bs) = some c :: piecesFrom none bs := by
  have valid : c.val.toNat < 0xd800 ∨ 0xdfff < c.val.toNat ∧ c.val.toNat < 0x110000 := c.valid
  have whole : Char.ofNat c.val.toNat = c := Char.ofNat_toNat c
  unfold String.utf8EncodeChar
  dsimp only
  generalize c.val.toNat = v at valid whole
  subst whole
  split
  · exact piecesFrom_one ‹_›
  split
  · exact piecesFrom_two (by omega) ‹_›
  split
  · exact piecesFrom_three (by omega) ‹_› (by omega)
  · exact piecesFrom_four (by omega) (by omega)

/-- The text that was encoded is read back. -/
theorem lossy_encode (cs : List Char) : lossy (encode cs) = cs := by
  induction cs with
  | nil => rfl
  | cons c cs ih =>
    unfold lossy pieces encode at *
    rw [List.flatMap_cons, piecesFrom_encodeChar, List.map_cons, ih]
    rfl

end Osl.Utf8
