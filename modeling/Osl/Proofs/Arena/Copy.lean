import Osl.Proofs.Arena.Content
import Osl.Proofs.Arena.Initial

/-!
# What a copy does

A copy goes through its bytes from the lowest address to the highest. Where the target begins inside the
source, it comes to read bytes that it has written itself, so it repeats the bytes in front of the target
over and over (`byte_forwardCopy_of_lt`). Everywhere else no byte is overwritten before it is read, and the
target becomes what the source was. `copy_effect` puts the cases together.
-/

namespace Osl.Arena
set_option autoImplicit false

variable {L : Layout} {src dst n i : Nat}

/-- A copy that overwrites no byte before reading it copies every byte as it was. -/
theorem byte_forwardCopy (a : Arena L) (within : L.Within dst n) (order : dst ≤ src ∨ src + n ≤ dst)
    (lt : i < n) : (a.forwardCopy src dst n).byte (dst + i) = a.byte (src + i) :=
  bytes_eq_iff.1 (bytes_forwardCopy a within order) i lt

/-- A copy to a higher address repeats the bytes between the two addresses. -/
theorem byte_forwardCopy_of_lt (a : Arena L) (within : L.Within dst n) (before : src < dst)
    (lt : i < n) :
    (a.forwardCopy src dst n).byte (dst + i) = a.byte (src + i % (dst - src)) := by
  induction n generalizing a src dst i with
  | zero => exact absurd lt (Nat.not_lt_zero i)
  | succ n ih =>
    have first : L.Within dst 1 := ⟨within.1, by have := within.2; omega⟩
    have later : L.Within (dst + 1) n := ⟨by have := within.1; omega, by have := within.2; omega⟩
    cases i with
    | zero =>
      rw [Nat.zero_mod]
      apply byte_forwardCopy_first
      exact first
    | succ i =>
      -- the period stays the same, as both addresses move on
      have period : dst + 1 - (src + 1) = dst - src := Nat.add_sub_add_right dst 1 src
      have place : dst + (i + 1) = dst + 1 + i := by omega
      have inside : i % (dst - src) < dst - src := Nat.mod_lt i (by omega)
      have rest := ih (a.set dst (a.byte src)) later (Nat.add_lt_add_right before 1)
        (Nat.lt_of_succ_lt_succ lt)
      have same := a.sameOutside_set dst (a.byte src)
      rw [forwardCopy, place, rest, period, ← Nat.mod_add_mod i (dst - src) 1]
      by_cases last : i % (dst - src) + 1 = dst - src
      · -- the byte to be read is the one just written
        have wrapped : src + 1 + i % (dst - src) = dst := by omega
        rw [wrapped, byte_set _ _ _ _ first, if_pos rfl, last, Nat.mod_self, Nat.add_zero]
      · have short : i % (dst - src) + 1 < dst - src := by omega
        have next : src + (i % (dst - src) + 1) = src + 1 + i % (dst - src) := by omega
        rw [Nat.mod_eq_of_lt short, next]
        apply same
        omega

/-- A copy faults and changes nothing unless both ranges lie in the arena; the fault tells of the source
first. If they do, only the target changes. It becomes what the source was, or, if it begins inside the
source, a repetition of the bytes before it. -/
theorem copy_effect (a : Arena L) (src dst : Word) (n : Nat) :
    (¬ (L.Within src.toNat n ∧ L.Within dst.toNat n) →
      copy src dst n a = .error (.memory (if L.Within src.toNat n then dst else src) n) a) ∧
    (L.Within src.toNat n ∧ L.Within dst.toNat n →
      ∃ b, copy src dst n a = .ok () b ∧ a.SameOutside b dst.toNat (dst.toNat + n) ∧
        (dst.toNat ≤ src.toNat ∨ src.toNat + n ≤ dst.toNat →
          ∀ i < n, b.byte (dst.toNat + i) = a.byte (src.toNat + i)) ∧
        (src.toNat < dst.toNat ∧ dst.toNat < src.toNat + n →
          ∀ i < n, b.byte (dst.toNat + i) =
            a.byte (src.toNat + i % (dst.toNat - src.toNat)))) := by
  constructor
  · intro outside
    exact copy_eq_error outside
  · rintro ⟨read, written⟩
    refine ⟨_, copy_of_within read written, sameOutside_forwardCopy a _ _ n, ?_, ?_⟩
    · intro order i lt
      exact byte_forwardCopy a written order lt
    · intro overlap i lt
      exact byte_forwardCopy_of_lt a written overlap.1 lt

/-- Copying four bytes two addresses on, onto the last two of them, repeats the first two. -/
theorem copy_effect_small : ∃ b, copy 0x100010 0x100012 4 (initial .small) = .ok () b ∧
    ∀ i < 4, b.byte (0x100012 + i) = (initial .small).byte (0x100010 + i % 2) := by
  have within : Layout.small.Within 0x100010 4 ∧ Layout.small.Within 0x100012 4 := by decide
  obtain ⟨b, done, -, -, repeated⟩ := (copy_effect (initial .small) 0x100010 0x100012 4).2 within
  refine ⟨b, done, ?_⟩
  apply repeated
  decide

end Osl.Arena
