import Osl.Word

/-!
# Words and their bytes

The bytes of a word are its digits (`getElem?_bytes`). `ofBytes_bytes` and `bytes_ofBytes` say that writing
a word as bytes and reading bytes as a word undo each other. `toNat_ofBytes_lt` bounds the value of any eight bytes. Sums and differences that a word
can hold are exact (`toNat_add_of_lt`, `toNat_sub_of_le`). Words below `2 ^ 63` compare as numbers, signed
or not (`signedLe_iff`).
-/

namespace Osl.Word
set_option autoImplicit false

/-- A word without bytes from the `n`-th on is spelt by its lowest `n` bytes. -/
theorem ofBytes_lowBytes (n : Nat) (w : Word) (h : w.toNat >>> (8 * n) = 0) :
    ofBytes (lowBytes n w) = w := by
  induction n generalizing w with
  | zero =>
    have none : w.toNat = 0 := h
    exact UInt64.toNat_inj.1 none.symm
  | succ n ih =>
    have shift : (w >>> 8).toNat = w.toNat / 256 := by
      simp [UInt64.toNat_shiftRight, Nat.shiftRight_eq_div_pow]
    have rest : (w >>> 8).toNat >>> (8 * n) = 0 := by
      rw [shift, ← h, Nat.mul_succ, Nat.add_comm, Nat.shiftRight_add,
        Nat.shiftRight_eq_div_pow w.toNat 8]
    apply UInt64.toNat_inj.1
    have := w.toNat_lt
    rw [lowBytes, ofBytes, ih _ rest]
    simp only [UInt64.toNat_add, UInt64.toNat_mul, UInt8.toNat_toUInt64, UInt64.toNat_toUInt8, shift,
      UInt64.reduceToNat]
    omega

theorem getElem?_lowBytes (w : Word) {n i : Nat} (lt : i < n) :
    (lowBytes n w)[i]? = some (UInt8.ofNat (w.toNat >>> (8 * i))) := by
  induction n generalizing w i with
  | zero => exact absurd lt (Nat.not_lt_zero i)
  | succ n ih =>
    cases i with
    | zero => rfl
    | succ i =>
      have shift : (w >>> 8).toNat = w.toNat >>> 8 := rfl
      rw [lowBytes, List.getElem?_cons_succ, ih (w >>> 8) (Nat.lt_of_succ_lt_succ lt), shift,
        ← Nat.shiftRight_add, Nat.mul_succ, Nat.add_comm]

/-- The bytes of a word are its digits to the base 256, the lowest first. -/
theorem getElem?_bytes (w : Word) {i : Nat} (lt : i < 8) :
    (bytes w)[i]? = some (UInt8.ofNat (w.toNat >>> (8 * i))) := getElem?_lowBytes w lt

/-- Reading the bytes of a word gives the word back. -/
@[simp] theorem ofBytes_bytes (w : Word) : ofBytes (bytes w) = w := by
  apply ofBytes_lowBytes
  rw [Nat.shiftRight_eq_div_pow]
  exact Nat.div_eq_of_lt w.toNat_lt

theorem toNat_ofBytes_cons (b : Byte) (bs : List Byte)
    (h : (ofBytes bs).toNat < 0x100000000000000) :
    (ofBytes (b :: bs)).toNat = b.toNat + 256 * (ofBytes bs).toNat := by
  have := b.toNat_lt
  simp only [ofBytes, UInt64.toNat_add, UInt64.toNat_mul, UInt8.toNat_toUInt64,
    UInt64.reduceToNat]
  omega

theorem one_shiftLeft_le {n : Nat} (h : n ≤ 7) : 1 <<< (8 * n) ≤ 0x100000000000000 := by
  rw [Nat.one_shiftLeft]
  exact Nat.pow_le_pow_right (j := 56) (by omega) (by omega)

/-- Bytes spell a word below the value of the next one. -/
theorem toNat_ofBytes_lt (bs : List Byte) (h : bs.length ≤ 8) :
    (ofBytes bs).toNat < 1 <<< (8 * bs.length) := by
  induction bs with
  | nil => exact Nat.zero_lt_one
  | cons b bs ih =>
    simp only [List.length_cons] at h ⊢
    have rest := ih (by omega)
    have small := one_shiftLeft_le (n := bs.length) (by omega)
    have next : 1 <<< (8 * (bs.length + 1)) = 256 * 1 <<< (8 * bs.length) := by
      rw [Nat.mul_succ, Nat.shiftLeft_add, Nat.shiftLeft_eq _ 8, Nat.mul_comm]
    have := b.toNat_lt
    rw [toNat_ofBytes_cons b bs (by omega), next]
    omega

theorem lowBytes_ofBytes (bs : List Byte) (h : bs.length ≤ 8) :
    lowBytes bs.length (ofBytes bs) = bs := by
  induction bs with
  | nil => rfl
  | cons b bs ih =>
    simp only [List.length_cons] at h
    have rest := toNat_ofBytes_lt bs (by omega)
    have small := one_shiftLeft_le (n := bs.length) (by omega)
    have whole := toNat_ofBytes_cons b bs (by omega)
    have low : (ofBytes (b :: bs)).toUInt8 = b := by
      apply UInt8.toNat_inj.1
      have := b.toNat_lt
      rw [UInt64.toNat_toUInt8, whole]
      omega
    have high : ofBytes (b :: bs) >>> 8 = ofBytes bs := by
      apply UInt64.toNat_inj.1
      have := b.toNat_lt
      rw [UInt64.toNat_shiftRight, whole]
      simp only [UInt64.reduceToNat, Nat.reduceMod, Nat.shiftRight_eq_div_pow]
      omega
    rw [List.length_cons, lowBytes, low, high, ih (by omega)]

/-- Any eight bytes are the bytes of the word they spell. -/
theorem bytes_ofBytes {bs : List Byte} (h : bs.length = 8) : bytes (ofBytes bs) = bs := by
  have := lowBytes_ofBytes bs (by omega)
  rwa [h] at this

theorem toNat_add_of_lt {v w : Word} (h : v.toNat + w.toNat < 0x10000000000000000) :
    (v + w).toNat = v.toNat + w.toNat := by
  rw [UInt64.toNat_add]
  exact Nat.mod_eq_of_lt h

theorem toNat_add_eight {w : Word} (h : w.toNat + 8 < 0x10000000000000000) :
    (w + 8).toNat = w.toNat + 8 := toNat_add_of_lt h

theorem toNat_sub_of_le {v w : Word} (h : w.toNat ≤ v.toNat) : (v - w).toNat = v.toNat - w.toNat :=
  UInt64.toNat_sub_of_le _ _ (UInt64.le_iff_toNat_le.2 h)

theorem toNat_ofNat_of_lt {n : Nat} (h : n < 0x10000000000000000) : (UInt64.ofNat n).toNat = n := by
  rw [UInt64.toNat_ofNat']
  exact Nat.mod_eq_of_lt h

/-- A word without a sign is the number it is as a signed one too. -/
theorem toInt_toInt64 {w : Word} (plain : w.toNat < 0x8000000000000000) :
    w.toInt64.toInt = w.toNat :=
  BitVec.toInt_eq_toNat_of_lt (by show 2 * w.toNat < 2 ^ 64; omega)

/-- How a number compares with any word. -/
theorem signedLe_ofNat {n : Nat} (plain : n < 0x8000000000000000) (w : Word) :
    signedLe (.ofNat n) w = decide ((n : Int) ≤ w.toInt64.toInt) := by
  have number : (UInt64.ofNat n).toNat = n := toNat_ofNat_of_lt (by omega)
  have signed := toInt_toInt64 (w := .ofNat n) (by omega)
  rw [number] at signed
  simp only [signedLe, Int64.le_iff_toInt_le, signed]

/-- Words without a sign compare as the numbers they are. -/
theorem signedLe_iff {v w : Word} (hv : v.toNat < 0x8000000000000000)
    (hw : w.toNat < 0x8000000000000000) : signedLe v w ↔ v.toNat ≤ w.toNat := by
  simp only [signedLe, decide_eq_true_eq, Int64.le_iff_toInt_le, toInt_toInt64 hv, toInt_toInt64 hw,
    Int.ofNat_le]

end Osl.Word
