import Osl.Proofs.Arena.Content

/-!
# An arena as a memory

An access is granted exactly if all its bytes lie in the arena, reckoned in numbers without bound
(`Guarded`). What is read after a write is what was read before it, with the bytes written laid over it, in
part, in whole or not at all (`Overlaid`); a write that is refused changes nothing (`Writes`). Words are
written and read like strings of eight bytes, bytes like strings of one.
-/

namespace Osl
set_option autoImplicit false

namespace Arena

variable {L : Layout} {a b : Arena L}

/-- What becomes of the byte `old` at `q` when the bytes `bs` are laid over those from `p` on. -/
def laid (p : Nat) (bs : List Byte) (q : Nat) (old : Byte) : Byte :=
  if p ≤ q then bs[q - p]?.getD old else old

/-- What becomes of the bytes `old` that lie from `q` on when the bytes `bs` are laid over those from `p`
on. -/
def laidOver (p : Nat) (bs : List Byte) (q : Nat) (old : List Byte) : List Byte :=
  old.mapIdx fun i byte => laid p bs (q + i) byte

example : laidOver 102 [7, 8, 9] 100 [0, 1, 2, 3] = [0, 1, 7, 8] := by decide

/-- Whatever is read of `b` is what was read of `a`, with the bytes `bs` laid over those from `p` on. -/
structure Overlaid (a b : Arena L) (p : Word) (bs : List Byte) : Prop where
  slice : ∀ (q : Word) (n : Nat), b.slice q n = (a.slice q n).map (laidOver p.toNat bs q.toNat)
  readByte : ∀ q : Word, b.readByte q = (a.readByte q).map (laid p.toNat bs q.toNat)
  readWord : ∀ q : Word, b.readWord q = (a.readWord q).map fun old =>
    Word.ofBytes (laidOver p.toNat bs q.toNat (Word.bytes old))

theorem byte_overlay_eq_laid (a : Arena L) (p : Nat) (bs : List Byte) {q : Nat}
    (within : L.Within q 1) : (a.overlay p bs).byte q = laid p bs q (a.byte q) := by
  rw [byte_overlay _ _ _ _ within, laid]
  by_cases above : p ≤ q
  · rw [if_pos above]
    by_cases covered : q - p < bs.length
    · rw [dif_pos ⟨above, covered⟩, List.getElem?_eq_getElem covered, Option.getD_some]
    · rw [dif_neg (fun both => covered both.2), List.getElem?_eq_none (Nat.le_of_not_lt covered),
        Option.getD_none]
  · rw [if_neg above, dif_neg (fun both => above both.1)]

theorem bytes_overlay_eq_laidOver (a : Arena L) (p : Nat) (bs : List Byte) {q n : Nat}
    (within : L.Within q n) : (a.overlay p bs).bytes q n = laidOver p bs q (a.bytes q n) := by
  apply List.ext_getElem
  · simp only [laidOver, length_bytes, List.length_mapIdx]
  · intro i lt _
    rw [length_bytes] at lt
    simp only [laidOver, getElem_bytes, List.getElem_mapIdx]
    exact byte_overlay_eq_laid a p bs (within_byte within lt)

/-- Laying bytes over those of an arena does so to whatever is read of it. -/
theorem overlaid_overlay (a : Arena L) (p : Word) (bs : List Byte) :
    a.Overlaid (a.overlay p.toNat bs) p bs := by
  constructor
  · intro q n
    rw [slice_eq_ite, slice_eq_ite]
    by_cases within : L.Within q.toNat n
    · rw [if_pos within, if_pos within, bytes_overlay_eq_laidOver a _ _ within]
      rfl
    · rw [if_neg within, if_neg within]
      rfl
  · intro q
    rw [readByte_eq_ite, readByte_eq_ite]
    by_cases within : L.Within q.toNat 1
    · rw [if_pos within, if_pos within, byte_overlay_eq_laid a _ _ within]
      rfl
    · rw [if_neg within, if_neg within]
      rfl
  · intro q
    rw [readWord_eq_ite, readWord_eq_ite]
    by_cases within : L.Within q.toNat 8
    · rw [if_pos within, if_pos within, wordAt, Word.size, bytes_overlay_eq_laidOver a _ _ within,
        ← bytes_wordAt]
      rfl
    · rw [if_neg within, if_neg within]
      rfl

/-- An access to the `n` bytes from `q` on gives a result exactly if they lie in the arena, and a fault that
tells where it was made otherwise. -/
structure Guarded (L : Layout) {α : Type} (q : Word) (n : Nat) (r : Except Fault α) : Prop where
  granted : (∃ x, r = .ok x) ↔ L.base ≤ q.toNat ∧ q.toNat + n ≤ L.stop
  refused : ∀ f, r = .error f → f = .memory q n

theorem guarded_ite {α : Type} (q : Word) (n : Nat) (x : α) :
    Guarded L q n (if L.Within q.toNat n then .ok x else .error (.memory q n)) := by
  by_cases within : L.Within q.toNat n
  · rw [if_pos within]
    exact ⟨⟨fun _ => within, fun _ => ⟨x, rfl⟩⟩, fun f refused => by cases refused⟩
  · rw [if_neg within]
    refine ⟨⟨?_, fun inside => absurd inside within⟩, ?_⟩
    · rintro ⟨y, granted⟩
      cases granted
    · intro f refused
      cases refused
      rfl

section Reading

variable (a : Arena L) (q : Word)

theorem guarded_slice (n : Nat) : Guarded L q n (a.slice q n) := by
  rw [slice_eq_ite]
  apply guarded_ite

theorem guarded_readByte : Guarded L q 1 (a.readByte q) := by
  rw [readByte_eq_ite]
  apply guarded_ite

theorem guarded_readWord : Guarded L q 8 (a.readWord q) := by
  rw [readWord_eq_ite]
  apply guarded_ite

/-- As many bytes are read as are asked for. -/
theorem length_of_slice {n : Nat} {bs : List Byte} (read : a.slice q n = .ok bs) : bs.length = n := by
  rw [slice_eq_ite] at read
  split at read
  · cases read
    exact length_bytes a q.toNat n
  · cases read

/-- A byte is read like a string of one. -/
theorem slice_one : a.slice q 1 = (a.readByte q).map fun byte => [byte] := by
  rw [slice_eq_ite, readByte_eq_ite]
  split
  · rw [bytes_succ]
    rfl
  · rfl

/-- A word is read like the string of its eight bytes. -/
theorem slice_eight : a.slice q 8 = (a.readWord q).map Word.bytes := by
  rw [slice_eq_ite, readWord_eq_ite]
  split
  · rw [← bytes_wordAt]
    rfl
  · rfl

end Reading

/-- Performing `u` is writing the bytes `bs` from `p` on, if the arena holds that many there. -/
structure Writes (u : Update L) (p : Word) (bs : List Byte) : Prop where
  granted : ∀ a, (∃ b, u a = .ok () b) ↔ L.base ≤ p.toNat ∧ p.toNat + bs.length ≤ L.stop
  overlaid : ∀ a b, u a = .ok () b → a.Overlaid b p bs
  refused : ∀ a f b, u a = .error f b → f = .memory p bs.length ∧ b = a

theorem writes_write (p : Word) (bs : List Byte) : Writes (write p bs : Update L) p bs := by
  constructor
  · intro a
    rw [write_eq_ite]
    by_cases within : L.Within p.toNat bs.length
    · rw [if_pos within]
      exact ⟨fun _ => within, fun _ => ⟨_, rfl⟩⟩
    · rw [if_neg within]
      refine ⟨?_, fun inside => absurd inside within⟩
      rintro ⟨b, granted⟩
      cases granted
  · intro a b done
    rw [write_eq_ite] at done
    split at done
    · cases done
      exact overlaid_overlay a p bs
    · cases done
  · intro a f b failed
    rw [write_eq_ite] at failed
    split at failed
    · cases failed
    · cases failed
      exact ⟨rfl, rfl⟩

/-- The word written is the word read. -/
theorem readWord_of_writeWord {p w : Word} (done : writeWord p w a = .ok () b) :
    b.readWord p = .ok w := by
  rw [writeWord, write_eq_ite, Word.length_bytes] at done
  split at done
  · rename_i within
    cases done
    rw [readWord_eq_ite, if_pos within, wordAt_overlay_bytes a within]
  · cases done

/-- An arena is an exact memory of bytes. Reads and writes are granted exactly inside of it. A read gives
as many bytes as it asks for, a word from its eight bytes and a byte from itself. A write lays its bytes over
the old ones, for a word the digits to the base 256 with the lowest first; one that is refused changes
nothing. -/
theorem exact_memory (L : Layout) :
    (∀ (a : Arena L) (q : Word) (n : Nat),
      Guarded L q n (a.slice q n) ∧ ∀ bs, a.slice q n = .ok bs → bs.length = n) ∧
    (∀ (a : Arena L) (q : Word), Guarded L q 1 (a.readByte q) ∧
      a.slice q 1 = (a.readByte q).map fun byte => [byte]) ∧
    (∀ (a : Arena L) (q : Word), Guarded L q 8 (a.readWord q) ∧
      a.slice q 8 = (a.readWord q).map Word.bytes) ∧
    (∀ (p : Word) (bs : List Byte), Writes (write p bs : Update L) p bs) ∧
    (∀ (p : Word) (byte : Byte), Writes (writeByte p byte : Update L) p [byte]) ∧
    (∀ p w : Word, Writes (writeWord p w : Update L) p (Word.bytes w)) ∧
    (∀ w : Word, (Word.bytes w).length = 8 ∧
      ∀ i < 8, (Word.bytes w)[i]? = some (UInt8.ofNat (w.toNat >>> (8 * i)))) ∧
    ∀ (a b : Arena L) (p w : Word), writeWord p w a = .ok () b → b.readWord p = .ok w := by
  refine ⟨?_, ?_, ?_, writes_write, ?_, ?_, ?_, ?_⟩
  · intro a q n
    exact ⟨guarded_slice a q n, fun bs read => length_of_slice a q read⟩
  · intro a q
    exact ⟨guarded_readByte a q, slice_one a q⟩
  · intro a q
    exact ⟨guarded_readWord a q, slice_eight a q⟩
  · intro p byte
    exact writes_write p [byte]
  · intro p w
    exact writes_write p (Word.bytes w)
  · intro w
    exact ⟨Word.length_bytes w, fun i lt => Word.getElem?_bytes w lt⟩
  · intro a b p w done
    exact readWord_of_writeWord done

end Arena
end Osl
