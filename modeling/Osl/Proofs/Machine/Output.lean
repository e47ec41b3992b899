import Osl.Proofs.Machine.Code
import Osl.Proofs.Text.Numeral

/-!
# Printing

What the instructions that print append to a spool, which takes every write. Printing an integer of
at most eight digits leaves the arena as it was (`print_integer`), because its digits fit into the
word that is put back.
-/

namespace Osl
set_option autoImplicit false

/-- The bytes by which a value is printed. -/
def Value.printed : Value → List Byte
  | .integer n => Numeral.decimalBytes n.toNat
  | .string content => content

/-- The spool after a write. -/
def Spool.append (s : Spool) (bs : List Byte) : Spool := ⟨s.file.map (·.append bs)⟩

/-- The sink takes a text and then a newline, and is `t` afterwards. -/
def Sink.TakesLine {σ : Type} [Sink σ] (s : σ) (text : List Byte) (t : σ) : Prop :=
  ∃ u, write s text = (.ok (), u) ∧ write u ['\n'.toUInt8] = (.ok (), t)

/-- A spool takes every line. -/
theorem Spool.takesLine (s : Spool) (text : List Byte) :
    Sink.TakesLine s text ((s.append text).append ['\n'.toUInt8]) :=
  ⟨s.append text, rfl, rfl⟩

@[simp] theorem Spool.isOpen_append (s : Spool) (bs : List Byte) :
    (s.append bs).isOpen = s.isOpen := by
  simp [append, isOpen]

theorem Spool.toList_append {s : Spool} (ready : s.isOpen) (bs : List Byte) :
    (s.append bs).toList = s.toList ++ bs := by
  obtain ⟨_ | file⟩ := s
  · cases ready
  · exact Buffer.toList_append file bs

/-- The pieces of the log make up its content. -/
theorem Log.flatten_cut (bs : List Byte) : (Log.cut bs).flatten = bs := by
  have taken (n : Nat) : ((List.range n).map fun i =>
      (bs.drop (i * pieceSize)).take pieceSize).flatten = bs.take (n * pieceSize) := by
    induction n with
    | zero => simp
    | succ n ih =>
      rw [List.range_succ, List.map_append, List.flatten_append, ih, List.map_singleton,
        List.flatten_singleton, Nat.succ_mul, List.take_add]
  rw [cut, taken]
  apply List.take_of_length_le
  unfold pieceSize
  omega

theorem Log.flatten_pieces (log : Log) : log.pieces.flatten = log.content :=
  flatten_cut log.content

/-- Putting back the word under an overlay leaves of it what lies behind that word. -/
theorem Arena.overlay_restore {L : Layout} (a : Arena L) (p : Nat) (bs : List Byte) :
    (a.overlay p bs).overlay p (Word.bytes (a.wordAt p)) = a.overlay (p + 8) (bs.drop 8) := by
  apply ext_byte
  intro q inside
  have word : Word.bytes (a.wordAt p) = a.bytes p 8 := Word.bytes_ofBytes (a.length_bytes p 8)
  rw [byte_overlay _ _ _ _ inside, byte_overlay _ _ _ _ inside, byte_overlay _ _ _ _ inside]
  by_cases covered : p ≤ q ∧ q - p < (Word.bytes (a.wordAt p)).length
  · have place : p + (q - p) = q := by omega
    rw [Word.length_bytes] at covered
    rw [dif_pos (by rw [Word.length_bytes]; exact covered), dif_neg (by omega)]
    simp only [word, getElem_bytes, place]
  · rw [dif_neg covered]
    rw [Word.length_bytes] at covered
    by_cases behind : p + 8 ≤ q ∧ q - (p + 8) < (bs.drop 8).length
    · have place : 8 + (q - (p + 8)) = q - p := by omega
      have long := behind.2
      rw [List.length_drop] at long
      rw [dif_pos behind, dif_pos (by omega)]
      simp only [List.getElem_drop, place]
    · rw [dif_neg behind]
      rw [List.length_drop] at behind
      rw [dif_neg (by omega)]

/-- A number below every address is written with at most seven digits. -/
theorem Numeral.length_decimalBytes_le {n : Nat} (small : n < addressThreshold) :
    (decimalBytes n).length ≤ 7 := by
  unfold addressThreshold at small
  exact (length_decimalBytes_le_iff (by decide)).2 (by omega)

namespace Machine

section AnySink

variable {L : Layout} {σ : Type} {m : Machine L σ} {cell : Word}

/-- The words that tell what a cell holds can be read. -/
theorem readWord_cell (within : L.Within cell.toNat 16) (m : Machine L σ) :
    readWord cell m = .ok (m.arena.wordAt cell.toNat) m ∧
      readWord (cell + 8) m = .ok (m.arena.wordAt (cell.toNat + 8)) m := by
  have := L.stop_lt
  unfold Layout.Within at within
  have second : (cell + 8).toNat = cell.toNat + 8 := Word.toNat_add_eight (by omega)
  refine ⟨readWord_eq m (by unfold Layout.Within; omega), ?_⟩
  rw [readWord_eq m (by unfold Layout.Within; omega), second]

/-- The machine with another arena. -/
def putArena (a : Arena L) (m : Machine L σ) : Machine L σ := { m with arena := a }

variable [Sink σ]

theorem emit_of_write {bs : List Byte} {t : σ} (written : Sink.write m.sink bs = (.ok (), t)) :
    emit bs m = .ok () { m with sink := t } := by
  simp only [emit, written]

theorem emit_of_refusal {bs : List Byte} {reason : String} {t : σ}
    (refused : Sink.write m.sink bs = (.error reason, t)) :
    emit bs m = .error (.sink reason) { m with sink := t } := by
  simp only [emit, refused]

/-- Printing an integer: the digits are laid over the cell and written from there. -/
theorem print_eq_of_integer (within : L.Within cell.toNat 16)
    (covered : L.Within cell.toNat (Numeral.decimalBytes (m.arena.wordAt cell.toNat).toNat).length)
    (integer : m.arena.wordAt (cell.toNat + 8) = 0) :
    print cell m = (do
      emit (Numeral.decimalBytes (m.arena.wordAt cell.toNat).toNat)
      writeWord cell (m.arena.wordAt cell.toNat)
      emit ['\n'.toUInt8]) (putArena (m.arena.overlay cell.toNat
        (Numeral.decimalBytes (m.arena.wordAt cell.toNat).toNat)) m) := by
  obtain ⟨first, second⟩ := readWord_cell within m
  rw [integer] at second
  rw [print, bind_ok first, bind_ok second, Tag.of_zero]
  generalize m.arena.wordAt cell.toNat = w at covered ⊢
  have laid : (update (Arena.write cell (Numeral.decimalBytes w.toNat)) : Exec L σ Unit) m =
      .ok () (putArena (m.arena.overlay cell.toNat (Numeral.decimalBytes w.toNat)) m) := by
    simp only [update, Arena.write_eq_ite, if_pos covered, putArena]
  have read : (reading (·.slice cell (Numeral.decimalBytes w.toNat).length) : Exec L σ _)
      (putArena (m.arena.overlay cell.toNat (Numeral.decimalBytes w.toNat)) m) =
        .ok (Numeral.decimalBytes w.toNat)
          (putArena (m.arena.overlay cell.toNat (Numeral.decimalBytes w.toNat)) m) := by
    simp only [reading, Arena.slice_eq_ite, if_pos covered, putArena, Arena.bytes_overlay m.arena covered]
  dsimp only
  rw [bind_ok laid, bind_ok read]

/-- Printing an integer into a sink that takes the line leaves the digits past the eighth behind the first
word. -/
theorem print_integer_of_takesLine {t : σ} (within : L.Within cell.toNat 16)
    (covered : L.Within cell.toNat (Numeral.decimalBytes (m.arena.wordAt cell.toNat).toNat).length)
    (integer : m.arena.wordAt (cell.toNat + 8) = 0)
    (takes : Sink.TakesLine m.sink (Numeral.decimalBytes (m.arena.wordAt cell.toNat).toNat) t) :
    print cell m = .ok () { m with
      arena := m.arena.overlay (cell.toNat + 8)
        ((Numeral.decimalBytes (m.arena.wordAt cell.toNat).toNat).drop 8)
      sink := t } := by
  have word : L.Within cell.toNat 8 := by
    unfold Layout.Within at *
    omega
  obtain ⟨u, text, newline⟩ := takes
  have emitted := emit_of_write (m := putArena (m.arena.overlay cell.toNat
    (Numeral.decimalBytes (m.arena.wordAt cell.toNat).toNat)) m) text
  rw [print_eq_of_integer within covered integer, bind_ok emitted, bind_ok (writeWord_eq _ _ word),
    ← Arena.overlay_restore]
  exact emit_of_write newline

/-- Printing a string: it is written from where it lies. -/
theorem print_eq_of_string (within : L.Within cell.toNat 16)
    (string : m.arena.wordAt (cell.toNat + 8) ≠ 0) :
    print cell m = (do
      emit (← reading (·.slice (m.arena.wordAt cell.toNat)
        (m.arena.wordAt (cell.toNat + 8)).toNat))
      emit ['\n'.toUInt8]) m := by
  obtain ⟨first, second⟩ := readWord_cell within m
  rw [print, bind_ok first, bind_ok second, Tag.of_ne_zero string]

end AnySink

variable {L : Layout} {m : Machine L Spool} {cell : Word}

theorem emit_eq (bs : List Byte) (m : Machine L Spool) :
    emit bs m = .ok () { m with sink := m.sink.append bs } := rfl

/-- The log goes to the sink, and nothing else happens. -/
theorem printLog_eq (log : Log) (m : Machine L Spool) :
    printLog log m = .ok () { m with sink := log.pieces.foldl Spool.append m.sink } := by
  unfold printLog
  generalize log.pieces = pieces
  induction pieces generalizing m with
  | nil => rfl
  | cons bs pieces ih =>
    rw [List.forM_eq_forM, List.forM_cons, bind_ok (emit_eq bs m)]
    exact ih { m with sink := m.sink.append bs }

theorem toList_foldl_append {s : Spool} (ready : s.isOpen) (pieces : List (List Byte)) :
    (pieces.foldl Spool.append s).isOpen ∧
      (pieces.foldl Spool.append s).toList = s.toList ++ pieces.flatten := by
  induction pieces generalizing s with
  | nil => simpa using ready
  | cons bs pieces ih =>
    have rest := ih (s := s.append bs) (by simpa using ready)
    rw [Spool.toList_append ready, List.append_assoc] at rest
    exact rest

/-- An integer of at most eight digits is printed, and the arena is as before. -/
theorem print_integer (within : L.Within cell.toNat 16)
    (integer : m.arena.wordAt (cell.toNat + 8) = 0)
    (short : (Numeral.decimalBytes (m.arena.wordAt cell.toNat).toNat).length ≤ 8) :
    print cell m = .ok () { m with
      sink := (m.sink.append (Numeral.decimalBytes (m.arena.wordAt cell.toNat).toNat)).append
        ['\n'.toUInt8] } := by
  have covered : L.Within cell.toNat
      (Numeral.decimalBytes (m.arena.wordAt cell.toNat).toNat).length := by
    unfold Layout.Within at *
    omega
  rw [print_integer_of_takesLine within covered integer (m.sink.takesLine _),
    List.drop_eq_nil_of_le short]
  rfl

/-- The content of a string is printed from where the cell points, and the arena is as before. -/
theorem print_content (within : L.Within cell.toNat 16)
    (string : m.arena.wordAt (cell.toNat + 8) ≠ 0)
    (content : L.Within (m.arena.wordAt cell.toNat).toNat
      (m.arena.wordAt (cell.toNat + 8)).toNat) :
    print cell m = .ok () { m with
      sink := (m.sink.append (m.arena.bytes (m.arena.wordAt cell.toNat).toNat
        (m.arena.wordAt (cell.toNat + 8)).toNat)).append ['\n'.toUInt8] } := by
  have read : (reading (·.slice (m.arena.wordAt cell.toNat)
      (m.arena.wordAt (cell.toNat + 8)).toNat) : Exec L Spool _) m =
        .ok (m.arena.bytes (m.arena.wordAt cell.toNat).toNat
          (m.arena.wordAt (cell.toNat + 8)).toNat) m := by
    simp only [reading, Arena.slice_eq_ite, if_pos content]
  rw [print_eq_of_string within string, bind_ok read, bind_ok (emit_eq _ _)]
  exact emit_eq _ _

/-- The content of a string is printed, and the arena is as before. -/
theorem print_string (within : L.Within cell.toNat 16)
    (string : m.arena.wordAt (cell.toNat + 8) ≠ 0)
    (content : L.Within (m.arena.wordAt cell.toNat).toNat
      (m.arena.wordAt (cell.toNat + 8)).toNat) :
    ∃ sink, print cell m = .ok () { m with sink } :=
  ⟨_, print_content within string content⟩

variable {log : Log} {is : List Instr}

/-- The instruction that prints a cell of a short integer. -/
theorem ran_print_integer {v : Word} (code : CodeAt m.arena m.ip.toNat (.print cell :: is))
    (within : L.Within cell.toNat 16) (holds : m.arena.Holds cell.toNat [v, 0])
    (short : (Numeral.decimalBytes v.toNat).length ≤ 8) (ready : m.sink.isOpen) :
    ∃ m', Ran log [.print cell] m m' ∧ m'.arena = m.arena ∧ m'.sp = m.sp ∧ m'.sink.isOpen ∧
      m'.sink.toList =
        m.sink.toList ++ Numeral.decimalBytes v.toNat ++ ['\n'.toUInt8] := by
  have printed : print cell (m.past (.print cell)) = .ok () _ :=
    print_integer within holds.2.1 (by rwa [past_arena, holds.1])
  refine ⟨_, .one code (exec_of_work rfl printed) rfl (.refl _ _ _), rfl, rfl, ?_, ?_⟩
  · simpa using ready
  · simp only [past_arena, past_sink, holds.1]
    rw [Spool.toList_append (by simpa using ready), Spool.toList_append ready]

/-- The instruction that prints a cell of a string. -/
theorem ran_print_content (code : CodeAt m.arena m.ip.toNat (.print cell :: is))
    (within : L.Within cell.toNat 16) (string : m.arena.wordAt (cell.toNat + 8) ≠ 0)
    (content : L.Within (m.arena.wordAt cell.toNat).toNat (m.arena.wordAt (cell.toNat + 8)).toNat)
    (ready : m.sink.isOpen) :
    ∃ m', Ran log [.print cell] m m' ∧ m'.arena = m.arena ∧ m'.sp = m.sp ∧ m'.sink.isOpen ∧
      m'.sink.toList = m.sink.toList ++ m.arena.bytes (m.arena.wordAt cell.toNat).toNat
        (m.arena.wordAt (cell.toNat + 8)).toNat ++ ['\n'.toUInt8] := by
  have printed := print_content (m := m.past (.print cell)) within string content
  refine ⟨_, .one code (exec_of_work rfl printed) rfl (.refl _ _ _), rfl, rfl, ?_, ?_⟩
  · simpa using ready
  · simp only [past_arena, past_sink]
    rw [Spool.toList_append (by simpa using ready), Spool.toList_append ready]

/-- The instruction that prints the log. -/
theorem ran_printLog (code : CodeAt m.arena m.ip.toNat (.printLog :: is)) (ready : m.sink.isOpen) :
    ∃ m', Ran log [.printLog] m m' ∧ m'.arena = m.arena ∧ m'.sp = m.sp ∧ m'.sink.isOpen ∧
      m'.sink.toList = m.sink.toList ++ log.content := by
  have printed := toList_foldl_append ready log.pieces
  rw [log.flatten_pieces] at printed
  exact ⟨_, .one code (exec_of_work rfl (printLog_eq log _)) rfl (.refl _ _ _), rfl, rfl, printed⟩

end Machine
end Osl
