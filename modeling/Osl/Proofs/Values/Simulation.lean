import Osl.Proofs.Executor.Creation
import Osl.Proofs.Isolation.Execution
import Osl.Proofs.Statement.DataFull
import Osl.Proofs.Values.Evaluation

/-!
# Executing statements over a stored ledger

An executor `Follows` a ledger if the ledger is stored in its data section, its scratch stack is empty and
its sink has the output. Each kind of statement leads from there to the ledger that the interpreter comes
to, with what an assignment leaves read as `Value.laidOver`.
-/

namespace Osl
set_option autoImplicit false

variable {L : Layout} {g next slot : Nat} {v : Value} {name : String}

namespace Machine

variable {m : Machine L Spool} {log : Log} {is : List Instr}

/-- The instruction that prints a cell that carries a value. -/
theorem ran_print_value (code : CodeAt m.arena m.ip.toNat (.print (L.cell slot) :: is))
    (isSlot : L.IsSlot slot) (used : next ≤ L.stop) (carries : m.arena.Carries next slot v)
    (small : ∀ n, v = .integer n → n.toNat < addressThreshold) (ready : m.sink.isOpen) :
    ∃ m', Ran log [.print (L.cell slot)] m m' ∧ m'.arena = m.arena ∧ m'.sp = m.sp ∧ m'.sink.isOpen ∧
      m'.sink.toList = m.sink.toList ++ (v.printed ++ ['\n'.toUInt8]) := by
  have := L.ordered
  have := L.stackBase_eq
  have place := isSlot.toNat_cell
  have fits := isSlot.fits
  have within : L.Within (L.cell slot).toNat 16 := by
    rw [place]
    unfold Layout.Within
    omega
  cases v with
  | integer n =>
    have digits := Numeral.length_decimalBytes_le (small n rfl)
    obtain ⟨m', ran, arena, sp, open', output⟩ := ran_print_integer code within
      (by rw [place]; exact carries.1) (Nat.le_succ_of_le digits) ready
    exact ⟨m', ran, arena, sp, open', by rw [output, List.append_assoc]; rfl⟩
  | string content =>
    have string : m.arena.CarriesString next slot content := carries
    obtain ⟨length, -⟩ := string.toNat_length used
    obtain ⟨m', ran, arena, sp, open', output⟩ := ran_print_content code within
      (by rw [place]; exact string.second_ne used) (by rw [place, length]; exact string.within used)
      ready
    refine ⟨m', ran, arena, sp, open', ?_⟩
    rw [output, place, length, string.bytes, List.append_assoc]
    rfl

/-- The instruction that releases a cell that carries a string. -/
theorem ran_release_value {content : List Byte}
    (code : CodeAt m.arena m.ip.toNat (.release (L.cell slot) :: is)) (used : next ≤ L.stop)
    (carries : m.arena.CarriesString next slot content) :
    ∃ m', Ran log [.release (L.cell slot)] m m' ∧ m'.sp = m.sp ∧ m'.sink = m.sink ∧
      m'.arena.Vacant slot ∧
      m.arena.SameOutside m'.arena (L.dataBase + slot) (L.dataBase + slot + 16) := by
  have := L.ordered
  have := L.stackBase_eq
  have := L.base_high
  have := L.stop_lt
  have inside := carries.fits
  have place : (L.cell slot).toNat = L.dataBase + slot := L.toNat_cell (by omega)
  obtain ⟨m', ran, sp, sink, first, second, same⟩ := ran_release_string code (by omega)
    (by omega) (by rw [place]; exact carries.second_ne used)
  rw [place] at first second same
  refine ⟨m', ran, sp, sink, ⟨?_, second⟩, same⟩
  -- the address of the content is still there, and it is none of an integer
  rw [first]
  unfold Word.IsPlain
  rcases carries.place with ⟨-, address⟩ | ⟨-, low, high⟩ <;> omega

/-- The code of an assignment: the value is evaluated, and stored into the cell. -/
theorem ran_assign {e : Expr} {t : Located} {old : Option Value} (order : L.StackPointer m.sp)
    (code : CodeAt m.arena m.ip.toNat (t.code ++ .store (L.cell slot) :: is))
    (yields : ∀ b : Arena L, m.arena.SameValues b next → t.Yields g next b e v)
    (room : L.stackBase + e.need v ≤ m.sp.toNat) (inside : slot + v.span ≤ L.data)
    (used : next ≤ L.stop) (holding : m.arena.Holding next slot v.span old)
    (plain : ∀ n, v = .integer n → n.IsPlain)
    (short : ∀ content content', old = some (.string content') → v = .string content →
      content.length ≤ content'.length → content'.length ≤ inlineCapacity ∧ g = 32 ∧ slot % 32 = 0) :
    ∃ m', Ran log (t.code ++ [.store (L.cell slot)]) m m' ∧ m'.sp = m.sp ∧ m'.sink = m.sink ∧
      m'.arena.Carries next slot (v.laidOver old) ∧ m.arena.SameBut m'.arena slot v.span ∧
      m.arena.SameInside m'.arena L.literalBase next := by
  have := L.ordered
  have := L.stackBase_eq
  have top : L.codeBase = L.stackTop := rfl
  have wide := v.span_eq
  have start := yields m.arena (.refl _ _)
  have need := start.need
  obtain ⟨m₁, leaves⟩ := (t.evaluates_code log order code.left start.readable).fits (by omega)
  -- the words of the value lie on the stack, and they spell it still
  have same := leaves.same order
  have kept : m.arena.SameValues m₁.arena next :=
    ⟨same.inside (.inl (Nat.le_refl _)), same.inside (.inr (by omega))⟩
  have spelt := (yields m₁.arena kept).spelt
  rw [(Located.words_sameOutside same (Nat.le_refl _) start.readable).1] at spelt
  have sp₁ := leaves.pushed.sp
  have high := order.high
  obtain ⟨m₂, stored, sp₂, sink₂, carries, written⟩ := ran_store_value
    (leaves.codeAt order code) inside used leaves.low (by omega) leaves.pushed.words spelt
    (holding.sameInside (kept.data.mono (by omega) (by omega)) (by omega) kept.literals) plain short
  refine ⟨m₂, (leaves.ran order).trans stored, UInt64.toNat_inj.1 (by omega),
    sink₂.trans leaves.pushed.sink, carries, ?_, ?_⟩
  · intro p low high apart
    rw [written p apart, kept.data p low high]
  · exact kept.literals.trans (written.inside (.inr (by omega)))

end Machine

namespace Executor

variable {x x' : Executor L Spool} {r r' : Ledger} {s : Statement} {task : Task} {w' : Workspace L}
  {m : Machine L Spool}

/-- The executor has come as far as the interpreter. -/
structure Follows (g : Nat) (x : Executor L Spool) (r : Ledger) : Prop where
  stored : Stored g r x.slots x.literals.next x.arena
  empty : x.arena.wordAt L.savedSp = .ofNat L.stackTop
  ready : x.sink.isOpen
  output : x.sink.toList = r.output

section Values

variable {σ : Type} {x : Executor L σ}

/-- Compiling starts with cells and literals as the statement before has left them. -/
theorem sameValues_workspace (x : Executor L σ) :
    x.arena.SameValues x.workspace.arena x.literals.next := by
  have := L.ordered
  have cleared := x.arena.sameOutside_clearCode
  exact ⟨cleared.inside (.inl (by omega)), cleared.inside (.inr (Nat.le_refl _))⟩

/-- The body of a routine finds cells and literals as compiling has left them. -/
theorem sameValues_atBody (located : s.locate x.workspace = .ok task w') (fits : s.codeSize ≤ L.code) :
    w'.arena.SameValues (x.atBody w' task).arena w'.literals.next := by
  have := L.ordered
  have written := Executor.sameOutside_withRoutine located fits
  have entered := Machine.sameOutside_inside (w'.withRoutine task) x.sink
  exact ⟨(written.inside (.inl (by omega))).trans (entered.inside (.inr (Nat.le_refl _))),
    (written.inside (.inr (Nat.le_refl _))).trans (entered.inside (.inr (by omega)))⟩

/-- So the body finds cells and literals as they were before the statement. -/
theorem sameValues_before (located : s.locate x.workspace = .ok task w') (fits : s.codeSize ≤ L.code) :
    x.arena.SameValues (x.atBody w' task).arena x.literals.next := by
  have := L.ordered
  have low : L.literalBase ≤ x.workspace.literals.next := x.literals.low
  have grown := s.grows_locate x.workspace
  rw [endState_ok located] at grown
  have compiled : x.workspace.arena.SameValues w'.arena x.literals.next :=
    ⟨grown.same.inside (.inl (by omega)), grown.same.inside (.inl (Nat.le_refl _))⟩
  exact ((sameValues_workspace x).trans compiled).trans
    ((sameValues_atBody located fits).mono grown.grown)

variable {content : List Byte} {t : Slots}

/-- The task of assigning the next literal to the cell at a slot. -/
def literalTask (x : Executor L σ) (content : List Byte) (slot : Nat) : Task :=
  .assign (.str (.of (.ofNat x.literals.next) content)) (L.cell slot)

/-- A literal is laid down behind the others, and the name has the slot it has before the statement. -/
theorem locate_assign_str (asked : x.slots.slotFor x.arena name = .ok (slot, t))
    (room : x.literals.next + (content.length + 1) ≤ L.stop) :
    ∃ w', (Statement.assign name (.str content)).locate x.workspace =
        .ok (x.literalTask content slot) w' ∧
      w'.slots = t ∧ w'.literals.next = x.literals.next + (content.length + 1) ∧
      w'.arena = x.workspace.arena.overlay x.literals.next (content ++ [0]) := by
  have := L.ordered
  have low := x.literals.low
  obtain ⟨w₁, laid, slots, next, arena⟩ : ∃ w₁, Compile.intern content x.workspace =
      .ok (.of (.ofNat x.literals.next) content) w₁ ∧ w₁.slots = x.slots ∧
      w₁.literals.next = x.literals.next + (content.length + 1) ∧
      w₁.arena = x.workspace.arena.overlay x.literals.next (content ++ [0]) :=
    ⟨_, Compile.intern_of_le room, rfl, rfl, rfl⟩
  have written := x.workspace.arena.sameOutside_overlay x.literals.next (content ++ [0])
  rw [← arena] at written
  have data := (sameValues_workspace x).data.trans (written.inside (.inl (by omega)))
  have asked' : w₁.slots.slotFor w₁.arena name = .ok (slot, t) := by
    rw [slots, Slots.slotFor_sameInside data, asked]
  have literal : (Expr.str content).locate x.workspace = .ok (.str _) w₁ := bind_ok laid
  refine ⟨{ w₁ with slots := t }, ?_, rfl, next, arena⟩
  rw [Statement.locate, bind_ok literal, bind_ok (Compile.cellOf_eq asked')]
  rfl

end Values

namespace Follows

/-- Compiling starts with the ledger stored. -/
theorem workspace (follows : x.Follows g r) :
    Stored g r x.workspace.slots x.workspace.literals.next x.workspace.arena :=
  follows.stored.sameValues (sameValues_workspace x) (Nat.le_refl _)

/-- The body starts on an empty stack. -/
theorem toNat_sp_atBody (follows : x.Follows g r) (located : s.locate x.workspace = .ok task w') :
    (x.atBody w' task).sp.toNat = L.stackTop := by
  have := L.stackTop_lt
  rw [atBody_sp located, follows.empty]
  exact Word.toNat_ofNat_of_lt (by omega)

/-- What is to be shown of the body of a routine. -/
theorem of_ran (follows : x.Follows g r) (located : s.locate x.workspace = .ok task w')
    (fits : s.codeSize ≤ L.code) (ran : Machine.Ran x.log task.code (x.atBody w' task) m)
    (sp : m.sp = (x.atBody w' task).sp)
    (stored : Stored g r' w'.slots w'.literals.next m.arena) (ready : m.sink.isOpen)
    (output : m.sink.toList = r'.output) :
    ∃ routine x', execute s x = .ok routine x' ∧ x'.log = x.log ∧ x'.literals = w'.literals ∧
      x'.Follows g r' := by
  have := L.ordered
  have saved := m.arena.sameOutside_save m.sp
  refine ⟨_, _, execute_of_ran located fits ran, rfl, rfl, ?_, ?_, ready, output⟩
  · exact stored.sameValues
      ⟨saved.inside (.inr (Nat.le_refl _)), saved.inside (.inr (by omega))⟩ (Nat.le_refl _)
  · rw [← follows.empty, ← atBody_sp located, ← sp]
    exact m.arena.wordAt_save m.sp

theorem printLog (follows : x.Follows g r) :
    ∃ routine x', execute .printLog x = .ok routine x' ∧ x'.log = x.log ∧ x'.literals = x.literals ∧
      x'.Follows g (r.print x.log.content) := by
  have located : Statement.printLog.locate x.workspace = .ok .printLog x.workspace := rfl
  have fits : Statement.printLog.codeSize ≤ L.code :=
    Nat.le_trans (by decide : 4 ≤ 12) L.twelve_le_code
  obtain ⟨m, ran, arena, sp, ready, output⟩ :=
    Machine.ran_printLog (codeAt_atBody located fits) follows.ready
  have stored := follows.workspace.sameValues (sameValues_atBody located fits) (Nat.le_refl _)
  rw [← arena] at stored
  refine follows.of_ran located fits ran sp (stored.print _) ready ?_
  rw [output, atBody_sink, follows.output]
  rfl

theorem print (follows : x.Follows g r) (value : r.value name = some v)
    (small : ∀ n, v = .integer n → n.toNat < addressThreshold) :
    ∃ routine x', execute (.print name) x = .ok routine x' ∧ x'.log = x.log ∧
      x'.literals = x.literals ∧ x'.Follows g (r.print (v.printed ++ ['\n'.toUInt8])) := by
  obtain ⟨slot, cell⟩ := follows.stored.hasCell_of_value value
  obtain ⟨single, isSlot⟩ := follows.stored.placed name slot cell.bound
  have located := Statement.locate_print (w := x.workspace) single cell.bound
  have fits : (Statement.print name).codeSize ≤ L.code := L.twelve_le_code
  have used := x.literals.high
  have stored := follows.workspace.sameValues (sameValues_atBody located fits) (Nat.le_refl _)
  obtain ⟨m, ran, arena, sp, ready, output⟩ := Machine.ran_print_value
    (codeAt_atBody located fits) isSlot used (stored.carries name slot v cell) small follows.ready
  rw [← arena] at stored
  refine follows.of_ran located fits ran sp (stored.print _) ready ?_
  rw [output, atBody_sink, follows.output]
  rfl

/-- A name whose cell is a block may be forgotten. -/
theorem delete (follows : x.Follows 32 r) (value : r.value name = some v) :
    ∃ routine x', execute (.delete name) x = .ok routine x' ∧ x'.log = x.log ∧
      x'.literals = x.literals ∧ x'.Follows 32 (r.set name none) := by
  obtain ⟨slot, cell⟩ := follows.stored.hasCell_of_value value
  obtain ⟨single, isSlot⟩ := follows.stored.placed name slot cell.bound
  have located := Statement.locate_delete (w := x.workspace) single cell.bound
  have fits : (Statement.delete name).codeSize ≤ L.code := L.twelve_le_code
  have used := x.literals.high
  have := L.ordered
  have := L.stackBase_eq
  have room := isSlot.fits
  have around := sameValues_atBody located fits
  have stored := follows.workspace.sameValues around (Nat.le_refl _)
  have carries := stored.carries name slot v cell
  cases v with
  | integer n =>
    have whole := (stored.whole name slot _ cell).2
    cases whole
  | string content =>
    obtain ⟨m, ran, sp, sink, vacated, same⟩ :=
      Machine.ran_release_value (codeAt_atBody located fits) used carries
    refine follows.of_ran located fits ran sp
      (stored.erase cell (fun p _ _ apart => same p apart) (same.inside (.inr (by omega))) vacated)
      ?_ ?_
    · rw [sink]
      exact follows.ready
    · rw [sink]
      exact follows.output

/-- An assignment whose value is admitted gets a cell for its target. -/
theorem locate_assign {target : String} {e : Expr} (follows : x.Follows g r)
    (value : e.value? r.value = some v) (admits : r.Admits L g target e v)
    (room : x.literals.next + e.literalSize ≤ L.stop) :
    ∃ t slot before w', (Statement.assign target e).locate x.workspace =
        .ok (.assign t (L.cell slot)) w' ∧
      w'.literals.next = x.literals.next + e.literalSize ∧
      before.slotFor w'.arena target = .ok (slot, w'.slots) ∧
      Granted L g r before w'.arena target v.span slot ∧
      Stored g r before w'.literals.next w'.arena ∧
      ∀ b : Arena L, w'.arena.SameValues b w'.literals.next →
        t.Yields g w'.literals.next b e v := by
  have := L.ordered
  have end' : L.literalBase = L.codeBase + L.code := rfl
  have first : x.workspace.literals.next = x.literals.next := rfl
  have low := x.literals.low
  obtain ⟨t, w₁, located, slots₁, next₁, same, yields⟩ := follows.workspace.locate
    (fun name member => admits.names name (List.mem_cons_of_mem _ member)) value admits.pos room
  have grown : x.workspace.literals.next ≤ w₁.literals.next := by omega
  have stored₁ := follows.workspace.sameValues
    ⟨same.inside (.inl (by omega)), same.inside (.inl (Nat.le_refl _))⟩ grown
  rw [← slots₁] at stored₁
  obtain ⟨slot, slots, asked, granted⟩ := stored₁.exists_slotFor w₁.literals.high
    (admits.names target List.mem_cons_self) admits.whole admits.kind admits.fits
  refine ⟨t, slot, w₁.slots, { w₁ with slots }, ?_, next₁, asked, granted, stored₁, yields⟩
  rw [Statement.locate, bind_ok located, bind_ok (Compile.cellOf_eq asked)]
  rfl

/-- A value that is admitted is assigned. -/
theorem assign {target : String} {e : Expr} (follows : x.Follows g r)
    (value : e.value? r.value = some v) (admits : r.Admits L g target e v)
    (room : x.literals.next + e.literalSize ≤ L.stop) :
    ∃ routine x', execute (.assign target e) x = .ok routine x' ∧ x'.log = x.log ∧
      x'.literals.next = x.literals.next + e.literalSize ∧
      x'.Follows g (r.set target (some (v.laidOver (r.value target)))) := by
  have := L.ordered
  have := L.stackBase_eq
  have top : L.stackTop = L.stackBase + L.stack := rfl
  obtain ⟨t, slot, before, w', located, next', asked, granted, stored, yields⟩ :=
    follows.locate_assign value admits room
  have used := w'.literals.high
  have inside := granted.inside
  -- the body starts on an empty stack, with cells and literals as they were compiled
  have code := codeAt_atBody located admits.code
  rw [Task.code, List.append_assoc] at code
  have around := sameValues_atBody located admits.code
  have start := follows.toNat_sp_atBody located
  have whole := L.stack_aligned
  have order : L.StackPointer (x.atBody w' (.assign t (L.cell slot))).sp := by
    constructor <;> omega
  have stack := admits.stack
  have wide := v.span_eq
  have holding := (granted.holding stored).sameInside (around.data.mono (by omega) (by omega))
    (by omega) around.literals
  obtain ⟨m, ran, sp, sink, carries, same, kept⟩ := Machine.ran_assign order code
    (fun b kept => yields b (around.trans kept)) (by omega) inside used holding admits.plain
    (fun content content' old new shorter => by
      obtain ⟨few, rfl⟩ := admits.short content content' old new shorter
      exact ⟨few, rfl, granted.whole.1⟩)
  rw [← v.span_laidOver (r.value target)] at granted same
  have stored' := (stored.sameValues around (Nat.le_refl _)).assign asked granted same kept
    (Nat.le_refl _) carries
  obtain ⟨routine, x', done, log, grown, follows'⟩ := follows.of_ran located admits.code ran sp
    stored' (by rw [sink]; exact follows.ready) (by rw [sink]; exact follows.output)
  exact ⟨routine, x', done, log, by rw [grown, next'], follows'⟩

/-- A statement that is admitted is executed as the interpreter takes it. -/
theorem execute (follows : x.Follows g r)
    (taken : s.interpret Value.laidOver x.log.content r = some r') (admitted : s.Admitted L g r)
    (room : x.literals.next + s.literalSize ≤ L.stop) :
    ∃ routine x', Executor.execute s x = .ok routine x' ∧ x'.log = x.log ∧
      x'.literals.next = x.literals.next + s.literalSize ∧ x'.Follows g r' := by
  cases Statement.takes_of_interpret taken with
  | assign value => exact follows.assign value (admitted _ value) room
  | print value =>
    obtain ⟨routine, x', done, log, literals, follows'⟩ :=
      follows.print value fun n integer => admitted n (integer ▸ value)
    exact ⟨routine, x', done, log, by rw [literals]; rfl, follows'⟩
  | delete value =>
    cases admitted
    obtain ⟨routine, x', done, log, literals, follows'⟩ := follows.delete value
    exact ⟨routine, x', done, log, by rw [literals]; rfl, follows'⟩
  | printLog =>
    obtain ⟨routine, x', done, log, literals, follows'⟩ := follows.printLog
    exact ⟨routine, x', done, log, by rw [literals]; rfl, follows'⟩

/-- A whole program is executed as the interpreter runs it. -/
theorem executeAll {p : Program} {η : Type} (observe : Nat → Routine → η → η) (seen : η)
    (follows : x.Follows g r)
    (runs : p.Leads Value.laidOver x.log.content (fun r s _ => s.Admitted L g r) r r')
    (room : x.literals.next + p.literalSize ≤ L.stop) :
    ∃ x' seen', Executor.executeAll observe p x seen = (none, x', seen') ∧ x'.Follows g r' := by
  generalize content : x.log.content = log at runs
  induction runs generalizing x seen with
  | nil r => exact ⟨x, seen, rfl, follows⟩
  | @cons s rest r r₁ r₂ taken admitted _ ih =>
    rw [← content] at taken
    rw [Program.literalSize, List.map_cons, List.sum_cons] at room
    obtain ⟨routine, x₁, done, log₁, next₁, follows₁⟩ := follows.execute taken admitted (by omega)
    obtain ⟨x₂, seen', later, follows₂⟩ := ih (observe x.executed routine seen) follows₁
      (by rw [next₁, Program.literalSize]; omega) (by rw [log₁, content])
    refine ⟨x₂, seen', ?_, follows₂⟩
    rw [Executor.executeAll, done]
    exact later

end Follows

/-- The executor shows the given values under their names, and no others. -/
def Shows (x : Executor L Spool) (values : String → Option Value) : Prop :=
  ∀ name, (x.slotOf name).isSome = (values name).isSome ∧ x.valueOf name = values name

theorem Follows.shows (follows : x.Follows g r) : x.Shows r.value := by
  intro name
  refine ⟨follows.stored.bound name, ?_⟩
  cases value : r.value name with
  | none =>
    have unbound : x.slotOf name = none := follows.stored.lookup_of_value_none value
    rw [valueOf, unbound]
    rfl
  | some v =>
    obtain ⟨slot, cell⟩ := follows.stored.hasCell_of_value value
    have isSlot := follows.stored.isSlot cell
    have read := (follows.stored.carries name slot v cell).read_eq isSlot x.literals.high
    have bound : x.slotOf name = some slot := cell.bound
    simp only [valueOf, bound, Option.bind_eq_bind, Option.bind_some, read]
    rfl

/-- Before the first statement nothing has a value and nothing was printed. -/
theorem follows_start (L : Layout) (log : Log) (block : g = 16 ∨ g = 32) :
    (start L ⟨some {}⟩ log).Follows g {} :=
  ⟨stored_initial L block, Arena.wordAt_savedSp_initial L, rfl, rfl⟩

end Executor

/-- An interpreter has its programs executed as it runs them if it takes every statement like the one that
goes over the beginning of strings, and the statement is admitted. -/
theorem Program.run_of_leads {c : Config} {world : Surroundings} {p : Program} {r : Ledger}
    {leave : Option Value → Value → Value} {ok : Ledger → Statement → Ledger → Prop}
    (valid : c.layout = .ok L) (reservable : L.size < Arena.reserveLimit)
    (directory : c.sinkDir.all world.hasDirectory) (room : p.literalSize ≤ L.literal)
    (block : g = 16 ∨ g = 32) (inv : Ledger → Prop) (first : inv {})
    (step : ∀ s ∈ p, ∀ r r', inv r → s.interpret leave world.log.content r = some r' → ok r s r' →
      s.interpret Value.laidOver world.log.content r = some r' ∧ s.Admitted L g r ∧ inv r')
    (runs : p.Leads leave world.log.content ok {} r) :
    p.run c world = .ok r.output ∧
      ∃ x, Executor.create c world = .ok ⟨L, x⟩ ∧
        ∀ before after, p = before ++ after →
          ∃ r₁ y, before.Leads leave world.log.content ok {} r₁ ∧
            Executor.executeAll (fun _ _ seen => seen) before x () = (none, y, ()) ∧
            y.Shows r₁.value := by
  have created := Executor.create_of_layout valid reservable directory
  have follows := Executor.follows_start L world.log block
  -- every part of the program that comes first is executed as it is interpreted
  have executed (before after : Program) (same : p = before ++ after) (r₁ : Ledger)
      (runs : before.Leads leave world.log.content ok {} r₁) : ∃ y,
      Executor.executeAll (fun _ _ seen => seen) before (.start L ⟨some {}⟩ world.log) () =
        (none, y, ()) ∧ y.Follows g r₁ := by
    have admitted := runs.refine inv first fun s member =>
      step s (same ▸ List.mem_append_left _ member)
    have fits : (Literals.empty L).next + before.literalSize ≤ L.stop := by
      rw [same, Program.literalSize, List.map_append, List.sum_append] at room
      have stop : L.stop = L.literalBase + L.literal := rfl
      have next : (Literals.empty L).next = L.literalBase := rfl
      rw [Program.literalSize]
      omega
    obtain ⟨y, seen, done, follows'⟩ :=
      follows.executeAll (fun _ _ seen => seen) () admitted fits
    exact ⟨y, done, follows'⟩
  refine ⟨?_, _, created, ?_⟩
  · obtain ⟨y, done, follows'⟩ := executed p [] (List.append_nil p).symm r runs
    simp only [Program.run, Program.runObserved, created, done,
      Executor.finish_of_isOpen follows'.ready, Spool.finish, follows'.output]
  · intro before after same
    obtain ⟨r₁, first, -⟩ := (same ▸ runs).split
    obtain ⟨y, done, follows'⟩ := executed before after same r₁ first
    exact ⟨r₁, y, first, done, follows'.shows⟩

end Osl

