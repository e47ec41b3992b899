import Osl.Proofs.Machine.Confinement
import Osl.Proofs.Machine.Output

/-!
# Two machines in lockstep

Two machines that differ in their sinks at most do the same, whatever log they have and whatever code
they run into. Work that does not write never looks at the sink (`Silent`); work that writes appends the
same bytes to both sinks and goes on alike (`Blind`), as long as the sinks take every write; and only
`printLog` appends what depends on the log. So two runs go through the same instructions, and their
transcripts, which say what each instruction has appended, agree but for the log (`run_lockstep`).
-/

namespace Osl
set_option autoImplicit false

/-- How to tell that a sink takes writes, and what it has collected so far. -/
structure Sink.Collector (σ : Type) [Sink σ] where
  ready : σ → Prop
  collected : σ → List Byte
  takes : ∀ s bs, ready s →
    ∃ t, write s bs = (.ok (), t) ∧ ready t ∧ collected t = collected s ++ bs

namespace Sink.Collector

variable {σ : Type} [Sink σ] {c : Collector σ} {s t u : σ} {bs cs : List Byte}

/-- The sink has taken some bytes and goes on to take writes. -/
structure Took (c : Collector σ) (s : σ) (bs : List Byte) (t : σ) : Prop where
  ready : c.ready t
  collected : c.collected t = c.collected s ++ bs

theorem Took.nothing (ready : c.ready s) : c.Took s [] s := ⟨ready, (List.append_nil _).symm⟩

theorem Took.trans (h : c.Took s bs t) (h' : c.Took t cs u) : c.Took s (bs ++ cs) u :=
  ⟨h'.ready, by rw [h'.collected, h.collected, List.append_assoc]⟩

/-- What was taken can be told from the sinks. -/
theorem Took.drop_eq (h : c.Took s bs t) : (c.collected t).drop (c.collected s).length = bs := by
  rw [h.collected, List.drop_left]

end Sink.Collector

open Sink (Collector)

/-- A spool collects as long as its file is there. -/
def Spool.collector : Collector Spool where
  ready s := s.isOpen
  collected := Spool.toList
  takes s bs ready := by
    obtain ⟨_ | file⟩ := s
    · cases ready
    · exact ⟨_, rfl, rfl, Buffer.toList_append file bs⟩

/-- A buffer without a bound collects. -/
def Buffer.collector : Collector Buffer where
  ready s := s.bound = none
  collected := Buffer.toList
  takes s bs ready := by
    have room : s.hasRoom bs.length := by simp [hasRoom, ready]
    exact ⟨s.append bs, if_pos room, ready, toList_append s bs⟩

namespace Machine

variable {L : Layout} {σ α β : Type} {m m' : Machine L σ} {s t : σ}

/-! ## Work that leaves the sink alone -/

/-- The end of a computation, with another sink in the machine. -/
def endWith (s : σ) : EStateM.Result Fault (Machine L σ) α → EStateM.Result Fault (Machine L σ) α
  | .ok v m => .ok v { m with sink := s }
  | .error f m => .error f { m with sink := s }

/-- The work neither writes to the sink nor looks at it. -/
def Silent (work : Exec L σ α) : Prop :=
  ∀ (m : Machine L σ) (s : σ), work { m with sink := s } = endWith s (work m)

namespace Silent

theorem pure (v : α) : Silent (Pure.pure v : Exec L σ α) := fun _ _ => rfl

theorem throw (f : Fault) : Silent (MonadExcept.throw f : Exec L σ α) := fun _ _ => rfl

theorem bind {work : Exec L σ α} {rest : α → Exec L σ β} (first : Silent work)
    (next : ∀ v, Silent (rest v)) : Silent (work >>= rest) := by
  intro m s
  have alike := first m s
  cases run : work m with
  | ok v m' =>
    rw [run] at alike
    rw [bind_ok alike, bind_ok run]
    exact next v m' s
  | error f m' =>
    rw [run] at alike
    rw [bind_error alike, bind_error run]
    rfl

/-- What goes on from the state without the sink. -/
theorem get {rest : Machine L σ → Exec L σ α} (same : ∀ m s, rest { m with sink := s } = rest m)
    (next : ∀ m, Silent (rest m)) : Silent (MonadState.get >>= rest) := by
  intro m s
  rw [bind_get, bind_get, same]
  exact next m m s

theorem modify {f : Machine L σ → Machine L σ}
    (same : ∀ m s, f { m with sink := s } = { f m with sink := s }) :
    Silent (modify f : Exec L σ Unit) := by
  intro m s
  rw [modify_apply, modify_apply, same]
  rfl

end Silent

theorem silent_reading (f : Arena L → Except Fault α) : Silent (reading f : Exec L σ α) := by
  intro m s
  unfold reading
  cases f m.arena <;> rfl

theorem silent_readWord (p : Word) : Silent (readWord p : Exec L σ Word) := silent_reading _

theorem silent_update (f : Arena.Update L) : Silent (update f : Exec L σ Unit) := by
  rintro ⟨arena, sink, ip, sp, entered⟩ s
  simp only [update]
  cases f arena <;> rfl

theorem silent_push (w : Word) : Silent (push w : Exec L σ Unit) := by
  refine .get (fun _ _ => rfl) fun m => ?_
  dsimp only
  split
  · exact .bind (.throw _) fun _ => .bind (silent_update _) fun _ => .modify fun _ _ => rfl
  · exact .bind (silent_update _) fun _ => .modify fun _ _ => rfl

theorem silent_peek (offset : Word) : Silent (peek offset : Exec L σ Word) := by
  refine .get (fun _ _ => rfl) fun m => ?_
  dsimp only
  split
  · exact .bind (.throw _) fun _ => silent_readWord _
  · exact silent_readWord _

theorem silent_drop (n : Word) : Silent (drop n : Exec L σ Unit) := by
  refine .get (fun _ _ => rfl) fun m => ?_
  dsimp only
  split
  · exact .bind (.throw _) fun _ => .modify fun _ _ => rfl
  · exact .modify fun _ _ => rfl

theorem silent_pop : Silent (pop : Exec L σ Word) :=
  .bind (silent_peek 0) fun _ => .bind (.modify fun _ _ => rfl) fun _ => .pure _

theorem silent_arith (op : Arith) : Silent (arith op : Exec L σ Unit) :=
  .bind (silent_peek 0) fun _ => .bind (silent_peek 16) fun _ =>
    .bind (silent_drop _) fun _ => silent_push _

theorem silent_load (cell : Word) : Silent (load cell : Exec L σ Unit) :=
  load_closed (P := Silent) .bind silent_readWord silent_push cell

theorem silent_store (cell : Word) : Silent (store cell : Exec L σ Unit) :=
  store_closed (P := Silent) .bind silent_readWord (fun _ _ => silent_update _) (silent_peek 8)
    silent_pop (silent_drop 24) (fun _ _ _ => silent_update _) cell

theorem silent_leave : Silent (leave : Exec L σ Unit) := by
  refine .bind (.modify fun _ _ => rfl) fun _ => .get (fun _ _ => rfl) fun m => ?_
  dsimp only
  split
  · exact .throw _
  · exact .pure _

theorem silent_fetchOpcode : Silent (fetchOpcode : Exec L σ Opcode) := by
  refine .get (fun _ _ => rfl) fun m => .bind (silent_reading _) fun byte => ?_
  cases Opcode.ofByte? byte with
  | none => exact .throw _
  | some op => exact .bind (.modify fun _ _ => rfl) fun _ => .pure _

theorem silent_fetchOperand : Silent (fetchOperand : Exec L σ Word) :=
  .get (fun _ _ => rfl) fun _ => .bind (silent_readWord _) fun _ =>
    .bind (.modify fun _ _ => rfl) fun _ => .pure _

theorem silent_fetch : Silent (fetch : Exec L σ Instr) := by
  refine .bind silent_fetchOpcode fun op => ?_
  cases op.form with
  | bare i => exact .pure _
  | withOperand make => exact .bind silent_fetchOperand fun _ => .pure _

/-! ## Work that writes -/

section Writing

variable [Sink σ] (c : Collector σ) {i : Instr}

/-- Two computations have come to the same end, in machines that differ in their sinks at most; from
`s` on the first sink has taken `bs`, from `s'` on the second has taken `bs'`. -/
inductive EndAlike (s s' : σ) (bs bs' : List Byte) :
    EStateM.Result Fault (Machine L σ) α → EStateM.Result Fault (Machine L σ) α → Prop
  | ok (v : α) {m : Machine L σ} {t : σ} : c.Took s bs m.sink → c.Took s' bs' t →
      EndAlike s s' bs bs' (.ok v m) (.ok v { m with sink := t })
  | error (f : Fault) {m : Machine L σ} {t : σ} : c.Took s bs m.sink → c.Took s' bs' t →
      EndAlike s s' bs bs' (.error f m) (.error f { m with sink := t })

/-- From machines that differ in their sinks at most the work comes to the same end, and both sinks
take the same. -/
def Blind (work : Exec L σ α) : Prop :=
  ∀ (m : Machine L σ) (s : σ), c.ready m.sink → c.ready s →
    ∃ bs, EndAlike c m.sink s bs bs (work m) (work { m with sink := s })

variable {c}

/-- Silent work leaves both sinks as they are. -/
theorem Silent.endAlike {work : Exec L σ α} (silent : Silent work) (ready : c.ready m.sink)
    (ready' : c.ready s) : EndAlike c m.sink s [] [] (work m) (work { m with sink := s }) := by
  have same : work m = endWith m.sink (work m) := silent m m.sink
  rw [silent m s]
  cases run : work m with
  | ok v m' =>
    rw [run] at same
    injection same with _ same
    have kept : m'.sink = m.sink := by rw [same]
    exact .ok v (by rw [kept]; exact .nothing ready) (.nothing ready')
  | error f m' =>
    rw [run] at same
    injection same with _ same
    have kept : m'.sink = m.sink := by rw [same]
    exact .error f (by rw [kept]; exact .nothing ready) (.nothing ready')

/-- What both sinks have taken before counts in. -/
theorem EndAlike.after {s s' t t' : σ} {bs bs' cs cs' : List Byte}
    {r r' : EStateM.Result Fault (Machine L σ) α} (took : c.Took s bs t) (took' : c.Took s' bs' t')
    (h : EndAlike c t t' cs cs' r r') : EndAlike c s s' (bs ++ cs) (bs' ++ cs') r r' := by
  cases h with
  | ok v last last' => exact .ok v (took.trans last) (took'.trans last')
  | error f last last' => exact .error f (took.trans last) (took'.trans last')

namespace Blind

theorem of_silent {work : Exec L σ α} (silent : Silent work) : Blind c work :=
  fun _ _ ready ready' => ⟨[], silent.endAlike ready ready'⟩

theorem bind {work : Exec L σ α} {rest : α → Exec L σ β} (first : Blind c work)
    (next : ∀ v, Blind c (rest v)) : Blind c (work >>= rest) := by
  intro m s ready ready'
  obtain ⟨bs, alike⟩ := first m s ready ready'
  generalize run : work m = r at alike
  generalize run' : work { m with sink := s } = r' at alike
  cases alike with
  | error f took took' =>
    rw [bind_error run, bind_error run']
    exact ⟨bs, .error f took took'⟩
  | @ok v m₁ t took took' =>
    rw [bind_ok run, bind_ok run']
    obtain ⟨cs, alike⟩ := next v m₁ t took.ready took'.ready
    exact ⟨bs ++ cs, alike.after took took'⟩

end Blind

theorem emit_took (bs : List Byte) (ready : c.ready m.sink) :
    ∃ t, emit bs m = .ok () { m with sink := t } ∧ c.Took m.sink bs t := by
  obtain ⟨t, wrote, ready', collected⟩ := c.takes m.sink bs ready
  exact ⟨t, by simp only [emit, wrote], ready', collected⟩

theorem blind_emit (bs : List Byte) : Blind c (emit bs : Exec L σ Unit) := by
  intro m s ready ready'
  obtain ⟨t, done, took⟩ := emit_took bs ready
  obtain ⟨t', done', took'⟩ := emit_took (m := { m with sink := s }) bs ready'
  rw [done, done']
  exact ⟨bs, .ok () took took'⟩

theorem blind_print (cell : Word) : Blind c (print cell : Exec L σ Unit) :=
  print_closed (P := Blind c) .bind (fun p => .of_silent (silent_readWord p))
    (fun _ _ => .of_silent (silent_reading _)) (fun _ _ => .of_silent (silent_update _)) blind_emit
    cell

/-- The log is appended to the sink, and nothing else happens. -/
theorem printLog_took (log : Log) (ready : c.ready m.sink) :
    ∃ t, printLog log m = .ok () { m with sink := t } ∧ c.Took m.sink log.content t := by
  rw [← log.flatten_pieces, printLog]
  generalize log.pieces = pieces
  induction pieces generalizing m with
  | nil => exact ⟨m.sink, rfl, .nothing ready⟩
  | cons bs pieces ih =>
    obtain ⟨t, done, took⟩ := emit_took bs ready
    obtain ⟨t', rest, took'⟩ := ih (m := { m with sink := t }) took.ready
    refine ⟨t', ?_, took.trans took'⟩
    rw [List.forM_eq_forM, List.forM_cons, bind_ok done]
    exact rest

/-- No other instruction depends on the log. -/
theorem blind_exec (log : Log) (other : i ≠ .printLog) : Blind c (exec log i : Exec L σ (Option Word)) := by
  cases i with
  | printLog => exact absurd rfl other
  | enter => exact .of_silent (.bind (.modify fun _ _ => rfl) fun _ => .pure _)
  | leave => exact .of_silent (.bind silent_leave fun _ => .pure _)
  | ret => exact .of_silent (.pure _)
  | push w => exact .of_silent (.bind (silent_push w) fun _ => .pure _)
  | load cell => exact .of_silent (.bind (silent_load cell) fun _ => .pure _)
  | store cell => exact .of_silent (.bind (silent_store cell) fun _ => .pure _)
  | arith op => exact .of_silent (.bind (silent_arith op) fun _ => .pure _)
  | release cell => exact .of_silent (.bind (silent_update _) fun _ => .pure _)
  | print cell => exact .bind (blind_print cell) fun _ => .of_silent (.pure _)

theorem exec_log (log log' : Log) (other : i ≠ .printLog) :
    (exec log' i : Exec L σ (Option Word)) = exec log i := by
  cases i with
  | printLog => exact absurd rfl other
  | enter | leave | ret | push | load | store | arith | release | print => rfl

end Writing

end Machine

/-! ## Transcripts -/

/-- An executed instruction and the bytes that it has appended to the sink. -/
structure Written where
  instr : Instr
  bytes : List Byte
  deriving DecidableEq

namespace Written

/-- All bytes of a transcript. -/
def output (ws : List Written) : List Byte := ws.flatMap (·.bytes)

@[simp] theorem output_nil : output [] = [] := rfl

@[simp] theorem output_cons (w : Written) (ws : List Written) :
    output (w :: ws) = w.bytes ++ output ws := rfl

theorem output_single (w : Written) : output [w] = w.bytes := List.append_nil _

@[simp] theorem output_append (ws ws' : List Written) :
    output (ws ++ ws') = output ws ++ output ws' := List.flatMap_append

/-- A transcript without what `printLog` has appended. -/
def besidesLog (ws : List Written) : List Written := ws.filter (·.instr ≠ .printLog)

/-- The same instruction with another log. -/
def relog (log : Log) (w : Written) : Written :=
  if w.instr = .printLog then { w with bytes := log.content } else w

theorem besidesLog_map_relog (log : Log) (ws : List Written) :
    besidesLog (ws.map (relog log)) = besidesLog ws := by
  induction ws with
  | nil => rfl
  | cons w ws ih =>
    unfold besidesLog at ih ⊢
    by_cases prints : w.instr = .printLog
    · simpa [relog, prints] using ih
    · simpa [relog, prints] using ih

end Written

namespace Machine

variable {L : Layout} {σ α : Type} [Sink σ] {c : Collector σ} {m : Machine L σ} {s : σ}

/-- The instructions that are executed within `n` steps, each with what it appends to the sink. -/
def transcript (c : Collector σ) (log : Log) : (n : Nat) → Machine L σ → List Written
  | 0, _ => []
  | n + 1, m =>
    match fetch m with
    | .error _ _ => []
    | .ok i m =>
      let sink := (endState (exec log i) m).sink
      ⟨i, (c.collected sink).drop (c.collected m.sink).length⟩ ::
        match exec log i m with
        | .ok none m => transcript c log n m
        | .ok (some _) _ | .error _ _ => []

section Equations

variable {m₁ m₂ : Machine L σ} {i : Instr} {bs : List Byte} {n : Nat} {log : Log}

theorem step_of_fetch (log : Log) (fetched : fetch m = .ok i m₁) : step log m = exec log i m₁ := by
  rw [step, bind_ok fetched]

theorem transcript_next (fetched : fetch m = .ok i m₁) (ran : exec log i m₁ = .ok none m₂)
    (took : c.Took m₁.sink bs m₂.sink) :
    transcript c log (n + 1) m = ⟨i, bs⟩ :: transcript c log n m₂ := by
  simp only [transcript, fetched, ran, endState_ok ran, took.drop_eq]

theorem transcript_return {w : Word} (fetched : fetch m = .ok i m₁)
    (ran : exec log i m₁ = .ok (some w) m₂) (took : c.Took m₁.sink bs m₂.sink) :
    transcript c log (n + 1) m = [⟨i, bs⟩] := by
  simp only [transcript, fetched, ran, endState_ok ran, took.drop_eq]

theorem transcript_fault {f : Fault} (fetched : fetch m = .ok i m₁)
    (ran : exec log i m₁ = .error f m₂) (took : c.Took m₁.sink bs m₂.sink) :
    transcript c log (n + 1) m = [⟨i, bs⟩] := by
  simp only [transcript, fetched, ran, endState_error ran, took.drop_eq]

theorem transcript_fetch_fault {f : Fault} (failed : fetch m = .error f m₁) :
    transcript c log (n + 1) m = [] := by
  simp only [transcript, failed]

end Equations

/-- One instruction: both machines come to the same end, and they append the same unless the instruction
prints the log. -/
theorem exec_lockstep (log log' : Log) (i : Instr) (ready : c.ready m.sink) (ready' : c.ready s) :
    ∃ bs bs', Written.relog log' ⟨i, bs⟩ = ⟨i, bs'⟩ ∧
      EndAlike c m.sink s bs bs' (exec log i m) (exec log' i { m with sink := s }) := by
  by_cases prints : i = .printLog
  · subst prints
    obtain ⟨t, done, took⟩ := printLog_took log ready
    obtain ⟨t', done', took'⟩ := printLog_took log' (m := { m with sink := s }) ready'
    rw [exec, exec, bind_ok done, bind_ok done']
    exact ⟨log.content, log'.content, rfl, .ok none took took'⟩
  · obtain ⟨bs, alike⟩ := blind_exec log prints m s ready ready'
    rw [exec_log log log' prints]
    exact ⟨bs, bs, if_neg prints, alike⟩

/-- Whole runs: both machines come to the same end, and the second transcript is the first one with the
other log. -/
theorem runFor_lockstep (log log' : Log) (n : Nat) (ready : c.ready m.sink) (ready' : c.ready s) :
    transcript c log' n { m with sink := s } = (transcript c log n m).map (Written.relog log') ∧
      EndAlike c m.sink s (Written.output (transcript c log n m))
        (Written.output (transcript c log' n { m with sink := s }))
        (runFor log n m) (runFor log' n { m with sink := s }) := by
  induction n generalizing m s with
  | zero => exact ⟨rfl, .ok none (.nothing ready) (.nothing ready')⟩
  | succ n ih =>
    have fetched := silent_fetch.endAlike ready ready'
    generalize run : fetch m = r at fetched
    generalize run' : fetch { m with sink := s } = r' at fetched
    cases fetched with
    | error f took took' =>
      rw [transcript_fetch_fault run, transcript_fetch_fault run', runFor, runFor,
        bind_error (by rw [step, bind_error run]), bind_error (by rw [step, bind_error run'])]
      exact ⟨rfl, .error f took took'⟩
    | @ok i m₁ t took took' =>
      obtain ⟨bs, bs', relogged, executed⟩ := exec_lockstep log log' i took.ready took'.ready
      generalize ran : exec log i m₁ = r at executed
      generalize ran' : exec log' i { m₁ with sink := t } = r' at executed
      have stepped := (step_of_fetch log run).trans ran
      have stepped' := (step_of_fetch log' run').trans ran'
      cases executed with
      | error f wrote wrote' =>
        rw [transcript_fault run ran wrote, transcript_fault run' ran' wrote', runFor, runFor,
          bind_error stepped, bind_error stepped', Written.output_single, Written.output_single]
        exact ⟨by rw [List.map_singleton, relogged], .error f (took.trans wrote) (took'.trans wrote')⟩
      | @ok v m₂ u wrote wrote' =>
        cases v with
        | some w =>
          rw [transcript_return run ran wrote, transcript_return run' ran' wrote', runFor, runFor,
            bind_ok stepped, bind_ok stepped', Written.output_single, Written.output_single]
          exact ⟨by rw [List.map_singleton, relogged],
            .ok (some w) (took.trans wrote) (took'.trans wrote')⟩
        | none =>
          obtain ⟨same, alike⟩ := ih wrote.ready wrote'.ready
          rw [transcript_next run ran wrote, transcript_next run' ran' wrote', runFor, runFor,
            bind_ok stepped, bind_ok stepped', Written.output_cons, Written.output_cons]
          exact ⟨by rw [List.map_cons, relogged, same],
            alike.after (took.trans wrote) (took'.trans wrote')⟩

/-- Runs of a routine from its start: the same, the stacks put back after a fault. -/
theorem run_lockstep (log log' : Log) (ready : c.ready m.sink) (ready' : c.ready s) :
    EndAlike c m.sink s (Written.output (transcript c log (stepBound L) m.atStart))
      (Written.output (transcript c log' (stepBound L) { m with sink := s }.atStart))
      (run log m) (run log' { m with sink := s }) := by
  have alike := (runFor_lockstep (m := m.atStart) log log' (stepBound L) ready ready').2
  unfold run
  unfold atStart at alike ⊢
  dsimp only at alike ⊢
  generalize runFor log (stepBound L)
    { m with ip := .ofNat L.codeBase, sp := callerSp, entered := false } = r at alike ⊢
  generalize runFor log' (stepBound L)
    { m with sink := s, ip := .ofNat L.codeBase, sp := callerSp, entered := false } = r' at alike ⊢
  cases alike with
  | ok v took took' => exact .ok (v.getD 0) took took'
  | @error f m' t took took' =>
    have sink : m'.unwind.sink = m'.sink := by unfold unwind; split <;> rfl
    have other : { m' with sink := t }.unwind = { m'.unwind with sink := t } := by
      unfold unwind
      dsimp only
      split <;> rfl
    dsimp only
    rw [other]
    exact .error f (by rwa [sink]) took'

end Machine
end Osl
