import Osl.Proofs.Isolation.Discipline
import Osl.Proofs.Isolation.Follows

/-!
# Assigning to one name leaves the others alone

The cells of a careful program keep apart if its statements keep to a discipline, and then no statement
changes the slot or the value of a name other than its target (`Disciplined.isolated`). Without a
discipline it may: nothing but the shape of a window tells how far a cell reaches, and a string that goes
into the cell of an integer is stored over the cell behind it (`not_isolated`).
-/

namespace Osl
set_option autoImplicit false

variable {L : Layout} {d : Discipline} {p : Plan} {x x' : Executor L Spool} {s : Statement} {e : Expr}
  {f : ExecError} {routine : Routine} {names : List String} {name target : String} {slot : Nat}

/-- What holds after the statements of a program that keeps to the discipline. -/
structure Discipline.Holds (d : Discipline) (p : Plan) (x : Executor L Spool) : Prop where
  sound : p.Sound L
  orderly : d.Orderly L p
  follows : p.Follows x

namespace Discipline.Holds

theorem start (d : Discipline) (sink : Spool) (log : Log) : d.Holds {} (Executor.start L sink log) :=
  ⟨.start L, .start L d, .start L sink log⟩

/-- A statement that succeeds spares the cells of other names, and the discipline holds again. -/
theorem done (holds : d.Holds p x) (careful : s.Careful p.names x) (allowed : d.Allows L p s)
    (done : Executor.execute s x = .ok routine x') :
    x.SparesCells s x' ∧ d.Holds (p.after L s) x' := by
  obtain ⟨sound, orderly, follows⟩ := holds
  have orderly' := orderly.after sound allowed
  cases s with
  | assign target e =>
    obtain ⟨slot, room⟩ := orderly.room sound allowed
    obtain ⟨spares, follows'⟩ := follows.assign sound careful room done
    have after : p.after L (.assign target e) = p.assign target slot (e.kind p.kindOf) := by
      rw [Plan.after, room.placed, Option.getD_some]
    rw [after] at orderly' ⊢
    exact ⟨spares, sound.assign room, orderly', follows'⟩
  | delete name =>
    have spares : x.SparesCells (.delete name) x' := .of_ne (by rintro _ _ ⟨⟩)
    exact ⟨spares, sound.delete careful, orderly', follows.delete careful done⟩
  | print name | printLog =>
    exact ⟨.of_ne (by rintro _ _ ⟨⟩), sound, orderly', follows.printed careful rfl done⟩

/-- A statement that fails and binds no name leaves everything as it was. -/
theorem failed (holds : d.Holds p x) (careful : s.Careful p.names x)
    (failed : Executor.execute s x = .error f x') (slots : ∀ name, x'.slotOf name = x.slotOf name) :
    d.Holds p x' :=
  ⟨holds.sound, holds.orderly, holds.follows.rebound (holds.follows.tidy.rebound careful failed) slots⟩

/-- An assignment that fails and binds its target has bound it to its place. -/
theorem bound (holds : d.Holds p x) (careful : (Statement.assign target e).Careful p.names x)
    (allowed : d.Allows L p (.assign target e))
    (failed : Executor.execute (.assign target e) x = .error f x')
    (bound : x'.slotOf target ≠ x.slotOf target) : d.Holds (p.reserve L target) x' := by
  obtain ⟨sound, orderly, follows⟩ := holds
  obtain ⟨slot, room⟩ := orderly.room sound allowed
  exact ⟨sound.reserve room.placed, orderly.reserve sound allowed,
    follows.reserve (follows.tidy.rebound careful failed) room.placed bound⟩

end Discipline.Holds

namespace Executor

/-- The executors to which careful statements lead that keep to a discipline, with the plan that the
statements come to. A statement may fail. If it has bound its target then, the discipline must have
allowed it. -/
inductive Disciplined (d : Discipline) : Plan → Executor L Spool → Prop
  | start (sink : Spool) (log : Log) : Disciplined d {} (start L sink log)
  | done {p : Plan} {x x' : Executor L Spool} {s : Statement} {routine : Routine} :
      Disciplined d p x → s.Careful p.names x → d.Allows L p s → execute s x = .ok routine x' →
      Disciplined d (p.after L s) x'
  | failed {p : Plan} {x x' : Executor L Spool} {s : Statement} {f : ExecError} :
      Disciplined d p x → s.Careful p.names x → execute s x = .error f x' →
      (∀ name, x'.slotOf name = x.slotOf name) → Disciplined d p x'
  | bound {p : Plan} {x x' : Executor L Spool} {target : String} {e : Expr} {f : ExecError} :
      Disciplined d p x → (Statement.assign target e).Careful p.names x →
      d.Allows L p (.assign target e) → execute (.assign target e) x = .error f x' →
      x'.slotOf target ≠ x.slotOf target → Disciplined d (p.reserve L target) x'

namespace Disciplined

theorem holds (run : Disciplined d p x) : d.Holds p x := by
  induction run with
  | start sink log => exact .start d sink log
  | done _ careful allowed done ih => exact (ih.done careful allowed done).2
  | failed _ careful failed slots ih => exact ih.failed careful failed slots
  | bound _ careful allowed failed bound ih => exact ih.bound careful allowed failed bound

/-- The assignments of a program that keeps to a discipline have spared the cells of other names. -/
theorem careful (run : Disciplined d p x) : Careful SparesCells p.names x := by
  induction run with
  | start sink log => exact .start sink log
  | @done p _ _ s _ run careful allowed done ih =>
    have names : (p.after L s).names = s.assigned p.names := by cases s <;> rfl
    rw [names]
    exact .done ih careful done (run.holds.done careful allowed done).1
  | failed _ careful failed _ ih => exact .failed ih careful failed
  | bound _ careful _ failed _ ih => exact .failed ih careful failed

/-- After a careful program that keeps to a discipline, a further such statement that succeeds changes
neither the slot nor the value of any bound name but its target. -/
theorem isolated (run : Disciplined d p x) (careful : s.Careful p.names x) (allowed : d.Allows L p s)
    (done : execute s x = .ok routine x') (bound : x.slotOf name = some slot)
    (other : s.target? ≠ some name) :
    x'.slotOf name = some slot ∧ x'.valueOf name = x.valueOf name := by
  obtain ⟨kept, same⟩ := run.careful.keeps careful done bound other
  exact ⟨kept, same ((run.holds.done careful allowed done).1.others name other)⟩

/-- The statements are careful, the discipline allows them and they succeed, one after another. -/
def Succeed (d : Discipline) : Program → Plan → Executor L Spool → Prop
  | [], _, _ => True
  | s :: rest, p, x =>
    s.Careful p.names x ∧ d.Allows L p s ∧ x.failure s = none ∧
      Succeed d rest (p.after L s) (endState (execute s) x)

instance decidableSucceed (d : Discipline) : (ss : Program) → (p : Plan) → (x : Executor L Spool) →
    Decidable (Succeed d ss p x)
  | [], _, _ => inferInstanceAs (Decidable True)
  | s :: rest, p, x =>
    have := decidableSucceed d rest (p.after L s) (endState (execute s) x)
    inferInstanceAs (Decidable (s.Careful p.names x ∧ d.Allows L p s ∧ x.failure s = none ∧ _))

/-- A program whose statements all succeed comes to the plan that its text says. -/
theorem executeEach {ss : Program} (run : Disciplined d p x) (succeed : Succeed d ss p x) :
    Disciplined d (ss.foldl (Plan.after L) p) (x.executeEach ss) := by
  induction ss generalizing p x with
  | nil => exact run
  | cons s rest ih =>
    obtain ⟨careful, allowed, succeeds, rest⟩ := succeed
    obtain ⟨routine, done⟩ := exists_execute_of_failure succeeds
    exact ih (run.done careful allowed done) rest

end Disciplined

/-- A new executor of the tiny layout. -/
def tiny : Executor .tiny Spool := start .tiny ⟨some {}⟩ .missing

/-- `x = 1; y = "ab"; del x;` -/
def vacating : Program := [.assign "x" (.int 1), .assign "y" (.str [97, 98]), .delete "x"]

/-- In `x = 1; y = "ab"; del x; z = 5;` the last integer goes where the first one was, right in front of
the string, and leaves that alone. -/
theorem isolated_vacating : ∃ routine x',
    Disciplined .planned (vacating.foldl (Plan.after .tiny) {}) (tiny.executeEach vacating) ∧
      execute (.assign "z" (.int 5)) (tiny.executeEach vacating) = .ok routine x' ∧
      x'.slotOf "z" = some 0 ∧ x'.slotOf "y" = some 16 ∧
      x'.valueOf "y" = some (.string [97, 98]) := by
  have state : Disciplined.Succeed .planned vacating {} tiny ∧
      (Statement.assign "z" (.int 5)).Careful (vacating.foldl (Plan.after .tiny) {}).names
        (tiny.executeEach vacating) ∧
      Discipline.planned.Allows .tiny (vacating.foldl (Plan.after .tiny) {}) (.assign "z" (.int 5)) ∧
      (tiny.executeEach vacating).failure (.assign "z" (.int 5)) = none ∧
      (tiny.executeEach vacating).slotOf "y" = some 16 ∧
      (tiny.executeEach vacating).valueOf "y" = some (.string [97, 98]) ∧
      (endState (execute (.assign "z" (.int 5))) (tiny.executeEach vacating)).slotOf "z" = some 0 := by
    decide +kernel
  obtain ⟨before, careful, allowed, succeeds, bound, value, target⟩ := state
  have run := (Disciplined.start _ _).executeEach before
  obtain ⟨routine, done⟩ := exists_execute_of_failure succeeds
  obtain ⟨kept, same⟩ := Disciplined.isolated run careful allowed done bound (by decide)
  exact ⟨routine, _, run, done, target, kept, same.trans value⟩

/-- `x = 1; y = "ab";` -/
def twoCells : Program := [.assign "x" (.int 1), .assign "y" (.str [97, 98])]

/-- In `x = 1; y = "ab"; x = "abc";` the last statement turns the string into an integer: its own
string takes 32 bytes from the slot of the former integer on. -/
theorem not_isolated : ∃ routine x',
    Careful (fun _ _ _ => True) ["y", "x"] (tiny.executeEach twoCells) ∧
      (Statement.assign "x" (.str [97, 98, 99])).Careful ["y", "x"] (tiny.executeEach twoCells) ∧
      execute (.assign "x" (.str [97, 98, 99])) (tiny.executeEach twoCells) = .ok routine x' ∧
      (tiny.executeEach twoCells).valueOf "y" = some (.string [97, 98]) ∧
      x'.valueOf "y" = some (.integer 0x636261) := by
  have state : Disciplined.Succeed .planned twoCells {} tiny ∧
      (Statement.assign "x" (.str [97, 98, 99])).Careful ["y", "x"] (tiny.executeEach twoCells) ∧
      (tiny.executeEach twoCells).failure (.assign "x" (.str [97, 98, 99])) = none ∧
      (tiny.executeEach twoCells).valueOf "y" = some (.string [97, 98]) ∧
      (endState (execute (.assign "x" (.str [97, 98, 99]))) (tiny.executeEach twoCells)).valueOf "y" =
        some (.integer 0x636261) := by
    decide +kernel
  obtain ⟨before, careful, succeeds, string, integer⟩ := state
  obtain ⟨routine, done⟩ := exists_execute_of_failure succeeds
  have run := ((Disciplined.start _ _).executeEach before).careful
  exact ⟨routine, _, run.mono fun _ => trivial, careful, done, string, integer⟩

end Executor
end Osl
