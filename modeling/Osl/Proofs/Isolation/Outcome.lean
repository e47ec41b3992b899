import Osl.Proofs.Isolation.Assignment

/-!
# What careful statements leave alone

A careful statement writes at most one cell, and it may write a cell of its target alone (`Outcome`). As
long as the assignments of a careful program have written their cells inside the data section and off
the cells of other names, no statement changes the slot of another name, and none its value but an
assignment that overlaps its cell (`Careful.keeps`).
-/

namespace Osl
set_option autoImplicit false

variable {L : Layout} {names : List String} {x x' : Executor L Spool} {s : Statement}
  {routine : Routine} {name : String} {slot : Nat}

namespace Executor

/-- How a careful statement ends: it binds names at most, or it writes the cell of its target, or it
takes the cell away from its target. -/
inductive Outcome (names : List String) (x : Executor L Spool) :
    Statement → EStateM.Result ExecError (Executor L Spool) Routine → Prop
  | failed {s : Statement} {e : ExecError} {x' : Executor L Spool} :
      x.Rebound s x' → Outcome names x s (.error e x')
  | printed {s : Statement} {routine : Routine} {x' : Executor L Spool} :
      s.target? = none → x.Rebound s x' → Outcome names x s (.ok routine x')
  | assigned {target : String} {e : Expr} {v : Value} {u : Nat} {routine : Routine}
      {x' : Executor L Spool} :
      e.value? x.valueOf = some v → x.Meant target u → x'.slotOf target = some u →
      x.Changed x' target u v.span → (u + v.span ≤ L.data →
        (x'.arena.IntegerAt u ∨ x'.arena.StringAt u) ∧ x'.span target = v.span) →
      Outcome names x (.assign target e) (.ok routine x')
  | deleted {target : String} {u : Nat} {routine : Routine} {x' : Executor L Spool} :
      target ∈ names → x.slotOf target = some u → x'.slotOf target = none →
      x.Changed x' target u 16 → Outcome names x (.delete target) (.ok routine x')

namespace Tidy

/-- On a tidy executor every careful statement comes to one of these ends. -/
theorem outcome (tidy : x.Tidy names) (careful : s.Careful names x) :
    Outcome names x s (execute s x) := by
  cases s with
  | assign target e =>
    obtain ⟨known, v, value, small⟩ := careful
    rcases tidy.assign target known value small with
      ⟨f, x', failed, rebound⟩ | ⟨r, x', u, meant, done, bound, changed, held⟩
    · rw [failed]
      exact .failed rebound
    · rw [done]
      exact .assigned value meant bound changed held
  | print printed =>
    obtain ⟨r, x', done, rebound⟩ := tidy.print careful
    rw [done]
    exact .printed rfl rebound
  | delete deleted =>
    obtain ⟨r, x', u, done, bound, unbound, changed⟩ := tidy.delete careful
    rw [done]
    exact .deleted careful bound unbound changed
  | printLog =>
    obtain ⟨r, x', done, rebound⟩ := tidy.printLog
    rw [done]
    exact .printed rfl rebound

/-- A statement that succeeds keeps the slots of all names but its target, and the values of those
whose cells it spares. -/
theorem keeps (tidy : x.Tidy names) (careful : s.Careful names x)
    (done : execute s x = .ok routine x') (bound : x.slotOf name = some slot)
    (other : s.target? ≠ some name) :
    x'.slotOf name = some slot ∧ (x.SparesCell s x' name → x'.valueOf name = x.valueOf name) := by
  have outcome := tidy.outcome careful
  rw [done] at outcome
  cases outcome with
  | printed _ rebound =>
    obtain ⟨kept, same⟩ := tidy.valueOf_rebound rebound bound
    exact ⟨kept, fun _ => same⟩
  | @assigned target e v u _ _ value _ bound' changed _ =>
    have ne : name ≠ target := by
      rintro rfl
      exact other rfl
    refine ⟨by rw [changed.slots name ne, bound], fun spares => ?_⟩
    have apart := spares u v.span slot ⟨target, e, v, rfl, value, bound', rfl⟩ bound
    exact (tidy.valueOf_eq changed ne bound apart).2
  | @deleted target _ _ _ assigned bound' _ changed =>
    have ne : name ≠ target := by
      rintro rfl
      exact other rfl
    obtain ⟨kept, same⟩ := tidy.valueOf_eq changed ne bound
      (tidy.apart_head assigned (Ne.symm ne) bound' bound)
    exact ⟨kept, fun _ => same⟩

/-- A statement that succeeds and spares the cells of other names leaves the executor tidy. -/
theorem done (tidy : x.Tidy names) (careful : s.Careful names x)
    (done : execute s x = .ok routine x') (spares : x.SparesCells s x') :
    x'.Tidy (s.assigned names) := by
  have outcome := tidy.outcome careful
  rw [done] at outcome
  cases outcome with
  | printed none rebound =>
    rw [Statement.assigned_of_target? none]
    exact tidy.rebind rebound
  | @assigned target e v u _ _ value _ bound changed held =>
    have writes : (Statement.assign target e).Writes x x' u v.span :=
      ⟨target, e, v, rfl, value, bound, rfl⟩
    obtain ⟨cell, span⟩ := held (spares.inside u v.span writes)
    refine tidy.change changed ?_ ?_ (fun _ => ⟨bound, cell, Nat.le_of_eq span⟩) ?_
    · intro name slot ne bound'
      have other : (Statement.assign target e).target? ≠ some name := by
        rintro ⟨⟩
        exact ne rfl
      exact spares.others name other u v.span slot writes bound'
    · intro name ne
      exact ⟨fun member => (List.mem_cons.1 member).resolve_left ne, List.mem_cons_of_mem _⟩
    · intro unassigned
      exact absurd List.mem_cons_self unassigned
  | @deleted target _ _ _ assigned bound unbound changed =>
    have gone : target ∉ (Statement.delete target).assigned names := by
      simp [Statement.assigned]
    refine tidy.change changed ?_ ?_ (fun member => absurd member gone) (fun _ => unbound)
    · intro name slot ne bound'
      exact tidy.apart_head assigned (Ne.symm ne) bound bound'
    · intro name ne
      simp [Statement.assigned, ne]

/-- A statement that fails changes no cell, and binds its target at most. -/
theorem rebound {e : ExecError} (tidy : x.Tidy names) (careful : s.Careful names x)
    (failed : execute s x = .error e x') : x.Rebound s x' := by
  have outcome := tidy.outcome careful
  rw [failed] at outcome
  cases outcome with
  | failed rebound => exact rebound

/-- A statement that fails leaves the executor tidy. -/
theorem failed {e : ExecError} (tidy : x.Tidy names) (careful : s.Careful names x)
    (failed : execute s x = .error e x') : x'.Tidy names := tidy.rebind (tidy.rebound careful failed)

end Tidy

namespace Careful

/-- Careful programs whose assignments spare the cells of other names keep the executor tidy. -/
theorem tidy (run : Careful SparesCells names x) : x.Tidy names := by
  induction run with
  | start sink log => exact .start L sink log
  | done _ careful done spares ih => exact ih.done careful done spares
  | failed _ careful failed ih => exact ih.failed careful failed

/-- After careful statements that have spared the cells of other names, a further one that succeeds
keeps the slot of every bound name but its target, and its value too unless it has written to the cell
of that name. -/
theorem keeps (run : Careful SparesCells names x) (careful : s.Careful names x)
    (done : execute s x = .ok routine x') (bound : x.slotOf name = some slot)
    (other : s.target? ≠ some name) :
    x'.slotOf name = some slot ∧ (x.SparesCell s x' name → x'.valueOf name = x.valueOf name) :=
  run.tidy.keeps careful done bound other

/-- A program that is careful under a condition is so under a weaker one. -/
theorem mono {allowed allowed' : Executor L Spool → Statement → Executor L Spool → Prop}
    (run : Careful allowed names x) (weaker : ∀ {x s x'}, allowed x s x' → allowed' x s x') :
    Careful allowed' names x := by
  induction run with
  | start sink log => exact .start sink log
  | done _ careful done holds ih => exact ih.done careful done (weaker holds)
  | failed _ careful failed ih => exact ih.failed careful failed

end Careful
end Executor
end Osl
