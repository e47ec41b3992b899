/-!
# Stateful computations that may throw

A computation ends in a state whether it returns or throws: `endState`. `Always R x` says that `x`
leads from every state to an `R`-related one in either case; for a reflexive and transitive `R` it is
enough to know this of the parts of a computation.
-/

namespace Osl
set_option autoImplicit false

variable {ε σ α β : Type}

theorem bind_ok {x : EStateM ε σ α} {f : α → EStateM ε σ β} {s s' : σ} {v : α}
    (h : x s = .ok v s') : (x >>= f) s = f v s' := by
  simp only [bind, EStateM.bind, h]

theorem bind_error {x : EStateM ε σ α} {f : α → EStateM ε σ β} {s s' : σ} {e : ε}
    (h : x s = .error e s') : (x >>= f) s = .error e s' := by
  simp only [bind, EStateM.bind, h]

/-- A sequence that succeeds succeeds in both of its parts. -/
theorem bind_eq_ok {x : EStateM ε σ α} {f : α → EStateM ε σ β} {s s'' : σ} {w : β}
    (h : (x >>= f) s = .ok w s'') : ∃ v s', x s = .ok v s' ∧ f v s' = .ok w s'' := by
  cases first : x s with
  | ok v s' => exact ⟨v, s', rfl, by rwa [bind_ok first] at h⟩
  | error e s' => rw [bind_error first] at h; cases h

/-- A sequence that fails fails in one of its parts. -/
theorem bind_eq_error {x : EStateM ε σ α} {f : α → EStateM ε σ β} {s s'' : σ} {e : ε}
    (h : (x >>= f) s = .error e s'') :
    x s = .error e s'' ∨ ∃ v s', x s = .ok v s' ∧ f v s' = .error e s'' := by
  cases first : x s with
  | ok v s' =>
    rw [bind_ok first] at h
    exact .inr ⟨v, s', rfl, h⟩
  | error e' s' =>
    rw [bind_error first] at h
    cases h
    exact .inl rfl

theorem bind_get {f : σ → EStateM ε σ β} (s : σ) : (get >>= f) s = f s s := rfl

/-- The state in which a computation ends. -/
def endState (x : EStateM ε σ α) (s : σ) : σ :=
  match x s with
  | .ok _ s' | .error _ s' => s'

theorem endState_ok {x : EStateM ε σ α} {s s' : σ} {v : α} (h : x s = .ok v s') :
    endState x s = s' := by
  rw [endState, h]

theorem endState_error {x : EStateM ε σ α} {s s' : σ} {e : ε} (h : x s = .error e s') :
    endState x s = s' := by
  rw [endState, h]

theorem endState_bind_ok {x : EStateM ε σ α} {f : α → EStateM ε σ β} {s s' : σ} {v : α}
    (h : x s = .ok v s') : endState (x >>= f) s = endState (f v) s' := by
  rw [endState, bind_ok h, endState]

/-- What a computation gives does not matter for the state in which it ends. -/
theorem endState_bind_pure (x : EStateM ε σ α) (w : β) (s : σ) :
    endState (x >>= fun _ => pure w) s = endState x s := by
  cases run : x s with
  | ok v s' => rw [endState_bind_ok run, endState_ok run]; rfl
  | error e s' => rw [endState_error (bind_error run), endState_error run]

/-- From every state the computation ends in a related one. -/
def Always (R : σ → σ → Prop) (x : EStateM ε σ α) : Prop := ∀ s, R s (endState x s)

namespace Always

variable {R : σ → σ → Prop}

theorem pure (refl : ∀ s, R s s) (v : α) : Always R (Pure.pure v : EStateM ε σ α) := refl

theorem throw (refl : ∀ s, R s s) (e : ε) :
    Always R (MonadExcept.throw e : EStateM ε σ α) := refl

theorem bind {x : EStateM ε σ α} {f : α → EStateM ε σ β}
    (trans : ∀ {s s' s''}, R s s' → R s' s'' → R s s'') (first : Always R x)
    (rest : ∀ v, Always R (f v)) : Always R (x >>= f) := by
  intro s
  have start := first s
  cases run : x s with
  | ok v s' =>
    rw [endState_ok run] at start
    rw [endState_bind_ok run]
    exact trans start (rest v s')
  | error e s' =>
    rw [endState_error run] at start
    rwa [endState_error (bind_error run)]

theorem map {x : EStateM ε σ α} (h : Always R x) (f : α → β) : Always R (f <$> x) := by
  intro s
  have ended := h s
  change R s (endState (x.map f) s)
  unfold endState EStateM.map at *
  cases run : x s with
  | ok v s' => simpa only [run] using ended
  | error e s' => simpa only [run] using ended

end Always
end Osl
