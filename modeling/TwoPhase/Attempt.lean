/-!
Steps that may be refused.

An attempt looks at a state and changes it step by step, and may stop with a refusal after any of
its steps.  What it has changed until then stays changed.
-/

namespace TwoPhase

/-- An attempt gives a result or a refusal, and leaves a state either way. -/
abbrev Attempt (ε σ β : Type) :=
  ExceptT ε (StateM σ) β

namespace Attempt

variable {ε σ β γ : Type}

/-- The result or the refusal of an attempt, and the state that it leaves. -/
def on (attempt : Attempt ε σ β) (state : σ) : Except ε β × σ :=
  (attempt.run.run state).run

theorem on_get (state : σ) : (get : Attempt ε σ σ).on state = (.ok state, state) :=
  rfl

theorem on_bind (first : Attempt ε σ β) (next : β → Attempt ε σ γ) (state : σ) :
    (first >>= next).on state =
      match first.on state with
      | (.ok value, later) => (next value).on later
      | (.error refusal, later) => (.error refusal, later) := by
  change (ExceptT.bindCont next (first.on state).1 (first.on state).2).run = _
  rcases first.on state with ⟨refusal | value, later⟩ <;> rfl

variable {first : Attempt ε σ β} {state later : σ}

theorem on_bind_of_ok {value : β} (next : β → Attempt ε σ γ)
    (result : first.on state = (.ok value, later)) :
    (first >>= next).on state = (next value).on later := by
  rw [on_bind, result]

theorem on_bind_of_error {refusal : ε} (next : β → Attempt ε σ γ)
    (result : first.on state = (.error refusal, later)) :
    (first >>= next).on state = (.error refusal, later) := by
  rw [on_bind, result]

end Attempt

end TwoPhase
