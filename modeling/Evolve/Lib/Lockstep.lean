import Mathlib
import Evolve.Lib.Trace

/-! Two runs, each from a state of its own, of which the second returns what the first returns.
What the states must have to do with each other before may depend on what the first run logs and on
where it ends, so that a bound on a whole run is one on all its parts. -/

namespace Effects

variable {τ σ ε α β : Type}

/-- What two runs, each from its own state, have to do with each other.  `Keep` is what every first
run keeps.  What must be so before may depend on what the first run logs and on its last state; what
is so after, on what it has logged. -/
structure Coupling (τ σ : Type) where
  Keep : σ → σ → Prop
  Before : σ → σ → List τ → σ → Prop
  After : σ → σ → List τ → σ → σ → Prop

/-- Whenever the first computation ends, the second ends with the same result. -/
def Coupling.Couples (C : Coupling τ σ) (m m₂ : Logged τ σ ε α) : Prop :=
  ∀ ⦃s r s'⦄, m.exec s = .done (r, s') → C.Keep s s' ∧
    ∀ s₂, C.Before s s₂ (m.log s) s' →
      ∃ s₂', m₂.exec s₂ = .done (r, s₂') ∧ C.After s s₂ (m.log s) s' s₂'

/-- A coupling that allows doing nothing and doing one thing after another. -/
structure Coupling.Composes (C : Coupling τ σ) : Prop where
  keep_refl : ∀ a, C.Keep a a
  keep_trans : ∀ ⦃a b c⦄, C.Keep a b → C.Keep b c → C.Keep a c
  after_refl : ∀ ⦃a a₂⦄, C.Before a a₂ [] a → C.After a a₂ [] a a₂
  before_left : ∀ ⦃a a₂ l b l' c⦄, C.Before a a₂ (l ++ l') c → C.Keep b c → C.Before a a₂ l b
  before_right : ∀ ⦃a a₂ l b b₂ l' c⦄, C.Before a a₂ (l ++ l') c → C.After a a₂ l b b₂ →
    C.Before b b₂ l' c
  after_trans : ∀ ⦃a a₂ l b b₂ l' c c₂⦄, C.After a a₂ l b b₂ → C.After b b₂ l' c c₂ →
    C.After a a₂ (l ++ l') c c₂

namespace Coupling.Composes

variable {C : Coupling τ σ} (rule : C.Composes)
include rule

theorem ofExcept (r : Except ε α) :
    C.Couples (Logged.ofExcept r : Logged τ σ ε α) (Logged.ofExcept r) := by
  rintro s _ _ ⟨⟩
  exact ⟨rule.keep_refl s, fun s₂ h => ⟨s₂, rfl, rule.after_refl h⟩⟩

/-- The second part is coupled only on the values that the first part returns, which are the same in
both runs. -/
theorem bind {m m₂ : Logged τ σ ε α} {f f₂ : α → Logged τ σ ε β} (hm : C.Couples m m₂)
    (hf : ∀ a, C.Couples (f a) (f₂ a)) : C.Couples (m >>= f) (m₂ >>= f₂) := by
  intro s r s'' h
  rw [Logged.exec_bind] at h
  rcases Exec.bind_done.mp h with ⟨a, s', ha, hr⟩ | ⟨e, he, rfl⟩
  · obtain ⟨hkeep, hfirst⟩ := hm ha
    obtain ⟨hkeep', hsecond⟩ := hf a hr
    rw [Logged.log_bind_ok ha]
    refine ⟨rule.keep_trans hkeep hkeep', fun s₂ hbefore => ?_⟩
    obtain ⟨s₂', ha₂, hafter⟩ := hfirst s₂ (rule.before_left hbefore hkeep')
    obtain ⟨s₂'', hr₂, hafter'⟩ := hsecond s₂' (rule.before_right hbefore hafter)
    exact ⟨s₂'', Exec.bind_done.mpr (.inl ⟨a, s₂', ha₂, hr₂⟩), rule.after_trans hafter hafter'⟩
  · obtain ⟨hkeep, hfirst⟩ := hm he
    rw [Logged.log_bind_error he]
    refine ⟨hkeep, fun s₂ hbefore => ?_⟩
    obtain ⟨s₂', he₂, hafter⟩ := hfirst s₂ hbefore
    exact ⟨s₂', Exec.bind_done.mpr (.inr ⟨e, he₂, rfl⟩), hafter⟩

end Coupling.Composes

namespace Coupling

variable {C : Coupling τ σ}

theorem outOfFuel (m₂ : Logged τ σ ε α) : C.Couples Logged.outOfFuel m₂ := by
  rintro _ _ _ ⟨⟩

theorem couples_read {γ : Type} {g : σ → γ} {f f₂ : γ → Logged τ σ ε α}
    (hf : ∀ a a₂, C.Couples (f a) (f₂ a₂)) :
    C.Couples (Logged.lift (Exec.read g) >>= f) (Logged.lift (Exec.read g) >>= f₂) := fun s _ _ h =>
  ⟨(hf (g s) (g s) h).1, fun s₂ hbefore => (hf (g s) (g s₂) h).2 s₂ hbefore⟩

theorem Couples.attempt {m m₂ : Logged τ σ ε α} (h : C.Couples m m₂) :
    C.Couples (Logged.attempt m) (Logged.attempt m₂) := by
  intro s r s' hr
  obtain ⟨r, hm, rfl⟩ := Exec.attempt_done.mp hr
  obtain ⟨hkeep, hfollow⟩ := h hm
  refine ⟨hkeep, fun s₂ hbefore => ?_⟩
  obtain ⟨s₂', hm₂, hafter⟩ := hfollow s₂ hbefore
  exact ⟨s₂', Exec.attempt_done.mpr ⟨r, hm₂, rfl⟩, hafter⟩

end Coupling

end Effects
