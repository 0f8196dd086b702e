import Mathlib

/-! Runs of an implementation against the abstract data type that it implements. -/

namespace Refinement

/-- What an operation answers in an abstract state, and the state that it leads to. -/
structure DataType (ι ρ μ : Type) where
  answer : ι → μ → ρ
  next : ι → μ → μ

/-- One operation of the implementation. -/
structure Step (σ ι ρ : Type) where
  before : σ
  op : ι
  result : ρ
  after : σ

variable {σ ι ρ μ : Type}

/-- Steps one after the other, with anything that `Gap` allows in between. -/
inductive Runs (Performs : Step σ ι ρ → Prop) (Gap : σ → σ → Prop) :
    σ → List (Step σ ι ρ) → Prop
  | nil {s : σ} : Runs Performs Gap s []
  | cons {s : σ} {step : Step σ ι ρ} {steps : List (Step σ ι ρ)} (gap : Gap s step.before)
      (performs : Performs step) (rest : Runs Performs Gap step.after steps) :
      Runs Performs Gap s (step :: steps)

namespace DataType

variable (D : DataType ι ρ μ)

/-- `P` holds of every step and of the abstract state that it starts from. -/
def EveryStep (P : Step σ ι ρ → μ → Prop) : μ → List (Step σ ι ρ) → Prop
  | _, [] => True
  | m, step :: steps => P step m ∧ EveryStep P (D.next step.op m) steps

instance decidableEveryStep {P : Step σ ι ρ → μ → Prop} [∀ step m, Decidable (P step m)] :
    (m : μ) → (steps : List (Step σ ι ρ)) → Decidable (D.EveryStep P m steps)
  | _, [] => isTrue trivial
  | m, step :: steps =>
    haveI := decidableEveryStep (P := P) (D.next step.op m) steps
    inferInstanceAs (Decidable (P step m ∧ D.EveryStep P (D.next step.op m) steps))

/-- The step answers as the data type does, and what it leaves shows the next abstract state. -/
structure Follows (Shows : σ → μ → Prop) (step : Step σ ι ρ) (m : μ) : Prop where
  answers : step.result = D.answer step.op m
  shows : Shows step.after (D.next step.op m)

variable {D} {P Q C : Step σ ι ρ → μ → Prop} {steps : List (Step σ ι ρ)} {m : μ}

theorem Follows.mono {Shows Shows' : σ → μ → Prop} {step : Step σ ι ρ}
    (h : D.Follows Shows step m) (himp : ∀ s m, Shows s m → Shows' s m) :
    D.Follows Shows' step m := ⟨h.answers, himp _ _ h.shows⟩

theorem EveryStep.mono (h : D.EveryStep P m steps) (himp : ∀ step m, P step m → Q step m) :
    D.EveryStep Q m steps := by
  induction steps generalizing m with
  | nil => trivial
  | cons step steps ih => exact ⟨himp _ _ h.1, ih h.2⟩

theorem EveryStep.and (hp : D.EveryStep P m steps) (hq : D.EveryStep Q m steps) :
    D.EveryStep (fun step m => P step m ∧ Q step m) m steps := by
  induction steps generalizing m with
  | nil => trivial
  | cons step steps ih => exact ⟨⟨hp.1, hq.1⟩, ih hp.2 hq.2⟩

theorem everyStep_iff_forall {P : Step σ ι ρ → Prop} :
    D.EveryStep (fun step _ => P step) m steps ↔ ∀ step ∈ steps, P step := by
  induction steps generalizing m with
  | nil => simp [EveryStep]
  | cons step steps ih => simp [EveryStep, ih]

end DataType

section Rules

variable {D : DataType ι ρ μ} {Performs : Step σ ι ρ → Prop} {Gap : σ → σ → Prop}
  {R : σ → μ → Prop} {A P C : Step σ ι ρ → μ → Prop} {s : σ} {m : μ} {steps : List (Step σ ι ρ)}

theorem Runs.everyStep (hrun : Runs Performs Gap s steps) (hR : R s m)
    (hA : D.EveryStep A m steps) (hgap : ∀ {s s' m}, Gap s s' → R s m → R s' m)
    (hstep : ∀ {step m}, Performs step → A step m → R step.before m → D.Follows R step m) :
    D.EveryStep (D.Follows R) m steps := by
  induction hrun generalizing m with
  | nil => trivial
  | cons gap performs rest ih =>
    have hfollows := hstep performs hA.1 (hgap gap hR)
    exact ⟨hfollows, ih hfollows.shows hA.2⟩

/-- A relation that is kept between the steps, and by every step that meets the condition, which is
the same as having the property. -/
theorem Runs.everyStep_iff (hrun : Runs Performs Gap s steps) (hR : R s m)
    (hA : D.EveryStep A m steps) (hgap : ∀ {s s' m}, Gap s s' → R s m → R s' m)
    (hstep : ∀ {step m}, Performs step → A step m → R step.before m →
      (P step m ↔ C step m) ∧ (C step m → R step.after (D.next step.op m))) :
    D.EveryStep P m steps ↔ D.EveryStep C m steps := by
  induction hrun generalizing m with
  | nil => exact Iff.rfl
  | cons gap performs rest ih =>
    obtain ⟨hiff, hkeeps⟩ := hstep performs hA.1 (hgap gap hR)
    exact (and_congr_left' hiff).trans (and_congr_right fun hC => ih (hkeeps hC) hA.2)

end Rules

/-! ### Playing operations -/

def play (perform : σ → ι → Option (ρ × σ)) : σ → List ι → Option (List (Step σ ι ρ))
  | _, [] => some []
  | s, op :: ops => do
    let (result, after) ← perform s op
    let steps ← play perform after ops
    pure (⟨s, op, result, after⟩ :: steps)

theorem runs_of_play {Performs : Step σ ι ρ → Prop} {Gap : σ → σ → Prop}
    {perform : σ → ι → Option (ρ × σ)} (refl : ∀ s, Gap s s)
    (performs : ∀ {s op result after}, perform s op = some (result, after) →
      Performs ⟨s, op, result, after⟩)
    {s : σ} {ops : List ι} {steps : List (Step σ ι ρ)} (h : play perform s ops = some steps) :
    Runs Performs Gap s steps := by
  induction ops generalizing s steps with
  | nil =>
    cases h
    exact .nil
  | cons op ops ih =>
    obtain ⟨⟨result, after⟩, hperform, h⟩ := Option.bind_eq_some_iff.mp h
    obtain ⟨rest, hrest, h⟩ := Option.bind_eq_some_iff.mp h
    cases h
    exact .cons (refl s) (performs hperform) (ih hrest)

end Refinement
