import Mathlib

/-! Histories of a system that takes one step for every event. -/

namespace History

variable {σ ε : Type} (step : σ → ε → σ)

/-- `P` holds of every event and of the state that it finds. -/
def EveryEvent (P : σ → ε → Prop) : σ → List ε → Prop
  | _, [] => True
  | s, event :: events => P s event ∧ EveryEvent P (step s event) events

/-- `I` holds at the beginning and after every event. -/
def AtAllTimes (I : σ → Prop) : σ → List ε → Prop
  | s, [] => I s
  | s, event :: events => I s ∧ AtAllTimes I (step s event) events

variable {step} {P Q : σ → ε → Prop} {I : σ → Prop} {s : σ} {events : List ε}

theorem everyEvent_congr (h : ∀ s event, P s event ↔ Q s event) :
    EveryEvent step P s events ↔ EveryEvent step Q s events := by
  induction events generalizing s with
  | nil => exact Iff.rfl
  | cons event events ih => exact and_congr (h s event) ih

theorem AtAllTimes.first (h : AtAllTimes step I s events) : I s := by
  cases events with
  | nil => exact h
  | cons event events => exact h.1

/-- Where a property is kept by exactly the events that meet a condition, it holds at all times if
and only if all events meet the condition. -/
theorem atAllTimes_iff (hstep : ∀ s event, I s → (I (step s event) ↔ P s event)) (hs : I s) :
    AtAllTimes step I s events ↔ EveryEvent step P s events := by
  induction events generalizing s with
  | nil => exact ⟨fun _ => trivial, fun _ => hs⟩
  | cons event events ih =>
    constructor
    · rintro ⟨-, hrest⟩
      exact ⟨(hstep s event hs).mp hrest.first, (ih hrest.first).mp hrest⟩
    · rintro ⟨hevent, hrest⟩
      have hnext := (hstep s event hs).mpr hevent
      exact ⟨hs, (ih hnext).mpr hrest⟩

/-! ### Events and those before them -/

/-- `P` holds of every event and of the events before it. -/
def EachAfter (P : List ε → ε → Prop) (events : List ε) : Prop :=
  ∀ earlier event later, events = earlier ++ event :: later → P earlier event

theorem eachAfter_nil {P : List ε → ε → Prop} : EachAfter P [] := by
  intro earlier event later h
  simp at h

theorem EachAfter.append {P : List ε → ε → Prop} (h : EachAfter P events) {event : ε}
    (hevent : P events event) : EachAfter P (events ++ [event]) := by
  intro earlier event' later heq
  rcases List.eq_nil_or_concat later with rfl | ⟨later, last, rfl⟩
  · obtain ⟨rfl, hlast⟩ := List.append_inj' heq rfl
    cases hlast
    exact hevent
  · have hsplit : events ++ [event] = (earlier ++ event' :: later) ++ [last] := by
      rw [heq, List.append_assoc, List.concat_eq_append]
      rfl
    exact h earlier event' later (List.append_inj' hsplit rfl).1

end History
