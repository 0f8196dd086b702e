import Mathlib

/-! Computations on a state that can fail, run out of fuel or panic, programs whose calls a handler
answers, and the rules by which a property of the handler becomes one of every program. -/

namespace Effects

theorem bind_eq_ok {ε α β : Type} {m : Except ε α} {f : α → Except ε β} {b : β}
    (h : m >>= f = .ok b) : ∃ a, m = .ok a ∧ f a = .ok b := by
  cases m with
  | error e => cases h
  | ok a => exact ⟨a, rfl, h⟩

/-- How a computation ends: with a value, without fuel, or in a panic that aborts the process. -/
inductive Outcome (α : Type) where
  | done (value : α)
  | outOfFuel
  | panic

/-- A computation on a state `σ` with a value `α` or an error `ε`.  An error keeps the changes made
before it; nothing is undone unless the computation undoes it. -/
def Exec (σ ε α : Type) : Type := σ → Outcome (Except ε α × σ)

variable {σ ε α β γ : Type}

variable {r : Except ε α} {a : α}

namespace Exec

protected def pure (a : α) : Exec σ ε α := fun s => .done (.ok a, s)

protected def bind (m : Exec σ ε α) (f : α → Exec σ ε β) : Exec σ ε β := fun s =>
  match m s with
  | .done (.ok a, s') => f a s'
  | .done (.error e, s') => .done (.error e, s')
  | .outOfFuel => .outOfFuel
  | .panic => .panic

instance : Monad (Exec σ ε) where
  pure := Exec.pure
  bind := Exec.bind

protected theorem bind_pure (m : Exec σ ε α) : Exec.bind m Exec.pure = m := by
  funext s
  unfold Exec.bind Exec.pure
  rcases m s with ⟨⟨(e | a), s'⟩⟩ | _ | _ <;> rfl

protected theorem bind_assoc (m : Exec σ ε α) (f : α → Exec σ ε β) (g : β → Exec σ ε γ) :
    Exec.bind (Exec.bind m f) g = Exec.bind m fun a => Exec.bind (f a) g := by
  funext s
  unfold Exec.bind
  rcases m s with ⟨⟨(e | a), s'⟩⟩ | _ | _ <;> rfl

instance : LawfulMonad (Exec σ ε) :=
  LawfulMonad.mk' (Exec σ ε) Exec.bind_pure (fun _ _ => rfl) Exec.bind_assoc

def throw (e : ε) : Exec σ ε α := fun s => .done (.error e, s)

def ofExcept (r : Except ε α) : Exec σ ε α := fun s => .done (r, s)

def read (f : σ → α) : Exec σ ε α := fun s => .done (.ok (f s), s)

def modify (f : σ → σ) : Exec σ ε Unit := fun s => .done (.ok (), f s)

def panic : Exec σ ε α := fun _ => .panic

def outOfFuel : Exec σ ε α := fun _ => .outOfFuel

def attempt (m : Exec σ ε α) : Exec σ ε (Except ε α) := fun s =>
  match m s with
  | .done (r, s') => .done (.ok r, s')
  | .outOfFuel => .outOfFuel
  | .panic => .panic

/-- Runs a computation on a part of the state. -/
def zoom {τ : Type} (get : σ → τ) (put : τ → σ → σ) (m : Exec τ ε α) : Exec σ ε α := fun s =>
  match m (get s) with
  | .done (r, t) => .done (r, put t s)
  | .outOfFuel => .outOfFuel
  | .panic => .panic

theorem bind_apply (m : Exec σ ε α) (f : α → Exec σ ε β) (s : σ) :
    (m >>= f) s = match m s with
      | .done (.ok a, s') => f a s'
      | .done (.error e, s') => .done (.error e, s')
      | .outOfFuel => .outOfFuel
      | .panic => .panic := rfl

variable {f : α → Exec σ ε β}

theorem bind_done {m : Exec σ ε α} {s s' : σ} {r : Except ε β} :
    (m >>= f) s = .done (r, s') ↔
      (∃ a s₁, m s = .done (.ok a, s₁) ∧ f a s₁ = .done (r, s')) ∨
        ∃ e, m s = .done (.error e, s') ∧ r = .error e := by
  rw [bind_apply]
  rcases m s with ⟨⟨(e | a), s₁⟩⟩ | _ | _
  · constructor
    · intro h
      cases h
      exact .inr ⟨e, rfl, rfl⟩
    · rintro (⟨a, s₂, h, -⟩ | ⟨e', h, rfl⟩)
      · cases h
      · cases h
        rfl
  · constructor
    · intro h
      exact .inl ⟨a, s₁, rfl, h⟩
    · rintro (⟨a', s₂, h, hf⟩ | ⟨e, h, -⟩)
      · cases h
        exact hf
      · cases h
  · simp
  · simp

theorem forall_ok_iff {m : Exec σ ε α} {s s₁ : σ} (h : m s = .done (.ok a, s₁)) {P : α → σ → Prop} :
    (∀ a' s', m s = .done (.ok a', s') → P a' s') ↔ P a s₁ := by
  constructor
  · intro hall
    exact hall a s₁ h
  · intro hp a' s' h'
    cases h.symm.trans h'
    exact hp

theorem attempt_done {m : Exec σ ε α} {s s' : σ} {r : Except ε (Except ε α)} :
    attempt m s = .done (r, s') ↔ ∃ a, m s = .done (a, s') ∧ r = .ok a := by
  unfold attempt
  rcases m s with ⟨⟨a, s₁⟩⟩ | _ | _
  · constructor
    · intro h
      cases h
      exact ⟨a, rfl, rfl⟩
    · rintro ⟨a', h, rfl⟩
      cases h
      rfl
  · simp
  · simp

theorem zoom_done {τ : Type} {get : σ → τ} {put : τ → σ → σ} {m : Exec τ ε α} {s s' : σ} :
    zoom get put m s = .done (r, s') ↔ ∃ t, m (get s) = .done (r, t) ∧ s' = put t s := by
  unfold zoom
  rcases m (get s) with ⟨⟨r', t⟩⟩ | _ | _
  · constructor
    · intro h
      cases h
      exact ⟨t, rfl, rfl⟩
    · rintro ⟨t', h, rfl⟩
      cases h
      rfl
  · simp
  · simp

theorem attempt_bind_pure (m : Exec σ ε α) (g : α → β) (k : Except ε β → Exec σ ε γ) :
    (attempt (m >>= fun a => pure (g a)) >>= k) = attempt m >>= fun r => k (r.map g) := by
  funext s
  simp only [bind_apply, attempt]
  rcases m s with ⟨⟨(e | a), s'⟩⟩ | _ | _ <;> rfl

/-- A read whose value does not matter can be left out. -/
theorem read_bind_of_forall {f : σ → α} {g : α → Exec σ ε β} {m : Exec σ ε β}
    (h : ∀ a, g a = m) : (read f >>= g) = m :=
  funext fun s => congrFun (h (f s)) s

theorem map_ofExcept (f : α → β) (r : Except ε α) :
    (f <$> ofExcept r : Exec σ ε β) = ofExcept (f <$> r) := by
  cases r <;> rfl

/-! ### Weakest preconditions -/

/-- From `s`, `m` does not panic and ends, if it ends, with a result and a state in `Q`. -/
def wp (m : Exec σ ε α) (Q : Except ε α → σ → Prop) (s : σ) : Prop :=
  match m s with
  | .done (r, s') => Q r s'
  | .outOfFuel => True
  | .panic => False

@[simp] theorem wp_pure {Q : Except ε α → σ → Prop} {s : σ} :
    wp (pure a) Q s ↔ Q (.ok a) s := Iff.rfl

@[simp] theorem wp_throw {e : ε} {Q : Except ε α → σ → Prop} {s : σ} :
    wp (throw e) Q s ↔ Q (.error e) s := Iff.rfl

@[simp] theorem wp_ofExcept {Q : Except ε α → σ → Prop} {s : σ} :
    wp (ofExcept r) Q s ↔ Q r s := Iff.rfl

@[simp] theorem wp_read {f : σ → α} {Q : Except ε α → σ → Prop} {s : σ} :
    wp (read f) Q s ↔ Q (.ok (f s)) s := Iff.rfl

@[simp] theorem wp_modify {f : σ → σ} {Q : Except ε Unit → σ → Prop} {s : σ} :
    wp (modify f) Q s ↔ Q (.ok ()) (f s) := Iff.rfl

@[simp] theorem wp_outOfFuel {Q : Except ε α → σ → Prop} {s : σ} : wp outOfFuel Q s ↔ True :=
  Iff.rfl

@[simp] theorem wp_attempt {m : Exec σ ε α} {Q : Except ε (Except ε α) → σ → Prop} {s : σ} :
    wp (attempt m) Q s ↔ wp m (fun r => Q (.ok r)) s := by
  unfold wp attempt
  rcases m s with ⟨⟨r, s'⟩⟩ | _ | _ <;> rfl

def after (f : α → Exec σ ε β) (Q : Except ε β → σ → Prop) : Except ε α → σ → Prop
  | .ok a, s => wp (f a) Q s
  | .error e, s => Q (.error e) s

theorem wp_bind {m : Exec σ ε α} {Q : Except ε β → σ → Prop} {s : σ} :
    wp (m >>= f) Q s ↔ wp m (after f Q) s := by
  unfold wp
  rw [bind_apply]
  rcases m s with ⟨⟨r, s'⟩⟩ | _ | _
  · cases r <;> rfl
  · rfl
  · rfl

theorem wp_mono {m : Exec σ ε α} {P Q : Except ε α → σ → Prop} {s : σ}
    (h : ∀ r s', P r s' → Q r s') (hp : wp m P s) : wp m Q s := by
  unfold wp at *
  generalize m s = o at *
  rcases o with ⟨⟨r, s'⟩⟩ | _ | _
  · exact h r s' hp
  · trivial
  · exact hp

theorem wp_and {m : Exec σ ε α} {P Q : Except ε α → σ → Prop} {s : σ} (hp : wp m P s)
    (hq : wp m Q s) : wp m (fun r s' => P r s' ∧ Q r s') s := by
  unfold wp at *
  generalize m s = o at *
  rcases o with ⟨⟨r, s'⟩⟩ | _ | _
  · exact ⟨hp, hq⟩
  · trivial
  · exact hp

theorem wp_done {m : Exec σ ε α} {Q : Except ε α → σ → Prop} {s s' : σ} (h : wp m Q s)
    (hr : m s = .done (r, s')) : Q r s' := by
  unfold wp at h
  rwa [hr] at h

theorem wp_ne_panic {m : Exec σ ε α} {Q : Except ε α → σ → Prop} {s : σ} (h : wp m Q s) :
    m s ≠ .panic := by
  intro hr
  unfold wp at h
  rwa [hr] at h

/-- From `s`, `m` ends with a result and a state in `Q`. -/
def Ends (m : Exec σ ε α) (Q : Except ε α → σ → Prop) (s : σ) : Prop :=
  match m s with
  | .done (r, s') => Q r s'
  | .outOfFuel => False
  | .panic => False

instance {m : Exec σ ε α} {Q : Except ε α → σ → Prop} {s : σ} [∀ r s', Decidable (Q r s')] :
    Decidable (Ends m Q s) :=
  match h : m s with
  | .done (r, s') => decidable_of_iff (Q r s') (by rw [Ends, h])
  | .outOfFuel => isFalse (by rw [Ends, h]; exact id)
  | .panic => isFalse (by rw [Ends, h]; exact id)

theorem Ends.exists {m : Exec σ ε α} {Q : Except ε α → σ → Prop} {s : σ} (h : Ends m Q s) :
    ∃ r s', m s = .done (r, s') ∧ Q r s' := by
  unfold Ends at h
  generalize m s = o at *
  rcases o with ⟨⟨r, s'⟩⟩ | _ | _
  · exact ⟨r, s', rfl, h⟩
  · exact h.elim
  · exact h.elim

/-! ### Computations that always end -/

def Halts (m : Exec σ ε α) : Prop := ∀ s, m s ≠ .outOfFuel

namespace Halts

theorem pure (a : α) : Halts (pure a : Exec σ ε α) := by
  rintro _ ⟨⟩

theorem throw (e : ε) : Halts (throw e : Exec σ ε α) := by
  rintro _ ⟨⟩

theorem ofExcept (r : Except ε α) : Halts (ofExcept r : Exec σ ε α) := by
  rintro _ ⟨⟩

theorem read (f : σ → α) : Halts (read f : Exec σ ε α) := by
  rintro _ ⟨⟩

theorem bind {m : Exec σ ε α} (hm : Halts m) (hf : ∀ a, Halts (f a)) : Halts (m >>= f) := by
  intro s
  rw [bind_apply]
  rcases h : m s with ⟨⟨(e | a), s'⟩⟩ | _ | _
  · rintro ⟨⟩
  · exact hf a s'
  · exact absurd h (hm s)
  · rintro ⟨⟩

theorem bind_ofExcept (hf : ∀ a, r = .ok a → Halts (f a)) : Halts (Exec.ofExcept r >>= f) := by
  cases r with
  | ok a => exact hf a rfl
  | error e => exact .throw e

theorem attempt {m : Exec σ ε α} (hm : Halts m) : Halts (attempt m) := by
  intro s
  unfold Exec.attempt
  rcases h : m s with ⟨⟨r, s'⟩⟩ | _ | _
  · rintro ⟨⟩
  · exact absurd h (hm s)
  · rintro ⟨⟩

theorem done {m : Exec σ ε α} (h : Halts m) {Q : Except ε α → σ → Prop} {s : σ}
    (hq : wp m Q s) : ∃ r s', m s = .done (r, s') ∧ Q r s' := by
  unfold wp at hq
  rcases hm : m s with ⟨⟨r, s'⟩⟩ | _ | _ <;> rw [hm] at hq
  · exact ⟨r, s', rfl, hq⟩
  · exact absurd hm (h s)
  · exact hq.elim

end Halts

/-! ### Values returned -/

/-- If `m` ends with a value from `s`, the value and the last state are in `P`. -/
def Returns (m : Exec σ ε α) (P : α → σ → Prop) (s : σ) : Prop :=
  ∀ a s', m s = .done (.ok a, s') → P a s'

namespace Returns

variable {P Q : α → σ → Prop} {s : σ}

theorem pure (h : P a s) : Returns (pure a : Exec σ ε α) P s := by
  rintro _ _ ⟨⟩
  exact h

theorem throw {e : ε} : Returns (throw e : Exec σ ε α) P s := by
  rintro _ _ ⟨⟩

theorem ofExcept (h : ∀ a, r = .ok a → P a s) : Returns (ofExcept r) P s := by
  rintro a _ hr
  cases hr
  exact h a rfl

theorem outOfFuel : Returns (outOfFuel : Exec σ ε α) P s := by
  rintro _ _ ⟨⟩

theorem mono {m : Exec σ ε α} (hm : Returns m P s) (h : ∀ a s', P a s' → Q a s') :
    Returns m Q s :=
  fun a s' hr => h a s' (hm a s' hr)

theorem of_wp {m : Exec σ ε α} (h : wp m (fun r s' => ∀ a, r = .ok a → P a s') s) :
    Returns m P s :=
  fun a _ hr => wp_done h hr a rfl

theorem bind {m : Exec σ ε α} {P : β → σ → Prop} {s : σ}
    (h : Returns m (fun a s' => Returns (f a) P s') s) : Returns (m >>= f) P s := by
  intro b s' hr
  rcases bind_done.mp hr with ⟨a, s₁, hm, hf⟩ | ⟨e, _, he⟩
  · exact h a s₁ hm b s' hf
  · cases he

end Returns

/-- From `s`, `m` ends with a value, and the value and the last state are in `P`. -/
def Yields (m : Exec σ ε α) (P : α → σ → Prop) (s : σ) : Prop :=
  ∃ a s', m s = .done (.ok a, s') ∧ P a s'

namespace Yields

variable {P Q : α → σ → Prop} {s : σ}

theorem pure (h : P a s) : Yields (pure a : Exec σ ε α) P s := ⟨a, s, rfl, h⟩

theorem ofExcept (hr : r = .ok a) (h : P a s) : Yields (ofExcept r) P s := by
  subst hr
  exact ⟨a, s, rfl, h⟩

theorem mono {m : Exec σ ε α} (hm : Yields m P s) (h : ∀ a s', P a s' → Q a s') :
    Yields m Q s := by
  obtain ⟨a, s', hrun, hp⟩ := hm
  exact ⟨a, s', hrun, h a s' hp⟩

theorem and_returns {m : Exec σ ε α} (hm : Yields m P s) (hreturns : Returns m Q s) :
    Yields m (fun a s' => P a s' ∧ Q a s') s := by
  obtain ⟨a, s', hrun, hp⟩ := hm
  exact ⟨a, s', hrun, hp, hreturns a s' hrun⟩

theorem bind {m : Exec σ ε α} {P : β → σ → Prop} {s : σ}
    (h : Yields m (fun a s' => Yields (f a) P s') s) : Yields (m >>= f) P s := by
  obtain ⟨a, s₁, hrun, b, s₂, hf, hp⟩ := h
  refine ⟨b, s₂, ?_, hp⟩
  rw [bind_apply, hrun]
  exact hf

theorem attempt {m : Exec σ ε α} (hm : Yields m P s) :
    Yields (attempt m) (fun r s' => ∃ a, r = .ok a ∧ P a s') s := by
  obtain ⟨a, s', hrun, hp⟩ := hm
  exact ⟨.ok a, s', attempt_done.mpr ⟨.ok a, hrun, rfl⟩, a, rfl, hp⟩

end Yields

/-! ### Computations with an expected result -/

/-- From `s`, `m` ends as `expected` says, with its value or with an error if it is one, unless an
error in `stop` comes first. -/
def Follows (stop : ε → Prop) (expected : Except ε α) (m : Exec σ ε α) (s : σ) : Prop :=
  ∃ r s', m s = .done (r, s') ∧ (r.toOption = expected.toOption ∨ ∃ e, r = .error e ∧ stop e)

namespace Follows

variable {stop : ε → Prop} {expected : Except ε α} {m : Exec σ ε α} {s : σ}

theorem ofExcept : Follows stop r (ofExcept r) s := ⟨r, s, rfl, .inl rfl⟩

theorem congr {expected' : Except ε α} (h : Follows stop expected m s)
    (heq : expected.toOption = expected'.toOption) : Follows stop expected' m s := by
  unfold Follows
  rw [← heq]
  exact h

theorem bind {g : α → Except ε β} (hm : Follows stop expected m s)
    (hf : ∀ a s', expected = .ok a → m s = .done (.ok a, s') → Follows stop (g a) (f a) s') :
    Follows stop (expected >>= g) (m >>= f) s := by
  obtain ⟨r, s', hrun, hr | ⟨e, rfl, he⟩⟩ := hm
  · cases r with
    | error e =>
      cases expected with
      | error e' => exact ⟨.error e, s', by rw [bind_apply, hrun], .inl rfl⟩
      | ok a => cases hr
    | ok a =>
      cases expected with
      | error e' => cases hr
      | ok a' =>
        cases hr
        obtain ⟨r, s₁, hrun', hr⟩ := hf a s' rfl hrun
        exact ⟨r, s₁, by rw [bind_apply, hrun]; exact hrun', hr⟩
  · exact ⟨.error e, s', by rw [bind_apply, hrun], .inr ⟨e, rfl, he⟩⟩

theorem bind_ofExcept {g : α → Except ε β} (hf : ∀ a, r = .ok a → Follows stop (g a) (f a) s) :
    Follows stop (r >>= g) (Exec.ofExcept r >>= f) s :=
  bind ofExcept fun a s' hr hrun => by
    cases hrun
    exact hf a hr

end Follows

/-! ### Values and failures -/

def settled (P : α → σ → Prop) (E : σ → Prop) : Except ε α → σ → Prop
  | .ok a, s => P a s
  | .error _, s => E s

/-- From `s`, `m` does not panic; if it ends with a value then the value and the last state are in
`P`, and if it fails then the last state is in `E`. -/
def Settles (m : Exec σ ε α) (P : α → σ → Prop) (E : σ → Prop) (s : σ) : Prop :=
  wp m (settled P E) s

namespace Settles

variable {P Q : α → σ → Prop} {E : σ → Prop} {s : σ}

theorem pure (h : P a s) : Settles (pure a : Exec σ ε α) P E s := h

theorem throw {e : ε} (h : E s) : Settles (throw e : Exec σ ε α) P E s := h

theorem ofExcept (ok : ∀ a, r = .ok a → P a s) (error : E s) : Settles (ofExcept r) P E s := by
  cases r with
  | ok a => exact ok a rfl
  | error e => exact error

theorem read {f : σ → α} (h : P (f s) s) : Settles (read f : Exec σ ε α) P E s := h

theorem modify {f : σ → σ} {P : Unit → σ → Prop} (h : P () (f s)) :
    Settles (modify f : Exec σ ε Unit) P E s := h

variable {m : Exec σ ε α}

theorem mono (hm : Settles m P E s) (h : ∀ a s', P a s' → Q a s') : Settles m Q E s := by
  refine wp_mono (fun r s' hr => ?_) hm
  cases r with
  | ok a => exact h a s' hr
  | error e => exact hr

theorem mono_error {E' : σ → Prop} (hm : Settles m P E s) (h : ∀ s', E s' → E' s') :
    Settles m P E' s := by
  refine wp_mono (fun r s' hr => ?_) hm
  cases r with
  | ok a => exact hr
  | error e => exact h s' hr

theorem bind {P : β → σ → Prop} {s : σ} (h : Settles m (fun a s' => Settles (f a) P E s') E s) :
    Settles (m >>= f) P E s := by
  refine wp_bind.mpr (wp_mono (fun r s' hr => ?_) h)
  cases r with
  | ok a => exact hr
  | error e => exact hr

theorem bind_from {P : β → σ → Prop} {s s' : σ} (hm : m s = .done (.ok a, s'))
    (h : Settles (f a) P E s') : Settles (m >>= f) P E s := by
  unfold Settles wp at *
  rwa [bind_apply, hm]

theorem of_returns (hm : Returns m P s) (error : wp m (fun r s' => ∀ e, r = .error e → E s') s) :
    Settles m P E s := by
  unfold Settles wp at *
  rcases h : m s with ⟨⟨(e | a), s'⟩⟩ | _ | _ <;> rw [h] at error
  · exact error e rfl
  · exact hm a s' h
  · trivial
  · exact error

theorem returns (hm : Settles m P E s) : Returns m P s :=
  fun _ _ hr => wp_done hm hr

theorem fails (hm : Settles m P E s) {e : ε} {s' : σ} (h : m s = .done (.error e, s')) : E s' :=
  wp_done hm h

end Settles

/-! ### Relations that a computation keeps -/

/-- `m` does not panic, and its first and last states are related by `R`. -/
def Keeps (R : σ → σ → Prop) (m : Exec σ ε α) : Prop := ∀ s, wp m (fun _ s' => R s s') s

variable {R : σ → σ → Prop}

theorem Keeps.pure (refl : ∀ s, R s s) (a : α) : Keeps R (pure a : Exec σ ε α) := fun s => refl s

theorem Keeps.throw (refl : ∀ s, R s s) (e : ε) : Keeps R (throw e : Exec σ ε α) := fun s => refl s

theorem Keeps.ofExcept (refl : ∀ s, R s s) (r : Except ε α) :
    Keeps R (ofExcept r : Exec σ ε α) := fun s => refl s

theorem Keeps.read (refl : ∀ s, R s s) (f : σ → α) : Keeps R (read f : Exec σ ε α) :=
  fun s => refl s

theorem Keeps.outOfFuel : Keeps R (outOfFuel : Exec σ ε α) := fun _ => trivial

theorem Keeps.attempt {m : Exec σ ε α} (h : Keeps R m) : Keeps R (attempt m) :=
  fun s => wp_attempt.mpr (h s)

theorem Keeps.bind (trans : ∀ ⦃a b c⦄, R a b → R b c → R a c) {m : Exec σ ε α} (hm : Keeps R m)
    (hf : ∀ a, Keeps R (f a)) : Keeps R (m >>= f) := by
  intro s
  refine wp_bind.mpr (wp_mono ?_ (hm s))
  intro r s' hr
  cases r with
  | ok a => exact wp_mono (fun _ _ h => trans hr h) (hf a s')
  | error e => exact hr

theorem Keeps.forM (refl : ∀ s, R s s) (trans : ∀ ⦃a b c⦄, R a b → R b c → R a c)
    {f : α → Exec σ ε PUnit} (hf : ∀ a, Keeps R (f a)) (as : List α) : Keeps R (as.forM f) := by
  induction as with
  | nil => exact Keeps.pure refl _
  | cons a as ih => exact (hf a).bind trans fun _ => ih

theorem Keeps.and {S : σ → σ → Prop} {m : Exec σ ε α} (hr : Keeps R m) (hs : Keeps S m) :
    Keeps (fun s s' => R s s' ∧ S s s') m :=
  fun s => wp_and (hr s) (hs s)

end Exec

/-! ### Programs -/

/-- A program of calls `Op`, each answered by an error or a value `Ans op`.  The program sees every
answer, so it may swallow an error, and it ends with a result. -/
inductive Prog (Op : Type) (Ans : Op → Type) (ε α : Type) where
  | ret (r : Except ε α)
  | call (op : Op) (k : Except ε (Ans op) → Prog Op Ans ε α)

namespace Prog

variable {Op : Type} {Ans : Op → Type}

protected def bind : Prog Op Ans ε α → (α → Prog Op Ans ε β) → Prog Op Ans ε β
  | .ret (.ok a), f => f a
  | .ret (.error e), _ => .ret (.error e)
  | .call op k, f => .call op fun r => (k r).bind f

instance : Monad (Prog Op Ans ε) where
  pure a := .ret (.ok a)
  bind := Prog.bind

def request (op : Op) : Prog Op Ans ε (Ans op) := .call op .ret

def throw (e : ε) : Prog Op Ans ε α := .ret (.error e)

def ofExcept (r : Except ε α) : Prog Op Ans ε α := .ret r

def attempt : Prog Op Ans ε α → Prog Op Ans ε (Except ε α)
  | .ret r => .ret (.ok r)
  | .call op k => .call op fun r => (k r).attempt

def rename {Op' : Type} {Ans' : Op' → Type} (f : Op → Op') (g : ∀ op, Ans' (f op) → Ans op) :
    Prog Op Ans ε α → Prog Op' Ans' ε α
  | .ret r => .ret r
  | .call op k => .call (f op) fun r => (k (r.map (g op))).rename f g

def run (h : (op : Op) → Exec σ ε (Ans op)) : Prog Op Ans ε α → Exec σ ε α
  | .ret r => Exec.ofExcept r
  | .call op k => Exec.attempt (h op) >>= fun r => (k r).run h

variable {h : (op : Op) → Exec σ ε (Ans op)}

@[simp] theorem run_pure (a : α) : (pure a : Prog Op Ans ε α).run h = pure a := rfl

@[simp] theorem run_throw (e : ε) : (throw e : Prog Op Ans ε α).run h = Exec.throw e := rfl

@[simp] theorem run_ofExcept (r : Except ε α) :
    (ofExcept r : Prog Op Ans ε α).run h = Exec.ofExcept r := rfl

protected theorem bind_assoc (p : Prog Op Ans ε α) (f : α → Prog Op Ans ε β)
    (g : β → Prog Op Ans ε γ) : p >>= f >>= g = p >>= fun a => f a >>= g := by
  induction p with
  | ret r => cases r <;> rfl
  | call op k ih => exact congrArg (Prog.call op) (funext ih)

theorem run_request (op : Op) : (request op : Prog Op Ans ε (Ans op)).run h = h op := by
  funext s
  show (Exec.attempt (h op) >>= fun r => Exec.ofExcept r) s = h op s
  rw [Exec.bind_apply, Exec.attempt]
  rcases h op s with ⟨⟨r, s'⟩⟩ | _ | _ <;> rfl

theorem run_bind (p : Prog Op Ans ε α) (f : α → Prog Op Ans ε β) :
    (p >>= f).run h = p.run h >>= fun a => (f a).run h := by
  induction p with
  | ret r => cases r <;> rfl
  | call op k ih =>
    show (Exec.attempt (h op) >>= fun r => ((k r) >>= f).run h) = _
    rw [run, bind_assoc]
    exact congrArg _ (funext ih)

theorem run_attempt (p : Prog Op Ans ε α) : p.attempt.run h = Exec.attempt (p.run h) := by
  induction p with
  | ret r => rfl
  | call op k ih =>
    funext s
    show (Exec.attempt (h op) >>= fun r => (k r).attempt.run h) s =
      Exec.attempt (Exec.attempt (h op) >>= fun r => (k r).run h) s
    simp only [ih, Exec.bind_apply, Exec.attempt]
    rcases h op s with ⟨⟨r, s'⟩⟩ | _ | _ <;> rfl

/-! ### Programs whose calls are answered -/

/-- Every call that the program makes from `s` is answered by a value. -/
def Answered (h : (op : Op) → Exec σ ε (Ans op)) : Prog Op Ans ε α → σ → Prop
  | .ret _, _ => True
  | .call op k, s => ∃ a s', h op s = .done (.ok a, s') ∧ (k (.ok a)).Answered h s'

variable {p : Prog Op Ans ε α}

theorem answered_bind {f : α → Prog Op Ans ε β} {s : σ} :
    (p >>= f).Answered h s ↔
      p.Answered h s ∧ Exec.Returns (p.run h) (fun a s' => (f a).Answered h s') s := by
  induction p generalizing s with
  | ret r =>
    cases r with
    | error e => exact iff_of_true trivial ⟨trivial, Exec.Returns.throw⟩
    | ok a => exact ⟨fun hf => ⟨trivial, Exec.Returns.pure hf⟩, fun hf => hf.2 a s rfl⟩
  | call op k ih =>
    have hrun : ∀ {a s'}, h op s = .done (.ok a, s') →
        (Prog.call op k).run h s = (k (.ok a)).run h s' := fun hop => by
      show (Exec.attempt (h op) >>= fun r => (k r).run h) s = _
      rw [Exec.bind_apply, Exec.attempt, hop]
    constructor
    · rintro ⟨a, s', hop, hk⟩
      obtain ⟨hp, hf⟩ := (ih (.ok a)).mp hk
      refine ⟨⟨a, s', hop, hp⟩, fun b s'' hb => hf b s'' ?_⟩
      rwa [← hrun hop]
    · rintro ⟨⟨a, s', hop, hp⟩, hf⟩
      refine ⟨a, s', hop, (ih (.ok a)).mpr ⟨hp, fun b s'' hb => hf b s'' ?_⟩⟩
      rwa [hrun hop]

theorem answered_attempt {s : σ} : p.attempt.Answered h s ↔ p.Answered h s := by
  induction p generalizing s with
  | ret r => exact Iff.rfl
  | call op k ih =>
    exact exists_congr fun a => exists_congr fun s' => and_congr_right fun _ => ih (.ok a)

instance decidableAnswered : (p : Prog Op Ans ε α) → (s : σ) → Decidable (p.Answered h s)
  | .ret _, _ => isTrue trivial
  | .call op k, s =>
    match hop : h op s with
    | .done (.ok a, s') =>
      haveI := decidableAnswered (k (.ok a)) s'
      decidable_of_iff ((k (.ok a)).Answered h s') <| by
        constructor
        · exact fun hk => ⟨a, s', hop, hk⟩
        · rintro ⟨a', s'', hop', hk⟩
          cases hop.symm.trans hop'
          exact hk
    | .done (.error _, _) | .panic | .outOfFuel =>
      isFalse fun ⟨_, _, hop', _⟩ => nomatch hop.symm.trans hop'

/-- If every call that the program makes from `s` is answered, it yields a value with `P`. -/
def Delivers (h : (op : Op) → Exec σ ε (Ans op)) (p : Prog Op Ans ε α) (P : α → σ → Prop)
    (s : σ) : Prop :=
  p.Answered h s → Exec.Yields (p.run h) P s

namespace Delivers

variable {P Q : α → σ → Prop} {s : σ}

theorem pure (hp : P a s) : Delivers h (pure a : Prog Op Ans ε α) P s := fun _ =>
  Exec.Yields.pure hp

theorem ofExcept (hr : r = .ok a) (hp : P a s) :
    Delivers h (ofExcept r : Prog Op Ans ε α) P s := fun _ => Exec.Yields.ofExcept hr hp

theorem request {op : Op} {P : Ans op → σ → Prop} (hr : Exec.Returns (h op) P s) :
    Delivers h (request op : Prog Op Ans ε (Ans op)) P s := by
  rintro ⟨a, s', hop, -⟩
  rw [run_request]
  exact ⟨a, s', hop, hr a s' hop⟩

theorem mono (hp : Delivers h p P s) (himp : ∀ a s', P a s' → Q a s') :
    Delivers h p Q s := fun ha => (hp ha).mono himp

theorem bind {f : α → Prog Op Ans ε β} {P : β → σ → Prop}
    (hp : Delivers h p (fun a s' => Delivers h (f a) P s') s) : Delivers h (p >>= f) P s := by
  intro ha
  obtain ⟨hap, haf⟩ := answered_bind.mp ha
  obtain ⟨a, s', hrun, hdelivers⟩ := hp hap
  rw [run_bind]
  exact .bind ⟨a, s', hrun, hdelivers (haf a s' hrun)⟩

theorem attempt (hp : Delivers h p P s) :
    Delivers h p.attempt (fun r s' => ∃ a, r = .ok a ∧ P a s') s := by
  intro ha
  rw [run_attempt]
  exact (hp (answered_attempt.mp ha)).attempt

end Delivers

/-- If every call that the program makes from `s` is answered, it ends with `Q`. -/
def Concludes (h : (op : Op) → Exec σ ε (Ans op)) (p : Prog Op Ans ε α)
    (Q : Except ε α → σ → Prop) (s : σ) : Prop :=
  p.Answered h s → ∃ r s', p.run h s = .done (r, s') ∧ Q r s'

theorem Delivers.concludes {P : α → σ → Prop} {s : σ} (hp : Delivers h p P s) :
    Concludes h p (fun r s' => ∃ a, r = .ok a ∧ P a s') s := by
  intro ha
  obtain ⟨a, s', hrun, hP⟩ := hp ha
  exact ⟨.ok a, s', hrun, a, rfl, hP⟩

namespace Concludes

theorem throw {e : ε} {Q : Except ε α → σ → Prop} {s : σ} (hq : Q (.error e) s) :
    Concludes h (throw e : Prog Op Ans ε α) Q s := fun _ => ⟨.error e, s, rfl, hq⟩

theorem ofExcept {Q : Except ε α → σ → Prop} {s : σ} (hq : Q r s) :
    Concludes h (ofExcept r : Prog Op Ans ε α) Q s := fun _ => ⟨r, s, rfl, hq⟩

theorem mono {P Q : Except ε α → σ → Prop} {s : σ} (hp : Concludes h p P s)
    (himp : ∀ r s', P r s' → Q r s') : Concludes h p Q s := by
  intro ha
  obtain ⟨r, s', hrun, hP⟩ := hp ha
  exact ⟨r, s', hrun, himp r s' hP⟩

theorem bind {f : α → Prog Op Ans ε β} {Q : Except ε β → σ → Prop} {s : σ}
    (hp : Delivers h p (fun a s' => Concludes h (f a) Q s') s) : Concludes h (p >>= f) Q s := by
  intro ha
  obtain ⟨hap, haf⟩ := answered_bind.mp ha
  obtain ⟨a, s', hrun, hconcludes⟩ := hp hap
  obtain ⟨r, s'', hrun', hq⟩ := hconcludes (haf a s' hrun)
  refine ⟨r, s'', ?_, hq⟩
  rw [run_bind, Exec.bind_apply, hrun]
  exact hrun'

theorem bind_error {f : α → Prog Op Ans ε β} {Q : Except ε β → σ → Prop} {s : σ}
    (hp : Concludes h p (fun r s' => ∃ e, r = .error e ∧ Q (.error e) s') s) :
    Concludes h (p >>= f) Q s := by
  intro ha
  obtain ⟨_, s', hrun, e, rfl, hq⟩ := hp (answered_bind.mp ha).1
  refine ⟨.error e, s', ?_, hq⟩
  rw [run_bind, Exec.bind_apply, hrun]

end Concludes

section Rename

variable {Op' : Type} {Ans' : Op' → Type} {f : Op → Op'} {g : ∀ op, Ans' (f op) → Ans op}

theorem rename_bind (p : Prog Op Ans ε α) (k : α → Prog Op Ans ε β) :
    (p >>= k).rename f g = p.rename f g >>= fun a => (k a).rename f g := by
  induction p with
  | ret r => cases r <;> rfl
  | call op k' ih => exact congrArg (Prog.call (f op)) (funext fun r => ih _)

theorem rename_attempt (p : Prog Op Ans ε α) :
    p.attempt.rename f g = (p.rename f g).attempt := by
  induction p with
  | ret r => rfl
  | call op k ih => exact congrArg (Prog.call (f op)) (funext fun r => ih _)

end Rename

/-- A relation that every answer of the handler keeps is kept by every program. -/
theorem run_keeps {R : σ → σ → Prop} (refl : ∀ s, R s s)
    (trans : ∀ ⦃a b c⦄, R a b → R b c → R a c) (hh : ∀ op, Exec.Keeps R (h op))
    (p : Prog Op Ans ε α) : Exec.Keeps R (p.run h) := by
  induction p with
  | ret r => exact Exec.Keeps.ofExcept refl r
  | call op k ih => exact Exec.Keeps.bind trans (Exec.Keeps.attempt (hh op)) ih

end Prog

/-! ### Handlers that call themselves -/

abbrev Handler (C σ ε : Type) {Op : Type} (Ans : Op → Type) : Type :=
  C → (op : Op) → Exec σ ε (Ans op)

namespace Handler

variable {C Op : Type} {Ans : Op → Type}

/-- The handler that `F` defines from itself, with calls nested at most `n` deep. -/
def fuel (F : Handler C σ ε Ans → Handler C σ ε Ans) : Nat → Handler C σ ε Ans
  | 0 => fun _ _ => Exec.outOfFuel
  | n + 1 => F (fuel F n)

/-- A relation that `F` keeps whenever the calls inside it do is kept at every depth. -/
theorem fuel_keeps {F : Handler C σ ε Ans → Handler C σ ε Ans} {R : σ → σ → Prop}
    (step : ∀ rec : Handler C σ ε Ans, (∀ c op, Exec.Keeps R (rec c op)) →
      ∀ c op, Exec.Keeps R (F rec c op)) (n : Nat) (c : C) (op : Op) :
    Exec.Keeps R (fuel F n c op) := by
  induction n generalizing c op with
  | zero => exact Exec.Keeps.outOfFuel
  | succ n ih => exact step _ ih c op

end Handler

end Effects
