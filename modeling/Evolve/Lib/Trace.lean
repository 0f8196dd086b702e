import Mathlib
import Evolve.Lib.Effects

/-! Computations that keep a log of what they do.  The log is written beside the computation and
nothing reads it, so forgetting it gives the computation back; properties are proved of the log
together with the first and the last state. -/

namespace Effects

variable {τ σ ε α β : Type}

/-- A computation with the list of what it does from a state, also when it does not end. -/
@[ext]
structure Logged (τ σ ε α : Type) where
  exec : Exec σ ε α
  log : σ → List τ

variable {s s' : σ}

namespace Logged

protected def pure (a : α) : Logged τ σ ε α := ⟨pure a, fun _ => []⟩

protected def bind (m : Logged τ σ ε α) (f : α → Logged τ σ ε β) : Logged τ σ ε β where
  exec := m.exec >>= fun a => (f a).exec
  log s := m.log s ++
    match m.exec s with
    | .done (.ok a, s') => (f a).log s'
    | _ => []

instance : Monad (Logged τ σ ε) where
  pure := Logged.pure
  bind := Logged.bind

protected theorem bind_pure (m : Logged τ σ ε α) : Logged.bind m Logged.pure = m := by
  refine Logged.ext (Exec.bind_pure m.exec) (funext fun s => ?_)
  unfold Logged.bind
  dsimp only
  rcases m.exec s with ⟨⟨(e | a), s'⟩⟩ | _ | _ <;> exact List.append_nil _

protected theorem pure_bind (a : α) (f : α → Logged τ σ ε β) :
    Logged.bind (Logged.pure a) f = f a := rfl

protected theorem bind_assoc {γ : Type} (m : Logged τ σ ε α) (f : α → Logged τ σ ε β)
    (g : β → Logged τ σ ε γ) :
    Logged.bind (Logged.bind m f) g = Logged.bind m fun a => Logged.bind (f a) g := by
  refine Logged.ext (Exec.bind_assoc m.exec _ _) (funext fun s => ?_)
  show m.log s ++ _ ++ (match (m.exec >>= fun a => (f a).exec) s with
    | .done (.ok b, s') => (g b).log s'
    | _ => []) = m.log s ++ _
  rw [Exec.bind_apply, List.append_assoc]
  rcases m.exec s with ⟨⟨(e | a), s'⟩⟩ | _ | _ <;> rfl

instance : LawfulMonad (Logged τ σ ε) :=
  LawfulMonad.mk' (Logged τ σ ε) Logged.bind_pure Logged.pure_bind Logged.bind_assoc

/-- A computation that is logged once it has ended, with its result and the states before and
after it. -/
def observe (note : σ → Except ε α → σ → List τ) (m : Exec σ ε α) : Logged τ σ ε α where
  exec := m
  log s :=
    match m s with
    | .done (r, s') => note s r s'
    | _ => []

/-- A computation that does nothing worth logging. -/
def lift (m : Exec σ ε α) : Logged τ σ ε α := ⟨m, fun _ => []⟩

def mark (entry : σ → τ) : Logged τ σ ε Unit := ⟨pure (), fun s => [entry s]⟩

def throw (e : ε) : Logged τ σ ε α := lift (Exec.throw e)

def ofExcept (r : Except ε α) : Logged τ σ ε α := lift (Exec.ofExcept r)

def outOfFuel : Logged τ σ ε α := lift Exec.outOfFuel

def attempt (m : Logged τ σ ε α) : Logged τ σ ε (Except ε α) := ⟨Exec.attempt m.exec, m.log⟩

@[simp] theorem exec_pure (a : α) : (pure a : Logged τ σ ε α).exec = pure a := rfl

@[simp] theorem exec_bind (m : Logged τ σ ε α) (f : α → Logged τ σ ε β) :
    (m >>= f).exec = m.exec >>= fun a => (f a).exec := rfl

@[simp] theorem exec_observe (note : σ → Except ε α → σ → List τ) (m : Exec σ ε α) :
    (observe note m).exec = m := rfl

@[simp] theorem exec_lift (m : Exec σ ε α) : (lift m : Logged τ σ ε α).exec = m := rfl

@[simp] theorem exec_throw (e : ε) : (throw e : Logged τ σ ε α).exec = Exec.throw e := rfl

@[simp] theorem exec_ofExcept (r : Except ε α) :
    (ofExcept r : Logged τ σ ε α).exec = Exec.ofExcept r := rfl

@[simp] theorem exec_attempt (m : Logged τ σ ε α) : (attempt m).exec = Exec.attempt m.exec := rfl

@[simp] theorem exec_mark_bind (entry : σ → τ) (f : Unit → Logged τ σ ε β) :
    (mark entry >>= f).exec = (f ()).exec := rfl

theorem log_bind (m : Logged τ σ ε α) (f : α → Logged τ σ ε β) (s : σ) :
    (m >>= f).log s = m.log s ++
      match m.exec s with
      | .done (.ok a, s') => (f a).log s'
      | _ => [] := rfl

variable {m : Logged τ σ ε α} {f : α → Logged τ σ ε β}

theorem log_bind_ok {a : α} (h : m.exec s = .done (.ok a, s')) :
    (m >>= f).log s = m.log s ++ (f a).log s' := by
  rw [log_bind, h]

theorem log_bind_error {e : ε} (h : m.exec s = .done (.error e, s')) :
    (m >>= f).log s = m.log s := by
  rw [log_bind, h, List.append_nil]

theorem log_observe {note : σ → Except ε α → σ → List τ} {m : Exec σ ε α} {r : Except ε α}
    (h : m s = .done (r, s')) : (observe note m).log s = note s r s' := by
  unfold observe
  dsimp only
  rw [h]

theorem lift_bind (m : Exec σ ε α) (f : α → Exec σ ε β) :
    (lift (m >>= f) : Logged τ σ ε β) = lift m >>= fun a => lift (f a) := by
  refine Logged.ext rfl (funext fun s => ?_)
  rw [log_bind, exec_lift]
  rcases m s with ⟨⟨(e | a), s'⟩⟩ | _ | _ <;> rfl

theorem attempt_bind {γ : Type} (m : Logged τ σ ε α) (f : α → Logged τ σ ε β)
    (k : Except ε β → Logged τ σ ε γ) :
    (attempt (m >>= f) >>= k) = attempt m >>= fun
      | .error e => k (.error e)
      | .ok a => attempt (f a) >>= k := by
  refine Logged.ext (funext fun s => ?_) (funext fun s => ?_)
  · simp only [exec_bind, exec_attempt, Exec.bind_apply, Exec.attempt]
    rcases m.exec s with ⟨⟨(e | a), s'⟩⟩ | _ | _ <;> rfl
  · simp only [log_bind, Exec.attempt, attempt, Exec.bind_apply, exec_bind]
    rcases m.exec s with ⟨⟨(e | a), s'⟩⟩ | _ | _
    · rw [List.append_nil]
    · exact List.append_assoc _ _ _
    · simp
    · simp

/-! ### Relations between the states and the log -/

/-- The last state of a computation, if it ends. -/
def last (m : Logged τ σ ε α) (s : σ) : Option σ :=
  match m.exec s with
  | .done (_, s') => some s'
  | _ => none

theorem last_eq_some {r : Except ε α} (h : m.exec s = .done (r, s')) : m.last s = some s' := by
  rw [last, h]

theorem exec_of_last (h : m.last s = some s') : ∃ r, m.exec s = .done (r, s') := by
  unfold last at h
  rcases hm : m.exec s with ⟨⟨r, s₁⟩⟩ | _ | _ <;> rw [hm] at h <;> cases h
  exact ⟨r, rfl⟩

theorem last_bind (m : Logged τ σ ε α) (f : α → Logged τ σ ε β) (s : σ) :
    (m >>= f).last s = match m.exec s with
      | .done (.ok a, s') => (f a).last s'
      | .done (.error _, s') => some s'
      | _ => none := by
  unfold last
  rw [exec_bind, Exec.bind_apply]
  rcases m.exec s with ⟨⟨(e | a), s'⟩⟩ | _ | _ <;> rfl

/-- The first state of `m`, its log and its last state are related by `R`. -/
def Keeps (R : σ → List τ → Option σ → Prop) (m : Logged τ σ ε α) : Prop :=
  ∀ s, R s (m.log s) (m.last s)

/-- A relation that allows doing nothing and doing one thing after another. -/
structure Composes (R : σ → List τ → Option σ → Prop) : Prop where
  refl : ∀ s, R s [] (some s)
  trans : ∀ ⦃a l b l' o⦄, R a l (some b) → R b l' o → R a (l ++ l') o

namespace Composes

variable {R : σ → List τ → Option σ → Prop} (rule : Composes R)
include rule

theorem keeps_pure (a : α) : Keeps R (pure a : Logged τ σ ε α) := rule.refl

theorem keeps_throw (e : ε) : Keeps R (throw e : Logged τ σ ε α) := rule.refl

theorem keeps_ofExcept (r : Except ε α) : Keeps R (ofExcept r : Logged τ σ ε α) := rule.refl

theorem bind_at (hm : R s (m.log s) (m.last s))
    (hf : ∀ a s', m.exec s = .done (.ok a, s') → R s' ((f a).log s') ((f a).last s')) :
    R s ((m >>= f).log s) ((m >>= f).last s) := by
  rw [log_bind, last_bind]
  unfold last at hm
  rcases h : m.exec s with ⟨⟨(e | a), s'⟩⟩ | _ | _ <;> rw [h] at hm
  · rwa [List.append_nil]
  · exact rule.trans hm (hf a s' h)
  · rwa [List.append_nil]
  · rwa [List.append_nil]

/-- The same seen from a state `a` before, where `l` has been logged. -/
theorem bind_from {a : σ} {l : List τ} (hl : R a l (some s)) (hm : R s (m.log s) (m.last s))
    (hf : ∀ r s', m.exec s = .done (.ok r, s') → R a (l ++ m.log s) (some s') →
      R a (l ++ m.log s ++ (f r).log s') ((f r).last s')) :
    R a (l ++ (m >>= f).log s) ((m >>= f).last s) := by
  have hfirst := rule.trans hl hm
  rw [log_bind, last_bind]
  unfold last at hfirst
  rcases h : m.exec s with ⟨⟨(e | r), s'⟩⟩ | _ | _ <;> rw [h] at hfirst
  · rwa [List.append_nil]
  · rw [← List.append_assoc]
    exact hf r s' h hfirst
  · rwa [List.append_nil]
  · rwa [List.append_nil]

theorem keeps_bind (hm : Keeps R m) (hf : ∀ a, Keeps R (f a)) : Keeps R (m >>= f) :=
  fun s => rule.bind_at (hm s) fun a s' _ => hf a s'

end Composes

variable {R : σ → List τ → Option σ → Prop}

theorem Keeps.lift {S : σ → σ → Prop} (hS : ∀ s s', S s s' → R s [] (some s')) {m : Exec σ ε α}
    (hm : Exec.Keeps S m) (hhalts : Exec.Halts m) : Keeps R (lift m) := by
  intro s
  obtain ⟨r, s', hdone, h⟩ := hhalts.done (hm s)
  rw [last_eq_some (show (Logged.lift m : Logged τ σ ε α).exec s = _ from hdone)]
  exact hS s s' h

theorem Keeps.mark {entry : σ → τ} (h : ∀ s, R s [entry s] (some s)) :
    Keeps R (mark entry : Logged τ σ ε Unit) := h

theorem Keeps.attempt (h : Keeps R m) : Keeps R (attempt m) := by
  intro s
  have hlast : (Logged.attempt m).last s = m.last s := by
    unfold last
    rw [exec_attempt, Exec.attempt]
    rcases m.exec s with ⟨⟨r, s'⟩⟩ | _ | _ <;> rfl
  rw [hlast]
  exact h s

theorem Keeps.done (h : Keeps R m) {r : Except ε α} (hm : m.exec s = .done (r, s')) :
    R s (m.log s) (some s') := by
  rw [← last_eq_some hm]
  exact h s

/-! ### What is logged -/

/-- Everything that `m` logs from `s` is in `P`. -/
def Logs (P : τ → Prop) (m : Logged τ σ ε α) (s : σ) : Prop := ∀ t ∈ m.log s, P t

variable {P : τ → Prop}

theorem logs_lift (m : Exec σ ε α) (s : σ) : Logs P (lift m) s := by
  intro t ht
  cases ht

theorem logs_mark {entry : σ → τ} (h : P (entry s)) :
    Logs P (mark entry : Logged τ σ ε Unit) s := by
  intro t ht
  rw [List.mem_singleton.mp ht]
  exact h

theorem logs_attempt (h : Logs P m s) : Logs P (attempt m) s := h

/-- What follows logs only from the values and states that the first part can return. -/
theorem logs_bind :
    Logs P (m >>= f) s ↔ Logs P m s ∧ Exec.Returns m.exec (fun a s' => Logs P (f a) s') s := by
  unfold Logs
  rw [log_bind, List.forall_mem_append]
  refine and_congr_right fun _ => ⟨fun h a s' hr => ?_, fun h => ?_⟩
  · rw [hr] at h
    exact h
  · split
    · rename_i a s' hr
      exact h a s' hr
    · exact fun t ht => by cases ht

end Logged

/-! ### Programs -/

namespace Prog

variable {Op : Type} {Ans : Op → Type}

/-- The program makes the call `op`, for some answers to those before it. -/
inductive Calls : Prog Op Ans ε α → Op → Prop
  | now {op : Op} {k : Except ε (Ans op) → Prog Op Ans ε α} : Calls (.call op k) op
  | later {op op' : Op} {k : Except ε (Ans op) → Prog Op Ans ε α} (r : Except ε (Ans op))
      (h : Calls (k r) op') : Calls (.call op k) op'

theorem Calls.of_rename {Op' : Type} {Ans' : Op' → Type} {f : Op → Op'}
    {g : ∀ op, Ans' (f op) → Ans op} {p : Prog Op Ans ε α} {op' : Op'}
    (h : (p.rename f g).Calls op') : ∃ op, op' = f op := by
  induction p with
  | ret r => cases h
  | call op k ih =>
    cases h with
    | now => exact ⟨op, rfl⟩
    | later r h => exact ih _ h

def runLogged (h : (op : Op) → Logged τ σ ε (Ans op)) : Prog Op Ans ε α → Logged τ σ ε α
  | .ret r => Logged.ofExcept r
  | .call op k => Logged.attempt (h op) >>= fun r => (k r).runLogged h

variable {h : (op : Op) → Logged τ σ ε (Ans op)}

theorem exec_runLogged (p : Prog Op Ans ε α) :
    (p.runLogged h).exec = p.run fun op => (h op).exec := by
  induction p with
  | ret r => rfl
  | call op k ih => exact congrArg (Exec.attempt (h op).exec >>= ·) (funext ih)

theorem logs_request {P : τ → Prop} {op : Op} (hop : Logged.Logs P (h op) s) :
    Logged.Logs P ((request op : Prog Op Ans ε (Ans op)).runLogged h) s :=
  Logged.logs_bind.mpr ⟨hop, fun _ _ _ => Logged.logs_lift _ _⟩

theorem logs_runLogged_bind {P : τ → Prop} {p : Prog Op Ans ε α} {f : α → Prog Op Ans ε β}
    (hp : Logged.Logs P (p.runLogged h) s) (hf : Exec.Returns (p.run fun op => (h op).exec)
      (fun a s' => Logged.Logs P ((f a).runLogged h) s') s) :
    Logged.Logs P ((p >>= f).runLogged h) s := by
  induction p generalizing s with
  | ret r =>
    cases r with
    | error e => exact Logged.logs_lift _ _
    | ok a => exact hf a s rfl
  | call op k ih =>
    obtain ⟨hop, hk⟩ := Logged.logs_bind.mp hp
    refine Logged.logs_bind.mpr ⟨hop, fun r s' hr => ih r (hk r s' hr) fun a s'' ha => ?_⟩
    refine hf a s'' ?_
    show (Exec.attempt (h op).exec >>= _) s = _
    rw [Exec.bind_apply, show Exec.attempt (h op).exec s = _ from hr]
    exact ha

theorem keeps_runLogged {R : σ → List τ → Option σ → Prop} (rule : Logged.Composes R)
    (p : Prog Op Ans ε α) (hh : ∀ op, p.Calls op → Logged.Keeps R (h op)) :
    Logged.Keeps R (p.runLogged h) := by
  induction p with
  | ret r => exact rule.keeps_ofExcept r
  | call op k ih =>
    refine rule.keeps_bind (hh op .now).attempt fun r => ih r fun op' hcalls => ?_
    exact hh op' (.later r hcalls)

end Prog

end Effects
