import Mathlib

/-! Threads that make calls on a shared object.  A call is a sequence of atomic steps, each of which
may depend on a choice from outside; the steps of different threads are interleaved in any order. -/

namespace Interleave

variable {ι σ Call Answer Choice : Type}

/-- What a step of a call leads to. -/
inductive Progress (Call Answer : Type) where
  | next (call : Call)
  | returns (answer : Answer)

def Progress.rest : Progress Call Answer → Option Call
  | .next call => some call
  | .returns _ => none

structure Config (ι σ Call : Type) where
  shared : σ
  threads : ι → Option Call

namespace Config

/-- No call is in flight. -/
def Quiescent (c : Config ι σ Call) : Prop := ∀ t, c.threads t = none

/-- A call is inside from one of its steps on until it returns, as it is while it holds a lock. -/
def NoneInside (c : Config ι σ Call) (inside : Call → Bool) : Prop :=
  ∀ u d, c.threads u = some d → inside d = false

/-- The call of one thread is inside, and no other. -/
structure OnlyInside (c : Config ι σ Call) (inside : Call → Bool) (t : ι) (call : Call) :
    Prop where
  active : c.threads t = some call
  isInside : inside call = true
  others : ∀ u ≠ t, ∀ d, c.threads u = some d → inside d = false

variable {inside : Call → Bool}

theorem Quiescent.noneInside {c : Config ι σ Call} (h : c.Quiescent) : c.NoneInside inside := by
  intro u d hd
  rw [h u] at hd
  cases hd

variable [DecidableEq ι]

def put (c : Config ι σ Call) (t : ι) (call : Option Call) (shared : σ) : Config ι σ Call :=
  ⟨shared, Function.update c.threads t call⟩

@[simp] theorem shared_put (c : Config ι σ Call) (t : ι) (call : Option Call) (shared : σ) :
    (c.put t call shared).shared = shared := rfl

@[simp] theorem threads_put_self (c : Config ι σ Call) (t : ι) (call : Option Call) (shared : σ) :
    (c.put t call shared).threads t = call := Function.update_self ..

theorem threads_put_of_ne (c : Config ι σ Call) {t u : ι} (h : u ≠ t) (call : Option Call)
    (shared : σ) : (c.put t call shared).threads u = c.threads u := Function.update_of_ne h ..

theorem forall_threads_put {c : Config ι σ Call} {t : ι} {call : Option Call} {shared : σ}
    {P : Call → Prop} :
    (∀ u d, (c.put t call shared).threads u = some d → P d) ↔
      (∀ d ∈ call, P d) ∧ ∀ u ≠ t, ∀ d, c.threads u = some d → P d := by
  constructor
  · intro h
    refine ⟨fun d hd => h t d ?_, fun u hu d hd => h u d ?_⟩
    · rwa [threads_put_self]
    · rwa [threads_put_of_ne c hu]
  · rintro ⟨hnew, hothers⟩ u d hd
    by_cases hu : u = t
    · subst hu
      rw [threads_put_self] at hd
      exact hnew d hd
    · rw [threads_put_of_ne c hu] at hd
      exact hothers u hu d hd

/-! ### One call at a time -/

theorem NoneInside.put {c : Config ι σ Call} (h : c.NoneInside inside) (t : ι)
    {call : Option Call} (hcall : ∀ d ∈ call, inside d = false) (shared : σ) :
    (c.put t call shared).NoneInside inside :=
  forall_threads_put.mpr ⟨hcall, fun u _ d hd => h u d hd⟩

theorem NoneInside.enter {c : Config ι σ Call} (h : c.NoneInside inside) (t : ι) {call : Call}
    (hcall : inside call = true) (shared : σ) :
    (c.put t (some call) shared).OnlyInside inside t call := by
  refine ⟨threads_put_self .., hcall, fun u hu d hd => ?_⟩
  rw [threads_put_of_ne c hu] at hd
  exact h u d hd

namespace OnlyInside

variable {c : Config ι σ Call} {t : ι} {call : Call}

theorem unique (h : c.OnlyInside inside t call) {u : ι} {d : Call} (hd : c.threads u = some d)
    (hinside : inside d = true) : u = t ∧ d = call := by
  have hthread : u = t := by
    by_contra hne
    rw [h.others u hne d hd] at hinside
    cases hinside
  subst hthread
  exact ⟨rfl, Option.some.inj (hd.symm.trans h.active)⟩

theorem advance (h : c.OnlyInside inside t call) {call' : Call} (hcall' : inside call' = true)
    (shared : σ) : (c.put t (some call') shared).OnlyInside inside t call' := by
  refine ⟨threads_put_self .., hcall', fun u hu d hd => ?_⟩
  rw [threads_put_of_ne c hu] at hd
  exact h.others u hu d hd

theorem leave (h : c.OnlyInside inside t call) (shared : σ) :
    (c.put t none shared).NoneInside inside :=
  forall_threads_put.mpr ⟨(by rintro d ⟨⟩), h.others⟩

/-- A step of a call that is outside and stays there. -/
theorem put_other (h : c.OnlyInside inside t call) {u : ι}
    (hu : ∀ d, c.threads u = some d → inside d = false) {call' : Option Call}
    (hcall' : ∀ d ∈ call', inside d = false) (shared : σ) :
    (c.put u call' shared).OnlyInside inside t call := by
  have hne : t ≠ u := by
    rintro rfl
    cases (hu call h.active).symm.trans h.isInside
  refine ⟨(threads_put_of_ne c hne ..).trans h.active, h.isInside, fun v hv d hd => ?_⟩
  by_cases hvu : v = u
  · subst hvu
    rw [threads_put_self] at hd
    exact hcall' d hd
  · rw [threads_put_of_ne c hvu] at hd
    exact h.others v hv d hd

end OnlyInside

end Config

variable {answer : Answer}

section

variable [DecidableEq ι] (step : Choice → σ → Call → Option (σ × Progress Call Answer))
  (Starts : Call → Prop) (Ok : Config ι σ Call → ι → Call → Prop)

/-- A thread without a call issues one, or the call of a thread takes a step that is allowed. -/
inductive Step (c : Config ι σ Call) : Config ι σ Call → Prop
  | issue {t : ι} {call : Call} (idle : c.threads t = none) (starts : Starts call) :
      Step c (c.put t (some call) c.shared)
  | run {t : ι} {call : Call} {choice : Choice} {shared : σ} {progress : Progress Call Answer}
      (active : c.threads t = some call) (ok : Ok c t call)
      (steps : step choice c.shared call = some (shared, progress)) :
      Step c (c.put t progress.rest shared)

/-- The interleavings of steps that are allowed. -/
abbrev Reaches : Config ι σ Call → Config ι σ Call → Prop :=
  Relation.ReflTransGen (Step step Starts Ok)

variable {step Starts Ok}

variable {c' : Config ι σ Call}

/-- What holds at first and is kept by each step holds after every interleaving. -/
theorem Reaches.invariant {Inv : Config ι σ Call → Prop}
    (issue : ∀ c t call, Inv c → c.threads t = none → Starts call →
      Inv (c.put t (some call) c.shared))
    (run : ∀ c t call choice shared progress, Inv c → c.threads t = some call → Ok c t call →
      step choice c.shared call = some (shared, progress) → Inv (c.put t progress.rest shared))
    {c : Config ι σ Call} (h : Reaches step Starts Ok c c') (hc : Inv c) : Inv c' := by
  induction h with
  | refl => exact hc
  | tail _ hstep ih =>
    cases hstep with
    | issue idle starts => exact issue _ _ _ ih idle starts
    | run active ok steps => exact run _ _ _ _ _ _ ih active ok steps

/-! ### Runs with a log -/

/-- A step that was taken. -/
structure Taken (ι σ Call Answer : Type) where
  thread : ι
  call : Call
  before : σ
  after : σ
  progress : Progress Call Answer

variable (step Starts Ok) in
/-- The interleavings, with the steps of calls in the order in which they were taken. -/
inductive Runs (c : Config ι σ Call) : List (Taken ι σ Call Answer) → Config ι σ Call → Prop
  | refl : Runs c [] c
  | issue {log : List (Taken ι σ Call Answer)} {c' : Config ι σ Call} {t : ι} {call : Call}
      (run : Runs c log c') (idle : c'.threads t = none) (starts : Starts call) :
      Runs c log (c'.put t (some call) c'.shared)
  | step {log : List (Taken ι σ Call Answer)} {c' : Config ι σ Call} {t : ι} {call : Call}
      {choice : Choice} {shared : σ} {progress : Progress Call Answer} (run : Runs c log c')
      (active : c'.threads t = some call) (ok : Ok c' t call)
      (steps : step choice c'.shared call = some (shared, progress)) :
      Runs c (log ++ [⟨t, call, c'.shared, shared, progress⟩]) (c'.put t progress.rest shared)

/-- What holds at first, with nothing done, and is kept by each step holds after every run. -/
theorem Runs.invariant (Inv : List (Taken ι σ Call Answer) → Config ι σ Call → Prop)
    (issue : ∀ log c t call, Inv log c → c.threads t = none → Starts call →
      Inv log (c.put t (some call) c.shared))
    (run : ∀ log c t call choice shared progress, Inv log c → c.threads t = some call →
      Ok c t call → step choice c.shared call = some (shared, progress) →
      Inv (log ++ [⟨t, call, c.shared, shared, progress⟩]) (c.put t progress.rest shared))
    {c : Config ι σ Call} {log : List (Taken ι σ Call Answer)} (h : Runs step Starts Ok c log c')
    (hc : Inv [] c) : Inv log c' := by
  induction h with
  | refl => exact hc
  | issue _ idle starts ih => exact issue _ _ _ _ ih idle starts
  | step _ active ok steps ih => exact run _ _ _ _ _ _ _ ih active ok steps

/-- The first answer that a thread gets. -/
def outcome (t : ι) : List (Taken ι σ Call Answer) → Option Answer
  | [] => none
  | taken :: log =>
    if taken.thread = t then
      match taken.progress with
      | .next _ => outcome t log
      | .returns answer => some answer
    else outcome t log

theorem outcome_append_of_some {t : ι} {log more : List (Taken ι σ Call Answer)}
    (h : outcome t log = some answer) : outcome t (log ++ more) = some answer := by
  induction log with
  | nil => cases h
  | cons taken log ih =>
    unfold outcome at h
    rw [List.cons_append, outcome]
    by_cases hthread : taken.thread = t
    · rw [if_pos hthread] at h ⊢
      cases hprogress : taken.progress with
      | next call =>
        rw [hprogress] at h
        exact ih h
      | returns answer' =>
        rw [hprogress] at h
        exact h
    · rw [if_neg hthread] at h ⊢
      exact ih h

theorem outcome_append_of_none {t : ι} {log more : List (Taken ι σ Call Answer)}
    (h : outcome t log = none) : outcome t (log ++ more) = outcome t more := by
  induction log with
  | nil => rfl
  | cons taken log ih =>
    unfold outcome at h
    rw [List.cons_append, outcome]
    by_cases hthread : taken.thread = t
    · rw [if_pos hthread] at h ⊢
      cases hprogress : taken.progress with
      | next call =>
        rw [hprogress] at h
        exact ih h
      | returns answer => rw [hprogress] at h; cases h
    · rw [if_neg hthread] at h ⊢
      exact ih h

/-- What a call has come to: it goes on as a call of one kind, or has an answer of one kind. -/
def Progress.Is (Committed : Call → Prop) (Good : Answer → Prop) : Progress Call Answer → Prop
  | .next call => Committed call
  | .returns answer => Good answer

/-- The call that a thread had when the log began has a good answer, or has none yet and the thread
is at a committed call. -/
def Settles (Committed : Call → Prop) (Good : Answer → Prop) (t : ι)
    (log : List (Taken ι σ Call Answer)) (c : Config ι σ Call) : Prop :=
  (∃ answer, outcome t log = some answer ∧ Good answer) ∨
    outcome t log = none ∧ ∃ call, c.threads t = some call ∧ Committed call

variable {call : Call}

section

variable {Committed : Call → Prop} {Good : Answer → Prop} {t : ι}
  {log : List (Taken ι σ Call Answer)} {c : Config ι σ Call}

theorem Settles.issue (h : Settles Committed Good t log c) {t' : ι} (idle : c.threads t' = none) :
    Settles Committed Good t log (c.put t' (some call) c.shared) := by
  rcases h with hgood | ⟨hnone, call', hcall', hcommitted⟩
  · exact .inl hgood
  · have hne : t ≠ t' := by
      rintro rfl
      cases idle.symm.trans hcall'
    exact .inr ⟨hnone, call', by rwa [Config.threads_put_of_ne c hne], hcommitted⟩

theorem settles_last {s s' : σ} {progress : Progress Call Answer} (h : progress.Is Committed Good) :
    Settles Committed Good t [⟨t, call, s, s', progress⟩] (c.put t progress.rest s') := by
  cases progress with
  | next call' =>
    refine .inr ⟨by simp [outcome], call', ?_, h⟩
    rw [Config.threads_put_self]
    rfl
  | returns answer => exact .inl ⟨answer, by simp [outcome], h⟩

theorem Settles.advance (h : Settles Committed Good t log c) {t' : ι} {s' : σ}
    {progress : Progress Call Answer} (active : c.threads t' = some call)
    (keep : Committed call → progress.Is Committed Good) :
    Settles Committed Good t (log ++ [⟨t', call, c.shared, s', progress⟩])
      (c.put t' progress.rest s') := by
  rcases h with ⟨answer, hanswer, hgood⟩ | ⟨hnone, call', hcall', hcommitted⟩
  · exact .inl ⟨answer, outcome_append_of_some hanswer, hgood⟩
  · unfold Settles
    rw [outcome_append_of_none hnone]
    by_cases hthread : t' = t
    · subst hthread
      cases active.symm.trans hcall'
      exact settles_last (keep hcommitted)
    · refine .inr ⟨by simp [outcome, hthread], call', ?_, hcommitted⟩
      rwa [Config.threads_put_of_ne c (Ne.symm hthread)]

end

/-- Where marked steps commit a call, and a committed call stays so until it has a good answer, the
call of a marked step ends with a good answer. -/
theorem Runs.outcome_of_committed {Marks : Taken ι σ Call Answer → Prop} {Committed : Call → Prop}
    {Good : Answer → Prop}
    (mark : ∀ t call choice s s' progress, step choice s call = some (s', progress) →
      Marks ⟨t, call, s, s', progress⟩ → progress.Is Committed Good)
    (keep : ∀ call choice s s' progress, step choice s call = some (s', progress) →
      Committed call → progress.Is Committed Good) {c : Config ι σ Call}
    {log : List (Taken ι σ Call Answer)} (h : Runs step Starts Ok c log c')
    {done later : List (Taken ι σ Call Answer)} {taken : Taken ι σ Call Answer}
    (hsplit : log = done ++ taken :: later) (hmark : Marks taken)
    (hanswer : outcome taken.thread (taken :: later) = some answer) : Good answer := by
  have hsettles : Settles Committed Good taken.thread (taken :: later) c' := by
    refine h.invariant (fun log c => ∀ done taken later, log = done ++ taken :: later →
      Marks taken → Settles Committed Good taken.thread (taken :: later) c) ?_ ?_ ?_ done taken
        later hsplit hmark
    · intro log c t call hinv idle _ done taken later hsplit hmark
      exact (hinv done taken later hsplit hmark).issue idle
    · intro log c t call choice shared progress hinv active _ steps done taken later hsplit hmark
      rcases List.eq_nil_or_concat later with rfl | ⟨earlier, last, rfl⟩
      · -- the step itself is marked
        obtain ⟨-, hlast⟩ := List.append_inj' hsplit rfl
        cases hlast
        exact settles_last (mark _ _ _ _ _ _ steps hmark)
      · -- an earlier one is
        rw [List.concat_eq_append, ← List.cons_append, ← List.append_assoc] at hsplit
        obtain ⟨hlog, hlast⟩ := List.append_inj' hsplit rfl
        cases hlast
        rw [List.concat_eq_append, ← List.cons_append]
        exact (hinv done taken earlier hlog hmark).advance active (keep _ _ _ _ _ steps)
    · intro done taken later hsplit
      simp at hsplit
  rcases hsettles with ⟨answer', hanswer', hgood⟩ | ⟨hnone, -⟩
  · cases hanswer.symm.trans hanswer'
    exact hgood
  · cases hanswer.symm.trans hnone

/-! ### Calls alone -/

variable (step) in
/-- The steps of one call, at most `n` of them, with no other call in between. -/
def alone (choice : Choice) : Nat → σ → Call → Option (σ × Answer)
  | 0, _, _ => none
  | n + 1, s, call =>
    match step choice s call with
    | none => none
    | some (s', .next call') => alone choice n s' call'
    | some (s', .returns answer) => some (s', answer)

theorem alone_next {choice : Choice} {n : Nat} {s s' : σ} {call' : Call}
    (h : step choice s call = some (s', .next call')) :
    alone step choice (n + 1) s call = alone step choice n s' call' := by
  rw [alone, h]

theorem alone_returns {choice : Choice} {n : Nat} {s s' : σ}
    (h : step choice s call = some (s', .returns answer)) :
    alone step choice (n + 1) s call = some (s', answer) := by
  rw [alone, h]

/-! ### Schedules -/

inductive Event (ι Call Choice : Type) where
  | issue (t : ι) (call : Call)
  | run (t : ι) (choice : Choice)

variable (step Starts Ok) [DecidablePred Starts] [∀ c t call, Decidable (Ok c t call)]

def play (c : Config ι σ Call) : Event ι Call Choice → Option (Config ι σ Call)
  | .issue t call =>
    if (c.threads t).isNone ∧ Starts call then some (c.put t (some call) c.shared) else none
  | .run t choice =>
    match c.threads t with
    | none => none
    | some call =>
      if Ok c t call then (step choice c.shared call).map fun r => c.put t r.2.rest r.1 else none

def playAll (c : Config ι σ Call) (events : List (Event ι Call Choice)) :
    Option (Config ι σ Call) :=
  events.foldlM (play step Starts Ok) c

variable {step Starts Ok}

theorem step_of_play {c : Config ι σ Call} {event : Event ι Call Choice}
    (h : play step Starts Ok c event = some c') : Step step Starts Ok c c' := by
  cases event with
  | issue t call =>
    dsimp only [play] at h
    split at h
    · rename_i hissue
      cases h
      exact .issue (Option.isNone_iff_eq_none.mp hissue.1) hissue.2
    · cases h
  | run t choice =>
    dsimp only [play] at h
    split at h
    · cases h
    · rename_i call hactive
      split at h
      · rename_i hok
        obtain ⟨⟨shared, progress⟩, hstep, rfl⟩ := Option.map_eq_some_iff.mp h
        exact .run hactive hok hstep
      · cases h

/-- A schedule that can be played is an interleaving. -/
theorem reaches_of_playAll {c : Config ι σ Call} {events : List (Event ι Call Choice)}
    (h : playAll step Starts Ok c events = some c') : Reaches step Starts Ok c c' := by
  induction events generalizing c with
  | nil =>
    cases h
    exact .refl
  | cons event events ih =>
    unfold playAll at h
    rw [List.foldlM_cons] at h
    obtain ⟨c₁, hplay, hrest⟩ := Option.bind_eq_some_iff.mp h
    exact .head (step_of_play hplay) (ih hrest)

variable (step Starts Ok) in
/-- Plays a schedule after a run, and adds its steps to the log. -/
def playLogged : List (Event ι Call Choice) → List (Taken ι σ Call Answer) → Config ι σ Call →
    Option (List (Taken ι σ Call Answer) × Config ι σ Call)
  | [], log, c => some (log, c)
  | .issue t call :: events, log, c =>
    if (c.threads t).isNone ∧ Starts call then
      playLogged events log (c.put t (some call) c.shared)
    else none
  | .run t choice :: events, log, c =>
    match c.threads t with
    | none => none
    | some call =>
      if Ok c t call then
        match step choice c.shared call with
        | none => none
        | some (shared, progress) =>
          playLogged events (log ++ [⟨t, call, c.shared, shared, progress⟩])
            (c.put t progress.rest shared)
      else none

theorem runs_of_playLogged {c c'' : Config ι σ Call} {events : List (Event ι Call Choice)}
    {log log' : List (Taken ι σ Call Answer)} (h : Runs step Starts Ok c log c')
    (hplay : playLogged step Starts Ok events log c' = some (log', c'')) :
    Runs step Starts Ok c log' c'' := by
  induction events generalizing log c' with
  | nil =>
    cases hplay
    exact h
  | cons event events ih =>
    cases event with
    | issue t call =>
      unfold playLogged at hplay
      split at hplay
      · rename_i hissue
        exact ih (h.issue (Option.isNone_iff_eq_none.mp hissue.1) hissue.2) hplay
      · cases hplay
    | run t choice =>
      unfold playLogged at hplay
      split at hplay
      · cases hplay
      · rename_i call hactive
        split at hplay
        · rename_i hok
          split at hplay
          · cases hplay
          · rename_i shared progress hstep
            exact ih (h.step hactive hok hstep) hplay
        · cases hplay

end

/-! ### One call after the other -/

section

variable (step : Choice → σ → Call → Option (σ × Progress Call Answer))

/-- A call that runs alone, from its next step to its answer. -/
inductive Completes : σ → Call → σ → Answer → Prop
  | returns {choice : Choice} {s s' : σ} {call : Call} {answer : Answer}
      (steps : step choice s call = some (s', .returns answer)) : Completes s call s' answer
  | next {choice : Choice} {s s₁ s' : σ} {call call' : Call} {answer : Answer}
      (steps : step choice s call = some (s₁, .next call'))
      (rest : Completes s₁ call' s' answer) : Completes s call s' answer

/-- Calls that run one after the other, each with its answer, the last one first. -/
inductive Sequential (Starts : Call → Prop) (first : σ) : List (Call × Answer) → σ → Prop
  | start : Sequential Starts first [] first
  | call {history : List (Call × Answer)} {s s' : σ} {call : Call} {answer : Answer}
      (before : Sequential Starts first history s) (starts : Starts call)
      (completes : Completes step s call s' answer) :
      Sequential Starts first ((call, answer) :: history) s'

variable {step}

/-- What holds of a call that has its answer in one step, or that goes on. -/
@[elab_as_elim] theorem Completes.step_rule {Q : σ → Answer → Prop} {s s' : σ} {call : Call}
    (h : Completes step s call s' answer)
    (run : ∀ choice s₁ progress, step choice s call = some (s₁, progress) →
      match progress with
      | .returns answer => Q s₁ answer
      | .next call' => Completes step s₁ call' s' answer → Q s' answer) : Q s' answer := by
  cases h with
  | returns steps => exact run _ _ _ steps
  | next steps rest => exact run _ _ _ steps rest

theorem Completes.invariant (Inv : Option Call → σ → Prop)
    (run : ∀ choice s call s' progress, Inv (some call) s →
      step choice s call = some (s', progress) → Inv progress.rest s') {s s' : σ} {call : Call}
    (h : Completes step s call s' answer) (hs : Inv (some call) s) : Inv none s' := by
  induction h with
  | returns steps => exact run _ _ _ _ _ hs steps
  | next steps _ ih => exact ih (run _ _ _ _ _ hs steps)

theorem completes_of_alone {choice : Choice} {n : Nat} {s s' : σ} {call : Call}
    (h : alone step choice n s call = some (s', answer)) : Completes step s call s' answer := by
  induction n generalizing s call with
  | zero => cases h
  | succ n ih =>
    unfold alone at h
    split at h
    · cases h
    · rename_i hstep
      exact .next hstep (ih h)
    · rename_i hstep
      cases h
      exact .returns hstep

theorem Sequential.earlier {Starts : Call → Prop} {first s : σ}
    {later earlier : List (Call × Answer)} {last : Call × Answer}
    (h : Sequential step Starts first (later ++ last :: earlier) s) :
    ∃ s', Sequential step Starts first (last :: earlier) s' := by
  induction later generalizing s with
  | nil => exact ⟨s, h⟩
  | cons call later ih =>
    cases h with
    | call before _ _ => exact ih before

end

end Interleave
