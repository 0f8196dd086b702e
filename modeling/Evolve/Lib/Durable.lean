import Mathlib
import Evolve.Lib.Effects

/-! Stores that outlive the processes that use them.  A write is visible at once and is sure to
outlive the process once it is committed; until then it may be lost, but only together with all
that was written after it. -/

namespace Durable

open Effects

/-- The process has ended, by a panic or because it was killed. -/
inductive Gone where
  | gone
deriving DecidableEq

/-- A computation of a process on what outlives it.  The state in which a process ends is the one
that the next process finds. -/
abbrev Process (σ α : Type) : Type := Exec σ Gone α

variable {σ τ ω ε ρ κ α β : Type}

def gone : Process σ α := Exec.throw .gone

/-- What a process leaves. -/
def left (p : Process σ α) (s : σ) : σ :=
  match p s with
  | .done (_, s') => s'
  | _ => s

theorem run_left {p : Process σ α} {s : σ} {Q : Except Gone α → σ → Prop} (h : Exec.Ends p Q s) :
    ∃ r, p s = .done (r, left p s) ∧ Q r (left p s) := by
  obtain ⟨r, s', hrun, hq⟩ := h.exists
  unfold left
  rw [hrun]
  exact ⟨r, rfl, hq⟩

/-! ### Stores -/

/-- A store takes writes, commits all that was written before, and is opened again by the next
process.  A process that ends in a call gets no answer from it. -/
structure Store (τ ω ε ρ : Type) where
  write : ω → τ → Option (Except ε Unit) × τ
  commit : τ → Option (Except ε ρ) × τ
  reopen : τ → τ

/-- What a store holds: `current` is what is read from it, one of `survivors` is what is read once
it is opened again, and `start` is what was there at first.  A write is applied wholly or not at
all. -/
structure Semantics (store : Store τ ω ε ρ) (apply : κ → ω → κ) where
  current : τ → κ
  survivors : τ → Set κ
  start : κ
  write_ok : ∀ {w t t'}, store.write w t = (some (.ok ()), t') →
    current t' = apply (current t) w ∧ survivors t' ⊆ insert (current t') (survivors t)
  write_error : ∀ {w t e t'}, store.write w t = (some (.error e), t') →
    current t' = current t ∧ survivors t' ⊆ survivors t
  write_gone : ∀ {w t t'}, store.write w t = (none, t') →
    survivors t' ⊆ insert (apply (current t) w) (survivors t)
  commit_ok : ∀ {t r t'}, store.commit t = (some (.ok r), t') →
    current t' = current t ∧ survivors t' ⊆ {current t}
  commit_error : ∀ {t e t'}, store.commit t = (some (.error e), t') →
    current t' = current t ∧ survivors t' ⊆ insert (current t) (survivors t)
  commit_gone : ∀ {t t'}, store.commit t = (none, t') →
    survivors t' ⊆ insert (current t) (survivors t)
  reopen : ∀ t, current (store.reopen t) ∈ survivors t ∧
    survivors (store.reopen t) ⊆ {current (store.reopen t)}

/-- How a write and the commit after it end. -/
inductive Persisted (ε ρ : Type) where
  | refused (e : ε)
  | uncommitted (e : ε)
  | committed (r : ρ)

/-- A store, with the writes that it was asked for and those whose commit it has confirmed. -/
structure Recorded (τ ω : Type) where
  store : τ
  requested : List ω
  confirmed : List ω

namespace Store

variable (store : Store τ ω ε ρ)

/-- A write with a commit.  A write that is refused is not committed. -/
def persist (w : ω) (s : Recorded τ ω) : Option (Persisted ε ρ) × Recorded τ ω :=
  match store.write w s.store with
  | (none, t) => (none, ⟨t, s.requested ++ [w], s.confirmed⟩)
  | (some (.error e), t) => (some (.refused e), ⟨t, s.requested ++ [w], s.confirmed⟩)
  | (some (.ok ()), t) =>
    match store.commit t with
    | (none, t) => (none, ⟨t, s.requested ++ [w], s.confirmed⟩)
    | (some (.error e), t) => (some (.uncommitted e), ⟨t, s.requested ++ [w], s.confirmed⟩)
    | (some (.ok r), t) => (some (.committed r), ⟨t, s.requested ++ [w], s.confirmed ++ [w]⟩)

def reopened (s : Recorded τ ω) : Recorded τ ω := { s with store := store.reopen s.store }

def confirmedBy (w : ω) : Option (Persisted ε ρ) → List ω
  | some (.committed _) => [w]
  | _ => []

theorem persist_confirmed (w : ω) (s : Recorded τ ω) :
    (store.persist w s).2.confirmed = s.confirmed ++ confirmedBy w (store.persist w s).1 := by
  unfold persist
  rcases store.write w s.store with ⟨_ | e | ⟨⟨⟩⟩, t⟩ <;> dsimp only
  · exact (List.append_nil _).symm
  · exact (List.append_nil _).symm
  rcases store.commit t with ⟨_ | e | r, t'⟩ <;> dsimp only
  · exact (List.append_nil _).symm
  · exact (List.append_nil _).symm
  · rfl

end Store

/-! ### What a store holds -/

namespace Semantics

variable {store : Store τ ω ε ρ} {apply : κ → ω → κ} (m : Semantics store apply)

def after (writes : List ω) : κ := writes.foldl apply m.start

/-- The contents after a sequence of writes of which at least the first `n` are kept. -/
def Kept (writes : List ω) (n : Nat) : Set κ := {c | ∃ k, n ≤ k ∧ c = m.after (writes.take k)}

/-- Whatever is read next time, the first `n` of the writes are in it, and they include all that
was confirmed; nothing was written but what was asked for. -/
structure Rests (writes : List ω) (n : Nat) (s : Recorded τ ω) : Prop where
  keeps : m.survivors s.store ⊆ m.Kept writes n
  within : n ≤ writes.length
  confirmed : s.confirmed.Sublist (writes.take n)
  requested : writes.Sublist s.requested

/-- The store shows all of the writes. -/
structure Holds (writes : List ω) (n : Nat) (s : Recorded τ ω) : Prop
    extends Rests m writes n s where
  shows : m.current s.store = m.after writes

variable {m} {writes : List ω} {n : Nat} {w : ω}

theorem after_append : m.after (writes ++ [w]) = apply (m.after writes) w := by
  unfold after
  rw [List.foldl_append]
  rfl

theorem le_length_append (h : n ≤ writes.length) : n ≤ (writes ++ [w]).length := by
  rw [List.length_append]
  omega

theorem mem_kept_all (h : n ≤ writes.length) : m.after writes ∈ m.Kept writes n :=
  ⟨writes.length, h, by rw [List.take_length]⟩

theorem mem_kept_append {c : κ} (h : n ≤ writes.length) : c ∈ m.Kept (writes ++ [w]) n ↔
    c ∈ m.Kept writes n ∨ c = apply (m.after writes) w := by
  constructor
  · rintro ⟨k, hk, rfl⟩
    rcases le_or_gt k writes.length with hle | hlt
    · exact .inl ⟨k, hk, by rw [List.take_append_of_le_length hle]⟩
    · rw [List.take_of_length_le (by rw [List.length_append]; exact hlt)]
      exact .inr after_append
  · rintro (⟨k, hk, rfl⟩ | rfl)
    · rcases le_or_gt k writes.length with hle | hlt
      · exact ⟨k, hk, by rw [List.take_append_of_le_length hle]⟩
      · refine ⟨writes.length, h, ?_⟩
        rw [List.take_append_of_le_length le_rfl, List.take_length, List.take_of_length_le hlt.le]
    · rw [← after_append (m := m)]
      exact mem_kept_all (le_length_append h)

theorem kept_of_le {n' : Nat} (h : n ≤ n') : m.Kept writes n' ⊆ m.Kept writes n := by
  rintro c ⟨k, hk, rfl⟩
  exact ⟨k, h.trans hk, rfl⟩

theorem kept_all {c : κ} (h : c ∈ m.Kept writes writes.length) : c = m.after writes := by
  obtain ⟨k, hk, rfl⟩ := h
  rw [List.take_of_length_le hk]

theorem kept_take {k : Nat} (h : n ≤ k) :
    m.Kept (writes.take k) (writes.take k).length ⊆ m.Kept writes n :=
  fun _ hc => ⟨k, h, kept_all hc⟩

namespace Rests

variable {s : Recorded τ ω} {t : τ}

/-- The record of a write that may have reached the store. -/
theorem append (h : m.Rests writes n s)
    (ht : m.survivors t ⊆ insert (m.after (writes ++ [w])) (m.survivors s.store)) :
    m.Rests (writes ++ [w]) n ⟨t, s.requested ++ [w], s.confirmed⟩ where
  keeps := by
    intro c hc
    rcases ht hc with rfl | hc
    · exact mem_kept_all (le_length_append h.within)
    · exact (mem_kept_append h.within).mpr (.inl (h.keeps hc))
  within := le_length_append h.within
  confirmed := by
    rw [List.take_append_of_le_length h.within]
    exact h.confirmed
  requested := h.requested.append (List.Sublist.refl [w])

/-- The record of a write that has not reached the store. -/
theorem ask (h : m.Rests writes n s) (ht : m.survivors t ⊆ m.survivors s.store) :
    m.Rests writes n ⟨t, s.requested ++ [w], s.confirmed⟩ where
  keeps := ht.trans h.keeps
  within := h.within
  confirmed := h.confirmed
  requested := h.requested.trans (List.sublist_append_left _ _)

theorem confirmed_of_le (h : m.Rests writes n s) {k : Nat} (hk : n ≤ k) :
    s.confirmed.Sublist (writes.take k) := by
  refine h.confirmed.trans ?_
  rw [← Nat.min_eq_left hk, ← List.take_take]
  exact List.take_sublist _ _

/-- Opened again, the store holds some of the writes from the first on, and they are kept. -/
theorem reopened (h : m.Rests writes n s) :
    ∃ k, n ≤ k ∧ m.Holds (writes.take k) (writes.take k).length (store.reopened s) := by
  obtain ⟨hcurrent, hsurvivors⟩ := m.reopen s.store
  obtain ⟨k, hk, hshows⟩ := h.keeps hcurrent
  refine ⟨k, hk, ⟨fun c hc => ?_, le_rfl, ?_, ?_⟩, hshows⟩
  · rw [Set.mem_singleton_iff.mp (hsurvivors hc), hshows]
    exact mem_kept_all le_rfl
  · rw [List.take_length]
    exact h.confirmed_of_le hk
  · exact (List.take_sublist _ _).trans h.requested

end Rests

variable (m writes n w) in
/-- What a store holds after a write with a commit. -/
def HoldsAfter (s : Recorded τ ω) : Option (Persisted ε ρ) → Prop
  | none => m.Rests (writes ++ [w]) n s
  | some (.refused _) => m.Holds writes n s
  | some (.uncommitted _) => m.Holds (writes ++ [w]) n s
  | some (.committed _) => m.Holds (writes ++ [w]) (writes ++ [w]).length s

theorem persist_committed {s s' : Recorded τ ω} {r : ρ}
    (h : store.persist w s = (some (.committed r), s')) :
    ∀ c ∈ m.survivors s'.store, c = apply (m.current s.store) w := by
  unfold Store.persist at h
  rcases hwrite : store.write w s.store with ⟨_ | e | ⟨⟨⟩⟩, t⟩ <;> rw [hwrite] at h
  · cases h
  · cases h
  dsimp only at h
  rcases hcommit : store.commit t with ⟨_ | e | r', t'⟩ <;> rw [hcommit] at h <;> cases h
  intro c hc
  rw [← (m.write_ok hwrite).1]
  exact Set.mem_singleton_iff.mp ((m.commit_ok hcommit).2 hc)

theorem holdsAfter_persist {s : Recorded τ ω} (h : m.Holds writes n s) :
    m.HoldsAfter writes n w (store.persist w s).2 (store.persist w s).1 := by
  have hnext : apply (m.current s.store) w = m.after (writes ++ [w]) := by
    rw [after_append, h.shows]
  unfold Store.persist
  rcases hwrite : store.write w s.store with ⟨_ | e | ⟨⟨⟩⟩, t⟩ <;> dsimp only
  · refine h.append ?_
    rw [← hnext]
    exact m.write_gone hwrite
  · obtain ⟨hcurrent, hsurvivors⟩ := m.write_error hwrite
    exact ⟨h.ask hsurvivors, hcurrent.trans h.shows⟩
  obtain ⟨hcurrent, hsurvivors⟩ := m.write_ok hwrite
  have hwritten := hcurrent.trans hnext
  -- A commit that is not confirmed may keep the write, or leave it as unsure as it was.
  have hunsure {t' : τ} (ht' : m.survivors t' ⊆ insert (m.current t) (m.survivors t)) :
      m.survivors t' ⊆ insert (m.after (writes ++ [w])) (m.survivors s.store) := by
    rw [← hwritten]
    exact ht'.trans (Set.insert_subset (Set.mem_insert _ _) hsurvivors)
  rcases hcommit : store.commit t with ⟨_ | e | r, t'⟩ <;> dsimp only
  · exact h.append (hunsure (m.commit_gone hcommit))
  · obtain ⟨hsame, hkept⟩ := m.commit_error hcommit
    exact ⟨h.append (hunsure hkept), hsame.trans hwritten⟩
  · obtain ⟨hsame, hkept⟩ := m.commit_ok hcommit
    refine ⟨⟨fun c hc => ?_, le_rfl, ?_, h.requested.append (List.Sublist.refl [w])⟩,
      hsame.trans hwritten⟩
    · rw [Set.mem_singleton_iff.mp (hkept hc), hwritten]
      exact mem_kept_all le_rfl
    · rw [List.take_length]
      exact (h.confirmed.trans (List.take_sublist _ _)).append (List.Sublist.refl [w])

end Semantics

end Durable
