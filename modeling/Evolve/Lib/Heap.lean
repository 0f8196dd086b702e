import Mathlib

/-! A priority queue, given by the entries that are in it.  What it gives out next is an entry with
the greatest key; which one, where several have that key, is left open. -/

namespace Heap

variable {α κ σ : Type} [LinearOrder κ] {key : α → κ}

structure Queue (α : Type) {κ : Type} [LinearOrder κ] (key : α → κ) where
  pop : List α → Option (α × List α)
  pop_nil : pop [] = none
  pop_cons : ∀ entry entries, ∃ top rest, pop (entry :: entries) = some (top, rest)
  perm : ∀ {entries top rest}, pop entries = some (top, rest) → entries.Perm (top :: rest)
  greatest : ∀ {entries top rest}, pop entries = some (top, rest) →
    ∀ entry ∈ entries, key entry ≤ key top

variable {rest entries : List α}

theorem eq_nil_of_pop (queue : Queue α key) (h : queue.pop entries = none) : entries = [] := by
  cases entries with
  | nil => rfl
  | cons entry entries =>
    obtain ⟨top, rest, hpop⟩ := queue.pop_cons entry entries
    cases hpop.symm.trans h

theorem length_of_pop (queue : Queue α key) {n : Nat} {top : α} (hn : entries.length ≤ n + 1)
    (h : queue.pop entries = some (top, rest)) : rest.length ≤ n := by
  have hlength := (queue.perm h).length_eq
  rw [List.length_cons] at hlength
  omega

/-! ### Taking entries out one after the other -/

/-- Gives entries to `visit` as long as `more` asks for one, at most `n` of them. -/
def sweep (queue : Queue α key) (more : σ → Bool) (visit : σ → α → σ) :
    Nat → List α → σ → List α × σ
  | 0, entries, s => (entries, s)
  | n + 1, entries, s =>
    if more s then
      match queue.pop entries with
      | none => (entries, s)
      | some (top, rest) => sweep queue more visit n rest (visit s top)
    else (entries, s)

variable (queue : Queue α key) (more : σ → Bool) (visit : σ → α → σ)

theorem sweep_visits (n : Nat) (entries : List α) (s : σ) :
    ∃ taken, entries.Perm (taken ++ (sweep queue more visit n entries s).1) ∧
      (sweep queue more visit n entries s).2 = taken.foldl visit s := by
  induction n generalizing entries s with
  | zero => exact ⟨[], .refl _, rfl⟩
  | succ n ih =>
    unfold sweep
    by_cases hmore : more s
    · rw [if_pos hmore]
      cases hpop : queue.pop entries with
      | none => exact ⟨[], .refl _, rfl⟩
      | some popped =>
        obtain ⟨top, rest⟩ := popped
        obtain ⟨taken, hperm, hvisits⟩ := ih rest (visit s top)
        exact ⟨top :: taken, (queue.perm hpop).trans (hperm.cons top), hvisits⟩
    · rw [if_neg hmore]
      exact ⟨[], .refl _, rfl⟩

variable {more} in
theorem sweep_all (hmore : ∀ s, more s = true) {n : Nat} (hn : entries.length ≤ n) (s : σ) :
    (sweep queue more visit n entries s).1 = [] := by
  induction n generalizing entries s with
  | zero => exact List.eq_nil_of_length_eq_zero (Nat.le_zero.mp hn)
  | succ n ih =>
    unfold sweep
    rw [if_pos (hmore s)]
    cases hpop : queue.pop entries with
    | none => exact eq_nil_of_pop queue hpop
    | some popped => exact ih (length_of_pop queue hn hpop) _

/-! ### The order in which entries leave -/

def drain (queue : Queue α key) : Nat → List α → List α
  | 0, _ => []
  | n + 1, entries =>
    match queue.pop entries with
    | none => []
    | some (top, rest) => top :: drain queue n rest

/-- The same as a sweep, over entries that are in order already. -/
def visitWhile (more : σ → Bool) (visit : σ → α → σ) : List α → σ → List α × σ
  | [], s => ([], s)
  | entry :: entries, s =>
    if more s then visitWhile more visit entries (visit s entry) else (entry :: entries, s)

theorem drain_perm {n : Nat} (hn : entries.length ≤ n) : (drain queue n entries).Perm entries := by
  induction n generalizing entries with
  | zero =>
    rw [List.eq_nil_of_length_eq_zero (Nat.le_zero.mp hn)]
    exact .refl _
  | succ n ih =>
    unfold drain
    cases hpop : queue.pop entries with
    | none =>
      rw [eq_nil_of_pop queue hpop]
    | some popped =>
      exact ((ih (length_of_pop queue hn hpop)).cons _).trans (queue.perm hpop).symm

theorem drain_sorted {n : Nat} (hn : entries.length ≤ n) :
    (drain queue n entries).Pairwise fun a b => key b ≤ key a := by
  induction n generalizing entries with
  | zero => exact .nil
  | succ n ih =>
    unfold drain
    cases hpop : queue.pop entries with
    | none => exact .nil
    | some popped =>
      have hrest := length_of_pop queue hn hpop
      refine .cons (fun entry hentry => queue.greatest hpop entry ?_) (ih hrest)
      refine (queue.perm hpop).mem_iff.mpr (List.mem_cons_of_mem _ ?_)
      exact (drain_perm queue hrest).mem_iff.mp hentry

/-- A sweep visits the entries in the order in which they leave. -/
theorem sweep_eq_visitWhile {n : Nat} (hn : entries.length ≤ n) (s : σ) :
    (sweep queue more visit n entries s).2 =
        (visitWhile more visit (drain queue n entries) s).2 ∧
      (sweep queue more visit n entries s).1.Perm
        (visitWhile more visit (drain queue n entries) s).1 := by
  induction n generalizing entries s with
  | zero =>
    rw [List.eq_nil_of_length_eq_zero (Nat.le_zero.mp hn)]
    exact ⟨rfl, .refl _⟩
  | succ n ih =>
    unfold sweep drain
    cases hpop : queue.pop entries with
    | none =>
      rw [eq_nil_of_pop queue hpop]
      split <;> exact ⟨rfl, .refl _⟩
    | some popped =>
      have hrest := length_of_pop queue hn hpop
      dsimp only
      unfold visitWhile
      by_cases hmore : more s
      · rw [if_pos hmore, if_pos hmore]
        exact ih hrest _
      · rw [if_neg hmore, if_neg hmore]
        exact ⟨rfl, (queue.perm hpop).trans ((drain_perm queue hrest).cons _).symm⟩

/-! ### A queue that can be run -/

/-- Takes out the first of the entries with the greatest key. -/
def popGreatest (key : α → κ) : List α → Option (α × List α)
  | [] => none
  | entry :: entries =>
    match popGreatest key entries with
    | none => some (entry, [])
    | some (top, rest) =>
      if key top ≤ key entry then some (entry, entries) else some (top, entry :: rest)

theorem popGreatest_spec {top : α} (h : popGreatest key entries = some (top, rest)) :
    entries.Perm (top :: rest) ∧ ∀ entry ∈ entries, key entry ≤ key top := by
  induction entries generalizing top rest with
  | nil => cases h
  | cons entry entries ih =>
    unfold popGreatest at h
    cases hpop : popGreatest key entries with
    | none =>
      have hnil : entries = [] := by
        cases entries with
        | nil => rfl
        | cons other entries =>
          unfold popGreatest at hpop
          split at hpop
          · cases hpop
          · split at hpop <;> cases hpop
      rw [hpop] at h
      cases h
      subst hnil
      exact ⟨.refl _, by simp⟩
    | some popped =>
      obtain ⟨best, others⟩ := popped
      obtain ⟨hperm, hgreatest⟩ := ih hpop
      rw [hpop] at h
      dsimp only at h
      split at h
      · rename_i hle
        cases h
        refine ⟨.refl _, List.forall_mem_cons.mpr ⟨le_refl _, fun other hother => ?_⟩⟩
        exact (hgreatest other hother).trans hle
      · rename_i hlt
        cases h
        refine ⟨(hperm.cons entry).trans (.swap _ _ _), ?_⟩
        exact List.forall_mem_cons.mpr ⟨(not_le.mp hlt).le, hgreatest⟩

variable (key) in
def greedyQueue : Queue α key where
  pop := popGreatest key
  pop_nil := rfl
  pop_cons entry entries := by
    unfold popGreatest
    cases popGreatest key entries with
    | none => exact ⟨entry, [], rfl⟩
    | some popped =>
      dsimp only
      split
      · exact ⟨_, _, rfl⟩
      · exact ⟨_, _, rfl⟩
  perm h := (popGreatest_spec h).1
  greatest h := (popGreatest_spec h).2

end Heap
