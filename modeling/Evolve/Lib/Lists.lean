import Mathlib

/-! Lists: sublists and entries that are determined by an image of theirs, positions, loops over
positions, and lists of entries that are looked up by their keys. -/

namespace Lists

variable {α β : Type}

theorem headD_mem {l : List α} (h : l ≠ []) (default : α) : l.headD default ∈ l := by
  cases l with
  | nil => exact absurd rfl h
  | cons a l => exact List.mem_cons_self ..

/-! ### Entries that are determined by an image -/

theorem eq_of_same_images {f : α → β} {l l₁ l₂ : List α} (hdistinct : (l.map f).Nodup)
    (h₁ : l₁.Sublist l) (h₂ : l₂.Sublist l) (hsame : ∀ b, b ∈ l₁.map f ↔ b ∈ l₂.map f) :
    l₁ = l₂ := by
  have hsubset : ∀ {k k' : List α}, k.Sublist l → k'.Sublist l →
      (∀ b, b ∈ k.map f → b ∈ k'.map f) → ∀ a ∈ k, a ∈ k' := by
    intro k k' hk hk' himages a ha
    obtain ⟨a', ha', heq⟩ := List.mem_map.mp (himages _ (List.mem_map_of_mem ha))
    rwa [List.inj_on_of_nodup_map hdistinct (hk'.subset ha') (hk.subset ha) heq] at ha'
  have hnodup := List.Nodup.of_map f hdistinct
  refine (hnodup.perm_iff_eq_of_sublist h₁ h₂).mp ?_
  refine (List.perm_ext_iff_of_nodup (hnodup.sublist h₁) (hnodup.sublist h₂)).mpr fun a => ?_
  exact ⟨hsubset h₁ h₂ (fun b => (hsame b).mp) a, hsubset h₂ h₁ (fun b => (hsame b).mpr) a⟩

theorem filter_eq_singleton [DecidableEq β] {f : α → β} {l : List α} {a : α}
    (hdistinct : (l.map f).Nodup) (hmem : a ∈ l) : (l.filter fun b => f b = f a) = [a] := by
  induction l with
  | nil => cases hmem
  | cons b l ih =>
    obtain ⟨hnew, hdistinct⟩ := List.nodup_cons.mp hdistinct
    rcases List.mem_cons.mp hmem with rfl | hmem
    · rw [List.filter_cons_of_pos (by simp), List.filter_eq_nil_iff.mpr]
      intro b hb hsame
      exact hnew (of_decide_eq_true hsame ▸ List.mem_map_of_mem hb)
    · have hne : f b ≠ f a := fun hsame => hnew (hsame ▸ List.mem_map_of_mem hmem)
      rw [List.filter_cons_of_neg (by simpa using hne), ih hdistinct hmem]

/-! ### Positions -/

theorem pairwise_zipIdx (l : List α) (k : Nat) :
    (l.zipIdx k).Pairwise fun a b => a.2 < b.2 := by
  have hrange : ((l.zipIdx k).map Prod.snd).Pairwise (· < ·) := by
    rw [List.zipIdx_map_snd]
    exact List.pairwise_lt_range'
  exact List.pairwise_map.mp hrange

theorem perm_eraseIdx {l : List α} {i : Nat} {a : α} (h : l[i]? = some a) :
    l.Perm (a :: l.eraseIdx i) := by
  obtain ⟨hi, rfl⟩ := List.getElem?_eq_some_iff.mp h
  exact (List.getElem_cons_eraseIdx_perm hi).symm

/-- A loop over positions that stops at the first failed check succeeds if none fails. -/
theorem loop_iff {loop : Nat → List α → Bool} {Check : Nat → α → Prop}
    (hnil : ∀ i, loop i [] = true)
    (hcons : ∀ i a l, loop i (a :: l) = true ↔ Check i a ∧ loop (i + 1) l = true) (i : Nat)
    (l : List α) :
    loop i l = true ↔ ∀ (j : Nat) (a : α), l[j]? = some a → Check (i + j) a := by
  induction l generalizing i with
  | nil => simp [hnil]
  | cons first rest ih =>
    rw [hcons, ih]
    constructor
    · rintro ⟨hfirst, hrest⟩ j a hj
      cases j with
      | zero =>
        cases hj
        exact hfirst
      | succ j =>
        rw [show i + (j + 1) = i + 1 + j by omega]
        exact hrest j a hj
    · intro h
      refine ⟨h 0 first rfl, fun j a hj => ?_⟩
      rw [show i + 1 + j = i + (j + 1) by omega]
      exact h (j + 1) a hj

/-! ### Entries under keys -/

variable [BEq α] [LawfulBEq α] {k k' : α} {entries : List (α × β)}

theorem lookup_cons_of_ne (hne : k' ≠ k) (v : β) :
    ((k, v) :: entries).lookup k' = entries.lookup k' := by
  rw [List.lookup_cons, beq_false_of_ne hne]

theorem lookup_filter_ne [DecidableEq α] :
    (entries.filter (·.1 ≠ k)).lookup k' = if k' = k then none else entries.lookup k' := by
  induction entries with
  | nil => simp
  | cons entry entries ih =>
    obtain ⟨k₁, v₁⟩ := entry
    by_cases hk : k₁ = k
    · subst hk
      rw [List.filter_cons_of_neg (by simp), ih]
      split
      · rfl
      · rename_i hne
        rw [lookup_cons_of_ne hne]
    · rw [List.filter_cons_of_pos (by simpa using hk), List.lookup_cons, ih, List.lookup_cons]
      by_cases hk' : k' = k₁
      · subst hk'
        simp [hk]
      · rw [beq_false_of_ne hk']

omit [LawfulBEq α] in
theorem lookup_of_lookup_take {n : Nat} {v : β} (h : (entries.take n).lookup k = some v) :
    entries.lookup k = some v := by
  induction entries generalizing n with
  | nil => simp at h
  | cons entry entries ih =>
    cases n with
    | zero => simp at h
    | succ n =>
      obtain ⟨k₁, v₁⟩ := entry
      rw [List.take_succ_cons, List.lookup_cons] at h
      rw [List.lookup_cons]
      split at h
      · exact h
      · exact ih h

end Lists
