import Mathlib

/-! Lists sorted by a key that no two of their entries share. -/

namespace Sorting

open Std

variable {α κ : Type} [Ord κ]

def sortOn (key : α → κ) (l : List α) : List α :=
  l.mergeSort fun a b => (compare (key a) (key b)).isLE

/-- The keys are strictly increasing. -/
def Increasing (key : α → κ) (l : List α) : Prop :=
  l.Pairwise fun a b => compare (key a) (key b) = .lt

theorem sortOn_perm (key : α → κ) (l : List α) : (sortOn key l).Perm l := List.mergeSort_perm _ _

variable [TransOrd κ] [LawfulEqOrd κ] {key : α → κ} {l l' : List α}

theorem sortOn_increasing (h : (l.map key).Nodup) : Increasing key (sortOn key l) := by
  have hle : (sortOn key l).Pairwise fun a b => (compare (key a) (key b)).isLE = true := by
    refine List.pairwise_mergeSort (fun a b c hab hbc => ?_) (fun a b => ?_) _
    · exact TransCmp.isLE_trans hab hbc
    · have hswap : compare (key b) (key a) = (compare (key a) (key b)).swap := OrientedCmp.eq_swap
      rw [hswap]
      cases compare (key a) (key b) <;> rfl
  have hne : (sortOn key l).Pairwise fun a b => key a ≠ key b :=
    ((sortOn_perm key l).pairwise_iff fun h => h.symm).mpr (List.pairwise_map.mp h)
  refine (hle.and hne).imp ?_
  rintro a b ⟨hle, hne⟩
  cases hcmp : compare (key a) (key b) with
  | lt => rfl
  | eq => exact (hne (LawfulEqCmp.eq_of_compare hcmp)).elim
  | gt => simp [hcmp] at hle

omit [LawfulEqOrd κ] in
theorem Increasing.eq_of_perm (h : Increasing key l) (h' : Increasing key l') (hperm : l.Perm l') :
    l = l' := by
  refine List.Perm.eq_of_pairwise ?_ h h' hperm
  intro a b _ _ hab hba
  cases hab.symm.trans (OrientedCmp.gt_of_lt hba)

theorem sortOn_eq_of_perm (h : (l.map key).Nodup) (hperm : l.Perm l') :
    sortOn key l = sortOn key l' := by
  refine (sortOn_increasing h).eq_of_perm (sortOn_increasing ((hperm.map key).nodup_iff.mp h)) ?_
  exact (sortOn_perm key l).trans (hperm.trans (sortOn_perm key l').symm)

omit [TransOrd κ] [LawfulEqOrd κ] in
theorem Increasing.sortOn_eq (h : Increasing key l) : sortOn key l = l :=
  List.mergeSort_of_pairwise (h.imp fun hlt => by simp [hlt])

end Sorting
