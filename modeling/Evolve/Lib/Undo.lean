import Mathlib

/-! Undo logs.  A log lists the changes made to a value, the newest first, and each change can be
reverted; popping the log back to an earlier length brings back the value of that time. -/

namespace Undo

variable {E M : Type} (revert : E → M → M)

/-- Reverting the changes of `log`, the newest first, turns `m'` into `m`. -/
def Undoes (log : List E) (m' m : M) : Prop := log.foldl (fun x e => revert e x) m' = m

variable {revert}

theorem Undoes.nil (m : M) : Undoes revert [] m m := rfl

theorem Undoes.single {e : E} {m' m : M} (h : revert e m' = m) : Undoes revert [e] m' m := h

theorem Undoes.append {older newer : List E} {m₀ m₁ m₂ : M} (h₁ : Undoes revert older m₁ m₀)
    (h₂ : Undoes revert newer m₂ m₁) : Undoes revert (newer ++ older) m₂ m₀ := by
  unfold Undoes at *
  rw [List.foldl_append, h₂, h₁]

variable (revert)

def popTo (n : Nat) : List E → M → List E × M
  | [], m => ([], m)
  | e :: log, m => if n < (e :: log).length then popTo n log (revert e m) else (e :: log, m)

variable {revert}

theorem popTo_length (log : List E) (m : M) : popTo revert log.length log m = (log, m) := by
  cases log with
  | nil => rfl
  | cons e log => simp [popTo]

/-- Popping to the length of an earlier log brings back that log and its value. -/
theorem popTo_append {log : List E} {m' m : M} (h : Undoes revert log m' m) (base : List E) :
    popTo revert base.length (log ++ base) m' = (base, m) := by
  induction log generalizing m' with
  | nil =>
    cases h
    exact popTo_length base m'
  | cons e log ih =>
    have hlt : base.length < (e :: (log ++ base)).length := by
      simp only [List.length_cons, List.length_append]
      omega
    rw [List.cons_append, popTo, if_pos hlt]
    exact ih h

end Undo
