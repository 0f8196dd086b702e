import Mathlib

/-! What the parts of a run leave behind.  A part is given by its first and its last state.  A value
that does not change in the gaps between the parts is the same at the end of the run as at its start
exactly if the last part that changes it changes it back. -/

namespace Remains

variable {S V : Type} [DecidableEq V] (f : S → V)

/-- The value after some parts: what the last part that changed it changed it to. -/
def after : List (S × S) → V → V
  | [], v => v
  | part :: parts, v => after parts (if f part.2 = f part.1 then v else f part.2)

/-- The last of the parts that changes the value, if there is one, changes it back. -/
def Restored (s : S) (parts : List (S × S)) : Prop := after f parts (f s) = f s

instance (s : S) (parts : List (S × S)) : Decidable (Restored f s parts) :=
  inferInstanceAs (Decidable (_ = _))

/-- The parts lead from one state to another, up to gaps between them. -/
def Linked (gap : S → S → Prop) : S → List (S × S) → S → Prop
  | s, [], s' => gap s s'
  | s, part :: parts, s' => gap s part.1 ∧ Linked gap part.2 parts s'

variable {f} {gap : S → S → Prop} {s s' : S} {parts : List (S × S)}

omit [DecidableEq V] in
theorem Linked.concat {last : S} (h : Linked gap s parts s') (hlast : gap last last) :
    Linked gap s (parts ++ [(s', last)]) last := by
  induction parts generalizing s with
  | nil => exact ⟨h, hlast⟩
  | cons part parts ih => exact ⟨h.1, ih h.2⟩

variable (hgap : ∀ a b, gap a b → f b = f a)
include hgap

theorem Linked.after_eq (h : Linked gap s parts s') : after f parts (f s) = f s' := by
  induction parts generalizing s with
  | nil => exact (hgap _ _ h).symm
  | cons part parts ih =>
    obtain ⟨hstart, hrest⟩ := h
    rw [after, ← ih hrest, ← hgap _ _ hstart]
    by_cases hpart : f part.2 = f part.1
    · rw [if_pos hpart, hpart]
    · rw [if_neg hpart]

theorem Linked.restored_iff (h : Linked gap s parts s') : Restored f s parts ↔ f s' = f s := by
  rw [Restored, h.after_eq hgap]

end Remains
