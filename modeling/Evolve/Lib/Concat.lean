import Mathlib
import Evolve.Lib.Machine

/-! Concatenated code words.  A code is delimited if a word at the start of a sequence can be read
whatever follows it; then a concatenation of words determines the words. -/

namespace Concat

open Machine

variable {α β σ : Type}

/-- Where `P` holds, a word at the start of a sequence determines what it stands for and what
follows it. -/
def Delimited (P : α → Prop) (code : α → List σ) : Prop :=
  ∀ ⦃a b⦄ ⦃r s : List σ⦄, P a → P b → code a ++ r = code b ++ s → a = b ∧ r = s

theorem delimited_of_length {P : α → Prop} {code : α → List σ} {n : Nat}
    (hlength : ∀ a, P a → (code a).length = n)
    (hinjective : ∀ a b, P a → P b → code a = code b → a = b) : Delimited P code := by
  intro a b r s ha hb h
  obtain ⟨hcode, hrest⟩ := List.append_inj h ((hlength a ha).trans (hlength b hb).symm)
  exact ⟨hinjective a b ha hb hcode, hrest⟩

theorem Delimited.append {P : α → Prop} {Q : β → Prop} {code : α → List σ} {code' : β → List σ}
    (h : Delimited P code) (h' : Delimited Q code') :
    Delimited (fun p : α × β => P p.1 ∧ Q p.2) fun p => code p.1 ++ code' p.2 := by
  rintro ⟨a, b⟩ ⟨a', b'⟩ r s ⟨ha, hb⟩ ⟨ha', hb'⟩ heq
  simp only [List.append_assoc] at heq
  obtain ⟨hfirst, hrest⟩ := h ha ha' heq
  obtain ⟨hsecond, hfollowing⟩ := h' hb hb' hrest
  exact ⟨Prod.ext hfirst hsecond, hfollowing⟩

theorem Delimited.flatMap_inj {P : α → Prop} {code : α → List σ} (h : Delimited P code)
    (hne : ∀ a, P a → code a ≠ []) {l l' : List α} (hl : ∀ a ∈ l, P a) (hl' : ∀ a ∈ l', P a)
    (heq : l.flatMap code = l'.flatMap code) : l = l' := by
  induction l generalizing l' with
  | nil =>
    cases l' with
    | nil => rfl
    | cons b l' =>
      have hempty := List.append_eq_nil_iff.mp heq.symm
      exact absurd hempty.1 (hne b (hl' b (by simp)))
  | cons a l ih =>
    cases l' with
    | nil =>
      have hempty := List.append_eq_nil_iff.mp heq
      exact absurd hempty.1 (hne a (hl a (by simp)))
    | cons b l' =>
      rw [List.flatMap_cons, List.flatMap_cons] at heq
      obtain ⟨rfl, hrest⟩ := h (hl a (by simp)) (hl' b (by simp)) heq
      rw [ih (fun a ha => hl a (by simp [ha])) (fun a ha => hl' a (by simp [ha])) hrest]

theorem leBytes_inj {n x y : Nat} (hx : x < 256 ^ n) (hy : y < 256 ^ n)
    (h : leBytes n x = leBytes n y) : x = y := by
  have hvalue := congrArg leNat h
  rwa [leNat_leBytes, leNat_leBytes, Nat.mod_eq_of_lt hx, Nat.mod_eq_of_lt hy] at hvalue

/-- Bytes with their length in front of them. -/
def prefixed (n : Nat) (bytes : Bytes) : Bytes := leBytes n bytes.length ++ bytes

theorem delimited_prefixed (n : Nat) :
    Delimited (fun bytes : Bytes => bytes.length < 256 ^ n) (prefixed n) := by
  intro a b r s ha hb h
  simp only [prefixed, List.append_assoc] at h
  obtain ⟨hcount, hrest⟩ := List.append_inj h (by simp)
  exact List.append_inj hrest (leBytes_inj ha hb hcount)

end Concat
