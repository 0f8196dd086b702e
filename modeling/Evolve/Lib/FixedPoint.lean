import Mathlib

/-! Unsigned fixed-point numbers: words of `w` bits, of which the last `f` are the fraction.
Quotients are truncated.  What happens with a result that does not fit depends on how the program
was built: it panics, or it goes on with the low bits. -/

namespace FixedPoint

inductive Overflow where
  | panics
  | wraps

variable {w f : Nat} {mode : Overflow}

/-- A result of any size as a word, or `none` for a panic. -/
def fit (w : Nat) (mode : Overflow) (n : Nat) : Option (BitVec w) :=
  if n < 2 ^ w then some (.ofNat w n)
  else
    match mode with
    | .panics => none
    | .wraps => some (.ofNat w n)

/-- A whole number. -/
def fromNum (f : Nat) (mode : Overflow) (n : Nat) : Option (BitVec w) := fit w mode (n * 2 ^ f)

/-- A quotient; division by zero panics in every build. -/
def div (f : Nat) (mode : Overflow) (a b : BitVec w) : Option (BitVec w) :=
  if b = 0#w then none else fit w mode (a.toNat * 2 ^ f / b.toNat)

/-- The number that a word stands for. -/
def value (f : Nat) (x : BitVec w) : ℚ := x.toNat / 2 ^ f

variable {n : Nat}

theorem fit_of_lt (h : n < 2 ^ w) : fit w mode n = some (.ofNat w n) := if_pos h

theorem fit_panics (h : ¬n < 2 ^ w) : fit w .panics n = none := if_neg h

theorem fit_exact_iff : (∀ mode, ∃ x, fit w mode n = some x ∧ x.toNat = n) ↔ n < 2 ^ w := by
  constructor
  · intro h
    by_contra hbig
    obtain ⟨x, hx, -⟩ := h .panics
    cases (fit_panics hbig).symm.trans hx
  · intro hsmall mode
    exact ⟨_, fit_of_lt hsmall, by rw [BitVec.toNat_ofNat, Nat.mod_eq_of_lt hsmall]⟩

theorem fromNum_zero : fromNum f mode 0 = some 0#w := by
  rw [fromNum, Nat.zero_mul]
  exact fit_of_lt (Nat.two_pow_pos w)

theorem fromNum_of_lt (h : n * 2 ^ f < 2 ^ w) : ∃ x : BitVec w,
    (∀ mode, fromNum f mode n = some x) ∧ x.toNat = n * 2 ^ f ∧ value f x = n := by
  have hbits : (BitVec.ofNat w (n * 2 ^ f)).toNat = n * 2 ^ f := by
    rw [BitVec.toNat_ofNat, Nat.mod_eq_of_lt h]
  refine ⟨.ofNat w (n * 2 ^ f), fun mode => fit_of_lt h, hbits, ?_⟩
  rw [value, hbits, Nat.cast_mul, Nat.cast_pow, Nat.cast_ofNat, mul_div_cancel_right₀]
  positivity

theorem fromNum_panics (h : ¬n * 2 ^ f < 2 ^ w) :
    fromNum f .panics n = (none : Option (BitVec w)) := fit_panics h

theorem value_eq_zero_iff {x : BitVec w} : value f x = 0 ↔ x = 0#w := by
  simp [value, ← BitVec.toNat_inj]

theorem value_lt_mul_iff {a b : BitVec w} : value f a < n * value f b ↔ a.toNat < n * b.toNat := by
  have hscale : (n : ℚ) * value f b = ((n * b.toNat : Nat) : ℚ) / 2 ^ f := by
    rw [value, Nat.cast_mul, mul_div_assoc]
  rw [hscale, value, div_lt_div_iff_of_pos_right (by positivity), Nat.cast_lt]

/-- The quotient of two numbers, rounded down to `f` fractional bits. -/
theorem floor_quotient (a b : BitVec w) :
    ⌊value f a / value f b * 2 ^ f⌋₊ = a.toNat * 2 ^ f / b.toNat := by
  have hquotient : value f a / value f b * 2 ^ f =
      ((a.toNat * 2 ^ f : Nat) : ℚ) / (b.toNat : ℚ) := by
    rw [value, value, div_div_div_cancel_right₀ (by positivity), div_mul_eq_mul_div]
    push_cast
    rfl
  rw [hquotient, Nat.floor_div_eq_div]

end FixedPoint
