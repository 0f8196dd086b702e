import Mathlib
import Evolve.Core
import Evolve.Lib.FixedPoint

/-! `UQ64x64`, fixed-point numbers with 64 bits before and after the point, and their divisions.
The divisions check the divisor for zero and nothing else. -/

namespace Evolve

open Machine FixedPoint

def errDivisionByZero : ErrorCode := defineError 0x1

@[ext] structure UQ64x64 where
  bits : U128
deriving DecidableEq

namespace UQ64x64

def value (x : UQ64x64) : ℚ := FixedPoint.value 64 x.bits

/-! ### Divisions

`none` stands for a panic. -/

variable (mode : Overflow)

def fromFraction (numerator denominator : UInt64) : Option (SdkResult UQ64x64) := do
  if denominator = 0 then return .error errDivisionByZero
  let num ← fromNum 64 mode numerator.toNat
  let den ← fromNum 64 mode denominator.toNat
  return .ok ⟨← div 64 mode num den⟩

def checkedDiv (a rhs : UQ64x64) : Option (SdkResult UQ64x64) := do
  if rhs.bits = (← fromNum 64 mode 0) then return .error errDivisionByZero
  return .ok ⟨← div 64 mode a.bits rhs.bits⟩

def checkedDivFromU128 (value : U128) (divisor : UQ64x64) : Option (SdkResult UQ64x64) := do
  if divisor.bits = (← fromNum 64 mode 0) then return .error errDivisionByZero
  return .ok ⟨← div 64 mode (← fromNum 64 mode value.toNat) divisor.bits⟩

def checkedDivU128 (a : UQ64x64) (rhs : U128) : Option (SdkResult UQ64x64) := do
  if rhs = 0 then return .error errDivisionByZero
  return .ok ⟨← div 64 mode a.bits (← fromNum 64 mode rhs.toNat)⟩

/-! ### Exact results -/

/-- The function returns, either an error or the quotient rounded down to 64 fractional bits. -/
def Exact (result : Option (SdkResult UQ64x64)) (x y : ℚ) : Prop :=
  ∃ r, result = some r ∧ ∀ q, r = .ok q → q.bits.toNat = ⌊x / y * 2 ^ 64⌋₊

theorem exact_error (e : ErrorCode) (x y : ℚ) : Exact (some (.error e)) x y :=
  ⟨_, rfl, fun _ h => nomatch h⟩

theorem exact_div_iff {a b : U128} (hb : b ≠ 0#128) :
    (∀ mode, Exact ((div 64 mode a b).map fun q => .ok ⟨q⟩) (FixedPoint.value 64 a)
      (FixedPoint.value 64 b)) ↔ a.toNat < 2 ^ 64 * b.toNat := by
  have hpos : 0 < b.toNat := Nat.pos_of_ne_zero fun h => hb (BitVec.toNat_inj.mp h)
  have hfits : a.toNat * 2 ^ 64 / b.toNat < 2 ^ 128 ↔ a.toNat < 2 ^ 64 * b.toNat := by
    rw [Nat.div_lt_iff_lt_mul hpos]
    omega
  rw [← hfits, ← fit_exact_iff]
  refine forall_congr' fun mode => ?_
  unfold Exact
  rw [div, if_neg hb, floor_quotient]
  constructor
  · rintro ⟨r, hr, hvalue⟩
    obtain ⟨q, hq, rfl⟩ := Option.map_eq_some_iff.mp hr
    exact ⟨q, hq, hvalue ⟨q⟩ rfl⟩
  · rintro ⟨q, hq, hvalue⟩
    refine ⟨.ok ⟨q⟩, by rw [hq, Option.map_some], fun p hp => ?_⟩
    cases hp
    exact hvalue

theorem exact_div_value_iff {a b : U128} (hb : b ≠ 0#128) :
    (∀ mode, Exact ((div 64 mode a b).map fun q => .ok ⟨q⟩) (FixedPoint.value 64 a)
      (FixedPoint.value 64 b)) ↔
      FixedPoint.value 64 b = 0 ∨ FixedPoint.value 64 a < 2 ^ 64 * FixedPoint.value 64 b := by
  have hvalue : FixedPoint.value 64 a < 2 ^ 64 * FixedPoint.value 64 b ↔
      a.toNat < 2 ^ 64 * b.toNat := by
    exact_mod_cast value_lt_mul_iff (n := 2 ^ 64)
  have hne : FixedPoint.value 64 b ≠ 0 := fun h => hb (value_eq_zero_iff.mp h)
  rw [exact_div_iff hb, hvalue, or_iff_right hne]

theorem not_exact_none {x y : ℚ} : ¬Exact none x y := by
  rintro ⟨r, hr, -⟩
  cases hr

theorem exact_checkedDiv_iff (a rhs : UQ64x64) :
    (∀ mode, Exact (checkedDiv mode a rhs) a.value rhs.value) ↔
      rhs.value = 0 ∨ a.value < 2 ^ 64 * rhs.value := by
  by_cases hzero : rhs.bits = 0#128
  · have herror (mode : Overflow) : checkedDiv mode a rhs = some (.error errDivisionByZero) := by
      simp [checkedDiv, fromNum_zero, hzero]
    simp [herror, exact_error, value, value_eq_zero_iff, hzero]
  · have hdiv (mode : Overflow) :
        checkedDiv mode a rhs = (div 64 mode a.bits rhs.bits).map fun q => .ok ⟨q⟩ := by
      simp [checkedDiv, fromNum_zero, hzero, Option.map_eq_bind]
    simp only [hdiv]
    exact exact_div_value_iff hzero

theorem exact_checkedDivU128_iff (a : UQ64x64) (rhs : U128) :
    (∀ mode, Exact (checkedDivU128 mode a rhs) a.value rhs.toNat) ↔ rhs.toNat < 2 ^ 64 := by
  by_cases hzero : rhs = 0#128
  · have herror (mode : Overflow) :
        checkedDivU128 mode a rhs = some (.error errDivisionByZero) := by
      simp [checkedDivU128, hzero]
    have hsmall : rhs.toNat < 2 ^ 64 := by simp [hzero]
    simp only [herror, exact_error, hsmall, implies_true]
  by_cases hsmall : rhs.toNat < 2 ^ 64
  · obtain ⟨x, hx, hbits, hvalue⟩ := fromNum_of_lt (w := 128) (f := 64) (n := rhs.toNat) (by omega)
    have hdiv (mode : Overflow) :
        checkedDivU128 mode a rhs = (div 64 mode a.bits x).map fun q => .ok ⟨q⟩ := by
      simp [checkedDivU128, hx, hzero, Option.map_eq_bind]
    have hpos : 0 < rhs.toNat := Nat.pos_of_ne_zero fun h => hzero (BitVec.toNat_inj.mp h)
    have hne : x ≠ 0#128 := fun h => by simp [h] at hbits; omega
    have hfits : a.bits.toNat < 2 ^ 64 * x.toNat := by
      have ha := a.bits.isLt
      omega
    simp only [hdiv, hsmall, iff_true, ← hvalue]
    exact (exact_div_iff hne).mpr hfits
  · have hpanics : checkedDivU128 .panics a rhs = none := by
      simp [checkedDivU128, hzero, fromNum_panics (w := 128) (f := 64) (n := rhs.toNat) (by omega)]
    simp only [hsmall, iff_false]
    exact fun h => not_exact_none (hpanics ▸ h .panics)

theorem exact_checkedDivFromU128_iff (n : U128) (divisor : UQ64x64) :
    (∀ mode, Exact (checkedDivFromU128 mode n divisor) n.toNat divisor.value) ↔
      divisor.value = 0 ∨ (n.toNat < 2 ^ 64 ∧ n.toNat < 2 ^ 64 * divisor.value) := by
  by_cases hzero : divisor.bits = 0#128
  · have herror (mode : Overflow) :
        checkedDivFromU128 mode n divisor = some (.error errDivisionByZero) := by
      simp [checkedDivFromU128, fromNum_zero, hzero]
    simp [herror, exact_error, value, value_eq_zero_iff, hzero]
  by_cases hsmall : n.toNat < 2 ^ 64
  · obtain ⟨x, hx, hbits, hvalue⟩ := fromNum_of_lt (w := 128) (f := 64) (n := n.toNat) (by omega)
    have hdiv (mode : Overflow) : checkedDivFromU128 mode n divisor =
        (div 64 mode x divisor.bits).map fun q => .ok ⟨q⟩ := by
      simp [checkedDivFromU128, fromNum_zero, hx, hzero, Option.map_eq_bind]
    simp only [hdiv, hsmall, true_and, ← hvalue]
    exact exact_div_value_iff hzero
  · have hpanics : checkedDivFromU128 .panics n divisor = none := by
      simp [checkedDivFromU128, fromNum_zero, hzero,
        fromNum_panics (w := 128) (f := 64) (n := n.toNat) (by omega)]
    have hne : divisor.value ≠ 0 := fun h => hzero (value_eq_zero_iff.mp h)
    simp only [hsmall, hne, false_or, false_and, iff_false]
    exact fun h => not_exact_none (hpanics ▸ h .panics)

theorem exact_fromFraction (numerator denominator : UInt64) :
    Exact (fromFraction mode numerator denominator) numerator.toNat denominator.toNat := by
  by_cases hzero : denominator = 0
  · have herror : fromFraction mode numerator denominator = some (.error errDivisionByZero) := by
      simp [fromFraction, hzero]
    rw [herror]
    exact exact_error _ _ _
  have hnum := numerator.toNat_lt
  have hden := denominator.toNat_lt
  have hpos : 0 < denominator.toNat := Nat.pos_of_ne_zero fun h => hzero (UInt64.toNat_inj.mp h)
  obtain ⟨x, hx, hxbits, hxvalue⟩ :=
    fromNum_of_lt (w := 128) (f := 64) (n := numerator.toNat) (by omega)
  obtain ⟨y, hy, hybits, hyvalue⟩ :=
    fromNum_of_lt (w := 128) (f := 64) (n := denominator.toNat) (by omega)
  have hdiv : fromFraction mode numerator denominator =
      (div 64 mode x y).map fun q => .ok ⟨q⟩ := by
    simp [fromFraction, hx, hy, hzero, Option.map_eq_bind]
  have hne : y ≠ 0#128 := fun h => by simp [h] at hybits; omega
  rw [hdiv, ← hxvalue, ← hyvalue]
  exact (exact_div_iff hne).mpr (by omega) mode

/-- For all operands, in every build a division returns an error or the exact quotient rounded down,
if and only if no operand and no quotient needs more than 64 bits before the point.  Fractions of
64-bit numbers are always exact. -/
theorem divisions_exact_iff (a b : UQ64x64) (n : U128) (numerator denominator : UInt64) :
    ((∀ mode, Exact (checkedDiv mode a b) a.value b.value) ↔
      b.value = 0 ∨ a.value < 2 ^ 64 * b.value) ∧
    ((∀ mode, Exact (checkedDivU128 mode a n) a.value n.toNat) ↔ n.toNat < 2 ^ 64) ∧
    ((∀ mode, Exact (checkedDivFromU128 mode n b) n.toNat b.value) ↔
      b.value = 0 ∨ (n.toNat < 2 ^ 64 ∧ n.toNat < 2 ^ 64 * b.value)) ∧
    (∀ mode, Exact (fromFraction mode numerator denominator) numerator.toNat denominator.toNat) :=
  ⟨exact_checkedDiv_iff a b, exact_checkedDivU128_iff a n, exact_checkedDivFromU128_iff n b,
    fun mode => exact_fromFraction mode numerator denominator⟩

/-- Divided by the smallest fraction, one panics or becomes zero; divided by `2 ^ 64`, it panics
in every build. -/
theorem divisions_of_one :
    checkedDiv .panics ⟨1 <<< 64⟩ ⟨1⟩ = none ∧ checkedDiv .wraps ⟨1 <<< 64⟩ ⟨1⟩ = some (.ok ⟨0⟩) ∧
      checkedDivU128 .panics ⟨1 <<< 64⟩ (1 <<< 64) = none ∧
      checkedDivU128 .wraps ⟨1 <<< 64⟩ (1 <<< 64) = none ∧
      checkedDivFromU128 .wraps (1 <<< 64) ⟨1 <<< 64⟩ = some (.ok ⟨0⟩) := by
  decide

end UQ64x64

end Evolve
