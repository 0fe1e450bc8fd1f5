/-
EpicsTcl.Library.Decimal — rounding, to an integer and to decimal digits.

`towardZero` drops the digits after the decimal point. A `Rounding` chooses a
nearest integer; roundings differ in halves only, `halfAway` takes them away
from zero. `significant` keeps a digit before the
decimal point and some after it, as scientific notation does; what it loses is
less than a digit, so the leading power of ten stays (`pow_log_le_significant`).
-/
import Mathlib.Algebra.Order.Field.Basic
import Mathlib.Algebra.Order.Floor.Ring
import Mathlib.Data.Int.Log
import Mathlib.Data.Rat.Floor
import Mathlib.Tactic.Linarith
import Mathlib.Tactic.NormNum

namespace EpicsTcl.Library

/-- A choice of a nearest integer. -/
structure Rounding (K : Type*) [Field K] [LinearOrder K] where
  nearest : K → Int
  near : ∀ x, |(nearest x : K) - x| ≤ 1 / 2

section Integers

variable {K : Type*} [Field K] [LinearOrder K] [FloorRing K]

/-- The integer part. -/
def towardZero (x : K) : Int := if x < 0 then ⌈x⌉ else ⌊x⌋

/-- The nearest integer, halves away from zero. -/
def halfAway (x : K) : Int :=
  if x < 0 then -⌊-x + 1 / (2 : ℕ)⌋ else ⌊x + 1 / (2 : ℕ)⌋

variable [IsStrictOrderedRing K]

theorem halfAway_near (x : K) : |(halfAway x : K) - x| ≤ 1 / 2 := by
  unfold halfAway
  split
  · have hlow := Int.floor_le (-x + 1 / 2)
    have hhigh := Int.lt_floor_add_one (-x + 1 / 2)
    rw [abs_le]
    push_cast
    constructor <;> linarith
  · have hlow := Int.floor_le (x + 1 / 2)
    have hhigh := Int.lt_floor_add_one (x + 1 / 2)
    rw [abs_le]
    constructor <;> linarith

/-- Which numbers are rounded to `k`. -/
theorem halfAway_eq_iff {x : K} (hx : 0 ≤ x) (k : Int) :
    halfAway x = k ↔ (k : K) - 1 / 2 ≤ x ∧ x < k + 1 / 2 := by
  rw [halfAway, if_neg (not_lt.mpr hx), Int.floor_eq_iff]
  constructor
  · rintro ⟨hlow, hhigh⟩
    constructor <;> linarith
  · rintro ⟨hlow, hhigh⟩
    constructor <;> linarith

def Rounding.away : Rounding K := ⟨halfAway, halfAway_near⟩

end Integers

namespace Rounding

variable {K : Type*} [Field K] [LinearOrder K] [FloorRing K] [IsStrictOrderedRing K]

/-- Rounded to so many digits after the first one. -/
def significant (R : Rounding K) (digits : Nat) (x : K) : K :=
  R.nearest (x / (10 : ℕ) ^ (Int.log 10 |x| - digits)) * (10 : ℕ) ^ (Int.log 10 |x| - digits)

example : (away (K := ℚ)).significant 2 (2996 / 1000000) = 3 / 1000 ∧
    (away (K := ℚ)).significant 2 (9996 / 1000) = 10 := by decide +kernel

/-- What is not below an integer is not rounded below it. -/
theorem le_nearest (R : Rounding K) {x : K} {k : Int} (h : (k : K) ≤ x) : k ≤ R.nearest x := by
  have hnear := (abs_le.mp (R.near x)).1
  have hless : (k : K) < R.nearest x + 1 := by linarith
  exact Int.le_of_lt_add_one (by exact_mod_cast hless)

/-- The first digit does not become less. -/
theorem pow_log_le_significant (R : Rounding K) (digits : Nat) {x : K} (hx : 0 < x) :
    (10 : K) ^ Int.log 10 x ≤ R.significant digits x := by
  have hquantum : (0 : K) < 10 ^ (Int.log 10 x - digits) := zpow_pos (by norm_num) _
  have hsplit : ((10 ^ digits : Int) : K) * 10 ^ (Int.log 10 x - digits) = 10 ^ Int.log 10 x := by
    rw [Int.cast_pow, Int.cast_ofNat, ← zpow_natCast, ← zpow_add₀ (by norm_num)]
    congr 1
    omega
  have hlog : (10 : K) ^ Int.log 10 x ≤ x := by
    exact_mod_cast Int.zpow_log_le_self (by norm_num) hx
  have hle : ((10 ^ digits : Int) : K) ≤ x / 10 ^ (Int.log 10 x - digits) := by
    rwa [le_div_iff₀ hquantum, hsplit]
  have hnearest : ((10 ^ digits : Int) : K) ≤ R.nearest (x / 10 ^ (Int.log 10 x - digits)) := by
    exact_mod_cast R.le_nearest hle
  rw [significant, abs_of_pos hx, ← hsplit]
  exact mul_le_mul_of_nonneg_right hnearest hquantum.le

end Rounding

end EpicsTcl.Library
