/-
EpicsTcl.Library.Extended — numbers, and the infinite results of a division by
zero.

A quotient by zero is infinite, with the sign of the numerator; the quotient of
zero by zero is no number. Sums and products are those of formulas in which
infinite numbers of opposite sign are never added, and no infinite one is
multiplied by zero.
-/
import Mathlib.Algebra.Order.Field.Basic

namespace EpicsTcl.Library

/-- A number, or an infinite one. -/
inductive Extended (K : Type*) where
  | finite (x : K)
  | infinite (negative : Bool)
  deriving DecidableEq, Repr

namespace Extended

variable {K : Type*}

instance : Coe K (Extended K) := ⟨.finite⟩

variable [Field K]

/-- `x - y`. -/
def minus (x : K) : Extended K → Extended K
  | finite y => finite (x - y)
  | infinite negative => infinite !negative

def plus : Extended K → Extended K → Extended K
  | finite x, finite y => finite (x + y)
  | infinite negative, _ => infinite negative
  | _, infinite negative => infinite negative

variable [LinearOrder K]

def times : Extended K → Extended K → Extended K
  | finite x, finite y => finite (x * y)
  | finite x, infinite negative => infinite (decide (x < 0) != negative)
  | infinite negative, finite y => infinite (negative != decide (y < 0))
  | infinite negative, infinite negative' => infinite (negative != negative')

/-- A quotient, if there is one. -/
def quotient (x y : K) : Option (Extended K) :=
  if y ≠ 0 then some (finite (x / y))
  else if x ≠ 0 then some (infinite (decide (x < 0)))
  else none

variable {x y : K}

theorem quotient_of_ne (hy : y ≠ 0) (x : K) : quotient x y = some (finite (x / y)) := if_pos hy

@[simp] theorem quotient_zero_zero : quotient (0 : K) 0 = none := by simp [quotient]

theorem quotient_ne_none_iff : quotient x y ≠ none ↔ y ≠ 0 ∨ x ≠ 0 := by
  by_cases hy : y = 0
  · by_cases hx : x = 0 <;> simp [quotient, hx, hy]
  · simp [quotient, hy]

end Extended

end EpicsTcl.Library
