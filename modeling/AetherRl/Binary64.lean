import Mathlib.Data.Int.Log
import Mathlib.Data.Rat.Floor
/-!
# Binary64 — sums of double-precision numbers

A number of the format is a multiple of its last place, with 53 bits from the leading one to it.  A sum is the number
of the format nearest to the exact sum, and of two equally near the even one.  Sums from `2 ^ 1024` on, which the format
holds as infinite, are left as if it went on.
-/
namespace Binary64

/-- The exponent of the last place: 52 places after the leading bit, or the least one of the subnormal numbers. -/
def lastPlace (x : ℚ) : ℤ := max (Int.log 2 |x| - 52) (-1074)

/-- The nearest integer, of two the even one. -/
def nearestEven (x : ℚ) : ℤ :=
  if x - ⌊x⌋ < 1 / 2 then ⌊x⌋ else if 1 / 2 < x - ⌊x⌋ then ⌊x⌋ + 1 else ⌊x⌋ + ⌊x⌋ % 2

def round (x : ℚ) : ℚ := nearestEven (x / 2 ^ lastPlace x) * 2 ^ lastPlace x

def add (x y : ℚ) : ℚ := round (x + y)

/-- `0.1 + 0.2` is not `0.3`. -/
example : add (round (1 / 10)) (round (2 / 10)) = round (3 / 10) + 1 / 2 ^ 54 := by decide +kernel

end Binary64
