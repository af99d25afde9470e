import Stencil.Number.Binary

/-!
# The shortest decimal that reads back

Of the decimals that round to a float, the ones with the fewest digits, and of those the nearest to
it; of two equally near ones the larger. A decimal rounds to the float when it lies between the
midpoints to the neighbouring floats, the midpoints themselves included when the mantissa is even.

The search goes over the decimal grids of one, two and more digits. On each grid only the value's
two neighbours can be the answer, and on the grid of seventeen digits one of them always is.
-/

namespace Stencil.Number

/-- A decimal `digits * 10 ^ exponent`. -/
structure Decimal where
  digits : Nat
  exponent : Int
  deriving DecidableEq, Repr

/-- The number of digits in base ten. -/
def digitCount (n : Nat) : Nat := (Nat.toDigits 10 n).length

/-- How many digits the positive fraction `num / den` has before the point; less than one where
the fraction is below one, by the number of zeros that follow the point. Of a fraction below one
the whole number just under its reciprocal has one digit more than there are such zeros. -/
def pointPosition (num den : Nat) : Int :=
  if den ≤ num then digitCount (num / den) else 1 - digitCount ((den - 1) / num)

/-- Two to the power of 52, the least mantissa of 53 bits. Below it the floats lie closer. -/
def leastNormal : Nat := 0x10000000000000

/-- The bounds of the reals that round to `mantissa * 2 ^ exponent`, and that value, all three as
quarters of the last place. -/
def roundingQuarters (mantissa : Nat) (exponent : Int) : Nat × Nat × Nat :=
  let below := if mantissa = leastNormal ∧ -1074 < exponent then 1 else 2
  (4 * mantissa - below, 4 * mantissa, 4 * mantissa + 2)

/-- Looks for the shortest decimal on the grids of `count` and more digits, `steps` of them. The
quarters are multiples of `unit / den`, and the value has `point` digits before the point. -/
def shortestFrom (quarters : Nat × Nat × Nat) (unit den : Nat) (inclusive : Bool) (point : Int) :
    Nat → Nat → Decimal
  | 0, count => ⟨quarters.2.1 * unit / den, point - count⟩
  | steps + 1, count =>
      let place := point - count
      -- A grid point `a * 10 ^ place` is compared with `q * unit / den` as whole numbers.
      let left := Nat.pow 10 place.toNat * den
      let right := unit * Nat.pow 10 (-place).toNat
      let (low, value, high) := quarters
      let inside (a : Nat) : Bool :=
        if inclusive then low * right ≤ a * left && a * left ≤ high * right
        else low * right < a * left && a * left < high * right
      let floor := value * right / left
      let nearerAbove := 2 * (value * right - floor * left) ≥ left
      if inside floor && inside (floor + 1) then ⟨if nearerAbove then floor + 1 else floor, place⟩
      else if inside floor then ⟨floor, place⟩
      else if inside (floor + 1) then ⟨floor + 1, place⟩
      else shortestFrom quarters unit den inclusive point steps (count + 1)

/-- The shortest decimal that rounds to the positive float `mantissa * 2 ^ exponent`. -/
def shortest (mantissa : Nat) (exponent : Int) : Decimal :=
  let quarterExponent := exponent - 2
  let unit := Nat.pow 2 quarterExponent.toNat
  let den := Nat.pow 2 (-quarterExponent).toNat
  let quarters := roundingQuarters mantissa exponent
  shortestFrom quarters unit den (mantissa % 2 = 0) (pointPosition (quarters.2.1 * unit) den) 17 1

end Stencil.Number
