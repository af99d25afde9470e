import Stencil.Number.Integer

/-!
# Finite floats as exact numbers

A finite float is a whole number times a power of two. `Scaled` is that exact value; rounding,
remainders and decimal texts are computed on it with whole numbers, and `Scaled.toFloat` rounds an
exact value to the nearest float, a tie going to the even neighbour.
-/

namespace Stencil.Number

/-- The exact number `mantissa * 2 ^ exponent`, with a sign that zero has too. -/
structure Scaled where
  negative : Bool
  mantissa : Nat
  exponent : Int
  deriving DecidableEq, Repr

/-- The exact value of a finite float. -/
def Scaled.ofFloat? (x : Float) : Option Scaled :=
  match x.toModel.unpack with
  | .finite sign mantissa exponent _ => some ⟨sign == .negative, mantissa, exponent⟩
  | .zero sign => some ⟨sign == .negative, 0, 0⟩
  | .infinity _ => none
  | .notANumber => none

/-- The float nearest to an exact value. The mantissa is widened to more digits than a float has, so
that rounding is all that is left to do. -/
def Scaled.toFloat (s : Scaled) : Float :=
  let sign : Float.Model.UnpackedFloat.Sign := if s.negative then .negative else .positive
  .ofModel <| .pack <|
    if s.mantissa = 0 then .zero sign
    else .roundWithAccuracy .binary64 sign (s.mantissa <<< 53) (s.exponent - 53) .exact

/-- The whole number nearest to `num / den`; a half goes to the even neighbour. -/
def roundDiv (num den : Nat) : Nat :=
  let quotient := num / den
  let twice := 2 * (num % den)
  if twice < den then quotient
  else if twice > den then quotient + 1
  else if quotient % 2 = 0 then quotient else quotient + 1

/-- The magnitude of an exact value as a fraction. -/
def Scaled.fraction (s : Scaled) : Nat × Nat :=
  if s.exponent < 0 then (s.mantissa, Nat.pow 2 s.exponent.natAbs)
  else (s.mantissa * Nat.pow 2 s.exponent.natAbs, 1)

/-- The whole part of a magnitude. -/
def Scaled.wholePart (s : Scaled) : Nat := s.fraction.1 / s.fraction.2

/-- The whole part with its sign. -/
def Scaled.truncate (s : Scaled) : Int :=
  if s.negative then -(s.wholePart : Int) else s.wholePart

/-- The nearest whole number as a float; a half goes to the even neighbour, and the sign stays even
where the result is zero. -/
def roundTiesEven (x : Float) : Float :=
  match Scaled.ofFloat? x with
  | none => x
  | some s => Scaled.toFloat ⟨s.negative, roundDiv s.fraction.1 s.fraction.2, 0⟩

/-- What is left of `x` after whole multiples of `y` are taken off, with the sign of `x`. -/
def remainder (x y : Float) : Float :=
  match Scaled.ofFloat? x, Scaled.ofFloat? y with
  | some a, some b =>
      if b.mantissa = 0 then 0 / 0
      else
        let low := min a.exponent b.exponent
        let left := a.mantissa * Nat.pow 2 (a.exponent - low).toNat
        let right := b.mantissa * Nat.pow 2 (b.exponent - low).toNat
        Scaled.toFloat ⟨a.negative, left % right, low⟩
  | some _, none => if y.isNaN then y else x
  | none, _ => 0 / 0

/-- The number nearest to `n` that has 64 bits. -/
def saturate (n : Int) : Int := max (-(int64Bound : Int)) (min (int64Bound - 1) n)

/-- The whole part of a float as an integer of 64 bits: the nearest one where it does not fit, and
zero for no number. -/
def truncateToInt64 (x : Float) : Int64 :=
  match Scaled.ofFloat? x with
  | some s => Int64.ofInt (saturate s.truncate)
  | none => if x.isNaN then 0 else if x < 0 then Int64.minValue else Int64.maxValue

/-- The power of a float by repeated squaring; a negative exponent takes the reciprocal last. -/
def powInt (base : Float) (exponent : Int) : Float :=
  let power := go (exponent.natAbs + 1) base exponent.natAbs 1
  if exponent < 0 then 1 / power else power
where
  /-- Multiplies the squares for the bits of `bits` that are set into `result`. -/
  go : Nat → Float → Nat → Float → Float
    | 0, _, _, result => result
    | steps + 1, square, bits, result =>
        let result := if bits % 2 = 1 then result * square else result
        if bits / 2 = 0 then result else go steps (square * square) (bits / 2) result

end Stencil.Number
