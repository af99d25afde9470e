import Stencil.Number.Shortest

/-!
# Floats as text

Three ways to write a float: the shortest text that reads back, a fixed number of places, and a
fixed number of digits with an exponent. The last two round the exact value, and a half goes to the
even neighbour.

How the texts look is decided in one record, `FloatLayout`: which magnitudes are written with an
exponent, that a whole number keeps a zero after its point, and how wide an exponent is at least.
-/

namespace Stencil.Number

/-- The decisions on the look of a float's text. -/
structure FloatLayout where
  /-- Magnitudes from ten to this power on take an exponent. -/
  largeFrom : Int
  /-- Magnitudes below ten to this power take an exponent. -/
  smallBelow : Int
  /-- Does a whole number keep a zero after the point? -/
  keepZero : Bool
  /-- The least number of digits of an exponent. -/
  exponentWidth : Nat
  deriving DecidableEq, Repr

/-- Values are written in full from `10 ^ -4` up to, but not with, `10 ^ 16`; a whole number ends in
`.0`, and an exponent has a sign and at least two digits. -/
def valueLayout : FloatLayout := ⟨16, -4, true, 2⟩

/-- Digits without the zeros at their end. -/
def dropLastZeros (digits : List Char) : List Char :=
  (digits.reverse.dropWhile (· == '0')).reverse

/-- The text with zeros before it up to the width. -/
def padZeros (width : Nat) (digits : List Char) : List Char :=
  List.replicate (width - digits.length) '0' ++ digits

/-- An exponent after its mark: a sign and its digits. -/
def exponentText (width : Nat) (exponent : Int) : List Char :=
  (if exponent < 0 then '-' else '+') :: padZeros width (Nat.toDigits 10 exponent.natAbs)

/-- Digits with a point before the last `places` of them, and zeros in front where they are too
few. -/
def placePoint (digits : List Char) (places : Nat) : List Char :=
  if places = 0 then digits
  else
    let digits := padZeros (places + 1) digits
    digits.take (digits.length - places) ++ '.' :: digits.drop (digits.length - places)

/-- One digit, a point and the others, if there are others. -/
def mantissaText : List Char → List Char
  | [] => ['0']
  | [d] => [d]
  | d :: rest => d :: '.' :: rest

/-- The text of the positive decimal with these digits, none of them a zero at the end, that has
`point` digits before its point. -/
def layOut (layout : FloatLayout) (digits : List Char) (point : Int) : List Char :=
  if layout.largeFrom < point ∨ point ≤ layout.smallBelow then
    mantissaText digits ++ 'e' :: exponentText layout.exponentWidth (point - 1)
  else
    let places := (digits.length : Int) - point
    if places ≤ 0 then
      digits ++ List.replicate (-places).toNat '0' ++ (if layout.keepZero then ['.', '0'] else [])
    else placePoint digits places.toNat

/-- The text of a float that is no finite number. -/
def specialText (x : Float) : List Char :=
  if x.isNaN then "nan".toList else if x < 0 then "-inf".toList else "inf".toList

/-- The sign before the text of a number. -/
def signText (negative : Bool) : List Char := if negative then ['-'] else []

/-- The shortest text that reads back as the float. -/
def floatText (x : Float) : List Char :=
  match Scaled.ofFloat? x with
  | none => specialText x
  | some s =>
      signText s.negative ++
        if s.mantissa = 0 then ['0', '.', '0']
        else
          let decimal := shortest s.mantissa s.exponent
          let digits := Nat.toDigits 10 decimal.digits
          layOut valueLayout (dropLastZeros digits) (digits.length + decimal.exponent)

/-- The magnitude of a finite float with a fixed number of places. -/
def fixedText (s : Scaled) (places : Nat) : List Char :=
  let (num, den) := s.fraction
  placePoint (Nat.toDigits 10 (roundDiv (num * Nat.pow 10 places) den)) places

/-- The magnitude of a finite float with one digit before the point, `places` after it, and an
exponent. -/
def scientificText (s : Scaled) (places : Nat) : List Char :=
  let (digits, exponent) : List Char × Int :=
    if s.mantissa = 0 then (List.replicate (places + 1) '0', 0)
    else
      let (num, den) := s.fraction
      let point := pointPosition num den
      let shift := (places : Int) + 1 - point
      let digits := Nat.toDigits 10
        (roundDiv (num * Nat.pow 10 shift.toNat) (den * Nat.pow 10 (-shift).toNat))
      -- Rounding up may have added a digit; it is a zero then.
      (digits.take (places + 1), point - 1 + ((digits.length : Int) - (places + 1)))
  mantissaText digits ++ 'e' :: exponentText 2 exponent

end Stencil.Number
