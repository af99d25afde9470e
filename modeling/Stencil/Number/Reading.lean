import Stencil.Number.Integer

/-!
# Reading decimals

A decimal is a sign, digits with a point among them or at either end, and an exponent; all but one
digit may be missing. It is read as the nearest float. The words for infinity and for no number are
read in any case of letters.
-/

namespace Stencil.Number

/-- The parts of a decimal text: its digits without the point, how many of them follow the point,
and its exponent. -/
structure DecimalParts where
  digits : List Char
  places : Nat
  exponent : Int
  deriving DecidableEq, Repr

/-- The parts of a decimal without a sign. -/
def decimalParts? (text : List Char) : Option DecimalParts :=
  let whole := text.takeWhile Char.isDigit
  let (places, rest) := match text.dropWhile Char.isDigit with
    | '.' :: rest => (rest.takeWhile Char.isDigit, rest.dropWhile Char.isDigit)
    | rest => ([], rest)
  let digits := whole ++ places
  if digits.isEmpty then none
  else match rest with
    | [] => some ⟨digits, places.length, 0⟩
    | mark :: exponent =>
        if mark = 'e' ∨ mark = 'E' then
          (readInt? 10 exponent).map fun e => ⟨digits, places.length, e⟩
        else none

/-- The float nearest to a decimal. One with more than 400 digits before the point is infinite, and
one with more than 400 zeros after the point is zero. -/
def DecimalParts.toFloat (parts : DecimalParts) : Float :=
  let digits := parts.digits.dropWhile (· == '0')
  let exponent := parts.exponent - parts.places
  let point := digits.length + exponent
  if digits.isEmpty ∨ point < -400 then 0
  else if 400 < point then 1 / 0
  else Float.ofScientific ((readNat? 10 digits).getD 0) (exponent < 0) exponent.natAbs

/-- The words for floats that are no decimals. -/
def readSpecial? (word : List Char) : Option Float :=
  let lower := word.map Char.toLower
  if lower = "inf".toList ∨ lower = "infinity".toList then some (1 / 0)
  else if lower = "nan".toList then some (0 / 0)
  else none

/-- A float without a sign. -/
def readMagnitude? (text : List Char) : Option Float :=
  match readSpecial? text with
  | some x => some x
  | none => (decimalParts? text).map DecimalParts.toFloat

/-- The float that is written here, with a sign or without. -/
def readFloat? : List Char → Option Float
  | '-' :: rest => (readMagnitude? rest).map fun x => -x
  | '+' :: rest => readMagnitude? rest
  | text => readMagnitude? text

end Stencil.Number
