import Stencil.Number.Binary
import Stencil.Number.FloatText
import Stencil.Value.Text

/-!
# Formatted fields

What both formatters are made of: the digits of a number in a given form, and padding. A number is
kept in three parts, its sign, the mark of its base and its digits, because zeros go between the
mark and the digits while blanks go before the sign.

## Main results

* `length_padNumber`, `length_padText`: a padded field is as wide as asked, or as wide as its
  content.
-/

namespace Stencil.Format

open Stencil.Number

/-! ## Numbers in parts -/

/-- A number: is it negative, the mark of its base, and its digits. -/
structure NumberParts where
  negative : Bool
  base : List Char
  digits : List Char
  deriving DecidableEq, Repr

/-- How a number is padded. -/
structure NumberFlags where
  /-- Blanks go after the number. -/
  left : Bool
  /-- Zeros go before the digits. -/
  zero : Bool
  /-- A number that is not negative has a plus sign. -/
  plus : Bool
  /-- A number that is not negative has a blank before it. -/
  space : Bool
  /-- The mark of the base is written. -/
  alternate : Bool
  deriving DecidableEq, Repr

/-- No flag is set. -/
def NumberFlags.none : NumberFlags := ⟨false, false, false, false, false⟩

/-- The flags that these characters set. -/
def NumberFlags.ofChars (flags : List Char) : NumberFlags :=
  ⟨flags.contains '-', flags.contains '0', flags.contains '+', flags.contains ' ',
    flags.contains '#'⟩

/-- The sign that is written before a number. -/
def signFor (flags : NumberFlags) (negative : Bool) : List Char :=
  if negative then ['-'] else if flags.plus then ['+'] else if flags.space then [' '] else []

/-- A number padded up to a width. -/
def padNumber (flags : NumberFlags) (width : Nat) (number : NumberParts) : List Char :=
  let sign := signFor flags number.negative
  let fill := width - (sign.length + number.base.length + number.digits.length)
  if flags.left then sign ++ number.base ++ number.digits ++ List.replicate fill ' '
  else if flags.zero then sign ++ number.base ++ List.replicate fill '0' ++ number.digits
  else List.replicate fill ' ' ++ sign ++ number.base ++ number.digits

/-- A text padded up to a width, with blanks before it or after it. -/
def padText (left : Bool) (width : Nat) (text : List Char) : List Char :=
  let blanks := List.replicate (width - text.length) ' '
  if left then text ++ blanks else blanks ++ text

theorem length_padNumber (flags : NumberFlags) (width : Nat) (number : NumberParts) :
    (padNumber flags width number).length =
      max width ((signFor flags number.negative).length + number.base.length +
        number.digits.length) := by
  unfold padNumber
  split
  · simp only [List.length_append, List.length_replicate]; omega
  · split <;> simp only [List.length_append, List.length_replicate] <;> omega

theorem length_padText (left : Bool) (width : Nat) (text : List Char) :
    (padText left width text).length = max width text.length := by
  unfold padText
  split <;> simp only [List.length_append, List.length_replicate] <;> omega

/-! ## Integers -/

/-- The capital form of digits. -/
def raise (digits : List Char) : List Char := digits.map Char.toUpper

/-- An integer in the form that a conversion letter asks for: base eight, base sixteen in small or
in capital letters, or base ten. -/
def integerParts (i : Int64) (conversion : Char) (alternate : Bool) : NumberParts :=
  let magnitude := i.toInt.natAbs
  let (mark, digits) : List Char × List Char :=
    match conversion with
    | 'o' => (['0', 'o'], Nat.toDigits 8 magnitude)
    | 'x' => (['0', 'x'], Nat.toDigits 16 magnitude)
    | 'X' => (['0', 'X'], raise (Nat.toDigits 16 magnitude))
    | _ => ([], Nat.toDigits 10 magnitude)
  ⟨i.toInt < 0, if alternate then mark else [], digits⟩

/-! ## Floats -/

/-- Digits without the zeros at the end of their fraction, and without a point at the end. -/
def dropFractionZeros (digits : List Char) : List Char :=
  if digits.contains '.' then
    let reversed := digits.reverse.dropWhile (· == '0')
    (reversed.dropWhile (· == '.')).reverse
  else digits

/-- The digits of a mantissa, without the zeros at the end of its fraction, before the exponent. -/
def dropMantissaZeros (text : List Char) : List Char :=
  dropFractionZeros (text.takeWhile (· != 'e')) ++ text.dropWhile (· != 'e')

/-- How many places the magnitude of a float is from one, rounded down. -/
def decimalExponent (x : Float) : Int :=
  if x == 0 then 0 else (truncateToInt64 x.abs.log10.floor).toInt

/-- A float with `precision` digits: in full, or with an exponent when it is very large or very
small. Zeros at the end of the fraction are left out unless the alternate form is asked for. -/
def generalText (x : Float) (s : Scaled) (precision : Nat) (alternate : Bool) : List Char :=
  let precision := max precision 1
  let exponent := decimalExponent x
  let text :=
    if exponent < -4 ∨ (precision : Int) ≤ exponent then scientificText s (precision - 1)
    else fixedText s ((precision : Int) - 1 - exponent).toNat
  if alternate then text else dropMantissaZeros text

/-- A float in the form that a conversion letter asks for, with six places when nothing is said. A
capital letter raises the letters of the result. -/
def floatParts (x : Float) (conversion : Char) (precision : Option Nat) (alternate : Bool) :
    NumberParts :=
  let places := precision.getD 6
  let digits :=
    match Scaled.ofFloat? x with
    | none => specialText x.abs
    | some s =>
        match conversion.toLower with
        | 'e' => scientificText s places
        | 'g' => generalText x s places alternate
        | _ => fixedText s places
  ⟨x < 0, [], if conversion.isUpper then raise digits else digits⟩

/-! ## Values -/

/-- The integer that a conversion takes from a value; a float loses its fraction. -/
def integerOf (conversion : Char) : Value → Except Fault Int64
  | .float x => .ok (truncateToInt64 x)
  | value =>
      match value.asInt? with
      | some i => .ok i
      | none => .error (.type (.numberWanted conversion value.typeName))

/-- The float that a conversion takes from a value. -/
def floatOf (conversion : Char) (value : Value) : Except Fault Float :=
  match value.asFloat? with
  | some x => .ok x
  | none => .error (.type (.realWanted conversion value.typeName))

/-- The size that digits in a field write, when there are any; it is bounded. -/
def fieldSize (field : String) : Option (List Char) → Except Fault (Option Nat)
  | none => .ok none
  | some digits =>
      match readSize? digits with
      | some size =>
          if size ≤ fieldLimit then .ok (some size) else .error (.value (.fieldTooBig field))
      | none => .error (.value (.fieldTooBig field))

/-- The first characters of a text, as many as a precision says. -/
def shorten (precision : Option Nat) (text : List Char) : List Char :=
  match precision with
  | some size => text.take size
  | none => text

end Stencil.Format
