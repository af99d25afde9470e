import Stencil.Entries
import Stencil.Number.Integer
import Stencil.Expr.Literal

/-!
# Documents in JSON

A strict reader for JSON texts. Objects keep the order of their names, and a repeated name keeps its
place and takes the last value. Values may be nested in at most 127 arrays and objects.

A number without a point and an exponent is an integer when it has 64 bits, signed or not; all other
numbers are floats. The digits of a float are read as one whole number of 64 bits, those that do not
fit are left out, and the number is scaled by a power of ten.
-/

namespace Stencil

open Stencil.Number

/-- A document. -/
inductive Json where
  | null
  | bool (value : Bool)
  | int (value : Int64)
  | float (value : Float)
  | string (value : String)
  | array (items : List Json)
  | object (entries : List (String × Json))

namespace Json

/-! ## Numbers -/

/-- Adds digits to a significand as long as it fits 64 bits: the significand, and the digits that
are left. -/
def addDigits (significand : Nat) : List Char → Nat × List Char
  | [] => (significand, [])
  | c :: rest =>
      let next := significand * 10 + (c.toNat - '0'.toNat)
      if next < wordBound then addDigits next rest else (significand, c :: rest)

/-- Scales a float by a power of ten, by at most three hundred and eight places at a time. Nothing
when the result is infinite. -/
def scale? : Nat → Float → Int → Option Float
  | 0, x, _ => some x
  | steps + 1, x, exponent =>
      let power (n : Nat) : Float := Float.ofScientific 1 false n
      if exponent.natAbs ≤ 308 then
        if 0 ≤ exponent then
          let result := x * power exponent.natAbs
          if result.isInf then none else some result
        else some (x / power exponent.natAbs)
      else if x == 0 then some x
      else if 0 ≤ exponent then none
      else scale? steps (x / power 308) (exponent + 308)

/-- The number that these parts write, if it is no float beyond all bounds. -/
def numberOf? (negative : Bool) (whole places : List Char) (exponent : Option Int) :
    Option Json :=
  let (significand, left) := addDigits 0 whole
  if places.isEmpty && exponent.isNone && left.isEmpty then
    if negative then
      if significand = 0 ∨ int64Bound < significand then some (.float (-(Float.ofNat significand)))
      else some (.int (Int64.ofInt (-significand)))
    else if significand < int64Bound then some (.int (Int64.ofInt significand))
    else some (.float (Float.ofNat significand))
  else
    let (digits, unread) := addDigits significand places
    let dropped : Int := left.length - (places.length - unread.length : Nat)
    let written := exponent.getD 0
    let bound : Int := int32Bound - 1
    let signed (x : Float) : Json := .float (if negative then -x else x)
    if written > bound ∨ written < -bound then
      if digits ≠ 0 ∧ 0 < written then none else some (signed 0)
    else
      let total := max (-(int32Bound : Int)) (min bound (dropped + written))
      (scale? (total.natAbs / 308 + 1) (Float.ofNat digits) total).map signed

/-- A number at the start of a text, and the text after it. -/
def readNumber? (text : List Char) : Option (Json × List Char) := do
  let (negative, text) := match text with
    | '-' :: rest => (true, rest)
    | _ => (false, text)
  let whole := text.takeWhile Char.isDigit
  let rest := text.dropWhile Char.isDigit
  if whole.isEmpty ∨ (whole.head? = some '0' ∧ 1 < whole.length) then none
  else
    let (places, rest) ← match rest with
      | '.' :: rest =>
          let places := rest.takeWhile Char.isDigit
          if places.isEmpty then none else some (places, rest.dropWhile Char.isDigit)
      | _ => some ([], rest)
    let (exponent, rest) ← match rest with
      | mark :: after =>
          if mark = 'e' ∨ mark = 'E' then
            let (sign, after) : Int × List Char := match after with
              | '-' :: after => (-1, after)
              | '+' :: after => (1, after)
              | _ => (1, after)
            (readNat? 10 (after.takeWhile Char.isDigit)).map fun n =>
              (some (sign * n), after.dropWhile Char.isDigit)
          else some (none, rest)
      | [] => some (none, rest)
    let number ← numberOf? negative whole places exponent
    return (number, rest)

/-! ## Strings -/

/-- Four digits of base sixteen at the start of a text. -/
def readUnit? (text : List Char) : Option (Nat × List Char) :=
  let digits := text.take 4
  if digits.length = 4 then (readNat? 16 digits).map fun n => (n, text.drop 4) else none

/-- The character that an escape after its `u` names. Two halves of a pair name one character. -/
def readCodeEscape? (text : List Char) : Option (Char × List Char) := do
  let (unit, rest) ← readUnit? text
  if 0xD800 ≤ unit ∧ unit < 0xDC00 then
    match rest with
    | '\\' :: 'u' :: rest =>
        let (low, rest) ← readUnit? rest
        if 0xDC00 ≤ low ∧ low < 0xE000 then
          return (Char.ofNat (0x10000 + (unit - 0xD800) * 0x400 + (low - 0xDC00)), rest)
        else none
    | _ => none
  else
    let c ← charOfCode? unit
    return (c, rest)

/-- The rest of a string, given what is read of it in reverse, and the text after it. The budget is
greater than the length of the text. -/
def readString? : Nat → List Char → List Char → Option (String × List Char)
  | 0, _, _ => none
  | budget + 1, done, text =>
      match text with
      | [] => none
      | '"' :: rest => some (String.ofList done.reverse, rest)
      | '\\' :: c :: rest =>
          match c with
          | '"' | '\\' | '/' => readString? budget (c :: done) rest
          | 'b' => readString? budget (Char.ofNat 8 :: done) rest
          | 'f' => readString? budget (Char.ofNat 12 :: done) rest
          | 'n' => readString? budget ('\n' :: done) rest
          | 'r' => readString? budget ('\r' :: done) rest
          | 't' => readString? budget ('\t' :: done) rest
          | 'u' =>
              match readCodeEscape? rest with
              | some (c, rest) => readString? budget (c :: done) rest
              | none => none
          | _ => none
      | c :: rest => if c.toNat < 32 ∨ c = '\\' then none else readString? budget (c :: done) rest

/-! ## Values -/

/-- The text without the blanks before it. -/
def skipBlanks (text : List Char) : List Char :=
  text.dropWhile fun c => c == ' ' || c == '\n' || c == '\t' || c == '\r'

mutual

/-- A value inside so many levels less than the most, and the text after it. The budget is greater
than twice the length of the text. -/
def readValue? (levels : Nat) : Nat → List Char → Option (Json × List Char)
  | 0, _ => none
  | budget + 1, text =>
      match skipBlanks text with
      | 'n' :: 'u' :: 'l' :: 'l' :: rest => some (.null, rest)
      | 't' :: 'r' :: 'u' :: 'e' :: rest => some (.bool true, rest)
      | 'f' :: 'a' :: 'l' :: 's' :: 'e' :: rest => some (.bool false, rest)
      | '"' :: rest =>
          (readString? budget [] rest).map fun (s, rest) => (.string s, rest)
      | '[' :: rest =>
          if levels = 0 then none
          else match skipBlanks rest with
            | ']' :: rest => some (.array [], rest)
            | _ => (readItems? (levels - 1) budget [] rest).map fun (items, rest) =>
                (.array items, rest)
      | '{' :: rest =>
          if levels = 0 then none
          else match skipBlanks rest with
            | '}' :: rest => some (.object [], rest)
            | _ => (readEntries? (levels - 1) budget [] rest).map fun (entries, rest) =>
                (.object (Entries.ofPairs entries), rest)
      | text => readNumber? text

/-- The items of an array after those that are read, in reverse. -/
def readItems? (levels : Nat) : Nat → List Json → List Char → Option (List Json × List Char)
  | 0, _, _ => none
  | budget + 1, done, text =>
      match readValue? levels budget text with
      | none => none
      | some (item, rest) =>
          match skipBlanks rest with
          | ',' :: rest => readItems? levels budget (item :: done) rest
          | ']' :: rest => some ((item :: done).reverse, rest)
          | _ => none

/-- The entries of an object after those that are read, in reverse. -/
def readEntries? (levels : Nat) :
    Nat → List (String × Json) → List Char → Option (List (String × Json) × List Char)
  | 0, _, _ => none
  | budget + 1, done, text =>
      match skipBlanks text with
      | '"' :: rest =>
          match readString? budget [] rest with
          | none => none
          | some (name, rest) =>
              match skipBlanks rest with
              | ':' :: rest =>
                  match readValue? levels budget rest with
                  | none => none
                  | some (value, rest) =>
                      match skipBlanks rest with
                      | ',' :: rest => readEntries? levels budget ((name, value) :: done) rest
                      | '}' :: rest => some (((name, value) :: done).reverse, rest)
                      | _ => none
              | _ => none
      | _ => none

end

/-- The document that a text holds. -/
def read? (text : List Char) : Option Json :=
  match readValue? 127 (2 * text.length + 2) text with
  | some (value, rest) => if (skipBlanks rest).isEmpty then some value else none
  | none => none

end Json

end Stencil
