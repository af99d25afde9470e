import Stencil.Format.Field
import Stencil.Text.Letter

/-!
# Formatting with percent signs

A text with conversions, each a percent sign with flags, a width, a precision and a letter, filled
with values. The values come one after another from a list, or by name from a dictionary. A percent
sign that starts no conversion is a fault.

The text is first cut into conversions with the literal text before each of them; then they are
converted in order, so that of two faults the first one in the text is reported.

## Main results

* `length_readConversion_lt`: a conversion takes at least one character.
-/

namespace Stencil.Format

open Stencil.Text Stencil.Number

/-- A conversion as it is written. -/
structure Conversion where
  /-- The name of the value in brackets, if there is one. -/
  key : Option (List Char)
  flags : List Char
  width : Option (List Char)
  precision : Option (List Char)
  letter : Char
  deriving DecidableEq, Repr

/-- The letters of the conversions. -/
def conversionLetters : List Char := "diouxXeEfFgGcrs%".toList

/-- The characters of the flags. -/
def flagChars : List Char := "-+ 0#".toList

/-- A name in brackets at the start of a text, and the text after it. -/
def readKey? : List Char → Option (Option (List Char) × List Char)
  | '(' :: rest =>
      match rest.dropWhile (· != ')') with
      | _ :: after => some (some (rest.takeWhile (· != ')')), after)
      | [] => none
  | text => some (none, text)

/-- Digits at the start of a text, if there are any, and the text after them. -/
def readDigits (text : List Char) : Option (List Char) × List Char :=
  let digits := text.takeWhile isDecimal
  (if digits.isEmpty then none else some digits, text.dropWhile isDecimal)

/-- A precision at the start of a text, if there is one, and the text after it. -/
def readPrecision : List Char → Option (List Char) × List Char
  | '.' :: rest =>
      match readDigits rest with
      | (some digits, after) => (some digits, after)
      | (none, _) => (none, '.' :: rest)
  | text => (none, text)

/-- The conversion after a percent sign, and the text after it. -/
def readConversion? (text : List Char) : Option (Conversion × List Char) :=
  match readKey? text with
  | none => none
  | some (key, rest) =>
      let flags := rest.takeWhile flagChars.contains
      let (width, rest) := readDigits (rest.dropWhile flagChars.contains)
      let (precision, rest) := readPrecision rest
      match rest with
      | letter :: after =>
          if conversionLetters.contains letter then
            some (⟨key, flags, width, precision, letter⟩, after)
          else none
      | [] => none

theorem length_readKey_le {text rest : List Char} {key : Option (List Char)}
    (h : readKey? text = some (key, rest)) : rest.length ≤ text.length := by
  unfold readKey? at h
  split at h
  · rename_i inner
    split at h
    · rename_i c after hDrop
      simp only [Option.some.injEq, Prod.mk.injEq] at h
      have hLen := (List.dropWhile_sublist (l := inner) (· != ')')).length_le
      rw [hDrop] at hLen
      simp only [List.length_cons] at hLen ⊢
      rw [← h.2]
      omega
    · cases h
  · simp only [Option.some.injEq, Prod.mk.injEq] at h
    exact Nat.le_of_eq (congrArg List.length h.2.symm)

theorem length_readDigits_le (text : List Char) : (readDigits text).2.length ≤ text.length :=
  (List.dropWhile_sublist isDecimal).length_le

theorem length_readPrecision_le (text : List Char) :
    (readPrecision text).2.length ≤ text.length := by
  unfold readPrecision
  split
  · rename_i rest
    have h := length_readDigits_le rest
    split
    · rename_i digits after hDigits
      simp only [hDigits, List.length_cons] at h ⊢
      omega
    · exact Nat.le_refl _
  · exact Nat.le_refl _

/-- What follows a conversion is shorter than the text that starts with it. -/
theorem length_readConversion_lt {text rest : List Char} {conversion : Conversion}
    (h : readConversion? text = some (conversion, rest)) : rest.length < text.length := by
  unfold readConversion? at h
  split at h
  · cases h
  · rename_i key afterKey hKey
    have hKeyLen := length_readKey_le hKey
    have hFlags := (List.dropWhile_sublist (l := afterKey) flagChars.contains).length_le
    have hWidth := length_readDigits_le (afterKey.dropWhile flagChars.contains)
    have hPrecision := length_readPrecision_le
      (readDigits (afterKey.dropWhile flagChars.contains)).2
    simp only at h
    split at h
    · rename_i letter after hRest
      rw [hRest] at hPrecision
      split at h
      · simp only [Option.some.injEq, Prod.mk.injEq] at h
        simp only [List.length_cons] at hPrecision
        rw [← h.2]
        omega
      · cases h
    · cases h

/-- The conversions of a text, each with the literal text before it, and the literal text after the
last one. The literal text that is passed already comes in reverse. -/
def percentPieces (literal : List Char) :
    List Char → List (List Char × Conversion) × List Char
  | [] => ([], literal.reverse)
  | c :: rest =>
      if c = '%' then
        match _h : readConversion? rest with
        | some (conversion, after) =>
            let (pieces, tail) := percentPieces [] after
            ((literal.reverse, conversion) :: pieces, tail)
        | none => percentPieces (c :: literal) rest
      else percentPieces (c :: literal) rest
termination_by text => text.length
decreasing_by
  · have := length_readConversion_lt _h
    simp only [List.length_cons]
    omega
  · simp
  · simp

/-- The character that a value stands for: one that it is, or the one of its code. -/
def characterOf (value : Value) : Except Fault Char := do
  let ofCode (value : Value) : Except Fault Char := do
    let code ← integerOf 'c' value
    match if code < 0 then none else charOfCode? code.toInt.toNat with
    | some c => return c
    | none => throw (.value .conversionCode)
  match value with
  | .string text _ =>
      match text.toList with
      | [c] => return c
      | _ => ofCode value
  | value => ofCode value

/-- The text of a value under a conversion letter. -/
def convert (value : Value) (letter : Char) (flags : NumberFlags) (width : Nat)
    (precision : Option Nat) : Except Fault (List Char) :=
  match letter with
  | 's' => .ok (padText flags.left width (shorten precision value.text.toList))
  | 'r' => .ok (padText flags.left width (shorten precision value.code.toList))
  | 'c' => do
      let c ← characterOf value
      return padText flags.left width [c]
  | letter =>
      if ['d', 'i', 'u', 'o', 'x', 'X'].contains letter then do
        let letter := if letter = 'i' ∨ letter = 'u' then 'd' else letter
        let i ← integerOf letter value
        return padNumber flags width (integerParts i letter flags.alternate)
      else do
        let x ← floatOf letter value
        return padNumber flags width (floatParts x letter precision flags.alternate)

/-- The values that are left for the conversions without a name, and whether one had a name. -/
structure Supply where
  positional : List Value
  usesNames : Bool

/-- The value for a conversion, and the values that are left. -/
def Supply.next (supply : Supply) (values : Value) (key : Option (List Char)) :
    Except Fault (Value × Supply) :=
  match key with
  | some name =>
      match values with
      | .dict entries _ =>
          match Entries.find? (String.ofList name) entries with
          | some value => .ok (value, { supply with usesNames := true })
          | none => .error (.keyNotFound (quoted (String.ofList name)))
      | _ => .error (.type .mappingWanted)
  | none =>
      match supply.positional with
      | value :: rest => .ok (value, { supply with positional := rest })
      | [] => .error (.type .tooFewValues)

/-- The text of a conversion, and the values that are left. -/
def Conversion.apply (conversion : Conversion) (values : Value) (supply : Supply) :
    Except Fault (List Char × Supply) :=
  if conversion.letter = '%' then .ok (['%'], supply)
  else do
    let width ← fieldSize "width" conversion.width
    let precision ← fieldSize "precision" conversion.precision
    let (value, supply) ← supply.next values conversion.key
    let text ← convert value conversion.letter (.ofChars conversion.flags) (width.getD 0) precision
    return (text, supply)

/-- Fills conversions in order, after the texts that are done, in reverse. -/
def fillConversions (values : Value) (done : List (List Char)) (supply : Supply) :
    List (List Char × Conversion) → Except Fault (List (List Char) × Supply)
  | [] => .ok (done, supply)
  | (literal, conversion) :: rest =>
      if literal.contains '%' then .error (.value .unsupportedConversion)
      else
        match conversion.apply values supply with
        | .ok (text, supply) => fillConversions values (text :: literal :: done) supply rest
        | .error fault => .error fault

/-- Does a value serve its entries by name only? -/
def servesNames : Value → Bool
  | .dict _ _ => true
  | _ => false

/-- Fills the conversions of a text: from the items of a list, from the entries of a dictionary, or
from a single value. -/
def percent (format : List Char) (values : Value) : Except Fault (List Char) := do
  let positional := match values with
    | .list items _ => items.toList
    | value => [value]
  let (pieces, tail) := percentPieces [] format
  let (done, supply) ← fillConversions values [] ⟨positional, false⟩ pieces
  if tail.contains '%' then throw (.value .incompleteConversion)
  if !supply.usesNames && !supply.positional.isEmpty && !servesNames values then
    throw (.type .tooManyValues)
  return (tail :: done).reverse.flatten

end Stencil.Format
