import Stencil.Notation.Json
import Stencil.Number.Integer

/-!
# Dates and times in a TOML document

A date is a year, a month and a day; a time of day is an hour, a minute and a second, with a
fraction or without. A date may stand alone, and so may a time of day; a date with a time of day may
have a distance from universal time. Days that a month does not have are refused.

Documents have no type for dates and times. One of them is an object with a single entry, whose
value is its text in one spelling: a `T` before the time of day, a `Z` for universal time, and a
fraction of at most nine digits that does not end in a zero.

## Main results

* `length_takeDigits?`: a number of so many digits is a text of so many characters.
-/

namespace Stencil.Toml

open Stencil.Number

/-- The name of the only entry of an object that stands for a date or a time. -/
def momentName : String := "$__toml_private_datetime"

/-- A piece of a date or a time, and the text after it. -/
abbrev Piece := Option (List Char × List Char)

/-- So many digits at the start of a text. -/
def takeDigits? (count : Nat) (text : List Char) : Piece :=
  let digits := text.take count
  if digits.length = count ∧ digits.all Char.isDigit then some (digits, text.drop count) else none

/-- A piece of so many digits has so many characters. -/
theorem length_takeDigits? {count : Nat} {text digits rest : List Char}
    (h : takeDigits? count text = some (digits, rest)) : digits.length = count := by
  simp only [takeDigits?] at h
  split at h
  · rename_i hDigits
    cases h
    exact hDigits.1
  · cases h

/-- The number that digits write. -/
def valueOf (digits : List Char) : Nat := (readNat? 10 digits).getD 0

/-- A number of two digits in a range. -/
def takePair? (least most : Nat) (text : List Char) : Piece :=
  (takeDigits? 2 text).filter fun (digits, _) => least ≤ valueOf digits ∧ valueOf digits ≤ most

/-- A character that must come next. -/
def takeMark? (mark : Char) : List Char → Option (List Char)
  | c :: rest => if c = mark then some rest else none
  | [] => none

/-- The number of days in a month. -/
def daysIn (year month : Nat) : Nat :=
  if month = 2 then
    if year % 4 = 0 ∧ (year % 100 ≠ 0 ∨ year % 400 = 0) then 29 else 28
  else if [4, 6, 9, 11].contains month then 30
  else 31

/-- A date. -/
def takeDate? (text : List Char) : Piece := do
  let (year, rest) ← takeDigits? 4 text
  let (month, rest) ← takePair? 1 12 (← takeMark? '-' rest)
  let (day, rest) ← takePair? 1 (daysIn (valueOf year) (valueOf month)) (← takeMark? '-' rest)
  return (year ++ '-' :: month ++ '-' :: day, rest)

/-- The fraction of a second with its point, where there is one. A fraction that is zero is dropped.
-/
def takeFraction (text : List Char) : List Char × List Char :=
  match text with
  | '.' :: rest =>
      let digits := rest.takeWhile Char.isDigit
      if digits.isEmpty then ([], text)
      else
        let kept := ((digits.take 9).reverse.dropWhile (· == '0')).reverse
        (if kept.isEmpty then [] else '.' :: kept, rest.dropWhile Char.isDigit)
  | text => ([], text)

/-- A time of day. A minute may have a sixty-first second. -/
def takeTime? (text : List Char) : Piece := do
  let (hour, rest) ← takePair? 0 23 text
  let (minute, rest) ← takePair? 0 59 (← takeMark? ':' rest)
  let (second, rest) ← takePair? 0 60 (← takeMark? ':' rest)
  let (fraction, rest) := takeFraction rest
  return (hour ++ ':' :: minute ++ ':' :: second ++ fraction, rest)

/-- A distance from universal time. No distance counts as one to the east. -/
def takeDistance? : List Char → Piece
  | 'Z' :: rest => some (['Z'], rest)
  | 'z' :: rest => some (['Z'], rest)
  | sign :: rest =>
      if sign = '+' ∨ sign = '-' then do
        let (hour, rest) ← takePair? 0 23 rest
        let (minute, rest) ← takePair? 0 59 (← takeMark? ':' rest)
        let sign := if valueOf hour = 0 ∧ valueOf minute = 0 then '+' else sign
        return (sign :: hour ++ ':' :: minute, rest)
      else none
  | [] => none

/-- The time of day that follows a date, with its distance where it has one. -/
def takeTimeOfDate? : List Char → Piece
  | c :: rest =>
      if c = 'T' ∨ c = 't' ∨ c = ' ' then do
        let (time, rest) ← takeTime? rest
        let (distance, rest) := (takeDistance? rest).getD ([], rest)
        return ('T' :: time ++ distance, rest)
      else none
  | [] => none

/-- A date, a time, or both, at the start of a text. -/
def takeMoment? (text : List Char) : Piece :=
  match takeDate? text with
  | some (date, rest) =>
      let (time, rest) := (takeTimeOfDate? rest).getD ([], rest)
      some (date ++ time, rest)
  | none => takeTime? text

/-- The object for a date or a time at the start of a text, and the text after it. -/
def readMoment? (text : List Char) : Option (Json × List Char) :=
  (takeMoment? text).map fun (moment, rest) =>
    (.object [(momentName, .string (String.ofList moment))], rest)

end Stencil.Toml
