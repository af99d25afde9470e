import Stencil.Notation.Json
import Stencil.Notation.Yaml.Cursor

/-!
# Scalars that go on over lines

Scalars without quotes and between quotes. Where such a scalar goes on in the next line, the end of
the line is read as a space; where empty lines follow it, they are read as ends of lines and the
first end is dropped. The blanks round the ends of lines are dropped too.

A budget that is greater than the number of characters that are left is never used up.
-/

namespace Stencil.Yaml

open Stencil.Number

/-! ## Gaps -/

/-- What separates two words of a scalar: blanks on one line, or the end of a line and the ends of
the empty lines after it. Both texts are in reverse. -/
structure Gap where
  blanks : List Char := []
  firstBreak : Option (List Char) := none
  moreBreaks : List Char := []

namespace Gap

/-- The text that a gap is read as, in front of which a text in reverse stands. -/
def appendTo (gap : Gap) (done : List Char) : List Char :=
  match gap.firstBreak with
  | none => gap.blanks ++ done
  | some ['\n'] => if gap.moreBreaks.isEmpty then ' ' :: done else gap.moreBreaks ++ done
  | some first => gap.moreBreaks ++ (first.reverse ++ done)

/-- The gap with one more end of a line. -/
def addBreak (gap : Gap) (text : List Char) : Gap :=
  match gap.firstBreak with
  | none => { firstBreak := some text }
  | some _ => { gap with moreBreaks := text.reverse ++ gap.moreBreaks }

/-- Reads a gap. No tab may stand left of the given column at the start of a line. -/
def read? (least : Int) : Nat → Gap → Cursor → Option (Gap × Cursor)
  | 0, _, _ => none
  | budget + 1, gap, cursor =>
      match cursor.rest with
      | [] => some (gap, cursor)
      | c :: _ =>
          if isBlank c then
            if gap.firstBreak.isNone then
              read? least budget { gap with blanks := c :: gap.blanks } (cursor.skip 1)
            else if c = '\t' ∧ cursor.column < least then none
            else read? least budget gap (cursor.skip 1)
          else if isBreak c then
            read? least budget (gap.addBreak cursor.breakText) cursor.skipBreak
          else some (gap, cursor)

end Gap

/-! ## Scalars without quotes -/

/-- How many characters a word of a scalar without quotes has. A colon before a blank ends it, and
so does, between brackets, a bracket or a comma; a colon before one of these is refused. -/
def wordLength? (inside : Bool) (count : Nat) : List Char → Option Nat
  | [] => some count
  | c :: rest =>
      if isBlank c || isBreak c then some count
      else if inside && c == ':' && rest.head?.any [',', '?', '[', ']', '{', '}'].contains then none
      else if c == ':' && atBlank rest then some count
      else if inside && [',', '[', ']', '{', '}'].contains c then some count
      else wordLength? inside (count + 1) rest

/-- What is left of the text, and whether the gap before it has the end of a line. -/
structure Plain where
  text : List Char
  endsLine : Bool
  cursor : Cursor

/-- The rest of a scalar without quotes, given what is read of it, in reverse, and the gap after
that. Outside of brackets it ends at a line that starts left of the given column. -/
def readPlain? (inside : Bool) (least : Int) : Nat → Gap → List Char → Cursor → Option Plain
  | 0, _, _, _ => none
  | budget + 1, gap, done, cursor =>
      let finish (gap : Gap) (done : List Char) (cursor : Cursor) : Option Plain :=
        some ⟨done.reverse, gap.firstBreak.isSome, cursor⟩
      if cursor.atMark || cursor.rest.head? == some '#' then finish gap done cursor
      else
        match wordLength? inside 0 cursor.rest with
        | none => none
        | some 0 => finish gap done cursor
        | some count =>
            let done := (cursor.rest.take count).reverseAux (gap.appendTo done)
            let cursor := cursor.skip count
            if cursor.rest.head?.any fun c => isBlank c || isBreak c then
              match Gap.read? least (budget + 1) {} cursor with
              | none => none
              | some (gap, cursor) =>
                  if !inside && cursor.column < least then finish gap done cursor
                  else readPlain? inside least budget gap done cursor
            else finish {} done cursor

/-! ## Scalars between quotes -/

/-- The character whose code has so many digits of base sixteen. -/
def ofCode? (count : Nat) (text : List Char) : Option Char := do
  let digits := text.take count
  if digits.length < count then none
  else (readNat? 16 digits).bind charOfCode?

/-- The character that an escape names, and how many characters the escape has, given the text
after its backslash. -/
def readEscape? : List Char → Option (Char × Nat)
  | [] => none
  | mark :: rest =>
      let named (code : Nat) : Option (Char × Nat) := some (Char.ofNat code, 1)
      match mark with
      | '0' => named 0
      | 'a' => named 7
      | 'b' => named 8
      | 't' => named 9
      | '\t' => named 9
      | 'n' => named 10
      | 'v' => named 11
      | 'f' => named 12
      | 'r' => named 13
      | 'e' => named 27
      | ' ' => named 32
      | '"' => named 34
      | '/' => named 47
      | '\\' => named 92
      | 'N' => named 0x85
      | '_' => named 0xA0
      | 'L' => named 0x2028
      | 'P' => named 0x2029
      | 'x' => (ofCode? 2 rest).map (·, 3)
      | 'u' => (ofCode? 4 rest).map (·, 5)
      | 'U' => (ofCode? 8 rest).map (·, 9)
      | _ => none

/-- Reads a word between quotes and puts it before what is read, in reverse. The gap that begins
with an escaped end of a line is read as nothing. -/
def readQuotedWord? (quote : Char) : Nat → List Char → Cursor → Option (List Char × Gap × Cursor)
  | 0, _, _ => none
  | budget + 1, done, cursor =>
      match cursor.rest with
      | [] => some (done, {}, cursor)
      | c :: rest =>
          if isBlank c || isBreak c then some (done, {}, cursor)
          else if c = quote then
            if quote = '\'' ∧ rest.head? = some quote then
              readQuotedWord? quote budget (quote :: done) (cursor.skip 2)
            else some (done, {}, cursor)
          else if quote = '"' ∧ c = '\\' then
            if rest.head?.any isBreak then
              some (done, { firstBreak := some [] }, (cursor.skip 1).skipBreak)
            else
              match readEscape? rest with
              | some (c, count) =>
                  readQuotedWord? quote budget (c :: done) (cursor.skip (count + 1))
              | none => none
          else readQuotedWord? quote budget (c :: done) (cursor.skip 1)

/-- The rest of a scalar between quotes, given what is read of it, in reverse. -/
def readQuoted? (quote : Char) : Nat → List Char → Cursor → Option (List Char × Cursor)
  | 0, _, _ => none
  | budget + 1, done, cursor =>
      if cursor.atMark || cursor.rest.isEmpty then none
      else
        match readQuotedWord? quote (budget + 1) done cursor with
        | none => none
        | some (done, gap, cursor) =>
            if cursor.rest.head? = some quote then some (done.reverse, cursor.skip 1)
            else
              match Gap.read? 0 (budget + 1) gap cursor with
              | none => none
              | some (gap, cursor) => readQuoted? quote budget (gap.appendTo done) cursor

end Stencil.Yaml
