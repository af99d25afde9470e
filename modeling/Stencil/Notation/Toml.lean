import Stencil.Notation.Toml.Moment
import Stencil.Notation.Toml.Table
import Stencil.Number.Reading

/-!
# Documents in TOML

A reader for TOML texts. The text consists of lines: entries, headers, and comments. A value may go
on over several lines only inside an array or a long string. A whole number has 64 bits; a float
that is infinite or no number counts as nothing at all. Values may be nested in at most 79 arrays
and tables.

The readers of more than one character take a budget of steps. One step more than the text has
characters is enough for each of them. A value starts with twice as many and hands what is left of
them to the readers of its parts.
-/

namespace Stencil.Toml

open Stencil.Number

/-! ## Blanks and comments -/

/-- The text without the blanks before it. -/
def skipBlanks (text : List Char) : List Char := text.dropWhile fun c => c == ' ' || c == '\t'

/-- A character that may not be written as it is. -/
def isControl (c : Char) : Bool := (c.toNat < 32 && c != '\t') || c.toNat == 127

/-- The text after the end of a line. -/
def endLine? : List Char → Option (List Char)
  | '\n' :: rest => some rest
  | '\r' :: '\n' :: rest => some rest
  | _ => none

/-- The text without the blanks and the comment before it. -/
def skipComment? (text : List Char) : Option (List Char) :=
  match skipBlanks text with
  | '#' :: rest =>
      let ends (c : Char) : Bool := c == '\n' || c == '\r'
      if (rest.takeWhile (!ends ·)).any isControl then none else some (rest.dropWhile (!ends ·))
  | text => some text

/-- The text without the blanks, comments and ends of lines before it. -/
def skipLines? : Nat → List Char → Option (List Char)
  | 0, _ => none
  | budget + 1, text => do
      let text ← skipComment? text
      match endLine? text with
      | some rest => skipLines? budget rest
      | none => return text

/-! ## Strings -/

/-- The character that an escape names, given the text after its backslash. -/
def readEscape? : List Char → Option (Char × List Char)
  | 'b' :: rest => some (Char.ofNat 8, rest)
  | 't' :: rest => some ('\t', rest)
  | 'n' :: rest => some ('\n', rest)
  | 'f' :: rest => some (Char.ofNat 12, rest)
  | 'r' :: rest => some ('\r', rest)
  | '"' :: rest => some ('"', rest)
  | '\\' :: rest => some ('\\', rest)
  | 'u' :: rest => ofCode? 4 rest
  | 'U' :: rest => ofCode? 8 rest
  | _ => none
where
  /-- The character whose code has so many digits of base sixteen. -/
  ofCode? (count : Nat) (text : List Char) : Option (Char × List Char) := do
    let digits := text.take count
    if digits.length < count then none
    else
      let code ← readNat? 16 digits
      let c ← charOfCode? code
      return (c, text.drop count)

/-- The rest of a string on one line, given what is read of it in reverse, and the text after it.
Escapes are read between double quotes only. -/
def readShort? (quote : Char) : Nat → List Char → List Char → Option (String × List Char)
  | 0, _, _ => none
  | budget + 1, done, text =>
      match text with
      | [] => none
      | c :: rest =>
          if c = quote then some (String.ofList done.reverse, rest)
          else if c = '\\' ∧ quote = '"' then
            match readEscape? rest with
            | some (c, rest) => readShort? quote budget (c :: done) rest
            | none => none
          else if isControl c then none
          else readShort? quote budget (c :: done) rest

/-- The text after the end of a line that a backslash before it hides, and after all blanks and ends
of lines that follow. -/
def skipHiddenEnd? (text : List Char) : Option (List Char) :=
  (endLine? (skipBlanks text)).map fun rest =>
    rest.dropWhile fun c => c == ' ' || c == '\t' || c == '\n' || c == '\r'

/-- The rest of a string over several lines, given what is read of it in reverse, and the text after
it. Three quotes end it; one or two more before them belong to it. -/
def readLong? (quote : Char) : Nat → List Char → List Char → Option (String × List Char)
  | 0, _, _ => none
  | budget + 1, done, text =>
      match text with
      | [] => none
      | c :: rest =>
          if c = quote then
            let run := text.takeWhile (· == quote)
            let rest := text.dropWhile (· == quote)
            if run.length < 3 then readLong? quote budget (run ++ done) rest
            else if run.length < 6 then
              some (String.ofList (run.drop 3 ++ done).reverse, rest)
            else none
          else if c = '\\' ∧ quote = '"' then
            match skipHiddenEnd? rest with
            | some rest => readLong? quote budget done rest
            | none =>
                match readEscape? rest with
                | some (c, rest) => readLong? quote budget (c :: done) rest
                | none => none
          else
            match endLine? text with
            | some rest => readLong? quote budget ('\n' :: done) rest
            | none => if isControl c then none else readLong? quote budget (c :: done) rest

/-- A string at the start of a text. An end of a line right after three opening quotes is no part of
it. -/
def readString? (budget : Nat) (text : List Char) : Option (String × List Char) :=
  match text with
  | '"' :: '"' :: '"' :: rest => readLong? '"' budget [] ((endLine? rest).getD rest)
  | '\'' :: '\'' :: '\'' :: rest => readLong? '\'' budget [] ((endLine? rest).getD rest)
  | '"' :: rest => readShort? '"' budget [] rest
  | '\'' :: rest => readShort? '\'' budget [] rest
  | _ => none

/-! ## Keys -/

/-- A character of a name without quotes. -/
def isBare (c : Char) : Bool := c.isAlphanum || c == '_' || c == '-'

/-- A name between dots. -/
def readName? (budget : Nat) (text : List Char) : Option (String × List Char) :=
  match text with
  | '"' :: rest => readShort? '"' budget [] rest
  | '\'' :: rest => readShort? '\'' budget [] rest
  | text =>
      let name := text.takeWhile isBare
      if name.isEmpty then none else some (String.ofList name, text.dropWhile isBare)

/-- A key, and the text after it and the blanks around it. -/
def readKey? : Nat → List String → List Char → Option (Key × List Char)
  | 0, _, _ => none
  | budget + 1, above, text => do
      let (name, rest) ← readName? (budget + 1) (skipBlanks text)
      match skipBlanks rest with
      | '.' :: rest => readKey? budget (name :: above) rest
      | rest => return (⟨above.reverse, name⟩, rest)

/-! ## Numbers -/

/-- The digits at the start of a text, without the single underscores between them, and the text
after them. -/
def readRun? (isDigit : Char → Bool) (text : List Char) : Option (List Char × List Char) :=
  match text with
  | c :: rest =>
      if isDigit c then (more rest).map fun (digits, rest) => (c :: digits, rest) else none
  | [] => none
where
  /-- The digits after the first one. -/
  more : List Char → Option (List Char × List Char)
    | '_' :: c :: rest =>
        if isDigit c then (more rest).map fun (digits, rest) => (c :: digits, rest) else none
    | c :: rest =>
        if isDigit c then (more rest).map fun (digits, rest) => (c :: digits, rest)
        else some ([], c :: rest)
    | [] => some ([], [])

/-- A whole number in another base than ten, given the text after the letter of the base. -/
def readBased? (base : Nat) (text : List Char) : Option (Json × List Char) := do
  let (digits, rest) ← readRun? (fun c => (digitValue? c).any (· < base)) text
  let value ← readNat? base digits
  let int ← exactInt64? value
  return (.int int, rest)

/-- The document that a float is. -/
def ofFloat (x : Float) : Json := if x.isFinite then .float x else .null

/-- The point and the digits after it, when there is a point. -/
def readPlaces? (text : List Char) : Option (List Char × List Char) :=
  match text with
  | '.' :: rest => (readRun? Char.isDigit rest).map fun (digits, rest) => ('.' :: digits, rest)
  | text => some ([], text)

/-- The exponent with its letter, when there is one. -/
def readExponent? (text : List Char) : Option (List Char × List Char) :=
  match text with
  | mark :: rest =>
      if mark = 'e' ∨ mark = 'E' then
        let (sign, rest) := match rest with
          | '-' :: rest => (['e', '-'], rest)
          | '+' :: rest => (['e'], rest)
          | rest => (['e'], rest)
        (readRun? Char.isDigit rest).map fun (digits, rest) => (sign ++ digits, rest)
      else some ([], text)
  | [] => some ([], [])

/-- A number in base ten, given its sign. Only the number zero starts with a zero. -/
def readDecimal? (sign text : List Char) : Option (Json × List Char) := do
  let (whole, rest) ← match text with
    | '0' :: rest => some (['0'], rest)
    | text => readRun? Char.isDigit text
  let (places, rest) ← readPlaces? rest
  let (exponent, rest) ← readExponent? rest
  if places.isEmpty && exponent.isEmpty then
    let int ← readInt64? 10 (sign ++ whole)
    return (.int int, rest)
  else
    let x ← readFloat? (sign ++ whole ++ places ++ exponent)
    if x.isInf && 0 < x then none else return (ofFloat x, rest)

/-- A number at the start of a text, and the text after it. -/
def readNumber? (text : List Char) : Option (Json × List Char) :=
  match text with
  | '0' :: 'x' :: rest => readBased? 16 rest
  | '0' :: 'o' :: rest => readBased? 8 rest
  | '0' :: 'b' :: rest => readBased? 2 rest
  | '-' :: rest => signed ['-'] rest
  | rest => signed [] (match rest with | '+' :: rest => rest | rest => rest)
where
  /-- A number after its sign. -/
  signed (sign : List Char) : List Char → Option (Json × List Char)
    | 'i' :: 'n' :: 'f' :: rest => some (.null, rest)
    | 'n' :: 'a' :: 'n' :: rest => some (.null, rest)
    | text => readDecimal? sign text

/-! ## Values -/

mutual

/-- A value inside so many levels less than the most, and the text after it. -/
def readValue? (levels : Nat) : Nat → List Char → Option (Json × List Char)
  | 0, _ => none
  | budget + 1, text =>
      match text with
      | 't' :: 'r' :: 'u' :: 'e' :: rest => some (.bool true, rest)
      | 'f' :: 'a' :: 'l' :: 's' :: 'e' :: rest => some (.bool false, rest)
      | '[' :: rest => if levels = 0 then none else readItems? (levels - 1) budget [] rest
      | '{' :: rest =>
          if levels = 0 then none
          else match skipBlanks rest with
            | '}' :: rest => some (.object [], rest)
            | rest => readPairs? (levels - 1) budget [] rest
      | text =>
          if text.head? = some '"' ∨ text.head? = some '\'' then
            (readString? (budget + 1) text).map fun (s, rest) => (.string s, rest)
          else match readMoment? text with
            | some moment => some moment
            | none => readNumber? text

/-- The rest of an array after the items that are read, in reverse, and the text after it. A comma
may stand before its end. -/
def readItems? (levels : Nat) : Nat → List Json → List Char → Option (Json × List Char)
  | 0, _, _ => none
  | budget + 1, done, text =>
      match skipLines? (budget + 1) text with
      | some (']' :: rest) => some (.array done.reverse, rest)
      | some text =>
          match readValue? levels budget text with
          | none => none
          | some (item, rest) =>
              match skipLines? (budget + 1) rest with
              | some (',' :: rest) => readItems? levels budget (item :: done) rest
              | some (']' :: rest) => some (.array (item :: done).reverse, rest)
              | _ => none
      | none => none

/-- The rest of a table on one line after the entries that are read, in reverse, and the text after
it. -/
def readPairs? (levels : Nat) : Nat → Pairs → List Char → Option (Json × List Char)
  | 0, _, _ => none
  | budget + 1, done, text =>
      match readKey? (budget + 1) [] text with
      | some (key, '=' :: rest) =>
          match readValue? levels budget (skipBlanks rest) with
          | none => none
          | some (value, rest) =>
              match skipBlanks rest with
              | ',' :: rest => readPairs? levels budget ((key, value) :: done) rest
              | '}' :: rest =>
                  (inlineTable? ((key, value) :: done).reverse).map fun table => (table, rest)
              | _ => none
      | _ => none

end

/-! ## Lines -/

/-- A line that is not blank, and the text after what stands on it. -/
def readLine? (budget : Nat) (text : List Char) : Option (Line × List Char) :=
  match text with
  | '[' :: '[' :: rest =>
      match readKey? budget [] rest with
      | some (key, ']' :: ']' :: rest) => some (.header (.element key), rest)
      | _ => none
  | '[' :: rest =>
      match readKey? budget [] rest with
      | some (key, ']' :: rest) => some (.header (.table key), rest)
      | _ => none
  | text =>
      match readKey? budget [] text with
      | some (key, '=' :: rest) =>
          (readValue? 79 (2 * budget) (skipBlanks rest)).map fun (value, rest) =>
            (.pair key value, rest)
      | _ => none

/-- The lines of a text that are not blank, after those that are read, in reverse. -/
def readLines? : Nat → List Line → List Char → Option (List Line)
  | 0, _, _ => none
  | budget + 1, done, text =>
      match skipLines? (budget + 1) text with
      | none => none
      | some [] => some done.reverse
      | some text =>
          match readLine? (budget + 1) text with
          | none => none
          | some (line, rest) =>
              match skipComment? rest with
              | none => none
              | some [] => some (line :: done).reverse
              | some rest =>
                  match endLine? rest with
                  | some rest => readLines? budget (line :: done) rest
                  | none => none

/-- The entries of the document that a text holds. A mark of the byte order may stand before it. -/
def read? (text : List Char) : Option (List (String × Json)) := do
  let text := match text with
    | '\uFEFF' :: rest => rest
    | text => text
  let lines ← readLines? (text.length + 1) [] text
  assemble? lines

end Stencil.Toml
