import Stencil.Notation.Yaml.Cursor
import Stencil.Number.Integer

/-!
# Names, tags and directives

The name of an anchor is a word. A tag is a handle and what follows it; the handle stands for the
text that a directive gives it. A tag may also be written out between angle brackets, and then has
no handle. A directive is a line that starts with a percent sign.
-/

namespace Stencil.Yaml

open Stencil.Number

/-! ## Names -/

/-- Reads the name of an anchor, behind its first character. -/
def readName? (cursor : Cursor) : Option (String × Cursor) :=
  let name := cursor.rest.takeWhile isWordChar
  let after := cursor.skip name.length
  let closers := ['?', ':', ',', ']', '}', '%', '@', Char.ofNat 96]
  if name.isEmpty || !(atBlank after.rest || after.rest.head?.any closers.contains) then none
  else some (String.ofList name, after)

/-! ## Tags -/

/-- A tag: a handle, which may be empty, and what follows it. -/
structure Tag where
  handle : String
  suffix : String
  deriving DecidableEq, Repr

namespace Tag

/-- Reads the octet that a percent sign and two digits of base sixteen name. -/
def readOctet? : List Char → Option Nat
  | '%' :: high :: low :: _ => readNat? 16 [high, low]
  | _ => none

/-- Reads further octets of a character. -/
def readTrailing? (code : Nat) : Nat → Cursor → Option (Nat × Cursor)
  | 0, cursor => some (code, cursor)
  | count + 1, cursor => do
      let octet ← readOctet? cursor.rest
      if octet / 64 = 2 then readTrailing? (code * 64 + octet % 64) count (cursor.skip 3)
      else none

/-- Reads a character that is given by its octets. -/
def readOctets? (cursor : Cursor) : Option (Char × Cursor) := do
  let octet ← readOctet? cursor.rest
  let (code, count) ←
    if octet < 0x80 then some (octet, 0)
    else if octet / 32 = 6 then some (octet % 32, 1)
    else if octet / 16 = 14 then some (octet % 16, 2)
    else if octet / 8 = 30 then some (octet % 8, 3)
    else none
  let (code, cursor) ← readTrailing? code count (cursor.skip 3)
  return (Char.ofNat code, cursor)

/-- A character that a tag may hold. Between angle brackets there are three more. -/
def isTagChar (isVerbatim : Bool) (c : Char) : Bool :=
  isWordChar c || ";/?:@&=+$.%!~*'()".toList.contains c ||
    (isVerbatim && [',', '[', ']'].contains c)

/-- Reads the characters of a tag, which come after those that are given in reverse. -/
def readChars? (isVerbatim : Bool) : Nat → List Char → Cursor → Option (List Char × Cursor)
  | 0, _, _ => none
  | budget + 1, done, cursor =>
      match cursor.rest with
      | [] => some (done.reverse, cursor)
      | c :: _ =>
          if !isTagChar isVerbatim c then some (done.reverse, cursor)
          else if c = '%' then
            match readOctets? cursor with
            | some (c, cursor) => readChars? isVerbatim budget (c :: done) cursor
            | none => none
          else readChars? isVerbatim budget (c :: done) (cursor.skip 1)

/-- Reads characters of a tag, of which there must be some. -/
def readSome? (isVerbatim : Bool) (cursor : Cursor) : Option (String × Cursor) := do
  let (text, after) ← readChars? isVerbatim (cursor.rest.length + 1) [] cursor
  if text.isEmpty then none else some (String.ofList text, after)

/-- The characters of a handle: an exclamation mark, a word, and another mark if there is one. -/
def handleOf (text : List Char) : List Char :=
  let word := (text.drop 1).takeWhile isWordChar
  let name := '!' :: word
  if (text.drop name.length).head? = some '!' then name ++ ['!'] else name

/-- Reads a tag between angle brackets, behind the first of them. -/
def readVerbatim? (cursor : Cursor) : Option (Tag × Cursor) := do
  let (suffix, cursor) ← readSome? true cursor
  if cursor.rest.head? = some '>' then some (⟨"", suffix⟩, cursor.skip 1) else none

/-- Reads a tag with a handle. What looks like a handle without its second mark belongs to what
follows the handle of one mark; if nothing follows that, the mark is the tag. -/
def readShort? (cursor : Cursor) : Option (Tag × Cursor) := do
  let handle := handleOf cursor.rest
  let after := cursor.skip handle.length
  if handle.length > 1 ∧ handle.getLast? = some '!' then
    let (suffix, cursor) ← readSome? false after
    return (⟨String.ofList handle, suffix⟩, cursor)
  else
    let (suffix, cursor) ←
      readChars? false (after.rest.length + 1) (handle.drop 1).reverse after
    if suffix.isEmpty then return (⟨"", "!"⟩, cursor)
    else return (⟨"!", String.ofList suffix⟩, cursor)

/-- Reads a tag. A blank or the end of a line must follow, or a comma between brackets. -/
def read? (inside : Bool) (cursor : Cursor) : Option (Tag × Cursor) := do
  let (tag, cursor) ←
    if (cursor.rest.drop 1).head? = some '<' then readVerbatim? (cursor.skip 2)
    else readShort? cursor
  if atBlank cursor.rest || (inside && cursor.rest.head? == some ',') then some (tag, cursor)
  else none

end Tag

/-! ## Directives -/

/-- What a directive says. -/
inductive Directive where
  /-- The version of the language. -/
  | version (major minor : Nat)
  /-- What a handle stands for. -/
  | handle (name meaning : String)
  deriving DecidableEq, Repr

namespace Directive

/-- Reads a number of at most nine digits. -/
def readNumber? (cursor : Cursor) : Option (Nat × Cursor) := do
  let digits := cursor.rest.takeWhile Char.isDigit
  if 9 < digits.length then none
  else
    let n ← readNat? 10 digits
    return (n, cursor.skip digits.length)

/-- Reads the numbers of a version. -/
def readVersion? (cursor : Cursor) : Option (Directive × Cursor) := do
  let (major, cursor) ← readNumber? cursor.skipBlanks
  if cursor.rest.head? = some '.' then
    let (minor, cursor) ← readNumber? (cursor.skip 1)
    return (.version major minor, cursor)
  else none

/-- Reads a handle and what it stands for. -/
def readHandle? (cursor : Cursor) : Option (Directive × Cursor) := do
  let cursor := cursor.skipBlanks
  if cursor.rest.head? ≠ some '!' then none
  else
    let name := Tag.handleOf cursor.rest
    if name.length > 1 ∧ name.getLast? ≠ some '!' then none
    else
      let cursor := cursor.skip name.length
      if !cursor.rest.head?.any isBlank then none
      else
        let (meaning, cursor) ← Tag.readSome? true cursor.skipBlanks
        if atBlank cursor.rest then
          return (.handle (String.ofList name) meaning, cursor)
        else none

/-- Reads a directive, behind its percent sign, and the rest of its line. -/
def read? (cursor : Cursor) : Option (Directive × Cursor) := do
  let name := cursor.rest.takeWhile isWordChar
  let cursor := cursor.skip name.length
  if !atBlank cursor.rest then none
  else
    let (directive, cursor) ← match String.ofList name with
      | "YAML" => readVersion? cursor
      | "TAG" => readHandle? cursor
      | _ => none
    let cursor := cursor.skipBlanks.skipComment
    if atBreak cursor.rest then some (directive, cursor.skipBreak) else none

end Directive

end Stencil.Yaml
