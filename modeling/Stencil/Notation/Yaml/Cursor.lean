/-!
# Places in a YAML text

A cursor stands at a place in a text and knows its line, its column, and how many characters are
before it. Four characters end a line besides the line feed; all but two of them are read as one.
-/

namespace Stencil.Yaml

/-- A space or a tab. -/
def isBlank (c : Char) : Bool := c == ' ' || c == '\t'

/-- A character that ends a line. -/
def isBreak (c : Char) : Bool :=
  c == '\n' || c == '\r' || c == '\u0085' || c == '\u2028' || c == '\u2029'

/-- A character of a word. -/
def isWordChar (c : Char) : Bool := c.isAlphanum || c == '_' || c == '-'

/-- A character that a text may hold. -/
def isAllowed (c : Char) : Bool :=
  let code := c.toNat
  c == '\t' || c == '\n' || c == '\r' || (0x20 ≤ code && code ≤ 0x7E) || code == 0x85 ||
    (0xA0 ≤ code && code != 0xFFFE && code != 0xFFFF)

/-- Is the text at a blank, at the end of a line, or at its own end? -/
def atBlank (text : List Char) : Bool := text.head?.all fun c => isBlank c || isBreak c

/-- Is the text at the end of a line, or at its own end? -/
def atBreak (text : List Char) : Bool := text.head?.all isBreak

/-- A place in a text. -/
structure Cursor where
  rest : List Char
  index : Nat := 0
  line : Nat := 0
  column : Nat := 0

namespace Cursor

/-- The cursor some characters further on the same line. -/
def skip (cursor : Cursor) (count : Nat) : Cursor :=
  { cursor with
    rest := cursor.rest.drop count
    index := cursor.index + count
    column := cursor.column + count }

/-- The cursor behind the characters that pass a test. -/
def skipWhile (cursor : Cursor) (test : Char → Bool) : Cursor :=
  cursor.skip (cursor.rest.takeWhile test).length

/-- The cursor behind blanks. -/
def skipBlanks (cursor : Cursor) : Cursor := cursor.skipWhile isBlank

/-- The cursor behind a comment, if there is one. -/
def skipComment (cursor : Cursor) : Cursor :=
  if cursor.rest.head? = some '#' then cursor.skipWhile (!isBreak ·) else cursor

/-- The cursor at the start of the next line, if it is at the end of one. -/
def skipBreak (cursor : Cursor) : Cursor :=
  match cursor.rest with
  | '\r' :: '\n' :: rest => ⟨rest, cursor.index + 2, cursor.line + 1, 0⟩
  | c :: rest => if isBreak c then ⟨rest, cursor.index + 1, cursor.line + 1, 0⟩ else cursor
  | [] => cursor

/-- The end of a line at the cursor, as it is read. -/
def breakText (cursor : Cursor) : List Char :=
  match cursor.rest with
  | c :: _ =>
      if c == '\u2028' || c == '\u2029' then [c] else if isBreak c then ['\n'] else []
  | [] => []

/-- Is a mark of the start of a document here? -/
def atStartMark (cursor : Cursor) : Bool :=
  cursor.column == 0 && "---".toList.isPrefixOf cursor.rest && atBlank (cursor.rest.drop 3)

/-- Is a mark of the end of a document here? -/
def atEndMark (cursor : Cursor) : Bool :=
  cursor.column == 0 && "...".toList.isPrefixOf cursor.rest && atBlank (cursor.rest.drop 3)

/-- Is a mark between documents here? -/
def atMark (cursor : Cursor) : Bool := cursor.atStartMark || cursor.atEndMark

end Cursor

end Stencil.Yaml
