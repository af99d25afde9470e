import Stencil.Notation.Yaml.Cursor

/-!
# Blocks of text

A scalar that is written on lines of its own, below a header. A literal block keeps the ends of its
lines, and a folded one reads an end as a space between two lines that start with no blank. The
header may say how far the lines are indented, and what is done with the ends of lines after the
last line: one is kept, or all, or none.
-/

namespace Stencil.Yaml.Block

/-- Which ends of lines are kept after the last line. -/
inductive Chomping where
  | keepOne
  | keepAll
  | keepNone
  deriving DecidableEq, Repr

/-- What the header of a block says. An indentation of zero is to be found out. -/
structure Header where
  chomping : Chomping := .keepOne
  indentation : Nat := 0

/-- How a character of the header says which ends of lines are kept. -/
def chomping? : Option Char → Option Chomping
  | some '+' => some .keepAll
  | some '-' => some .keepNone
  | _ => none

/-- The indentation that a digit names, and how many characters that takes. A zero is refused. -/
def indentation? (text : List Char) : Option (Nat × Nat) :=
  match text with
  | c :: _ =>
      if c = '0' then none
      else if c.isDigit then some (c.toNat - '0'.toNat, 1)
      else some (0, 0)
  | [] => some (0, 0)

/-- Reads a header behind its first character, up to the next line. -/
def readHeader? (cursor : Cursor) : Option (Header × Cursor) := do
  let (header, cursor) ← match chomping? cursor.rest.head? with
    | some chomping => do
        let cursor := cursor.skip 1
        let (indentation, count) ← indentation? cursor.rest
        some (({ chomping, indentation } : Header), cursor.skip count)
    | none => do
        let (indentation, count) ← indentation? cursor.rest
        let cursor := cursor.skip count
        match count, chomping? cursor.rest.head? with
        | 1, some chomping => some (({ chomping, indentation } : Header), cursor.skip 1)
        | _, _ => some (({ indentation } : Header), cursor)
  let cursor := cursor.skipBlanks.skipComment
  if atBreak cursor.rest then some (header, cursor.skipBreak) else none

/-- The empty lines before a line of the block. -/
structure Before where
  indentation : Nat
  breaks : List Char
  cursor : Cursor

/-- Reads empty lines, whose ends are given in reverse, and the indentation of the line after them.
If the indentation is to be found out, it is that of the most indented of these lines, and at least
the given one. -/
def readBefore? (least indentation : Nat) : Nat → Nat → List Char → Cursor → Option Before
  | 0, _, _, _ => none
  | budget + 1, greatest, breaks, cursor =>
      let spaces := cursor.rest.takeWhile (· == ' ')
      let spaces :=
        if indentation = 0 then spaces else spaces.take (indentation - cursor.column)
      let cursor := cursor.skip spaces.length
      let greatest := max greatest cursor.column
      let isShort := indentation = 0 || cursor.column < indentation
      if isShort && cursor.rest.head? == some '\t' then none
      else if cursor.rest.head?.any isBreak then
        readBefore? least indentation budget greatest (cursor.breakText.reverse ++ breaks)
          cursor.skipBreak
      else
        let found := if indentation = 0 then max greatest (max least 1) else indentation
        some ⟨found, breaks, cursor⟩

/-- The lines of a block that are read: their text in reverse, the end of the last one, the ends of
the empty lines after it, in reverse, and whether the last one starts with a blank. -/
structure Lines where
  text : List Char := []
  lastBreak : List Char := []
  moreBreaks : List Char := []
  startsBlank : Bool := false

/-- Adds a line, whose text is given in reverse. -/
def Lines.add (isLiteral : Bool) (lines : Lines) (line : List Char) (startsBlank : Bool) : Lines :=
  let isFolded := !isLiteral && lines.lastBreak == ['\n'] && !lines.startsBlank && !startsBlank
  let between :=
    if !isFolded then lines.lastBreak else if lines.moreBreaks.isEmpty then [' '] else []
  { text := line ++ (lines.moreBreaks ++ (between ++ lines.text)), startsBlank }

/-- The text of a block. -/
def Lines.toText (lines : Lines) : Chomping → List Char
  | .keepNone => lines.text.reverse
  | .keepOne => (lines.lastBreak ++ lines.text).reverse
  | .keepAll => (lines.moreBreaks ++ (lines.lastBreak ++ lines.text)).reverse

/-- Reads the lines that start at the given column. -/
def readLines? (isLiteral : Bool) (indentation : Nat) :
    Nat → Lines → Cursor → Option (Lines × Cursor)
  | 0, _, _ => none
  | budget + 1, lines, cursor =>
      if cursor.column ≠ indentation ∨ cursor.rest = [] then some (lines, cursor)
      else
        let line := (cursor.rest.takeWhile (!isBreak ·)).reverse
        let startsBlank := cursor.rest.head?.any isBlank
        let lines := lines.add isLiteral line startsBlank
        let cursor := cursor.skip line.length
        match readBefore? 1 indentation (budget + 1) 0 [] cursor.skipBreak with
        | none => none
        | some after =>
            readLines? isLiteral indentation budget
              { lines with lastBreak := cursor.breakText, moreBreaks := after.breaks } after.cursor

/-- Reads a block behind the first character of its header, inside of a collection at the given
column, or of none. -/
def read? (isLiteral : Bool) (outer : Option Nat) (budget : Nat) (cursor : Cursor) :
    Option (List Char × Cursor) := do
  let (header, cursor) ← readHeader? cursor
  let least := (outer.map (· + 1)).getD 0
  let named := if header.indentation = 0 then 0 else outer.getD 0 + header.indentation
  let start ← readBefore? least named budget 0 [] cursor
  let (lines, cursor) ← readLines? isLiteral start.indentation budget
    { moreBreaks := start.breaks } start.cursor
  return (lines.toText header.chomping, cursor)

end Stencil.Yaml.Block
