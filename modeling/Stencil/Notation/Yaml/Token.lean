import Stencil.Notation.Yaml.Block
import Stencil.Notation.Yaml.Folded
import Stencil.Notation.Yaml.Tag

/-!
# Tokens of YAML

The tokens of a text. The columns at which lines start open and close collections, and tokens say
where that happens. A key is only known as such at the colon after it, so the place of what may be a
key is remembered until then: it must be on one line, of at most 1024 characters, and the token that
marks it is put in front of it afterwards.

Between brackets the columns say nothing.
-/

namespace Stencil.Yaml

/-- A token. -/
inductive Token where
  | directive (directive : Directive)
  | documentStart
  | documentEnd
  /-- A sequence that is laid out by columns starts. -/
  | blockSequence
  /-- A mapping that is laid out by columns starts. -/
  | blockMapping
  /-- A collection that is laid out by columns ends. -/
  | blockEnd
  | openSequence
  | closeSequence
  | openMapping
  | closeMapping
  /-- A dash, in front of an item. -/
  | item
  | comma
  | key
  /-- A colon, in front of a value. -/
  | value
  | alias (name : String)
  | anchor (name : String)
  | tag (tag : Tag)
  | scalar (isPlain : Bool) (text : List Char)
  deriving DecidableEq, Repr

namespace Token

/-- What may be a key: where it starts, how many tokens are before it, and whether it must be one,
because it starts at the column of the mapping that it is in. -/
structure Candidate where
  isRequired : Bool
  position : Nat
  index : Nat
  line : Nat
  column : Nat

/-- The state of the reading: the place in the text, the columns of the open collections, the
innermost first, what may be a key at each level of brackets, the innermost first, whether a key may
start here, and the tokens so far, in reverse. -/
structure State where
  cursor : Cursor
  columns : List Nat := []
  candidate : Option Candidate := none
  outerCandidates : List (Option Candidate) := []
  keyAllowed : Bool := true
  tokens : List Token := []
  count : Nat := 0

namespace State

/-- Is this place between brackets? -/
def inside (state : State) : Bool := !state.outerCandidates.isEmpty

/-- Adds a token. -/
def emit (state : State) (token : Token) : State :=
  { state with tokens := token :: state.tokens, count := state.count + 1 }

/-- Adds a token behind the given number of tokens. -/
def insert (state : State) (position : Nat) (token : Token) : State :=
  let later := state.count - position
  { state with
    tokens := state.tokens.take later ++ token :: state.tokens.drop later
    count := state.count + 1 }

/-- The state some characters further on. -/
def skip (state : State) (count : Nat) : State := { state with cursor := state.cursor.skip count }

/-- The least column at which a scalar may go on: right of the innermost collection. -/
def leastColumn (state : State) : Nat := (state.columns.head?.map (· + 1)).getD 0

/-! ## Keys -/

/-- Gives a candidate up, unless it must be a key. -/
def giveUp? : Option Candidate → Option (Option Candidate)
  | some candidate => if candidate.isRequired then none else some none
  | none => some none

/-- Gives up the candidate of this level. -/
def dropCandidate? (state : State) : Option State :=
  (giveUp? state.candidate).map fun candidate => { state with candidate }

/-- Gives a candidate up that the cursor is too far away from. -/
def dropIfStale? (cursor : Cursor) (candidate : Option Candidate) : Option (Option Candidate) :=
  if candidate.any fun c => c.line < cursor.line || c.index + 1024 < cursor.index then
    giveUp? candidate
  else some candidate

/-- Gives up all candidates that are too far away. -/
def dropStale? (state : State) : Option State := do
  let candidate ← dropIfStale? state.cursor state.candidate
  let outerCandidates ← state.outerCandidates.mapM (dropIfStale? state.cursor)
  return { state with candidate, outerCandidates }

/-- Remembers that a key may start here. -/
def saveCandidate? (state : State) : Option State :=
  if state.keyAllowed then do
    let cursor := state.cursor
    let isRequired := !state.inside && state.columns.head? == some cursor.column
    let state ← state.dropCandidate?
    return { state with
      candidate := some ⟨isRequired, state.count, cursor.index, cursor.line, cursor.column⟩ }
  else some state

/-! ## Columns -/

/-- Opens a collection at a column behind the given number of tokens, if the column is right of
those of all open ones. -/
def openAt (state : State) (column position : Nat) (token : Token) : State :=
  if state.inside || state.columns.head?.any (column ≤ ·) then state
  else { state.insert position token with columns := column :: state.columns }

/-- Opens a collection here. -/
def openHere (state : State) (token : Token) : State :=
  state.openAt state.cursor.column state.count token

/-- Closes the collections that start right of a column. -/
def closeFrom (column : Nat) : List Nat → State → State
  | [], state => state
  | last :: rest, state =>
      if column < last then closeFrom column rest { state.emit .blockEnd with columns := rest }
      else state

/-- Closes the collections that end at this column. -/
def closeHere (state : State) : State :=
  if state.inside then state else closeFrom state.cursor.column state.columns state

/-- Closes all collections. -/
def closeAll (state : State) : State :=
  if state.inside then state
  else state.columns.foldl (fun state _ => state.emit .blockEnd) { state with columns := [] }

/-! ## Space -/

/-- Goes on to the next token: over spaces, comments and ends of lines, and over tabs where no key
may start. -/
def skipSpace : Nat → State → State
  | 0, state => state
  | budget + 1, state =>
      let cursor := state.cursor
      let cursor := if cursor.column = 0 ∧ cursor.rest.head? = some '\uFEFF' then cursor.skip 1
        else cursor
      let tabs := state.inside || !state.keyAllowed
      let cursor := (cursor.skipWhile fun c => c == ' ' || (tabs && c == '\t')).skipComment
      if cursor.rest.head?.any isBreak then
        skipSpace budget { state with
          cursor := cursor.skipBreak
          keyAllowed := state.keyAllowed || !state.inside }
      else { state with cursor }

/-! ## Tokens -/

/-- Reads a directive. -/
def readDirective? (state : State) : Option State := do
  let state ← state.closeAll.dropCandidate?
  let (content, cursor) ← Directive.read? (state.cursor.skip 1)
  return { state with cursor, keyAllowed := false }.emit (.directive content)

/-- Reads a mark between documents. -/
def readMark? (state : State) (token : Token) : Option State := do
  let state ← state.closeAll.dropCandidate?
  return ({ state with keyAllowed := false }.emit token).skip 3

/-- Reads an opening bracket. -/
def readOpening? (state : State) (token : Token) : Option State := do
  let state ← state.saveCandidate?
  let state := { state with
    candidate := none
    outerCandidates := state.candidate :: state.outerCandidates
    keyAllowed := true }
  return (state.emit token).skip 1

/-- Reads a closing bracket. -/
def readClosing? (state : State) (token : Token) : Option State := do
  let state ← state.dropCandidate?
  let state := match state.outerCandidates with
    | candidate :: outerCandidates => { state with candidate, outerCandidates }
    | [] => state
  return ({ state with keyAllowed := false }.emit token).skip 1

/-- Reads a comma. -/
def readComma? (state : State) : Option State := do
  let state ← state.dropCandidate?
  return ({ state with keyAllowed := true }.emit .comma).skip 1

/-- Reads a dash in front of an item. -/
def readItem? (state : State) : Option State := do
  if !state.inside && !state.keyAllowed then none
  else
    let state ← (state.openHere .blockSequence).dropCandidate?
    return ({ state with keyAllowed := true }.emit .item).skip 1

/-- Reads a question mark in front of a key. -/
def readKey? (state : State) : Option State := do
  if !state.inside && !state.keyAllowed then none
  else
    let state ← (state.openHere .blockMapping).dropCandidate?
    return ({ state with keyAllowed := !state.inside }.emit .key).skip 1

/-- Reads a colon in front of a value. It makes a key of what may be one. -/
def readValue? (state : State) : Option State :=
  match state.candidate with
  | some candidate =>
      let state := (state.insert candidate.position .key).openAt candidate.column
        candidate.position .blockMapping
      some (({ state with candidate := none, keyAllowed := false }.emit .value).skip 1)
  | none =>
      if !state.inside && !state.keyAllowed then none
      else
        let state := state.openHere .blockMapping
        some (({ state with keyAllowed := !state.inside }.emit .value).skip 1)

/-- Reads the name of an anchor, in front of a value or in place of one. -/
def readAnchor? (state : State) (token : String → Token) : Option State := do
  let state ← state.saveCandidate?
  let (name, cursor) ← readName? (state.cursor.skip 1)
  return { state with cursor, keyAllowed := false }.emit (token name)

/-- Reads a tag. -/
def readTag? (state : State) : Option State := do
  let state ← state.saveCandidate?
  let (content, cursor) ← Tag.read? state.inside state.cursor
  return { state with cursor, keyAllowed := false }.emit (.tag content)

/-- Reads a block of text. -/
def readBlock? (state : State) (isLiteral : Bool) (budget : Nat) : Option State := do
  let state ← state.dropCandidate?
  let (text, cursor) ← Block.read? isLiteral state.columns.head? budget (state.cursor.skip 1)
  return { state with cursor, keyAllowed := true }.emit (.scalar false text)

/-- Reads a scalar between quotes. -/
def readQuotes? (state : State) (quote : Char) (budget : Nat) : Option State := do
  let state ← state.saveCandidate?
  let (text, cursor) ← readQuoted? quote budget [] (state.cursor.skip 1)
  return { state with cursor, keyAllowed := false }.emit (.scalar false text)

/-- Reads a scalar without quotes. -/
def readWords? (state : State) (budget : Nat) : Option State := do
  let state ← state.saveCandidate?
  let plain ← readPlain? state.inside state.leastColumn budget {} [] state.cursor
  let state := { state with cursor := plain.cursor, keyAllowed := plain.endsLine }
  return state.emit (.scalar true plain.text)

/-- The characters that start something else than a scalar without quotes, or nothing. -/
def indicators : List Char :=
  ['-', '?', ':', ',', '[', ']', '{', '}', '#', '&', '*', '!', '|', '>', '\'', '"', '%', '@',
    Char.ofNat 96]

/-- Reads the token here, which starts with the given character. -/
def readToken? (state : State) (budget : Nat) (c : Char) (rest : List Char) : Option State :=
  let alone := state.inside || atBlank rest
  if c = '%' ∧ state.cursor.column = 0 then state.readDirective?
  else if state.cursor.atStartMark then state.readMark? .documentStart
  else if state.cursor.atEndMark then state.readMark? .documentEnd
  else if c = '[' then state.readOpening? .openSequence
  else if c = '{' then state.readOpening? .openMapping
  else if c = ']' then state.readClosing? .closeSequence
  else if c = '}' then state.readClosing? .closeMapping
  else if c = ',' then state.readComma?
  else if c = '-' ∧ atBlank rest then state.readItem?
  else if c = '?' ∧ alone then state.readKey?
  else if c = ':' ∧ alone then state.readValue?
  else if c = '*' then state.readAnchor? .alias
  else if c = '&' then state.readAnchor? .anchor
  else if c = '!' then state.readTag?
  else if c = '|' ∧ !state.inside then state.readBlock? true budget
  else if c = '>' ∧ !state.inside then state.readBlock? false budget
  else if c = '\'' ∨ c = '"' then state.readQuotes? c budget
  else if c = '-' ∨ c = '?' ∨ c = ':' then state.readWords? budget
  else if isBlank c || indicators.contains c then none
  else state.readWords? budget

/-- Reads the tokens from a state on. The budget is greater than the number of characters that are
left, and is handed on. -/
def readAll? : Nat → State → Option (List Token)
  | 0, _ => none
  | budget + 1, state => do
      let state := state.skipSpace (budget + 1)
      let state ← state.dropStale?
      match state.cursor.rest with
      | [] =>
          let state ← state.closeAll.dropCandidate?
          return state.tokens.reverse
      | c :: rest => readAll? budget (← state.closeHere.readToken? (budget + 1) c rest)

end State

/-- The tokens of a text. -/
def ofText? (text : List Char) : Option (List Token) :=
  State.readAll? (text.length + 1) { cursor := { rest := text } }

end Token

end Stencil.Yaml
