import Stencil.Notation.Yaml.Token

/-!
# Events of a YAML document

What the tokens of a document say, in order: scalars, and the starts and the ends of collections.
The reading keeps a stack of what it expects. A value that is missing is an empty scalar.

Anchors are numbered. Each takes the number of names that are known before it, so a name that comes
again may share its number with the next new name; the place that got a number last has it.
-/

namespace Stencil.Yaml

/-- Something that a document says. A scalar or collection may have a tag; an alias has the number
of an anchor. -/
inductive Event where
  | alias (number : Nat)
  | scalar (tag : Option String) (isPlain : Bool) (text : List Char)
  | sequence (tag : Option String)
  | sequenceEnd
  | mapping (tag : Option String)
  | mappingEnd
  deriving DecidableEq, Repr

/-- What a document says, and how many events are before the anchor of each number. -/
structure Document where
  events : List Event
  places : List (Nat × Nat) := []

namespace Event

/-- A missing value. -/
def empty : Event := .scalar none true []

/-- What handles of tags stand for. -/
abbrev Handles := List (String × String)

/-- The handles that need no directive. -/
def standardHandles : Handles := [("!", "!"), ("!!", "tag:yaml.org,2002:")]

/-- The text of a tag. -/
def tagText? (handles : Handles) (tag : Tag) : Option String :=
  if tag.handle = "" then some tag.suffix
  else (handles.lookup tag.handle).map (· ++ tag.suffix)

/-- What is expected next. -/
inductive Expected where
  /-- A value. Where it may be laid out by columns, and where an item may start at the column of the
  mapping that it is in, is said. -/
  | node (isBlock isIndentless : Bool)
  | item
  | indentlessItem
  | key
  | value
  | firstElement
  | element
  /-- The key of a mapping of one entry in a sequence between brackets. -/
  | pairKey
  | pairValue
  | pairEnd
  | firstEntry
  | entry
  | entryValue
  /-- The value of an entry that consists of a key only. -/
  | noValue
  deriving DecidableEq, Repr

/-- The tokens that are left, what is expected, the innermost first, the events so far, in reverse,
the numbers of the anchors, and their places. -/
structure State where
  tokens : List Token
  expected : List Expected
  events : List Event := []
  count : Nat := 0
  numbers : List (String × Nat) := []
  places : List (Nat × Nat) := []

namespace State

/-- Adds an event. -/
def emit (state : State) (event : Event) : State :=
  { state with events := event :: state.events, count := state.count + 1 }

/-- Numbers the anchor of the next event. -/
def anchor (state : State) : Option String → State
  | none => state
  | some name =>
      let number := state.numbers.length
      { state with
        numbers := Entries.insert name number state.numbers
        places := (number, state.count) :: state.places }

/-- Goes on with these tokens and expectations. -/
def go (state : State) (tokens : List Token) (expected : List Expected) : State :=
  { state with tokens, expected }

/-- The anchor and the tag at the start of tokens, and the tokens after them. -/
def properties? (handles : Handles) :
    List Token → Option (Option String × Option String × List Token)
  | .anchor name :: .tag tag :: rest => (tagText? handles tag).map (some name, some ·, rest)
  | .anchor name :: rest => some (some name, none, rest)
  | .tag tag :: .anchor name :: rest => (tagText? handles tag).map (some name, some ·, rest)
  | .tag tag :: rest => (tagText? handles tag).map (none, some ·, rest)
  | tokens => some (none, none, tokens)

/-- Reads a value behind its anchor and tag. A scalar with the tag of one mark has none. -/
def content? (state : State) (isBlock isIndentless : Bool) (anchor tag : Option String)
    (tokens : List Token) (expected : List Expected) : Option State :=
  match tokens, isBlock with
  | .item :: _, _ =>
      if isIndentless then
        some (((state.anchor anchor).emit (.sequence tag)).go tokens (.indentlessItem :: expected))
      else bare tokens
  | .scalar isPlain text :: rest, _ =>
      let tag := if tag = some "!" then none else tag
      some (((state.anchor anchor).emit (.scalar tag isPlain text)).go rest expected)
  | .openSequence :: rest, _ =>
      some (((state.anchor anchor).emit (.sequence tag)).go rest (.firstElement :: expected))
  | .openMapping :: rest, _ =>
      some (((state.anchor anchor).emit (.mapping tag)).go rest (.firstEntry :: expected))
  | .blockSequence :: rest, true =>
      some (((state.anchor anchor).emit (.sequence tag)).go rest (.item :: expected))
  | .blockMapping :: rest, true =>
      some (((state.anchor anchor).emit (.mapping tag)).go rest (.key :: expected))
  | tokens, _ => bare tokens
where
  /-- An anchor or a tag may stand alone. -/
  bare (tokens : List Token) : Option State :=
    if anchor.isSome || tag.isSome then
      some (((state.anchor anchor).emit (.scalar tag true [])).go tokens expected)
    else none

/-- Reads a value, or an alias in place of one. -/
def node? (handles : Handles) (state : State) (isBlock isIndentless : Bool)
    (expected : List Expected) : Option State :=
  match state.tokens with
  | .alias name :: rest =>
      (Entries.find? name state.numbers).map fun number =>
        (state.emit (.alias number)).go rest expected
  | tokens =>
      match properties? handles tokens with
      | some (anchor, tag, rest) =>
          state.content? isBlock isIndentless anchor tag rest expected
      | none => none

/-- Goes on to a value behind a token of its own, unless one of the given tokens comes first. -/
def nodeUnless (state : State) (ends : List Token) (node : Expected) (rest : List Token)
    (expected : List Expected) : State :=
  match rest with
  | token :: _ =>
      if ends.contains token then (state.emit .empty).go rest expected
      else state.go rest (node :: expected)
  | [] => state.go rest (node :: expected)

/-- An element of a sequence between brackets. -/
def element? (state : State) (tokens : List Token) (expected : List Expected) : Option State :=
  match tokens with
  | .closeSequence :: rest => some ((state.emit .sequenceEnd).go rest expected)
  | .key :: rest => some ((state.emit (.mapping none)).go rest
      (.pairKey :: .element :: expected))
  | tokens => some (state.go tokens (.node false false :: .element :: expected))

/-- An entry of a mapping between brackets. -/
def entry? (state : State) (tokens : List Token) (expected : List Expected) : Option State :=
  match tokens with
  | .closeMapping :: rest => some ((state.emit .mappingEnd).go rest expected)
  | .key :: rest =>
      some (state.nodeUnless [.value, .comma, .closeMapping] (.node false false) rest
        (.entryValue :: expected))
  | tokens => some (state.go tokens (.node false false :: .noValue :: expected))

/-- Takes one step: what is expected first is looked for. -/
def step? (handles : Handles) (state : State) (first : Expected) (expected : List Expected) :
    Option State :=
  match first, state.tokens with
  | .node isBlock isIndentless, _ => state.node? handles isBlock isIndentless expected
  | .item, .item :: rest =>
      some (state.nodeUnless [.item, .blockEnd] (.node true false) rest (.item :: expected))
  | .item, .blockEnd :: rest => some ((state.emit .sequenceEnd).go rest expected)
  | .indentlessItem, .item :: rest =>
      some (state.nodeUnless [.item, .key, .value, .blockEnd] (.node true false) rest
        (.indentlessItem :: expected))
  | .indentlessItem, tokens => some ((state.emit .sequenceEnd).go tokens expected)
  | .key, .key :: rest =>
      some (state.nodeUnless [.key, .value, .blockEnd] (.node true true) rest (.value :: expected))
  | .key, .blockEnd :: rest => some ((state.emit .mappingEnd).go rest expected)
  | .value, .value :: rest =>
      some (state.nodeUnless [.key, .value, .blockEnd] (.node true true) rest (.key :: expected))
  | .value, tokens => some ((state.emit .empty).go tokens (.key :: expected))
  | .firstElement, tokens => state.element? tokens expected
  | .element, .comma :: rest => state.element? rest expected
  | .element, .closeSequence :: rest => some ((state.emit .sequenceEnd).go rest expected)
  | .pairKey, token :: rest =>
      if [Token.value, .comma, .closeSequence].contains token then
        some ((state.emit .empty).go rest (.pairValue :: expected))
      else some (state.go (token :: rest) (.node false false :: .pairValue :: expected))
  | .pairValue, .value :: rest =>
      some (state.nodeUnless [.comma, .closeSequence] (.node false false) rest
        (.pairEnd :: expected))
  | .pairValue, tokens => some ((state.emit .empty).go tokens (.pairEnd :: expected))
  | .pairEnd, tokens => some ((state.emit .mappingEnd).go tokens expected)
  | .firstEntry, tokens => state.entry? tokens expected
  | .entry, .comma :: rest => state.entry? rest expected
  | .entry, .closeMapping :: rest => some ((state.emit .mappingEnd).go rest expected)
  | .entryValue, .value :: rest =>
      some (state.nodeUnless [.comma, .closeMapping] (.node false false) rest (.entry :: expected))
  | .entryValue, tokens => some ((state.emit .empty).go tokens (.entry :: expected))
  | .noValue, tokens => some ((state.emit .empty).go tokens (.entry :: expected))
  | _, _ => none

/-- Takes steps until nothing more is expected. -/
def run? (handles : Handles) (state : State) : Nat → Option State
  | 0 => none
  | budget + 1 =>
      match state.expected with
      | [] => some state
      | first :: expected =>
          match state.step? handles first expected with
          | some state => run? handles state budget
          | none => none

end State

/-! ## Documents -/

/-- Adds what a directive says. No handle may be named twice, and so may the version; the version
must be known. -/
def addDirective? (isVersioned : Bool) (handles : Handles) :
    Directive → Option (Bool × Handles)
  | .version major minor =>
      if !isVersioned && major == 1 && (minor == 1 || minor == 2) then some (true, handles)
      else none
  | .handle name meaning =>
      if (handles.lookup name).isSome then none
      else some (isVersioned, handles ++ [(name, meaning)])

/-- The handles that the directives at the start name, and the tokens after them. -/
def readDirectives? (isVersioned : Bool) (handles : Handles) :
    List Token → Option (Handles × List Token)
  | .directive directive :: rest =>
      match addDirective? isVersioned handles directive with
      | some (isVersioned, handles) => readDirectives? isVersioned handles rest
      | none => none
  | tokens => some (handles, tokens)

end Event

namespace Document

/-- The document whose value starts here. Only marks of its end may follow it. -/
def ofContent? (handles : Event.Handles) (tokens : List Token) : Option Document := do
  let start : Event.State := { tokens, expected := [.node true false] }
  let done ← start.run? (handles ++ Event.standardHandles) (8 * tokens.length + 8)
  if done.tokens.all (· == .documentEnd) then some ⟨done.events.reverse, done.places⟩ else none

/-- The only document that tokens hold. It says nothing if there are no tokens. -/
def ofTokens? (tokens : List Token) : Option Document := do
  if tokens.isEmpty then return { events := [] }
  else
    let (handles, content) ← Event.readDirectives? false [] tokens
    match content with
    | .documentStart :: rest =>
        if rest.all (· == .documentEnd) then return { events := [.empty] }
        else ofContent? handles rest
    | content => if content.length = tokens.length then ofContent? [] content else none

end Document

end Stencil.Yaml
