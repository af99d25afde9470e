import Stencil.Notation.Yaml.Event
import Stencil.Notation.Yaml.Scalar

/-!
# Documents in YAML

A reader for texts with one YAML document, which is a mapping. The keys of a mapping are the texts
of their scalars; a repeated key keeps its place and takes the last value. An alias stands for the
value that has the anchor. Values may be nested 128 deep, and aliases may be followed a hundred
times as often as the document has events.
-/

namespace Stencil.Yaml

/-- Reads something from the start of events, and gives the events after it. The number is how often
an alias may still be followed. -/
abbrev Reader (α : Type) := List Event → Nat → Option (α × List Event × Nat)

namespace Document

/-- The events from an anchor on. -/
def from? (document : Document) (number : Nat) : Option (List Event) :=
  (document.places.lookup number).map document.events.drop

/-- Reads a value, or the value that an alias stands for. -/
def follow {α : Type} (document : Document) (read : Reader α) : Reader α
  | .alias _ :: _, 0 => none
  | .alias number :: rest, left + 1 => do
      let target ← document.from? number
      let (value, _, left) ← read target left
      return (value, rest, left)
  | events, left => read events left

/-- Reads a key. -/
def readKey : Reader String
  | .scalar _ _ text :: rest, left => some (String.ofList text, rest, left)
  | _, _ => none

/-- Reads the rest of a sequence after the items that are read, in reverse. -/
def readItems (readItem : Reader Json) : Nat → List Json → Reader Json
  | 0, _, _, _ => none
  | _ + 1, done, .sequenceEnd :: rest, left => some (.array done.reverse, rest, left)
  | budget + 1, done, events, left =>
      match readItem events left with
      | some (item, rest, left) => readItems readItem budget (item :: done) rest left
      | none => none

/-- Reads the rest of a mapping after the entries that are read, in reverse. -/
def readPairs (document : Document) (readItem : Reader Json) :
    Nat → List (String × Json) → Reader Json
  | 0, _, _, _ => none
  | _ + 1, done, .mappingEnd :: rest, left =>
      some (.object (Entries.ofPairs done.reverse), rest, left)
  | budget + 1, done, events, left =>
      match document.follow readKey events left with
      | none => none
      | some (key, rest, left) =>
          match readItem rest left with
          | some (value, rest, left) =>
              readPairs document readItem budget ((key, value) :: done) rest left
          | none => none

/-- Has a collection a tag of the document's own? -/
def hasOwnTag (tag : Option String) : Bool := tag.any (·.startsWith "!")

/-- Reads a value that is no alias. Collections are read if there is a way to read their items. -/
def readContent (document : Document) (size : Nat) (readItem : Option (Reader Json)) : Reader Json
  | .scalar tag isPlain text :: rest, left => (content? tag isPlain text).map (·, rest, left)
  | .sequence tag :: rest, left =>
      if hasOwnTag tag then none
      else readItem.bind fun readItem => readItems readItem (size + 1) [] rest left
  | .mapping tag :: rest, left =>
      if hasOwnTag tag then none
      else readItem.bind fun readItem => document.readPairs readItem (size + 1) [] rest left
  | _, _ => none

/-- Reads a value that may be nested in so many collections. -/
def readValue (document : Document) (size : Nat) : Nat → Reader Json
  | 0 => document.follow (document.readContent size none)
  | depth + 1 =>
      document.follow (document.readContent size (some (document.readValue size depth)))

/-- The mapping that a document is. A document that says nothing is an empty mapping. -/
def toJson? (document : Document) : Option Json :=
  let size := document.events.length
  match document.events with
  | [] => some (.object [])
  | .scalar _ true [] :: _ => some (.object [])
  | .mapping _ :: rest =>
      (document.readPairs (document.readValue size 127) (size + 1) [] rest (size * 100)).map
        Prod.fst
  | _ => none

end Document

/-- The mapping that a text holds. A mark of the byte order may stand before the text. -/
def read? (text : List Char) : Option Json := do
  let text := match text with
    | '\uFEFF' :: rest => rest
    | text => text
  if text.all isAllowed then
    let tokens ← Token.ofText? text
    let document ← Document.ofTokens? tokens
    document.toJson?
  else none

end Stencil.Yaml
