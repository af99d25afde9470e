import Stencil.Entries
import Stencil.Notation.Json

/-!
# Tables of a TOML document

A document is a table. It consists of sections: entries of the document itself, and then headers,
each with the entries of the table that it names. A table is written in one place only. So a header
may not name a table that has a header already, or one that keys with dots made, but it may name a
table that came into being because a table inside it has a header; that table then counts as written
here. A key with dots goes into tables that such keys made, and into no others.

## Main results

* `setEntry_of_has`: no entry is set twice.
-/

namespace Stencil.Toml

/-! ## Parts of a document -/

/-- A key: the names of the tables that lead to its place, and its own name. -/
structure Key where
  above : List String
  name : String
  deriving DecidableEq, Repr

/-- What opens a section. -/
inductive Header where
  /-- A table with this name. -/
  | table (key : Key)
  /-- One more table in the list of this name. -/
  | element (key : Key)
  deriving DecidableEq, Repr

/-- Entries of a section, as they are written. -/
abbrev Pairs := List (Key × Json)

/-- A line of a document that is not blank. -/
inductive Line where
  | header (header : Header)
  | pair (key : Key) (value : Json)

/-- What made a table. -/
inductive Origin where
  /-- Its own header. The document itself counts as made in this way. -/
  | header
  /-- The header of a table inside it. -/
  | innerHeader
  /-- A key with dots. -/
  | dots
  deriving DecidableEq, Repr

/-- What a name in a table stands for. -/
inductive Item where
  | value (content : Json)
  | table (origin : Origin) (entries : List (String × Item))
  /-- A list of tables. Only the last one can still grow. -/
  | tables (earlier : List Json) (last : List (String × Item))

mutual

/-- The document that an item is. -/
def Item.toJson : Item → Json
  | .value content => content
  | .table _ entries => .object (entriesToJson entries)
  | .tables earlier last => .array (earlier ++ [.object (entriesToJson last)])

/-- The entries of a table as documents. -/
def entriesToJson : List (String × Item) → List (String × Json)
  | [] => []
  | (name, item) :: rest => (name, item.toJson) :: entriesToJson rest

end

/-! ## Changing tables -/

/-- Changes the table that names lead to. Tables that are missing on the way are made by `maker`.
The way of a key with dots goes through tables that keys with dots made. -/
def changeAt (maker : Origin)
    (change : Origin → Entries Item → Option (Entries Item)) (origin : Origin)
    (entries : Entries Item) : List String → Option (Entries Item)
  | [] => change origin entries
  | name :: rest => do
      let item : Item ← match Entries.find? name entries with
        | none => Item.table maker <$> changeAt maker change maker [] rest
        | some (.table inside items) =>
            if maker = .dots ∧ inside = .header then none
            else Item.table inside <$> changeAt maker change inside items rest
        | some (.tables earlier last) =>
            Item.tables earlier <$> changeAt maker change .header last rest
        | some (.value _) => none
      return Entries.insert name item entries

/-- Sets an entry of a table. A name without dots goes into the table that is being written, one
with dots into a table that such keys made. -/
def setEntry (name : String) (value : Json) (dotted : Bool) (origin : Origin)
    (entries : Entries Item) : Option (Entries Item) :=
  if dotted = decide (origin = .dots) ∧ Entries.has name entries = false then
    some (Entries.insert name (.value value) entries)
  else none

theorem setEntry_of_has {name : String} {entries : Entries Item}
    (h : Entries.has name entries = true) (value : Json) (dotted : Bool) (origin : Origin) :
    setEntry name value dotted origin entries = none := by
  simp [setEntry, h]

/-- Adds entries to a table that is being written. -/
def addPairs (entries : Entries Item) (pairs : Pairs) : Option (Entries Item) :=
  pairs.foldlM
    (fun entries (key, value) =>
      changeAt .dots (setEntry key.name value (!key.above.isEmpty)) .header entries key.above)
    entries

/-- Adds a section to a document. -/
def addSection (document : Entries Item) (opener : Header) (pairs : Pairs) :
    Option (Entries Item) :=
  match opener with
  | .table key =>
      changeAt .innerHeader
        (fun _ entries =>
          match Entries.find? key.name entries with
          | none => do
              let items ← addPairs [] pairs
              return Entries.insert key.name (.table .header items) entries
          | some (.table .innerHeader items) => do
              let items ← addPairs items pairs
              return Entries.insert key.name (.table .header items)
                (Entries.remove key.name entries)
          | some _ => none)
        .header document key.above
  | .element key =>
      changeAt .innerHeader
        (fun _ entries => do
          let items ← addPairs [] pairs
          match Entries.find? key.name entries with
          | none => return Entries.insert key.name (.tables [] items) entries
          | some (.tables earlier last) =>
              let earlier := earlier ++ [.object (entriesToJson last)]
              return Entries.insert key.name (.tables earlier items) entries
          | some _ => none)
        .header document key.above

/-! ## The whole document -/

/-- The entries before the first header, and the sections after them. -/
def sectionsOf : List Line → Pairs × List (Header × Pairs)
  | [] => ([], [])
  | .pair key value :: rest =>
      let (pairs, sections) := sectionsOf rest
      ((key, value) :: pairs, sections)
  | .header opener :: rest =>
      let (pairs, sections) := sectionsOf rest
      ([], (opener, pairs) :: sections)

/-- The entries of the document that consists of these lines. -/
def assemble? (lines : List Line) : Option (List (String × Json)) := do
  let (pairs, sections) := sectionsOf lines
  let document ← addPairs [] pairs
  let document ← sections.foldlM (fun document (opener, pairs) =>
    addSection document opener pairs) document
  return entriesToJson document

/-- The entries of a table that is written on one line. -/
def inlineTable? (pairs : Pairs) : Option Json := do
  let entries ← addPairs [] pairs
  return .object (entriesToJson entries)

end Stencil.Toml
