import Stencil.Text.Casing
import Stencil.Value.Operator

/-!
# Methods

The functions that belong to strings, lists and dictionaries. A method is taken from its value first
and called later, so it carries its value with it.

The one method that has to look up attributes, the formatting of a string, is not among the
functions here: what it asks for may reach beyond plain values.

## Main results

* `hasMethod_iff`: which names are methods of which values.
-/

namespace Stencil

open Stencil.Text

/-- The methods of strings. -/
def stringMethods : List String :=
  ["capitalize", "count", "endswith", "find", "format", "isdigit", "join", "ljust", "lower",
    "lstrip", "replace", "rjust", "rstrip", "split", "startswith", "strip", "title", "upper"]

/-- The methods of lists. -/
def listMethods : List String := ["count", "index"]

/-- The methods of dictionaries. -/
def dictMethods : List String := ["get", "items", "keys", "values"]

/-- The names of a value's methods. -/
def Value.methods : Value → List String
  | .string _ _ => stringMethods
  | .list _ _ => listMethods
  | .dict _ _ => dictMethods
  | _ => []

/-- Has the value a method of this name? -/
def Value.hasMethod (value : Value) (name : String) : Bool := value.methods.contains name

theorem Value.hasMethod_iff {value : Value} {name : String} :
    value.hasMethod name = true ↔ name ∈ value.methods := by
  simp [Value.hasMethod]

/-! ## Strings -/

/-- The string argument at a place; it may be absent. -/
def optionalString (arguments : Arguments) (place : Nat) (role : String) :
    Except Fault (Option String) :=
  match arguments.get? place with
  | none => .ok none
  | some .none => .ok none
  | some value => some <$> value.wantString role

/-- The argument at a place that was checked to be there. -/
def argument (arguments : Arguments) (place : Nat) : Value := (arguments.get? place).getD .none

/-- A text padded up to a width that the first argument gives, with the character that the second
one gives. -/
def justify (text : List Char) (name : String) (left : Bool) (arguments : Arguments) :
    Except Fault Value := do
  arguments.check name 1 (some 2)
  let width := (← (argument arguments 0).wantInt "width").toInt.toNat
  let fill ← optionalString arguments 1 "fill character"
  let fill ← match fill.map String.toList with
    | some [c] => pure c
    | some _ => throw (.type .fillLength)
    | none => pure ' '
  if width ≤ text.length then return .ofChars text
  checkSize width "justified width"
  let padding := List.replicate (width - text.length) fill
  return .ofChars (if left then text ++ padding else padding ++ text)

/-- A text without the characters at its ends that the argument names, or without blanks. -/
def stripMethod (text : List Char) (name : String) (arguments : Arguments) :
    Except Fault Value := do
  arguments.check name 0 (some 1)
  let chars ← optionalString arguments 0 "strip arg"
  let test : Char → Bool := match chars with
    | some set => fun c => set.toList.contains c
    | none => isBlank
  return .ofChars (strip test (name != "rstrip") (name != "lstrip") text)

/-- A text with one text replaced by another, as often as the third argument allows; a negative
number sets no limit. -/
def replaceMethod (text : List Char) (name : String) (arguments : Arguments) :
    Except Fault Value := do
  arguments.check name 2 (some 3)
  let old ← (argument arguments 0).wantString "replace() argument 1"
  let new ← (argument arguments 1).wantString "replace() argument 2"
  let limit ← match arguments.get? 2 with
    | some count => do
        let count ← count.wantInt "replace() argument 3"
        pure (if count < 0 then none else some count.toInt.toNat)
    | none => pure none
  return .ofChars (replace old.toList new.toList limit text)

/-- The pieces of a text between the places of a separator, or its words. -/
def splitMethod (text : List Char) (name : String) (arguments : Arguments) :
    Except Fault Value := do
  arguments.check name 0 (some 2)
  let limit ← match arguments.get? 1 with
    | some limit => do
        let limit ← limit.wantInt "maxsplit"
        pure (if limit < 0 then none else some limit.toInt.toNat)
    | none => pure none
  let separator ← optionalString arguments 0 "separator"
  let pieces ← match separator, limit with
    | some separator, limit =>
        if separator.isEmpty then throw (.value .emptySeparator)
        else pure (splitOn separator.toList limit text)
    | none, some limit => pure (wordsWithin limit text)
    | none, none => pure (words text)
  return .ofList (pieces.map .ofChars)

/-- The strings of a list, in order. -/
def wantStrings (done : List String) : List Value → Except Fault (List String)
  | [] => .ok done.reverse
  | .string text _ :: rest => wantStrings (text :: done) rest
  | value :: _ => .error (.type (.joinedItem value.typeName))

/-- Do any of the candidates stand at an end of the text? All of them must be strings. -/
def hasAffix (test : List Char → Bool) (role : String) :
    List Value → Except Fault Bool
  | [] => .ok false
  | candidate :: rest => do
      let affix ← candidate.wantString role
      let others ← hasAffix test role rest
      return test affix.toList || others

/-- A text under a method without arguments. -/
def mapText (f : List Char → List Char) (text : List Char) (name : String)
    (arguments : Arguments) : Except Fault Value := do
  arguments.check name 0 (some 0)
  return .ofChars (f text)

/-- Calls a method of a string. -/
def stringMethod (text : List Char) (name : String) (arguments : Arguments) :
    Except Fault Value :=
  match name with
  | "ljust" => justify text name true arguments
  | "rjust" => justify text name false arguments
  | "upper" => mapText uppercase text name arguments
  | "lower" => mapText lowercase text name arguments
  | "title" => mapText title text name arguments
  | "capitalize" => mapText capitalize text name arguments
  | "isdigit" => do
      arguments.check name 0 (some 0)
      return .bool (!text.isEmpty && text.all Char.isDigit)
  | "strip" => stripMethod text name arguments
  | "lstrip" => stripMethod text name arguments
  | "rstrip" => stripMethod text name arguments
  | "replace" => replaceMethod text name arguments
  | "split" => splitMethod text name arguments
  | "join" => do
      arguments.check name 1 (some 1)
      let items ← (argument arguments 0).items
      let pieces ← wantStrings [] items
      return .ofString ((String.ofList text).intercalate pieces)
  | "startswith" => do
      arguments.check name 1 (some 1)
      let found ← hasAffix (·.isPrefixOf text) "startswith arg" (candidates arguments)
      return .bool found
  | "endswith" => do
      arguments.check name 1 (some 1)
      let backward := text.reverse
      let found ← hasAffix (·.reverse.isPrefixOf backward) "endswith arg" (candidates arguments)
      return .bool found
  | "find" => do
      arguments.check name 1 (some 1)
      let sought ← (argument arguments 0).wantString "find() argument"
      return match findIndex? sought.toList text with
        | some place => .ofNat place
        | none => .int (-1)
  | "count" => do
      arguments.check name 1 (some 1)
      let sought ← (argument arguments 0).wantString "count() argument"
      return .ofNat (countOf sought.toList text)
  | _ => .error (.noAttribute "str" name)
where
  /-- The affixes that a text is tested for: one, or those of a list. -/
  candidates (arguments : Arguments) : List Value :=
    match argument arguments 0 with
    | .list items _ => items.toList
    | other => [other]

/-! ## Lists and dictionaries -/

/-- Calls a method of a list. -/
def listMethod (items : Array Value) (name : String) (arguments : Arguments) :
    Except Fault Value := do
  arguments.check name 1 (some 1)
  let sought := argument arguments 0
  match name with
  | "count" => return .ofNat (items.countP (·.equals sought))
  | "index" =>
      match items.findIdx? (·.equals sought) with
      | some place => return .ofNat place
      | none => throw (.value (.notInList sought.code))
  | _ => throw (.noAttribute "list" name)

/-- Calls a method of a dictionary. -/
def dictMethod (entries : Entries Value) (name : String) (arguments : Arguments) :
    Except Fault Value :=
  match name with
  | "get" => do
      arguments.check name 1 (some 2)
      return match Entries.find? (argument arguments 0).text entries with
        | some value => value
        | none => argument arguments 1
  | "keys" => do
      arguments.check name 0 (some 0)
      return .ofList (entries.map fun entry => .ofString entry.1)
  | "values" => do
      arguments.check name 0 (some 0)
      return .ofList (entries.map Prod.snd)
  | "items" => do
      arguments.check name 0 (some 0)
      return .ofList (entries.map fun entry => .ofList [.ofString entry.1, entry.2])
  | _ => .error (.noAttribute "dict" name)

/-- Calls a method of a value. -/
def callMethod (receiver : Value) (name : String) (arguments : Arguments) : Except Fault Value :=
  match receiver with
  | .string text _ => stringMethod text.toList name arguments
  | .list items _ => listMethod items name arguments
  | .dict entries _ => dictMethod entries name arguments
  | other => .error (.noAttribute other.typeName name)

/-! ## Attributes -/

/-- The attribute of a loop's position. -/
def loopAttribute? (level : LoopLevel) (outer : List LoopLevel) (name : String) : Option Value :=
  let p := level.position
  match name with
  | "index" => some (.ofNat p.index)
  | "index0" => some (.int (Int64.ofInt p.fromZero))
  | "length" => some (.ofNat p.length)
  | "first" => some (.bool p.first)
  | "last" => some (.bool p.last)
  | "odd" => some (.bool p.odd)
  | "even" => some (.bool p.even)
  | "parity" => some (.ofString p.parity)
  | "revindex" => some (.int (Int64.ofInt p.remaining))
  | "revindex0" => some (.int (Int64.ofInt p.remainingAfter))
  | "parent" =>
      match outer with
      | next :: others => some (.loop next others)
      | [] => some .none
  | _ => none

/-- The attribute of a value that is no library: a method before anything else, the entry of a
dictionary, the value of a rendering, a part of a loop's position. -/
def Value.find? (value : Value) (name : String) : Option Value :=
  if value.hasMethod name then some (.method value name .none)
  else match value with
    | .dict entries _ => Entries.find? name entries
    | .rendering content _ => content.get? name
    | .loop level outer => loopAttribute? level outer name
    | _ => .none

/-- The attribute of a value that is no library, or the fault that it has none. -/
def Value.access (value : Value) (name : String) : Except Fault Value :=
  match value.find? name with
  | some found => .ok found
  | .none => .error (.noAttribute value.typeName name)

end Stencil
