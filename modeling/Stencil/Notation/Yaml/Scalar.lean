import Stencil.Notation.Json
import Stencil.Number.Reading

/-!
# Scalars in YAML

What the text of a scalar stands for. A scalar without quotes is read as what it looks like:
nothing, a truth value, a whole number, a float, or a text; digits after a leading zero are a text.
A scalar between quotes is a text. A tag of the standard asks for one of the kinds, and a tag of the
document's own is refused.
-/

namespace Stencil.Yaml

open Stencil.Number

/-- Does the text look like an integer, but for a zero before its digits? -/
def hasLeadingZero (text : List Char) : Bool :=
  let digits := match text with
    | '-' :: rest => rest
    | '+' :: rest => rest
    | _ => text
  match digits with
  | '0' :: rest => !rest.isEmpty && rest.all Char.isDigit
  | _ => false

/-- The natural number that is written here, in base ten or in the base that its first two
characters name. -/
def natural? : List Char → Option Nat
  | '0' :: 'x' :: rest => readNat? 16 rest
  | '0' :: 'o' :: rest => readNat? 8 rest
  | '0' :: 'b' :: rest => readNat? 2 rest
  | text => readNat? 10 text

/-- The whole number that is written here, with a sign or without. -/
def whole? (text : List Char) : Option Int :=
  if hasLeadingZero text then none
  else match text with
    | '-' :: rest => (natural? rest).map fun n => -(n : Int)
    | '+' :: rest => (natural? rest).map fun n => (n : Int)
    | text => (natural? text).map fun n => (n : Int)

/-- The words for infinity and for no number. -/
def notFiniteWords : List String :=
  [".inf", ".Inf", ".INF", "+.inf", "+.Inf", "+.INF", "-.inf", "-.Inf", "-.INF",
    ".nan", ".NaN", ".NAN"]

/-- The float that is written here. Infinity and no number count as nothing. -/
def float? (text : List Char) : Option Json :=
  if notFiniteWords.contains (String.ofList text) then some .null
  else (readFloat? text).bind fun x => if x.isFinite then some (.float x) else none

/-- The truth value that is written here. -/
def truth? (word : String) : Option Json :=
  if ["true", "True", "TRUE"].contains word then some (.bool true)
  else if ["false", "False", "FALSE"].contains word then some (.bool false)
  else none

/-- Is this a word for nothing? -/
def isNull (word : String) : Bool := ["null", "Null", "NULL", "~"].contains word

/-- What the text stands for as a whole number: a number of 64 bits, signed or not. Greater numbers
are refused, unless they have more than 128 bits and so are none of these. -/
inductive Whole where
  | number (content : Json)
  | refused
  | other

/-- Reads a whole number. -/
def Whole.read (text : List Char) : Whole :=
  match whole? text with
  | none => .other
  | some n =>
      match exactInt64? n with
      | some i => .number (.int i)
      | none =>
          if 0 ≤ n ∧ n < wordBound then .number (.float (Float.ofNat n.toNat))
          else if -(int64Bound * wordBound : Int) ≤ n ∧ n < wordBound * wordBound then .refused
          else .other

/-- What a scalar without quotes stands for. -/
def scalar? (text : List Char) : Option Json :=
  let word := String.ofList text
  if text.isEmpty || isNull word then some .null
  else match truth? word with
    | some truth => some truth
    | none =>
        match Whole.read text with
        | .number content => some content
        | .refused => none
        | .other =>
            if hasLeadingZero text then some (.string word)
            else some ((float? text).getD (.string word))

/-- What a scalar with a tag stands for, in quotes or not. -/
def tagged? (tag : String) (text : List Char) : Option Json :=
  let word := String.ofList text
  if tag.startsWith "!" then none
  else match tag with
    | "tag:yaml.org,2002:bool" => truth? word
    | "tag:yaml.org,2002:int" =>
        match Whole.read text with
        | .number content => some content
        | _ => none
    | "tag:yaml.org,2002:float" => float? text
    | "tag:yaml.org,2002:null" => if isNull word then some .null else none
    | _ => some (.string word)

/-- What a scalar stands for. -/
def content? (tag : Option String) (isPlain : Bool) (text : List Char) : Option Json :=
  match tag with
  | some tag => tagged? tag text
  | none => if isPlain then scalar? text else some (.string (String.ofList text))

end Stencil.Yaml
