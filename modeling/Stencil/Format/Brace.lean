import Stencil.Format.Percent
import Stencil.Text.Search

/-!
# Formatting with braces

A text with fields in braces. A field names a value, by its place among the arguments or by its
name, follows attributes from there, and may end with a specification: a fill character, an
alignment, a width, a precision and a letter. A doubled brace is a brace.

The text is first cut into pieces. A brace that has no partner is the last piece, so that fields
before it are filled first.
-/

namespace Stencil.Format

open Stencil.Text Stencil.Number

/-! ## Specifications -/

/-- Where a field stands within its width. -/
inductive Alignment where
  | left
  | right
  | center
  deriving DecidableEq, Repr

/-- The alignment that a character asks for. -/
def Alignment.ofChar? (c : Char) : Option Alignment :=
  match c with
  | '<' => some left
  | '>' => some right
  | '^' => some center
  | _ => none

/-- A specification as it is written. -/
structure Spec where
  fill : Option Char
  alignment : Option Alignment
  zero : Bool
  width : Option (List Char)
  precision : Option (List Char)
  letter : Option Char
  deriving DecidableEq, Repr

/-- A fill character and an alignment at the start of a text, and the text after them. -/
def readAlignment : List Char → Option Char × Option Alignment × List Char
  | [] => (none, none, [])
  | [c] =>
      match Alignment.ofChar? c with
      | some alignment => (none, some alignment, [])
      | none => (none, none, [c])
  | c :: d :: rest =>
      match if c = '\n' then none else Alignment.ofChar? d with
      | some alignment => (some c, some alignment, rest)
      | none =>
          match Alignment.ofChar? c with
          | some alignment => (none, some alignment, d :: rest)
          | none => (none, none, c :: d :: rest)

/-- The letters of a specification. -/
def specLetters : List Char := "sdfFxXeEgG%".toList

/-- Reads a specification. -/
def Spec.read? (text : List Char) : Option Spec :=
  let (fill, alignment, rest) := readAlignment text
  let zero := rest.head? == some '0'
  let (width, rest) := readDigits (if zero then rest.tail else rest)
  let (precision, rest) := readPrecision rest
  match rest with
  | [] => some ⟨fill, alignment, zero, width, precision, none⟩
  | [letter] =>
      if specLetters.contains letter then
        some ⟨fill, alignment, zero, width, precision, some letter⟩
      else none
  | _ => none

/-- Is the value a number and no truth value? -/
def isNumber : Value → Bool
  | .int _ => true
  | .float _ => true
  | _ => false

/-- A text of the given width. -/
def align (alignment : Alignment) (fill : Char) (width : Nat) (text : List Char) : List Char :=
  let padding := width - text.length
  match alignment with
  | .left => text ++ List.replicate padding fill
  | .right => List.replicate padding fill ++ text
  | .center =>
      List.replicate (padding / 2) fill ++ text ++ List.replicate (padding - padding / 2) fill

/-- The number that a letter asks for. -/
def specNumber (value : Value) (letter : Char) (precision : Option Nat) :
    Except Fault NumberParts :=
  if letter = 'd' ∨ letter = 'x' ∨ letter = 'X' then do
    let i ← value.wantInt "format argument"
    return integerParts i letter false
  else do
    let x ← floatOf letter value
    return floatParts x letter precision false

/-- The text of a value without a letter. -/
def plainField (value : Value) (precision : Option Nat) : List Char :=
  match value, precision with
  | .float x, some size => padNumber .none 0 (floatParts x 'g' (some size) false)
  | value, precision =>
      if isNumber value then value.text.toList else shorten precision value.text.toList

/-- The text of a value under a specification. -/
def Spec.apply (spec : Spec) (value : Value) : Except Fault (List Char) := do
  let width := (← fieldSize "width" spec.width).getD 0
  let precision ← fieldSize "precision" spec.precision
  let place (text : List Char) : List Char :=
    let alignment := spec.alignment.getD (if isNumber value then .right else .left)
    align alignment (spec.fill.getD ' ') width text
  match spec.letter with
  | none => return place (plainField value precision)
  | some 's' => return place (shorten precision value.text.toList)
  | some '%' =>
      let x ← floatOf '%' value
      return place (padNumber .none 0 (floatParts (x * 100) 'f' precision false) ++ ['%'])
  | some letter =>
      let number ← specNumber value letter precision
      if spec.zero && spec.alignment.isNone then
        return padNumber { NumberFlags.none with zero := true } width number
      else return place (padNumber .none 0 number)

/-- The text of a value under a specification that is written out; an empty one asks for nothing. -/
def applySpec (spec : List Char) (value : Value) : Except Fault (List Char) :=
  if spec.isEmpty then .ok value.text.toList
  else match Spec.read? spec with
    | some spec => spec.apply value
    | none => .error (.value (.malformedSpec (String.ofList spec)))

/-! ## Pieces -/

/-- What a field starts from. -/
inductive FieldSource where
  /-- The next argument that no field has taken. -/
  | next
  | place (index : Nat)
  | name (name : String)
  deriving DecidableEq, Repr

/-- A field: where its value is found, and how it is written. -/
structure Field where
  source : FieldSource
  attributes : List String
  spec : List Char
  deriving DecidableEq, Repr

/-- A piece of a text with fields. -/
inductive BracePiece where
  | text (content : List Char)
  | field (field : Field)
  /-- A brace without its partner; nothing follows. -/
  | broken (cause : ValueCause)
  deriving DecidableEq, Repr

/-- The text before the first place of a character, and the text after it if there is one. -/
def splitAtChar (c : Char) (text : List Char) : List Char × Option (List Char) :=
  match text.dropWhile (· != c) with
  | _ :: after => (text.takeWhile (· != c), some after)
  | [] => (text, none)

/-- The field with this content. -/
def Field.read (content : List Char) : Field :=
  let (name, spec) := splitAtChar ':' content
  let (path, attributes) := splitAtChar '.' name
  let source : FieldSource :=
    if path.isEmpty then .next
    else match readSize? path with
      | some index => .place index
      | none => .name (String.ofList path)
  let attributes := match attributes with
    | some rest => (splitOn ['.'] none rest).map String.ofList
    | none => []
  ⟨source, attributes, spec.getD []⟩

/-- The pieces of a text, after the characters of the current piece in reverse. -/
def bracePieces (literal : List Char) : List Char → List BracePiece
  | [] => [.text literal.reverse]
  | '\x7b' :: '\x7b' :: rest => bracePieces ('\x7b' :: literal) rest
  | '\x7d' :: '\x7d' :: rest => bracePieces ('\x7d' :: literal) rest
  | '\x7d' :: _ => [.text literal.reverse, .broken .loneBrace]
  | '\x7b' :: rest =>
      match _h : rest.dropWhile (· != '\x7d') with
      | [] => [.text literal.reverse, .broken .openField]
      | _ :: after =>
          .text literal.reverse :: .field (.read (rest.takeWhile (· != '\x7d'))) ::
            bracePieces [] after
  | c :: rest => bracePieces (c :: literal) rest
termination_by text => text.length
decreasing_by
  · simp only [List.length_cons]; omega
  · simp only [List.length_cons]; omega
  · have hLen := (List.dropWhile_sublist (l := rest) (· != '\x7d')).length_le
    rw [_h] at hLen
    simp only [List.length_cons] at hLen ⊢
    omega
  · simp

/-- The argument that a field starts from, and the place of the next argument that is free. -/
def FieldSource.find (source : FieldSource) (arguments : Arguments) (next : Nat) :
    Except Fault (Value × Nat) :=
  let atPlace (index : Nat) : Except Fault Value :=
    match arguments.get? index with
    | some value => .ok value
    | none => .error (.indexOutOfRange "format argument")
  match source with
  | .next => (·, next + 1) <$> atPlace next
  | .place index => (·, next) <$> atPlace index
  | .name key =>
      match Entries.find? key arguments.named with
      | some value => .ok (value, next)
      | none => .error (.keyNotFound (quoted key))

section Attributes

variable {m : Type → Type} [Monad m] [MonadLiftT (Except Fault) m]
  (access : Value → String → m Value)

/-- Follows attributes from a value. -/
def followAttributes (value : Value) : List String → m Value
  | [] => pure value
  | name :: rest => do
      let value ← access value name
      followAttributes value rest

/-- Fills the fields of pieces in order, after the texts that are done, in reverse. How an attribute
is found is for the evaluation to say. -/
def fillBraces (arguments : Arguments) (done : List (List Char)) (next : Nat) :
    List BracePiece → m (List Char)
  | [] => pure done.reverse.flatten
  | .text content :: rest => fillBraces arguments (content :: done) next rest
  | .broken cause :: _ => liftM (Except.error (.value cause) : Except Fault (List Char))
  | .field field :: rest => do
      let (value, next) ← field.source.find arguments next
      let value ← followAttributes access value field.attributes
      let text ← applySpec field.spec value
      fillBraces arguments (text :: done) next rest

/-- Fills the fields of a text with arguments. -/
def brace (format : List Char) (arguments : Arguments) : m Value :=
  Value.ofChars <$> fillBraces access arguments [] 0 (bracePieces [] format)

end Attributes

end Stencil.Format
