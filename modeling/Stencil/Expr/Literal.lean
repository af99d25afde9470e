import Stencil.Expr
import Stencil.Number.Reading
import Stencil.Token

/-!
# Reading literals

The values of number and string tokens. A number may hold underscores anywhere after its first
digit; it is in a marked base, a float when it has a point or an exponent, and an integer otherwise.
A string is what stands between its quotes, with the escapes decoded unless the letter `r` stands
before it.
-/

namespace Stencil

open Stencil.Text Stencil.Number

/-- Why a token is no literal. -/
inductive LiteralFault where
  /-- The digits do not fit the base, or the integer of a marked base is too large. -/
  | number (text : List Char)
  /-- The integer in base ten is too large. -/
  | tooLarge (text : List Char)
  /-- There are not two quotes. -/
  | string
  /-- An escape with this letter names no character. -/
  | escape (kind : Char)
  deriving DecidableEq, Repr

/-- The wording of a fault. -/
def LiteralFault.message : LiteralFault → String
  | .number text => "invalid number literal `" ++ String.ofList text ++ "`"
  | .tooLarge text => "integer literal `" ++ String.ofList text ++ "` is too large"
  | .string => "malformed string literal"
  | .escape kind => "invalid \\" ++ String.singleton kind ++ " escape"

/-! ## Numbers -/

/-- The base that the mark at the start of a lower-case number names. -/
def markedBase? : List Char → Option Nat
  | '0' :: 'x' :: _ => some 16
  | '0' :: 'o' :: _ => some 8
  | '0' :: 'b' :: _ => some 2
  | _ => none

/-- The value of a number token. -/
def readNumber (text : List Char) : Except LiteralFault Literal :=
  let lower := (text.filter (· != '_')).map Char.toLower
  match markedBase? lower with
  | some base =>
      match readInt64? base (lower.drop 2) with
      | some value => .ok (.int value)
      | none => .error (.number text)
  | none =>
      if lower.contains '.' || lower.contains 'e' then
        match readFloat? lower with
        | some value => .ok (.float value)
        | none => .error (.number text)
      else
        match readInt64? 10 lower with
        | some value => .ok (.int value)
        | none => .error (.tooLarge text)

/-! ## Strings -/

/-- The character that an escape of one letter stands for. -/
def simpleEscape? (c : Char) : Option Char :=
  match c with
  | 'n' => some '\n'
  | 't' => some '\t'
  | 'r' => some '\r'
  | '0' => some (Char.ofNat 0)
  | 'a' => some (Char.ofNat 7)
  | 'b' => some (Char.ofNat 8)
  | 'f' => some (Char.ofNat 12)
  | 'v' => some (Char.ofNat 11)
  | '\\' => some '\\'
  | '\'' => some '\''
  | '"' => some '"'
  | _ => none

/-- How many digits the escape with this letter has. -/
def codeEscapeWidth? (c : Char) : Option Nat :=
  match c with
  | 'x' => some 2
  | 'u' => some 4
  | 'U' => some 8
  | _ => none

/-- The character with this code. -/
def charOfCode? (code : Nat) : Option Char :=
  if code.isValidChar then some (Char.ofNat code) else none

/-- The character that an escape of `width` digits names. A plus sign may stand in the place of the
first digit. -/
def codeEscape? (width : Nat) (digits : List Char) : Option Char :=
  if byteLength digits = width then
    let number := match digits with
      | '+' :: rest => rest
      | _ => digits
    (readNat? 16 number).bind charOfCode?
  else none

/-- Decodes the escapes of a string. An escape that names nothing stays as it is written. -/
def unescape : List Char → Except LiteralFault (List Char)
  | [] => .ok []
  | '\\' :: [] => .ok ['\\']
  | '\\' :: '\n' :: rest => unescape rest
  | '\\' :: c :: rest =>
      match simpleEscape? c, codeEscapeWidth? c with
      | some decoded, _ => (decoded :: ·) <$> unescape rest
      | none, some width =>
          match codeEscape? width (rest.take width) with
          | some decoded => (decoded :: ·) <$> unescape (rest.drop width)
          | none => .error (.escape c)
      | none, none => (['\\', c] ++ ·) <$> unescape rest
  | c :: rest => (c :: ·) <$> unescape rest
termination_by text => text.length
decreasing_by all_goals simp only [List.length_cons, List.length_drop]; omega

/-- The text that a string token stands for. -/
def decodeString (token : List Char) : Except LiteralFault (List Char) :=
  let quoted := if token.any isQuote then token.dropWhile (!isQuote ·) else token
  let mark := if token.any isQuote then token.takeWhile (!isQuote ·) else []
  let width := match quoted with
    | a :: b :: c :: _ => if isQuote a ∧ a = b ∧ b = c then 3 else 1
    | _ => 1
  if byteLength quoted < 2 * width then .error .string
  else
    let body := (quoted.drop width).take (quoted.length - 2 * width)
    if mark.contains 'r' || mark.contains 'R' then .ok body else unescape body

end Stencil
