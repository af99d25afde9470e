import Stencil.Text.Letter
import Stencil.Text.Line

/-!
# Tokens of the expression grammar

The grammar of expressions takes no notice of blanks, but the grammar of templates does: `$a.b` and
`$a. b` end at different places. Runs of spaces and tabs are therefore tokens of their own, and the
readers that have no use for them skip them.

A quote that opens no finished string is a fault of the strict reading. The lenient reading never
fails: such a quote is a one-character operator, so that `$name's` is the name followed by plain
text.

## Main results

* `flatMap_text_scanFrom`: the tokens of a lenient reading are the text, cut into pieces.
* `scanFrom_lenient_openQuote`: a lenient reading has no fault.
-/

namespace Stencil

open Stencil.Text

/-- What a token is. -/
inductive TokenKind where
  /-- A name or a keyword. -/
  | name
  /-- A literal integer or decimal number. -/
  | number
  /-- A quoted string with its quotes and its letter in front. -/
  | string
  /-- An operator, or any character that is nothing else. -/
  | operator
  /-- One of the three opening brackets. -/
  | opening
  /-- One of the three closing brackets. -/
  | closing
  /-- A full stop. -/
  | dot
  /-- A newline. -/
  | newline
  /-- A number sign and the rest of its line. -/
  | comment
  /-- A run of spaces and tabs. -/
  | blank
  deriving DecidableEq, Repr

/-- A piece of a text and the offset of its first byte. -/
structure Token where
  kind : TokenKind
  text : List Char
  start : Nat
  deriving DecidableEq, Repr

namespace Token

/-- The offset of the byte after the token. -/
def stop (t : Token) : Nat := t.start + byteLength t.text

/-- Is the token the name or keyword `word`? -/
def isName (t : Token) (word : String) : Bool := t.kind == .name && t.text == word.toList

/-- Is the token the operator `symbol`? -/
def isOperator (t : Token) (symbol : String) : Bool :=
  t.kind == .operator && t.text == symbol.toList

/-- Does the token mean nothing to the grammar of expressions? -/
def isTrivia (t : Token) : Bool := t.kind == .blank || t.kind == .comment

end Token

/-- How a quote that opens no finished string is read. -/
inductive QuoteReading where
  /-- It ends the reading with a fault. -/
  | strict
  /-- It is an operator, or the letter before it starts a name. -/
  | lenient
  deriving DecidableEq, Repr

/-! ## Lexemes

Each function below measures a lexeme at the start of a text, in characters.
-/

/-- The bracket that closes `bracket`. -/
def closingBracket (bracket : Char) : Char :=
  if bracket = '(' then ')' else if bracket = '[' then ']' else '}'

/-- Operators of three characters, then those of two. -/
def longOperators : List String :=
  ["**=", "//=", "<<=", ">>=",
    "**", "//", "==", "!=", "<=", ">=", "+=", "-=", "*=", "/=", "%=", "->", "<<", ">>"]

/-- Letters and digits from here on. -/
def nameLength (text : List Char) : Nat := (text.takeWhile continuesName).length

/-- A point and the digits after it, if there are any. -/
def fractionLength : List Char → Nat
  | '.' :: rest =>
      let digits := (rest.takeWhile Char.isDigit).length
      if digits = 0 then 0 else digits + 1
  | _ => 0

/-- A mark, a sign if there is one, and the digits after it, if there are any. -/
def exponentLength : List Char → Nat
  | c :: rest =>
      if c = 'e' ∨ c = 'E' then
        let sign := match rest with
          | s :: _ => if s = '+' ∨ s = '-' then 1 else 0
          | [] => 0
        let digits := ((rest.drop sign).takeWhile Char.isDigit).length
        if digits = 0 then 0 else 1 + sign + digits
      else 0
  | [] => 0

/-- Does the text start with the mark of a base, such as `0x`? -/
def hasBaseMark : List Char → Bool
  | '0' :: mark :: _ => ['x', 'X', 'o', 'O', 'b', 'B'].contains mark
  | _ => false

/-- A number: in a marked base, or digits with a fraction and an exponent. -/
def numberLength (text : List Char) : Nat :=
  if hasBaseMark text then
    2 + ((text.drop 2).takeWhile fun c => isHexDigit c || c == '_').length
  else
    let whole := (text.takeWhile fun c => c.isDigit || c == '_').length
    let fraction := fractionLength (text.drop whole)
    whole + fraction + exponentLength (text.drop (whole + fraction))

/-- Up to and with the quote that closes a string of one line. -/
def closeOnLine (quote : Char) : List Char → Option Nat
  | [] => none
  | '\\' :: [] => none
  | '\\' :: _ :: rest => (closeOnLine quote rest).map (· + 2)
  | '\n' :: _ => none
  | c :: rest => if c = quote then some 1 else (closeOnLine quote rest).map (· + 1)

/-- Up to and with the three quotes that close a long string. -/
def closeLong (quote : Char) : List Char → Option Nat
  | [] => none
  | '\\' :: [] => none
  | '\\' :: _ :: rest => (closeLong quote rest).map (· + 2)
  | c :: rest =>
      if c = quote ∧ rest.take 2 = [quote, quote] then some 3
      else (closeLong quote rest).map (· + 1)

/-- A string from its opening quote on, when it is closed. -/
def quotedLength : List Char → Option Nat
  | quote :: rest =>
      if rest.take 2 = [quote, quote] then (closeLong quote (rest.drop 2)).map (· + 3)
      else (closeOnLine quote rest).map (· + 1)
  | [] => none

/-- One of the two quotes. -/
def isQuote (c : Char) : Bool := c == '\'' || c == '"'

/-- The letters that may stand before a string. -/
def isStringMark (c : Char) : Bool := ['r', 'R', 'u', 'U', 'b', 'B'].contains c

/-- How many letters stand before the quote, when the text starts like a string. -/
def stringMark? : List Char → Option Nat
  | c :: rest =>
      if isQuote c then some 0
      else match rest with
        | q :: _ => if isStringMark c && isQuote q then some 1 else none
        | [] => none
  | [] => none

/-- The kind and the length of the lexeme that starts with the character `c`, when it is no string.
-/
def plainLexeme (c : Char) (text : List Char) : TokenKind × Nat :=
  if startsName c then (.name, nameLength text)
  else if c.isDigit then (.number, numberLength text)
  else if c = '(' ∨ c = '[' ∨ c = '{' then (.opening, 1)
  else if c = ')' ∨ c = ']' ∨ c = '}' then (.closing, 1)
  else if c = '.' then (.dot, 1)
  else match longOperators.find? (fun symbol => symbol.toList.isPrefixOf text) with
    | some symbol => (.operator, symbol.toList.length)
    | none => (.operator, 1)

/-- The kind and the length of the first lexeme, or nothing where a strict reading stops. -/
def lexeme (reading : QuoteReading) : List Char → Option (TokenKind × Nat)
  | [] => none
  | c :: rest =>
      let text := c :: rest
      if c = ' ' ∨ c = '\t' then
        some (.blank, (text.takeWhile fun d => d == ' ' || d == '\t').length)
      else if c = '\n' then some (.newline, 1)
      else if c = '#' then some (.comment, (text.takeWhile (· != '\n')).length)
      else match stringMark? text with
        | none => some (plainLexeme c text)
        | some letters =>
            match quotedLength (text.drop letters), reading with
            | some length, _ => some (.string, letters + length)
            | none, .strict => none
            | none, .lenient =>
                if letters = 0 then some (.operator, 1) else some (.name, nameLength text)

/-! ## Reading a whole text -/

/-- The tokens of a text, and the offset of the quote that ended a strict reading. -/
structure Scan where
  tokens : List Token
  openQuote : Option Nat
  deriving DecidableEq, Repr

/-- The tokens of the text whose first byte has the offset `start`. A lexeme holds at least its
first character, so what remains is always shorter. -/
def scanFrom (reading : QuoteReading) (start : Nat) : List Char → Scan
  | [] => ⟨[], none⟩
  | c :: rest =>
      match lexeme reading (c :: rest) with
      | none => ⟨[], some start⟩
      | some (kind, length) =>
          let token : Token := ⟨kind, c :: rest.take (length - 1), start⟩
          let after := scanFrom reading token.stop (rest.drop (length - 1))
          ⟨token :: after.tokens, after.openQuote⟩
termination_by text => text.length
decreasing_by simp only [List.length_drop, List.length_cons]; omega

/-- The tokens of a text. -/
def scan (reading : QuoteReading) (text : List Char) : Scan := scanFrom reading 0 text

/-- The tokens of a lenient reading. -/
def lenientTokens (text : List Char) : List Token := (scan .lenient text).tokens

/-- A strict reading that met a quote without its partner. -/
structure OpenQuote where
  offset : Nat
  deriving DecidableEq, Repr

/-- The wording of the fault. -/
def OpenQuote.message (_ : OpenQuote) : String := "unterminated string literal"

/-- The tokens of a strict reading. -/
def strictTokens (text : List Char) : Except OpenQuote (List Token) :=
  let result := scan .strict text
  match result.openQuote with
  | some offset => .error ⟨offset⟩
  | none => .ok result.tokens

/-- The first token of a lenient reading. -/
def firstToken? : List Char → Option Token
  | [] => none
  | c :: rest => (lexeme .lenient (c :: rest)).map fun (kind, length) =>
      ⟨kind, c :: rest.take (length - 1), 0⟩

/-! ## Tiling -/

theorem lexeme_lenient_isSome (c : Char) (rest : List Char) :
    (lexeme .lenient (c :: rest)).isSome = true := by
  unfold lexeme
  simp only
  repeat' split
  all_goals simp_all

/-- A lenient reading has no fault. -/
theorem scanFrom_lenient_openQuote (start : Nat) (text : List Char) :
    (scanFrom .lenient start text).openQuote = none := by
  fun_induction scanFrom .lenient start text with
  | case1 => rfl
  | case2 start c rest h =>
      have hSome := lexeme_lenient_isSome c rest
      simp [h] at hSome
  | case3 start c rest kind length h token after ih => exact ih

/-- The tokens of a lenient reading, put one after another, are the text. -/
theorem flatMap_text_scanFrom (start : Nat) (text : List Char) :
    (scanFrom .lenient start text).tokens.flatMap Token.text = text := by
  fun_induction scanFrom .lenient start text with
  | case1 => rfl
  | case2 start c rest h =>
      have hSome := lexeme_lenient_isSome c rest
      simp [h] at hSome
  | case3 start c rest kind length h token after ih =>
      simp [token, after, ih]

end Stencil
