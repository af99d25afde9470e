import Stencil.Expr.Literal
import Stencil.Value.Text

/-!
# Expressions as they are written

An expression is written as a list of words, and the text is the words one after another. Round
brackets stand around an operand only where the operand binds more loosely than its place asks for,
and around every tuple. Operators with two operands have a space on either side, signs have none,
and a string is written in quotes.

The levels of binding, from the loosest: a choice, `or`, `and`, `not`, a chain of comparisons, sums,
products, signs, powers, and what needs no brackets anywhere.

## Main results

* `Expr.write`: the text of an expression.
* `Expr.IsWritable`: the expressions that have a text.
-/

namespace Stencil

open Stencil.Text Stencil.Number

/-! ## Words -/

/-- A piece of written text, and the kind of token that it is. -/
structure Word where
  kind : TokenKind
  text : List Char
  deriving DecidableEq, Repr

namespace Word

/-- A name or a keyword. -/
def name (label : String) : Word := ⟨.name, label.toList⟩

/-- An operator. -/
def operator (symbol : String) : Word := ⟨.operator, symbol.toList⟩

/-- An opening bracket. -/
def opening (bracket : Char) : Word := ⟨.opening, [bracket]⟩

/-- A closing bracket. -/
def closing (bracket : Char) : Word := ⟨.closing, [bracket]⟩

/-- A full stop. -/
def dot : Word := ⟨.dot, ['.']⟩

/-- A space. -/
def space : Word := ⟨.blank, [' ']⟩

end Word

/-- The text of words. -/
def writeWords (words : List Word) : List Char := words.flatMap Word.text

/-- Groups of words with commas between them. -/
def commaSeparated : List (List Word) → List Word
  | [] => []
  | [group] => group
  | group :: rest => group ++ .operator "," :: .space :: commaSeparated rest

theorem commaSeparated_cons (group : List Word) {rest : List (List Word)} (h : rest ≠ []) :
    commaSeparated (group :: rest) = group ++ .operator "," :: .space :: commaSeparated rest := by
  rw [commaSeparated]
  exact h

/-- Words in round brackets, when they bind more loosely than the place asks for. -/
def bracketed (place level : Nat) (words : List Word) : List Word :=
  if level < place then .opening '(' :: words ++ [.closing ')'] else words

/-! ## Operators -/

/-- The word of a constant. Floats have none. -/
def Literal.word : Literal → Word
  | none => .name "None"
  | bool true => .name "True"
  | bool false => .name "False"
  | int value => ⟨.number, decimalText value.toInt⟩
  | float _ => ⟨.number, []⟩
  | string text => ⟨.string, quoteChars text.toList⟩

/-- The words of a comparison. -/
def CompareOp.words : CompareOp → List Word
  | isIn => [.name "in"]
  | notIn => [.name "not", .space, .name "in"]
  | same => [.name "is"]
  | notSame => [.name "is", .space, .name "not"]
  | op => [.operator op.symbol]

/-- How tightly an arithmetic operator binds. -/
def BinaryOp.level : BinaryOp → Nat
  | add | subtract => 5
  | multiply | divide | floorDivide | modulo => 6
  | power => 8

/-- What the operands of an arithmetic operator must bind like. A power groups to the right, the
others to the left. -/
def BinaryOp.places : BinaryOp → Nat × Nat
  | add | subtract => (5, 6)
  | multiply | divide | floorDivide | modulo => (6, 7)
  | power => (9, 7)

/-! ## Expressions -/

namespace Expr

/-- How tightly an expression binds. -/
def level : Expr → Nat
  | conditional .. => 0
  | or .. => 1
  | and .. => 2
  | unary .not _ => 3
  | compare .. => 4
  | binary op .. => op.level
  | unary .. => 7
  | _ => 9

mutual

/-- The words of an expression. -/
def words : Expr → List Word
  | .literal value => [value.word]
  | .name label => [.name label]
  | .list items => .opening '[' :: commaSeparated (groups items) ++ [.closing ']']
  | .tuple items =>
      .opening '(' :: commaSeparated (groups items) ++
        (if items.length = 1 then [.operator ","] else []) ++ [.closing ')']
  | .dict entries => .opening '\x7b' :: commaSeparated (entryGroups entries) ++ [.closing '\x7d']
  | .attribute value label => bracketed 9 value.level value.words ++ [.dot, .name label]
  | .index value key =>
      bracketed 9 value.level value.words ++ .opening '[' :: key.words ++ [.closing ']']
  | .slice value start stop step =>
      bracketed 9 value.level value.words ++ .opening '[' :: boundWords start ++
        .operator ":" :: boundWords stop ++ stepWords step ++ [.closing ']']
  | .call function arguments named =>
      bracketed 9 function.level function.words ++
        .opening '(' :: commaSeparated (groups arguments ++ namedGroups named) ++ [.closing ')']
  | .unary .not operand => .name "not" :: .space :: bracketed 3 operand.level operand.words
  | .unary .negative operand => .operator "-" :: bracketed 7 operand.level operand.words
  | .unary .positive operand => .operator "+" :: bracketed 7 operand.level operand.words
  | .binary op left right =>
      bracketed op.places.1 left.level left.words ++ .space :: .operator op.symbol :: .space ::
        bracketed op.places.2 right.level right.words
  | .compare left links => bracketed 5 left.level left.words ++ linkWords links
  | .and left right =>
      bracketed 2 left.level left.words ++ .space :: .name "and" :: .space ::
        bracketed 3 right.level right.words
  | .or left right =>
      bracketed 1 left.level left.words ++ .space :: .name "or" :: .space ::
        bracketed 2 right.level right.words
  | .conditional test body otherwise =>
      bracketed 1 body.level body.words ++ .space :: .name "if" :: .space ::
        bracketed 1 test.level test.words ++ .space :: .name "else" :: .space :: otherwise.words

/-- The words of expressions. -/
def groups : List Expr → List (List Word)
  | [] => []
  | item :: rest => item.words :: groups rest

/-- The words of the entries of a dictionary. -/
def entryGroups : List (Expr × Expr) → List (List Word)
  | [] => []
  | (key, value) :: rest =>
      (key.words ++ .operator ":" :: .space :: value.words) :: entryGroups rest

/-- The words of named arguments. -/
def namedGroups : List (String × Expr) → List (List Word)
  | [] => []
  | (label, value) :: rest => (.name label :: .operator "=" :: value.words) :: namedGroups rest

/-- The words of a bound that may be absent. -/
def boundWords : Option Expr → List Word
  | none => []
  | some bound => bound.words

/-- The words of a step, which has a colon of its own. -/
def stepWords : Option Expr → List Word
  | none => []
  | some step => .operator ":" :: step.words

/-- The words of the comparisons of a chain. -/
def linkWords : List (CompareOp × Expr) → List Word
  | [] => []
  | (op, operand) :: rest =>
      .space :: op.words ++ .space :: bracketed 5 operand.level operand.words ++ linkWords rest

end

/-- The text of an expression. -/
def write (expr : Expr) : List Char := writeWords expr.words

/-- The words of an expression at a place. -/
def wordsAt (place : Nat) (expr : Expr) : List Word := bracketed place expr.level expr.words

end Expr

/-! ## What can be written -/

/-- A name that is no keyword. -/
structure IsIdentifier (label : String) : Prop where
  start : ∃ c rest, label.toList = c :: rest ∧ startsName c = true ∧
    ∀ d ∈ rest, continuesName d = true
  plain : isKeyword label.toList = false

/-- The constants that have a word: negative integers are written with a sign, and floats are left
out. -/
def Literal.IsWritable : Literal → Prop
  | int value => 0 ≤ value.toInt
  | float _ => False
  | _ => True

/-- The expressions that can be written: names are no keywords, chains of comparisons have a link,
and no argument is named twice. -/
inductive Expr.IsWritable : Expr → Prop
  | literal {value : Literal} (h : value.IsWritable) : IsWritable (.literal value)
  | name {label : String} (h : IsIdentifier label) : IsWritable (.name label)
  | list {items : List Expr} (h : ∀ item ∈ items, IsWritable item) : IsWritable (.list items)
  | tuple {items : List Expr} (h : ∀ item ∈ items, IsWritable item) : IsWritable (.tuple items)
  | dict {entries : List (Expr × Expr)} (hKeys : ∀ entry ∈ entries, IsWritable entry.1)
      (hValues : ∀ entry ∈ entries, IsWritable entry.2) : IsWritable (.dict entries)
  | attribute {value : Expr} {label : String} (h : IsWritable value) (hLabel : IsIdentifier label) :
      IsWritable (.attribute value label)
  | index {value key : Expr} (h : IsWritable value) (hKey : IsWritable key) :
      IsWritable (.index value key)
  | slice {value : Expr} {start stop step : Option Expr} (h : IsWritable value)
      (hStart : ∀ bound ∈ start, IsWritable bound) (hStop : ∀ bound ∈ stop, IsWritable bound)
      (hStep : ∀ bound ∈ step, IsWritable bound) : IsWritable (.slice value start stop step)
  | call {function : Expr} {arguments : List Expr} {named : List (String × Expr)}
      (h : IsWritable function) (hArguments : ∀ argument ∈ arguments, IsWritable argument)
      (hNamed : ∀ entry ∈ named, IsWritable entry.2)
      (hLabels : ∀ entry ∈ named, IsIdentifier entry.1) (hDistinct : (named.map Prod.fst).Nodup) :
      IsWritable (.call function arguments named)
  | unary {op : UnaryOp} {operand : Expr} (h : IsWritable operand) : IsWritable (.unary op operand)
  | binary {op : BinaryOp} {left right : Expr} (hLeft : IsWritable left)
      (hRight : IsWritable right) : IsWritable (.binary op left right)
  | compare {left : Expr} {links : List (CompareOp × Expr)} (hLeft : IsWritable left)
      (hLinks : ∀ link ∈ links, IsWritable link.2) (hSome : links ≠ []) :
      IsWritable (.compare left links)
  | and {left right : Expr} (hLeft : IsWritable left) (hRight : IsWritable right) :
      IsWritable (.and left right)
  | or {left right : Expr} (hLeft : IsWritable left) (hRight : IsWritable right) :
      IsWritable (.or left right)
  | conditional {test body otherwise : Expr} (hTest : IsWritable test) (hBody : IsWritable body)
      (hOtherwise : IsWritable otherwise) : IsWritable (.conditional test body otherwise)

end Stencil
