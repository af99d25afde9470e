import Stencil.Inline

/-!
# Sections

What a template's text is read into: a list of sections, each with the number of the source line it
starts on. A line of text holds pieces of plain text and expressions; every other section is a
directive. The body of a block is a list of sections again.
-/

namespace Stencil

/-- The words that open a block. -/
inductive BlockKeyword where
  | forLoop
  | whileLoop
  | ifBranch
  | elifBranch
  | elseBranch
  | definition
  deriving DecidableEq, Repr

namespace BlockKeyword

/-- The word as it is written. -/
def word : BlockKeyword → String
  | forLoop => "for"
  | whileLoop => "while"
  | ifBranch => "if"
  | elifBranch => "elif"
  | elseBranch => "else"
  | definition => "def"

/-- The words that open a block, in the order of their meaning. -/
def all : List BlockKeyword :=
  [forLoop, whileLoop, ifBranch, elifBranch, elseBranch, definition]

/-- The keyword that is written so. -/
def ofWord? (text : List Char) : Option BlockKeyword := all.find? (·.word.toList == text)

end BlockKeyword

/-- The directives of one line that steer the flow. -/
inductive FlowKeyword where
  | pass
  | breakLoop
  | continueLoop
  | returnValue
  deriving DecidableEq, Repr

namespace FlowKeyword

/-- The word as it is written. -/
def word : FlowKeyword → String
  | pass => "pass"
  | breakLoop => "break"
  | continueLoop => "continue"
  | returnValue => "return"

/-- The flow words. -/
def all : List FlowKeyword := [pass, breakLoop, continueLoop, returnValue]

/-- The keyword that is written so. -/
def ofWord? (text : List Char) : Option FlowKeyword := all.find? (·.word.toList == text)

end FlowKeyword

/-- A piece of a line. -/
inductive Piece where
  /-- Plain text. -/
  | text (content : List Char)
  /-- The code of an expression, and whether its output is escaped. -/
  | expression (code : List Char) (escape : Bool)
  deriving DecidableEq, Repr

/-- The pieces of a line, with the number of the line. -/
structure TextLine where
  number : Nat
  pieces : List Piece
  deriving DecidableEq, Repr

/-- One unit of a template's body. The first argument is the number of its source line, except for
a code block, which carries the number of the line its text starts on. -/
inductive Section where
  /-- A line of text and expressions. -/
  | line (content : TextLine)
  /-- A statement up to the end of its line. -/
  | assignment (number : Nat) (code : List Char)
  /-- A flow directive with its whole code. -/
  | flow (number : Nat) (keyword : FlowKeyword) (code : List Char)
  /-- A block with the text of its header, the number of spaces before it, and its body. -/
  | block (number : Nat) (keyword : BlockKeyword) (header : List Char) (indent : Nat)
      (body : List Section)
  /-- The text of a block of statements. -/
  | code (number : Nat) (text : List Char)
  /-- An output variable that is set to the value of an expression. -/
  | varExpression (number : Nat) (name : String) (code : List Char)
  /-- An output variable that is set to rendered text. -/
  | varFragment (number : Nat) (name : String) (lines : List TextLine)

/-- A template's text: the parameter list of its first line, if it declares one, and its body. -/
structure Document where
  parameters : Option (List Char)
  body : List Section

/-- Why a text is no template. -/
inductive LayoutCause where
  /-- No expression can be cut out after a sigil. -/
  | inline (fault : Inline.Fault)
  /-- A header holds a quote without its partner. -/
  | openQuote (fault : OpenQuote)
  /-- A header does not end with a colon. -/
  | missingColon (keyword : List Char)
  /-- A block has no body. -/
  | missingBlock (keyword : BlockKeyword)
  /-- An output variable has no name, no mark or no value. -/
  | incompleteVar
  /-- An output variable is named by something else than a name. -/
  | varName (text : List Char)
  /-- The name of the rendered text cannot be set. -/
  | reservedVar
  /-- Between the name and the value of an output variable stands the wrong mark. -/
  | varMark
  /-- A clause continues no block before it. -/
  | strayClause (keyword : BlockKeyword)
  /-- A statement of a code block is indented with a tab. -/
  | tabIndent
  /-- A code block ends inside a statement. -/
  | unfinishedStatement
  /-- A statement of a code block is indented more than the one before it. -/
  | unexpectedIndent
  /-- A statement of a code block is indented as none of the blocks around it. -/
  | looseUnindent
  /-- A clause of a code block continues no statement before it. -/
  | strayWord (word : List Char)
  /-- A directive stands inside a line. -/
  | strayDirective
  /-- The header of a compound statement does not end with a colon. -/
  | missingHeaderColon
  /-- A compound statement has no body. -/
  | missingBody
  deriving DecidableEq, Repr

/-- The wording of a cause. -/
def LayoutCause.message : LayoutCause → String
  | .inline fault => fault.message
  | .openQuote fault => fault.message
  | .missingColon keyword =>
      "expected `:` at the end of the `$" ++ String.ofList keyword ++ "` header"
  | .missingBlock keyword => "expected an indented block after `$" ++ keyword.word ++ "`"
  | .incompleteVar => "invalid var statement"
  | .varName text => "invalid var name `" ++ String.ofList text ++ "`"
  | .reservedVar => "`body` is reserved and cannot be set with $var"
  | .varMark => "invalid var statement: expected `=` or `:` after the name"
  | .strayClause keyword =>
      "`$" ++ keyword.word ++ "` without a matching `$if`, `$for` or `$while`"
  | .tabIndent => "tabs are not allowed in code block indentation"
  | .unfinishedStatement => "unterminated statement in code block"
  | .unexpectedIndent => "unexpected indent"
  | .looseUnindent => "unindent does not match any outer indentation level"
  | .strayWord word => "`" ++ String.ofList word ++ "` without a matching block"
  | .strayDirective => "unexpected directive inside a line"
  | .missingHeaderColon => "expected `:` after the statement header"
  | .missingBody => "expected an indented block"

/-- A cause and the line it is on. -/
structure LayoutFault where
  line : Nat
  cause : LayoutCause
  deriving DecidableEq, Repr

end Stencil
