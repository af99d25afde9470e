import Stencil.Instr
import Stencil.Section.Reader

/-!
# Code blocks

A code block is a list of statements, one on a line, whose nesting is told by indentation. A
statement goes on to the next line while a bracket is open in it or when it ends with a backslash.
A body is indented more than its header, all its statements alike, and a statement after it returns
to the indentation of a block around it.

`logicalLines` puts the lines of a statement together and drops blank lines and comments.
`CodeBlock.compile` reads the statements. Its readers call one another through a budget that each
call lowers by one; a reader takes a line, or goes on inside the line it took, before it reads
another statement, so a budget of a constant for each character is enough.
-/

namespace Stencil.CodeBlock

open Stencil.Text

/-- A statement or a header: how far it is indented, its text, and the number of its first line. -/
structure LogicalLine where
  indent : Nat
  text : List Char
  number : Nat
  deriving DecidableEq, Repr

/-- How many brackets of a text are open, less those that close none. -/
def bracketDepth (text : List Char) : Int :=
  (lenientTokens text).foldl (fun depth t =>
    match t.kind with
    | .opening => depth + 1
    | .closing => depth - 1
    | _ => depth) 0

/-- Does the statement go on to the next line? -/
def isOpen (text : List Char) : Bool := 0 < bracketDepth text || text.getLast? == some '\\'

/-- The statement with the next line added to it. A backslash at its end gives way to a space. -/
def continueWith (text next : List Char) : List Char :=
  (if text.getLast? = some '\\' then text.dropLast ++ [' '] else text ++ ['\n']) ++ trim next

/-- The logical lines of the lines from `number` on, after a statement that may still be open. -/
def joinLines (pending : Option LogicalLine) (number : Nat) :
    List (List Char) → Except CompileFault (List LogicalLine)
  | [] =>
      match pending with
      | some line => layoutError line.number .unfinishedStatement
      | none => .ok []
  | raw :: rest =>
      let body := dropSpaces raw
      match pending with
      | some line =>
          let line := { line with text := continueWith line.text raw }
          finish line rest
      | none =>
          if allBlank body || body.head? == some '#' then joinLines none (number + 1) rest
          else if body.head? == some '\t' then layoutError number .tabIndent
          else finish ⟨leadingSpaces raw, trimEnd body, number⟩ rest
where
  /-- Goes on after a line that may be complete. -/
  finish (line : LogicalLine) (rest : List (List Char)) :
      Except CompileFault (List LogicalLine) :=
    if isOpen line.text then joinLines (some line) (number + 1) rest
    else (line :: ·) <$> joinLines none (number + 1) rest

/-- The logical lines of a text whose first line has this number. -/
def logicalLines (text : List Char) (number : Nat) : Except CompileFault (List LogicalLine) :=
  joinLines none number (lines text)

/-! ## Statements -/

/-- A reader of logical lines. -/
abbrev Reader := StateT (List LogicalLine) (Except CompileFault)

/-- The word that a line starts with. -/
def LogicalLine.word? (line : LogicalLine) : Option (List Char) :=
  match firstToken? line.text with
  | some t => if t.kind = .name then some t.text else none
  | none => none

/-- Does the line start with this word? -/
def LogicalLine.startsWith (line : LogicalLine) (word : String) : Bool :=
  line.word? == some word.toList

/-- Gives up at the next line. -/
def refuse {α : Type} : Reader α := fun rest =>
  match rest with
  | line :: _ => layoutError line.number .unexpectedIndent
  | [] => layoutError 0 .unexpectedIndent

/-- Is the next line indented by this much, and does it start with this word? -/
def nextStarts (indent : Nat) (word : String) : Reader Bool := fun rest =>
  .ok (rest.head?.any fun line => line.indent == indent && line.startsWith word, rest)

/-- The header of a compound statement and what follows its colon. -/
def splitStatement (line : LogicalLine) : Except CompileFault (List Char × List Char) :=
  match splitHeader line.text with
  | .ok (some (header, rest)) => .ok (header, trim rest)
  | .ok none => layoutError line.number .missingHeaderColon
  | .error fault => layoutError line.number (.openQuote fault)

mutual

/-- The statements that are indented by this much, up to one that is indented less. -/
def readBlock (within : Surroundings) (indent : Nat) : Nat → Reader (List Instr)
  | 0 => refuse
  | budget + 1 => fun rest =>
      match rest with
      | [] => .ok ([], [])
      | line :: others =>
          if line.indent < indent then .ok ([], rest)
          else if indent < line.indent then layoutError line.number .unexpectedIndent
          else do
            let (first, rest) ← readStatement within line budget others
            let (next, rest) ← readBlock within indent budget rest
            return (first ++ next, rest)

/-- The statement that starts with this line. -/
def readStatement (within : Surroundings) (line : LogicalLine) : Nat → Reader (List Instr)
  | 0 => refuse
  | budget + 1 => do
      match line.word?.bind FlowKeyword.ofWord? with
      | some keyword =>
          let instr ← flowInstr within keyword line.text line.number
          return instr.toList
      | none =>
          if line.startsWith "if" then
            let (branches, otherwise) ← readBranches within line "if" budget
            return [.branch branches otherwise]
          else if line.startsWith "for" then
            let (header, body) ← readCompound within.looping line budget
            let otherwise ← readElse within line.indent budget
            let (target, items) ← onLine line.number (readForHeader header)
            return [.forLoop target items body otherwise false]
          else if line.startsWith "while" then
            let (header, body) ← readCompound within.looping line budget
            let otherwise ← readElse within line.indent budget
            let test ← onLine line.number (Expr.readAfter "while" header)
            return [.whileLoop test body otherwise]
          else if line.startsWith "def" then
            let (header, body) ← readCompound within.defining line budget
            let (name, parameters) ← onLine line.number (readDefinitionHeader header)
            return [.define .procedure name parameters body]
          else if line.startsWith "elif" || line.startsWith "else" then
            layoutError line.number (.strayWord (line.word?.getD []))
          else
            let statement ← onLine line.number (Statement.read line.text)
            return [.execute statement]

/-- The header and the body of the compound statement that starts with this line. The body is the
rest of the line or the block below it. -/
def readCompound (within : Surroundings) (line : LogicalLine) :
    Nat → Reader (List Char × List Instr)
  | 0 => refuse
  | budget + 1 => fun rest => do
      let (header, inline) ← splitStatement line
      if !inline.isEmpty then
        let (body, _) ← readBlock within 0 budget [⟨0, inline, line.number⟩]
        return ((header, body), rest)
      match rest with
      | [] => layoutError line.number .missingBody
      | first :: _ =>
          if first.indent ≤ line.indent then layoutError line.number .missingBody
          else
            let (body, rest) ← readBlock within first.indent budget rest
            match rest with
            | after :: _ =>
                if line.indent < after.indent then layoutError after.number .looseUnindent
                else return ((header, body), rest)
            | [] => return ((header, body), [])

/-- The branches of a conditional that starts with this line, whose first word is `word`. -/
def readBranches (within : Surroundings) (line : LogicalLine) (word : String) :
    Nat → Reader (List (Expr × List Instr) × Option (List Instr))
  | 0 => refuse
  | budget + 1 => do
      let (header, body) ← readCompound within line budget
      let test ← onLine line.number (Expr.readAfter word header)
      if ← nextStarts line.indent "elif" then
        fun rest =>
          match rest with
          | [] => .ok (([(test, body)], none), [])
          | next :: others => do
              let ((branches, otherwise), rest) ← readBranches within next "elif" budget others
              return (((test, body) :: branches, otherwise), rest)
      else
        let otherwise ← readElse within line.indent budget
        return ([(test, body)], otherwise)

/-- The body of the `else` that is next at this indentation, if there is one. -/
def readElse (within : Surroundings) (indent : Nat) : Nat → Reader (Option (List Instr))
  | 0 => refuse
  | budget + 1 => do
      if ← nextStarts indent "else" then
        fun rest =>
          match rest with
          | [] => .ok (none, [])
          | line :: others => do
              let ((header, body), rest) ← readCompound within line budget others
              if trim header = "else".toList then return (some body, rest)
              else .error (.code line.number (.elseHeader header))
      else return none

end

/-- The number of characters of lines, each counted with its end. -/
def extent : List LogicalLine → Nat
  | [] => 0
  | line :: rest => line.text.length + 1 + extent rest

/-- The budget for these lines. -/
def budgetFor (lines : List LogicalLine) : Nat := 8 * (extent lines + 1)

/-- The instructions of a code block whose first line has this number. -/
def compile (within : Surroundings) (text : List Char) (number : Nat) :
    Except CompileFault (List Instr) := do
  let lines ← logicalLines text number
  let (body, _) ← readBlock within 0 (budgetFor lines) lines
  return body

end Stencil.CodeBlock
