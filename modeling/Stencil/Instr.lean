import Stencil.Expr.Reader
import Stencil.Section

/-!
# Instructions

What a template is compiled to. Blocks hold lists of instructions, adjacent literal text is one
instruction, and every expression is a tree. A program is a list of instructions with the parameters
it takes.

The faults of compiling come in two classes: a malformed structure, and code that is no expression,
no statement, or stands where it must not.
-/

namespace Stencil

/-- What calling a definition gives. -/
inductive DefinitionKind where
  /-- The text that its body renders. -/
  | template
  /-- The value that its body returns. -/
  | procedure
  deriving DecidableEq, Repr

/-- One step of a program. -/
inductive Instr where
  /-- Appends literal text. -/
  | text (content : String)
  /-- Appends the text of a value, escaped or not. -/
  | emit (value : Expr) (escape : Bool)
  | execute (statement : Statement)
  /-- Runs the body of the first test that holds. -/
  | branch (branches : List (Expr × List Instr)) (otherwise : Option (List Instr))
  /-- Runs the body for each item; a tracked loop can be asked for its position. -/
  | forLoop (target : Target) (items : Expr) (body : List Instr) (otherwise : Option (List Instr))
      (tracked : Bool)
  | whileLoop (test : Expr) (body : List Instr) (otherwise : Option (List Instr))
  /-- Binds a function in the current frame. -/
  | define (kind : DefinitionKind) (name : String) (parameters : List Parameter)
      (body : List Instr)
  /-- Sets an output variable to a value. -/
  | setVar (name : String) (value : Expr)
  /-- Sets an output variable to the text that the body renders. -/
  | setFragment (name : String) (body : List Instr)
  | breakLoop
  | continueLoop
  | returnValue (value : Option Expr)

/-- A compiled template: its parameters and its body. -/
structure Program where
  parameters : List Parameter
  body : List Instr

/-- A list of instructions under construction, the last one first. -/
abbrev Emitted := List Instr

/-- Adds literal text, which joins the text before it. Empty text adds nothing. -/
def Emitted.addText (out : Emitted) (content : String) : Emitted :=
  if content.isEmpty then out
  else match out with
    | .text before :: rest => .text (before ++ content) :: rest
    | _ => .text content :: out

/-! ## Faults -/

/-- Why code cannot be compiled. -/
inductive CodeCause where
  /-- The code of a directive is malformed. -/
  | malformed (fault : SyntaxFault)
  /-- The code of an expression in a line is malformed. -/
  | expression (code : List Char) (fault : SyntaxFault)
  /-- A loop directive stands outside all loops. -/
  | outsideLoop (code : List Char)
  /-- A value is returned outside all definitions. -/
  | returnOutside
  /-- Something stands in the header of an `else`. -/
  | elseHeader (header : List Char)
  deriving DecidableEq, Repr

/-- The wording of a cause. -/
def CodeCause.message : CodeCause → String
  | .malformed fault => fault.message
  | .expression code fault =>
      "invalid expression `" ++ String.ofList code ++ "`: " ++ fault.message
  | .outsideLoop code => "`" ++ String.ofList code ++ "` outside a loop"
  | .returnOutside => "`return` with a value outside a def"
  | .elseHeader header => "unexpected text in `" ++ String.ofList header ++ "`"

/-- Why a text is no template. -/
inductive CompileFault where
  /-- Its structure is malformed. -/
  | layout (fault : LayoutFault)
  /-- Some code of it is malformed. -/
  | code (line : Nat) (cause : CodeCause)
  deriving DecidableEq, Repr

namespace CompileFault

/-- The line that a fault is on. -/
def line : CompileFault → Nat
  | layout fault => fault.line
  | code line _ => line

/-- The wording of a fault, without its line. -/
def message : CompileFault → String
  | layout fault => fault.cause.message
  | code _ cause => cause.message

end CompileFault

/-- The result of reading code on a line. -/
def onLine {α : Type} (line : Nat) (result : Except SyntaxFault α) : Except CompileFault α :=
  match result with
  | .ok value => .ok value
  | .error fault => .error (.code line (.malformed fault))

/-- A malformed structure on a line. -/
def layoutError {α : Type} (line : Nat) (cause : LayoutCause) : Except CompileFault α :=
  .error (.layout ⟨line, cause⟩)

theorem layoutError_bind {α β : Type} (line : Nat) (cause : LayoutCause)
    (next : α → Except CompileFault β) :
    (layoutError line cause >>= next) = layoutError line cause := rfl

/-! ## Context -/

/-- What the blocks around a section say about it. -/
structure Surroundings where
  /-- The spaces before every line of text. -/
  indent : Nat
  inLoop : Bool
  inDefinition : Bool
  deriving DecidableEq, Repr

namespace Surroundings

/-- Outside all blocks. -/
def outside : Surroundings := ⟨0, false, false⟩

/-- In the body of a block whose header is indented by this many spaces. -/
def enter (s : Surroundings) (indent : Nat) : Surroundings :=
  { s with indent := indent + s.indent }

/-- In the body of a loop. -/
def looping (s : Surroundings) : Surroundings := { s with inLoop := true }

/-- In the body of a definition; the loops around it do not count there. -/
def defining (s : Surroundings) : Surroundings := { s with inLoop := false, inDefinition := true }

end Surroundings

/-- The instruction of a flow directive. -/
def flowInstr (within : Surroundings) (keyword : FlowKeyword) (code : List Char) (line : Nat) :
    Except CompileFault (Option Instr) :=
  match keyword with
  | .pass => .ok none
  | .breakLoop =>
      if within.inLoop then .ok (some .breakLoop) else .error (.code line (.outsideLoop code))
  | .continueLoop =>
      if within.inLoop then .ok (some .continueLoop) else .error (.code line (.outsideLoop code))
  | .returnValue => do
      let value ← onLine line (Expr.readReturn code)
      if value.isSome && !within.inDefinition then .error (.code line .returnOutside)
      else .ok (some (.returnValue value))

end Stencil
