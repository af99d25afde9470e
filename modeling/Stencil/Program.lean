import Stencil.CodeBlock
import Stencil.Section.Outline

/-!
# Programs

Compiling a document. Each section becomes instructions; the clauses of a conditional are gathered
into one instruction, and so are a loop and its `else`. A line inside blocks is preceded by the
spaces that the headers around it are indented by, so that nested text keeps its indentation.

`compileSuite` goes through a list of sections and remembers the construct that the next section may
still continue, `OpenBlock`. A section that does not continue it completes it first.

A template is compiled from its outline, by `Outline.compileSuite`, which also meets what no section
can be: a directive inside a line, and text outside all lines.

## Main results

* `Program.ofOutline_outline`: the outline of a document is compiled as the document is.
* `Program.read_eq`: compiling a text goes through its document.
-/

namespace Stencil

/-- A construct that the next section may continue. -/
inductive OpenBlock where
  | nothing
  /-- The branches of a conditional so far. -/
  | branches (done : List (Expr × List Instr))
  /-- A loop without its `else`: whether it goes over items, its header, its body, its line. -/
  | loop (overItems : Bool) (header : List Char) (body : List Instr) (line : Nat)

/-- The instruction of a loop. -/
def loopInstr (overItems : Bool) (header : List Char) (body : List Instr)
    (otherwise : Option (List Instr)) (line : Nat) : Except CompileFault Instr :=
  if overItems then do
    let (target, items) ← onLine line (readForHeader header)
    return .forLoop target items body otherwise true
  else do
    let test ← onLine line (Expr.readAfter "while" header)
    return .whileLoop test body otherwise

/-- Adds the construct that nothing continues. -/
def OpenBlock.close (out : Emitted) : OpenBlock → Except CompileFault Emitted
  | .nothing => .ok out
  | .branches done => .ok (.branch done none :: out)
  | .loop overItems header body line => (· :: out) <$> loopInstr overItems header body none line

/-- Adds the pieces of the line with this number. -/
def compilePieces (number : Nat) (out : Emitted) : List Piece → Except CompileFault Emitted
  | [] => .ok out
  | .text content :: rest => compilePieces number (out.addText (String.ofList content)) rest
  | .expression code escape :: rest =>
      match Expr.read code with
      | .ok value => compilePieces number (.emit value escape :: out) rest
      | .error fault => .error (.code number (.expression code fault))

/-- Adds a line of text that is indented by this many spaces. -/
def compileLine (indent : Nat) (out : Emitted) (line : TextLine) : Except CompileFault Emitted :=
  compilePieces line.number (out.addText (String.ofList (List.replicate indent ' '))) line.pieces

/-- Adds lines of text without indentation. -/
def compileLines (out : Emitted) : List TextLine → Except CompileFault Emitted
  | [] => .ok out
  | line :: rest => do
      let out ← compileLine 0 out line
      compileLines out rest

/-- Refuses the header of an `else` that holds anything else. -/
def checkElse (header : List Char) (line : Nat) : Except CompileFault Unit :=
  if Text.trim header = "else".toList then .ok () else .error (.code line (.elseHeader header))

/-- Compiles sections after the instructions `out`, in reverse, and an open construct. -/
def compileSuite (within : Surroundings) (open_ : OpenBlock) (out : Emitted) :
    List Section → Except CompileFault (List Instr)
  | [] => do
      let out ← open_.close out
      return out.reverse
  | .block line .elifBranch header indent body :: rest =>
      match open_ with
      | .branches done => do
          let test ← onLine line (Expr.readAfter "elif" header)
          let body ← compileSuite (within.enter indent) .nothing [] body
          compileSuite within (.branches (done ++ [(test, body)])) out rest
      | _ => do
          let _ ← open_.close out
          layoutError line (.strayClause .elifBranch)
  | .block line .elseBranch header indent body :: rest =>
      match open_ with
      | .branches done => do
          checkElse header line
          let otherwise ← compileSuite (within.enter indent) .nothing [] body
          compileSuite within .nothing (.branch done (some otherwise) :: out) rest
      | .loop overItems loopHeader loopBody loopLine => do
          checkElse header line
          let otherwise ← compileSuite (within.enter indent) .nothing [] body
          let loop ← loopInstr overItems loopHeader loopBody (some otherwise) loopLine
          compileSuite within .nothing (loop :: out) rest
      | .nothing => layoutError line (.strayClause .elseBranch)
  | .block line .ifBranch header indent body :: rest => do
      let out ← open_.close out
      let test ← onLine line (Expr.readAfter "if" header)
      let body ← compileSuite (within.enter indent) .nothing [] body
      compileSuite within (.branches [(test, body)]) out rest
  | .block line .forLoop header indent body :: rest => do
      let out ← open_.close out
      let body ← compileSuite (within.enter indent).looping .nothing [] body
      compileSuite within (.loop true header body line) out rest
  | .block line .whileLoop header indent body :: rest => do
      let out ← open_.close out
      let body ← compileSuite (within.enter indent).looping .nothing [] body
      compileSuite within (.loop false header body line) out rest
  | .block line .definition header indent body :: rest => do
      let out ← open_.close out
      let (name, parameters) ← onLine line (readDefinitionHeader header)
      let body ← compileSuite (within.enter indent).defining .nothing [] body
      compileSuite within .nothing (.define .template name parameters body :: out) rest
  | .line content :: rest => do
      let out ← open_.close out
      let out ← compileLine within.indent out content
      compileSuite within .nothing out rest
  | .assignment line code :: rest => do
      let out ← open_.close out
      if code.isEmpty then compileSuite within .nothing out rest
      else
        let statement ← onLine line (Statement.read code)
        compileSuite within .nothing (.execute statement :: out) rest
  | .flow line keyword code :: rest => do
      let out ← open_.close out
      let instr ← flowInstr within keyword code line
      compileSuite within .nothing (instr.toList ++ out) rest
  | .code line text :: rest => do
      let out ← open_.close out
      let body ← CodeBlock.compile within text line
      compileSuite within .nothing (body.reverse ++ out) rest
  | .varExpression line name code :: rest => do
      let out ← open_.close out
      let value ← onLine line (Expr.read code)
      compileSuite within .nothing (.setVar name value :: out) rest
  | .varFragment _ name lines :: rest => do
      let out ← open_.close out
      let body ← compileLines [] lines
      compileSuite within .nothing (.setFragment name body.reverse :: out) rest

/-- Compiles a document. -/
def Program.ofDocument (document : Document) : Except CompileFault Program := do
  let parameters ← match document.parameters with
    | some text => onLine 1 (readParameters text)
    | none => pure []
  let body ← compileSuite .outside .nothing [] document.body
  return ⟨parameters, body⟩

/-! ## Compiling outlines -/

/-- A construct that may go on, and the instructions before it, in reverse. -/
abbrev Compiling := OpenBlock × Emitted

/-- What a block adds whose body is compiled so. -/
def clause (within : Surroundings) (state : Compiling) (line : Nat) (keyword : BlockKeyword)
    (header : List Char) (indent : Nat) (suite : Surroundings → Except CompileFault (List Instr)) :
    Except CompileFault Compiling :=
  match keyword with
  | .elifBranch =>
      match state.1 with
      | .branches done => do
          let test ← onLine line (Expr.readAfter "elif" header)
          let body ← suite (within.enter indent)
          return (.branches (done ++ [(test, body)]), state.2)
      | _ => do
          let _ ← state.1.close state.2
          layoutError line (.strayClause .elifBranch)
  | .elseBranch =>
      match state.1 with
      | .branches done => do
          checkElse header line
          let otherwise ← suite (within.enter indent)
          return (.nothing, .branch done (some otherwise) :: state.2)
      | .loop overItems loopHeader loopBody loopLine => do
          checkElse header line
          let otherwise ← suite (within.enter indent)
          let loop ← loopInstr overItems loopHeader loopBody (some otherwise) loopLine
          return (.nothing, loop :: state.2)
      | .nothing => layoutError line (.strayClause .elseBranch)
  | .ifBranch => do
      let out ← state.1.close state.2
      let test ← onLine line (Expr.readAfter "if" header)
      let body ← suite (within.enter indent)
      return (.branches [(test, body)], out)
  | .forLoop => do
      let out ← state.1.close state.2
      let body ← suite (within.enter indent).looping
      return (.loop true header body line, out)
  | .whileLoop => do
      let out ← state.1.close state.2
      let body ← suite (within.enter indent).looping
      return (.loop false header body line, out)
  | .definition => do
      let out ← state.1.close state.2
      let (name, parameters) ← onLine line (readDefinitionHeader header)
      let body ← suite (within.enter indent).defining
      return (.nothing, .define .template name parameters body :: out)

namespace Outline

/-- Adds what stands in the line with this number. A directive cannot stand there. -/
def compilePieces (number : Nat) (out : Emitted) : List Node → Except CompileFault Emitted
  | [] => .ok out
  | .text content :: rest => compilePieces number (out.addText (String.ofList content)) rest
  | .expression code escape :: rest =>
      match Expr.read code with
      | .ok value => compilePieces number (.emit value escape :: out) rest
      | .error fault => .error (.code number (.expression code fault))
  | directive :: _ => layoutError (directive.line?.getD number) .strayDirective

/-- Compiles nodes after the instructions `out`, in reverse, and an open construct. Text and
expressions that stand in no line have no line to be refused on. -/
def compileSuite (within : Surroundings) (open_ : OpenBlock) (out : Emitted) :
    List Node → Except CompileFault (List Instr)
  | [] => do
      let out ← open_.close out
      return out.reverse
  | .block line keyword header indent body :: rest => do
      let state ← clause within (open_, out) line keyword header indent fun around =>
        compileSuite around .nothing [] body
      compileSuite within state.1 state.2 rest
  | .varFragment _ name lines :: rest => do
      let out ← open_.close out
      let body ← compileSuite { within with indent := 0 } .nothing [] lines
      compileSuite within .nothing (.setFragment name body :: out) rest
  | .line number pieces :: rest => do
      let out ← open_.close out
      let indented := out.addText (String.ofList (List.replicate within.indent ' '))
      let out ← compilePieces number indented pieces
      compileSuite within .nothing out rest
  | .text content :: rest => do
      let out ← open_.close out
      let out ← compilePieces 0 out [.text content]
      compileSuite within .nothing out rest
  | .expression code escape :: rest => do
      let out ← open_.close out
      let out ← compilePieces 0 out [.expression code escape]
      compileSuite within .nothing out rest
  | .assignment line code :: rest => do
      let out ← open_.close out
      if code.isEmpty then compileSuite within .nothing out rest
      else
        let statement ← onLine line (Statement.read code)
        compileSuite within .nothing (.execute statement :: out) rest
  | .flow line keyword code :: rest => do
      let out ← open_.close out
      let instr ← flowInstr within keyword code line
      compileSuite within .nothing (instr.toList ++ out) rest
  | .code line text :: rest => do
      let out ← open_.close out
      let body ← CodeBlock.compile within text line
      compileSuite within .nothing (body.reverse ++ out) rest
  | .varExpression line name code :: rest => do
      let out ← open_.close out
      let value ← onLine line (Expr.read code)
      compileSuite within .nothing (.setVar name value :: out) rest

end Outline

/-- Compiles an outline. -/
def Program.ofOutline (outline : Outline) : Except CompileFault Program := do
  let parameters ← match outline.parameters with
    | some text => onLine 1 (readParameters text)
    | none => pure []
  let body ← Outline.compileSuite .outside .nothing [] outline.body
  return ⟨parameters, body⟩

/-- Compiles the text of a template. -/
def Program.read (text : List Char) : Except CompileFault Program :=
  match Outline.read text with
  | .ok outline => Program.ofOutline outline
  | .error fault => .error (.layout fault)

/-! ## Outlines of documents -/

namespace Outline

theorem compilePieces_map (number : Nat) (out : Emitted) (pieces : List Piece) :
    compilePieces number out (pieces.map Piece.node) = Stencil.compilePieces number out pieces := by
  induction pieces generalizing out with
  | nil => rfl
  | cons piece rest ih =>
      cases piece with
      | text content => exact ih _
      | expression code escape =>
          rw [List.map_cons, Piece.node, compilePieces, Stencil.compilePieces]
          simp only [ih]

/-- Lines without indentation around them are compiled one after the other. -/
theorem compileSuite_lines {within : Surroundings} (h : within.indent = 0) (out : Emitted)
    (lines : List TextLine) : compileSuite within .nothing out (lines.map TextLine.node) =
      List.reverse <$> compileLines out lines := by
  induction lines generalizing out with
  | nil => rw [List.map_nil, compileSuite]; rfl
  | cons line rest ih =>
      rw [List.map_cons, TextLine.node, compileSuite, compileLines, compileLine, map_bind, h]
      simp only [compilePieces_map, ih]
      rfl

/-- The nodes of sections are compiled as the sections are. -/
theorem compileSuite_nodes : ∀ (sections : List Section) (within : Surroundings)
    (open_ : OpenBlock) (out : Emitted), compileSuite within open_ out (nodes sections) =
      Stencil.compileSuite within open_ out sections
  | [], within, open_, out => by rw [nodes, compileSuite, Stencil.compileSuite]
  | first :: rest, within, open_, out => by
      have hRest := compileSuite_nodes rest
      cases first with
      | block line keyword header indent body =>
          have hBody := compileSuite_nodes body
          rw [nodes, Section.node, compileSuite]
          simp only [hBody, hRest]
          cases keyword with
          | elifBranch =>
              cases open_ with
              | _ =>
                  simp only [Stencil.compileSuite, clause, bind_assoc, pure_bind, layoutError_bind]
          | elseBranch =>
              cases open_ with
              | _ =>
                  simp only [Stencil.compileSuite, clause, bind_assoc, pure_bind, layoutError_bind]
          | _ => simp only [Stencil.compileSuite, clause, bind_assoc, pure_bind]
      | line content =>
          rw [nodes, Section.node, TextLine.node, compileSuite, Stencil.compileSuite]
          simp only [hRest, compilePieces_map]
          rfl
      | varFragment number name lines =>
          rw [nodes, Section.node, compileSuite, Stencil.compileSuite]
          simp only [hRest, compileSuite_lines, bind_map_left]
      | _ =>
          rw [nodes, Section.node, compileSuite, Stencil.compileSuite]
          simp only [hRest]

end Outline

/-- The outline of a document is compiled as the document is. -/
theorem Program.ofOutline_outline (document : Document) :
    Program.ofOutline document.outline = Program.ofDocument document := by
  unfold Program.ofOutline Program.ofDocument
  rw [Document.outline, Outline.compileSuite_nodes]

/-- Compiling a text goes through its document. -/
theorem Program.read_eq (text : List Char) : Program.read text = match Document.read text with
    | .ok document => Program.ofDocument document
    | .error fault => .error (.layout fault) := by
  rw [Program.read, Outline.read_eq]
  cases Document.read text with
  | error fault => rfl
  | ok document => exact Program.ofOutline_outline document

/-- A template may have parameters and no body. -/
theorem Program.read_of_parameters {text code : List Char} {parameters : List Parameter}
    (hDocument : Document.read text = .ok ⟨some code, []⟩)
    (hParameters : readParameters code = .ok parameters) :
    Program.read text = .ok ⟨parameters, []⟩ := by
  have hProgram : Program.ofDocument ⟨some code, []⟩ = onLine 1 (readParameters code) >>=
      fun parameters => (fun body => ⟨parameters, body⟩) <$>
        compileSuite .outside .nothing [] [] := rfl
  rw [Program.read_eq, hDocument]
  simp only [hProgram, hParameters, compileSuite, OpenBlock.close]
  rfl

end Stencil
