import Stencil.Section.Reader

/-!
# Outlines

The tree that a template's text is read into, before anything is compiled. All its nodes are of one
type: a line, a body and a fragment hold lists of nodes, and a node does not show whether it may
stand where it stands. That only plain text and expressions are in lines, and that they are nowhere
else, is due to the reader. A `Document` is a tree in which that can be taken for granted, and
`Outline.read_eq` says that every text is read into the tree of a document, or refused like it.

## Main results

* `placed_iff`: nodes that stand in their places are those of sections.
* `Outline.read_eq`: what is read is the tree of a document.
* `Outline.placed_of_read`: every node that is read stands in its place.
-/

namespace Stencil

open Stencil.Text

/-- A node. The first argument is the number of its source line, except for a code block, which
carries the number of the line its text starts on; text and expressions have no number. -/
inductive Node where
  /-- Plain text. -/
  | text (content : List Char)
  /-- The code of an expression, and whether its output is escaped. -/
  | expression (code : List Char) (escape : Bool)
  /-- A line of text and expressions. -/
  | line (number : Nat) (pieces : List Node)
  /-- A statement up to the end of its line. -/
  | assignment (number : Nat) (code : List Char)
  /-- A flow directive with its whole code. -/
  | flow (number : Nat) (keyword : FlowKeyword) (code : List Char)
  /-- A block with the text of its header, the number of spaces before it, and its body. -/
  | block (number : Nat) (keyword : BlockKeyword) (header : List Char) (indent : Nat)
      (body : List Node)
  /-- The text of a block of statements. -/
  | code (number : Nat) (text : List Char)
  /-- An output variable that is set to the value of an expression. -/
  | varExpression (number : Nat) (name : String) (code : List Char)
  /-- An output variable that is set to rendered text. -/
  | varFragment (number : Nat) (name : String) (lines : List Node)

/-- A template's text: the parameter list of its first line, if it declares one, and its body. -/
structure Outline where
  parameters : Option (List Char)
  body : List Node

namespace Node

/-- The number of a node's line, if it has one. -/
def line? : Node → Option Nat
  | text _ | expression .. => none
  | line number _ | assignment number _ | flow number .. | block number .. | code number _
  | varExpression number .. | varFragment number .. => some number

/-! ## Where nodes stand -/

/-- Is the node plain text or an expression? -/
def IsPiece (node : Node) : Prop := node.line? = none

/-- Is the node a line of nothing but text and expressions? -/
def IsLine (node : Node) : Prop :=
  ∃ number pieces, node = .line number pieces ∧ ∀ piece ∈ pieces, piece.IsPiece

/-- The node may stand in a body, and every node below it stands in its place. -/
inductive Placed : Node → Prop
  | line {node : Node} : node.IsLine → Placed node
  | assignment {number : Nat} {code : List Char} : Placed (.assignment number code)
  | flow {number : Nat} {keyword : FlowKeyword} {code : List Char} :
      Placed (.flow number keyword code)
  | block {number indent : Nat} {keyword : BlockKeyword} {header : List Char} {body : List Node} :
      (∀ node ∈ body, Placed node) → Placed (.block number keyword header indent body)
  | code {number : Nat} {text : List Char} : Placed (.code number text)
  | varExpression {number : Nat} {name : String} {code : List Char} :
      Placed (.varExpression number name code)
  | varFragment {number : Nat} {name : String} {lines : List Node} :
      (∀ line ∈ lines, line.IsLine) → Placed (.varFragment number name lines)

end Node

/-! ## The tree of a document -/

/-- The node of a piece. -/
def Piece.node : Piece → Node
  | text content => .text content
  | expression code escape => .expression code escape

/-- The node of a line. -/
def TextLine.node (content : TextLine) : Node :=
  .line content.number (content.pieces.map Piece.node)

mutual

/-- The node of a section. -/
def Section.node : Section → Node
  | .line content => content.node
  | .assignment number code => .assignment number code
  | .flow number keyword code => .flow number keyword code
  | .block number keyword header indent body => .block number keyword header indent (nodes body)
  | .code number text => .code number text
  | .varExpression number name code => .varExpression number name code
  | .varFragment number name lines => .varFragment number name (lines.map TextLine.node)

/-- The nodes of sections. -/
def nodes : List Section → List Node
  | [] => []
  | first :: rest => first.node :: nodes rest

end

/-- The tree of a document. -/
def Document.outline (document : Document) : Outline :=
  ⟨document.parameters, nodes document.body⟩

theorem Piece.isPiece_node (piece : Piece) : piece.node.IsPiece := by
  cases piece with
  | text content => rfl
  | expression code escape => rfl

theorem TextLine.isLine_node (content : TextLine) : content.node.IsLine := by
  refine ⟨content.number, _, rfl, fun piece hPiece => ?_⟩
  obtain ⟨source, -, rfl⟩ := List.mem_map.1 hPiece
  exact source.isPiece_node

/-- The nodes of sections stand in their places. -/
theorem placed_nodes : ∀ sections : List Section, ∀ node ∈ nodes sections, node.Placed
  | [] => nofun
  | first :: rest => by
      refine List.forall_mem_cons.2 ⟨?_, placed_nodes rest⟩
      cases first with
      | line content => exact .line content.isLine_node
      | block number keyword header indent body => exact .block (placed_nodes body)
      | varFragment number name lines =>
          refine .varFragment fun line hLine => ?_
          obtain ⟨content, -, rfl⟩ := List.mem_map.1 hLine
          exact content.isLine_node
      | assignment number code => exact .assignment
      | flow number keyword code => exact .flow
      | code number text => exact .code
      | varExpression number name code => exact .varExpression

/-- Pieces of lines are the nodes of pieces. -/
theorem exists_pieces {pieces : List Node} (h : ∀ piece ∈ pieces, piece.IsPiece) :
    ∃ source : List Piece, source.map Piece.node = pieces := by
  induction pieces with
  | nil => exact ⟨[], rfl⟩
  | cons piece rest ih =>
      rw [List.forall_mem_cons] at h
      obtain ⟨source, hSource⟩ := ih h.2
      cases piece with
      | text content => exact ⟨.text content :: source, congrArg _ hSource⟩
      | expression code escape => exact ⟨.expression code escape :: source, congrArg _ hSource⟩
      | _ => cases h.1

theorem Node.IsLine.exists_node {node : Node} (h : node.IsLine) :
    ∃ content : TextLine, content.node = node := by
  obtain ⟨number, pieces, rfl, hPieces⟩ := h
  obtain ⟨source, rfl⟩ := exists_pieces hPieces
  exact ⟨⟨number, source⟩, rfl⟩

theorem exists_lines {lines : List Node} (h : ∀ line ∈ lines, line.IsLine) :
    ∃ source : List TextLine, source.map TextLine.node = lines := by
  induction lines with
  | nil => exact ⟨[], rfl⟩
  | cons line rest ih =>
      rw [List.forall_mem_cons] at h
      obtain ⟨content, hContent⟩ := h.1.exists_node
      obtain ⟨source, hSource⟩ := ih h.2
      exact ⟨content :: source, by rw [List.map_cons, hContent, hSource]⟩

theorem exists_nodes {list : List Node} (h : ∀ node ∈ list, ∃ s : Section, s.node = node) :
    ∃ sections, nodes sections = list := by
  induction list with
  | nil => exact ⟨[], rfl⟩
  | cons node rest ih =>
      rw [List.forall_mem_cons] at h
      obtain ⟨first, hFirst⟩ := h.1
      obtain ⟨sections, hSections⟩ := ih h.2
      exact ⟨first :: sections, by rw [nodes, hFirst, hSections]⟩

/-- A node that stands in its place is the node of a section. -/
theorem Node.Placed.exists_node {node : Node} (h : node.Placed) : ∃ s : Section, s.node = node := by
  induction h with
  | line hLine =>
      obtain ⟨content, hContent⟩ := hLine.exists_node
      exact ⟨.line content, hContent⟩
  | @assignment number code => exact ⟨.assignment number code, rfl⟩
  | @flow number keyword code => exact ⟨.flow number keyword code, rfl⟩
  | @block number indent keyword header body _ ih =>
      obtain ⟨sections, rfl⟩ := exists_nodes ih
      exact ⟨.block number keyword header indent sections, rfl⟩
  | @code number text => exact ⟨.code number text, rfl⟩
  | @varExpression number name code => exact ⟨.varExpression number name code, rfl⟩
  | @varFragment number name lines hLines =>
      obtain ⟨source, rfl⟩ := exists_lines hLines
      exact ⟨.varFragment number name source, rfl⟩

/-- Nodes that stand in their places are the nodes of sections, and those alone are. -/
theorem placed_iff {list : List Node} :
    (∀ node ∈ list, node.Placed) ↔ ∃ sections, nodes sections = list := by
  constructor
  · exact fun h => exists_nodes fun node hNode => (h node hNode).exists_node
  · rintro ⟨sections, rfl⟩
    exact placed_nodes sections

namespace Outline

/-! ## Reading lines -/

/-- An expression after its sigil. -/
def readExpression (escape : Bool) (text : List Char) : Except LayoutCause (Node × List Char) :=
  match Inline.read text with
  | .error fault => .error (.inline fault)
  | .ok (code, rest) =>
      let code := Inline.normalize code
      if code.isEmpty then .error (.inline .missing) else .ok (.expression code escape, rest)

/-- The first node of a line that is not empty, and the rest of the line. -/
def readPiece : List Char → Except LayoutCause (Node × List Char)
  | '$' :: '$' :: rest => .ok (.text ['$'], rest)
  | '$' :: '#' :: rest => .ok (.text ['\n'], (splitLine rest).2)
  | '$' :: ':' :: rest => readExpression false rest
  | '$' :: rest => readExpression true rest
  | text => .ok (.text (text.takeWhile (· != '$')), text.dropWhile (· != '$'))

theorem readExpression_eq (escape : Bool) (text : List Char) :
    readExpression escape text = Prod.map Piece.node id <$> Stencil.readExpression escape text := by
  unfold readExpression Stencil.readExpression
  cases Inline.read text with
  | error fault => rfl
  | ok cut =>
      obtain ⟨code, rest⟩ := cut
      dsimp only
      split
      · rfl
      · rfl

/-- What is read first in a line is a piece. -/
theorem readPiece_eq (text : List Char) :
    readPiece text = Prod.map Piece.node id <$> Stencil.readPiece text := by
  fun_cases readPiece text with
  | case1 rest => rfl
  | case2 rest => rfl
  | case3 rest => exact readExpression_eq false rest
  | case4 rest hSigil hHash hColon =>
      rw [Stencil.readPiece.eq_4 rest hSigil hHash hColon]
      exact readExpression_eq true rest
  | case5 _ hSigil hHash hColon hOther =>
      rw [Stencil.readPiece.eq_5 text hSigil hHash hColon hOther]
      rfl

theorem length_readPiece_lt {text rest : List Char} {node : Node}
    (h : readPiece text = .ok (node, rest)) (hText : text ≠ []) : rest.length < text.length := by
  rw [readPiece_eq] at h
  cases hPiece : Stencil.readPiece text with
  | error cause =>
      rw [hPiece] at h
      cases h
  | ok read =>
      rw [hPiece] at h
      cases h
      exact Stencil.length_readPiece_lt hPiece hText

/-- The nodes of a line. -/
def readPieces : List Char → Except LayoutCause (List Node)
  | [] => .ok []
  | c :: rest =>
      match _h : readPiece (c :: rest) with
      | .error cause => .error cause
      | .ok (node, others) => do
          let nodes ← readPieces others
          return node :: nodes
termination_by text => text.length
decreasing_by exact length_readPiece_lt _h (by simp)

/-- The line with this number. -/
def readLine (number : Nat) (text : List Char) : Except LayoutFault Node :=
  match readPieces text with
  | .error cause => .error ⟨number, cause⟩
  | .ok pieces => .ok (.line number pieces)

/-- The numbered lines of a fragment. Each ends with a newline of its own. -/
def readFragment (number : Nat) : List (List Char) → Except LayoutFault (List Node)
  | [] => .ok []
  | line :: rest =>
      match readPieces line with
      | .error cause => .error ⟨number, cause⟩
      | .ok pieces => do
          let others ← readFragment (number + 1) rest
          return .line number (pieces ++ [.text ['\n']]) :: others

theorem readPieces_eq (text : List Char) :
    readPieces text = List.map Piece.node <$> Stencil.readPieces text := by
  induction text using Stencil.readPieces.induct with
  | case1 =>
      rw [readPieces, Stencil.readPieces]
      rfl
  | case2 c rest cause hPiece =>
      rw [readPieces, Stencil.readPieces, readPiece_eq, hPiece]
      rfl
  | case3 c rest piece others hPiece ih =>
      rw [readPieces, Stencil.readPieces, readPiece_eq, hPiece]
      change (readPieces others >>= fun nodes => pure (piece.node :: nodes)) =
        List.map Piece.node <$> (Stencil.readPieces others >>= fun pieces => pure (piece :: pieces))
      rw [ih, bind_map_left, map_bind]
      rfl

theorem readLine_eq (number : Nat) (text : List Char) :
    readLine number text = TextLine.node <$> Stencil.readLine number text := by
  unfold readLine Stencil.readLine
  rw [readPieces_eq]
  cases Stencil.readPieces text with
  | error cause => rfl
  | ok pieces => rfl

/-- What is read of a fragment is lines. -/
theorem readFragment_eq (number : Nat) (lines : List (List Char)) :
    readFragment number lines = List.map TextLine.node <$> Stencil.readFragment number lines := by
  induction lines generalizing number with
  | nil => rfl
  | cons line rest ih =>
      rw [readFragment, Stencil.readFragment, Stencil.readLine, readPieces_eq, ih]
      cases Stencil.readPieces line with
      | error cause => rfl
      | ok pieces =>
          change (List.map TextLine.node <$> Stencil.readFragment (number + 1) rest >>=
            fun others =>
            pure (.line number (pieces.map Piece.node ++ [.text ['\n']]) :: others)) =
              List.map TextLine.node <$> (Stencil.readFragment (number + 1) rest >>= fun others =>
                pure (⟨number, pieces ++ [.text ['\n']]⟩ :: others))
          rw [bind_map_left, map_bind]
          refine bind_congr fun others => ?_
          rw [map_pure, List.map_cons, TextLine.node, List.map_append]
          rfl

/-! ## Reading directives -/

/-- What stands at the start of a text: a whole node, or a block whose body is still text. -/
inductive Entry where
  | whole (content : Node)
  | block (number : Nat) (keyword : BlockKeyword) (header : List Char) (indent : Nat)
      (bodyLine : Nat) (body : List Char)

/-- What stands at the start of a text, with its node. -/
def Entry.ofEntry : Stencil.Entry → Entry
  | .whole content => .whole content.node
  | .block number keyword header indent bodyLine body =>
      .block number keyword header indent bodyLine body

/-- An output variable: its name, a mark, and an expression, a text or an indented fragment. The
number of the line after it is given too. -/
def readVar (number indent : Nat) (after : List Char) :
    Except LayoutFault (Node × Nat × List Char) :=
  let (content, rest) := splitLine after
  let next := number + countNewlines content
  let tokens := lenientTokens content
  match tokens.filter (!·.isTrivia) with
  | _ :: name :: mark :: value :: _ =>
      if name.kind ≠ .name then .error ⟨number, .varName name.text⟩
      else if name.text = "body".toList then .error ⟨number, .reservedVar⟩
      else
        let label := String.ofList name.text
        let text := trim ((tokens.dropWhile (·.start ≤ mark.start)).flatMap Token.text)
        if mark.isOperator "=" then .ok (.varExpression number label text, next, rest)
        else if !mark.isOperator ":" then .error ⟨number, .varMark⟩
        else if value.kind = .newline then
          let below := indentedBlock (indent + indentStep) rest
          match readFragment (number + 1) (lines below.body) with
          | .error fault => .error fault
          | .ok content =>
              .ok (.varFragment number label content, next + below.newlines, below.rest)
        else
          match readLine number text with
          | .error fault => .error fault
          | .ok only => .ok (.varFragment number label [only], next, rest)
  | _ => .error ⟨number, .incompleteVar⟩

/-- Reads the directive that starts after a sigil, or the line of text that `text` starts with. The
number of the line after it is given too. -/
def readEntry (text : List Char) (number : Nat) :
    Except LayoutFault (Entry × Nat × List Char) :=
  match dropSpaces text with
  | '$' :: after =>
      let indent := leadingSpaces text
      let (content, rest) := splitLine after
      let next := number + countNewlines content
      match Directive.of? after with
      | some .var =>
          match readVar number indent after with
          | .error fault => .error fault
          | .ok (content, next, rest) => .ok (.whole content, next, rest)
      | some .code =>
          match readBlock number indent id after with
          | .error fault => .error fault
          | .ok block => .ok (.whole (.code block.bodyLine block.body), block.next, block.rest)
      | some (.block keyword) =>
          match readBlock number indent (min · indentStep) after with
          | .error fault => .error fault
          | .ok block =>
              if allBlank block.body then .error ⟨number, .missingBlock keyword⟩
              else
                let entry := .block number keyword block.header indent block.bodyLine block.body
                .ok (entry, block.next, block.rest)
      | some (.flow keyword) => .ok (.whole (.flow number keyword (trim content)), next, rest)
      | some .assignment => .ok (.whole (.assignment number (trim content)), next, rest)
      | none => textEntry
  | _ => textEntry
where
  /-- A line of text. -/
  textEntry : Except LayoutFault (Entry × Nat × List Char) :=
    let (content, rest) := splitLine text
    match readLine number (joinLine content) with
    | .error fault => .error fault
    | .ok line => .ok (.whole line, number + countNewlines content, rest)

theorem readVar_eq (number indent : Nat) (after : List Char) :
    readVar number indent after =
      Prod.map Section.node id <$> Stencil.readVar number indent after := by
  unfold readVar Stencil.readVar
  simp only [readFragment_eq, readLine_eq]
  generalize (lenientTokens (splitLine after).1).filter (!·.isTrivia) = words
  rcases words with _ | ⟨word, _ | ⟨name, _ | ⟨mark, _ | ⟨value, rest⟩⟩⟩⟩
  · rfl
  · rfl
  · rfl
  · rfl
  · dsimp only
    split
    · rfl
    split
    · rfl
    split
    · rfl
    split
    · rfl
    split
    · cases Stencil.readFragment (number + 1) _ with
      | error fault => rfl
      | ok content => rfl
    · cases Stencil.readLine number _ with
      | error fault => rfl
      | ok only => rfl

theorem textEntry_eq (text : List Char) (number : Nat) :
    readEntry.textEntry text number =
      Prod.map Entry.ofEntry id <$> Stencil.readEntry.textEntry text number := by
  unfold readEntry.textEntry Stencil.readEntry.textEntry
  simp only [readLine_eq]
  cases Stencil.readLine number (joinLine (splitLine text).1) with
  | error fault => rfl
  | ok line => rfl

/-- What is read first in a text is a section, or a block whose body is still text. -/
theorem readEntry_eq (text : List Char) (number : Nat) :
    readEntry text number = Prod.map Entry.ofEntry id <$> Stencil.readEntry text number := by
  generalize hFound : Stencil.readEntry text number = found
  unfold Stencil.readEntry at hFound
  unfold readEntry
  simp only [readVar_eq, textEntry_eq]
  split
  · rename_i after hAfter
    split at hFound
    · rename_i source hSource
      obtain rfl : after = source := List.tail_eq_of_cons_eq (hAfter.symm.trans hSource)
      subst hFound
      dsimp only
      cases Directive.of? after with
      | none => rfl
      | some directive =>
          cases directive with
          | var =>
              cases Stencil.readVar number (leadingSpaces text) after with
              | error fault => rfl
              | ok read => rfl
          | code =>
              cases readBlock number (leadingSpaces text) id after with
              | error fault => rfl
              | ok block => rfl
          | block keyword =>
              cases readBlock number (leadingSpaces text) (min · indentStep) after with
              | error fault => rfl
              | ok block =>
                  dsimp only
                  split
                  · rfl
                  · rfl
          | flow keyword => rfl
          | assignment => rfl
    · rename_i hOther
      exact absurd hAfter (hOther after)
  · rename_i hOther
    split at hFound
    · rename_i source hSource
      exact absurd hSource (hOther source)
    · subst hFound
      rfl

/-- Behind an entry there is less of the text, and the body of a block is shorter than the text. -/
theorem length_readEntry {text rest : List Char} {number next : Nat} {entry : Entry}
    (h : readEntry text number = .ok (entry, next, rest)) (hText : text ≠ []) :
    rest.length < text.length ∧ ∀ start keyword header indent bodyLine body,
      entry = .block start keyword header indent bodyLine body → body.length < text.length := by
  rw [readEntry_eq] at h
  cases hEntry : Stencil.readEntry text number with
  | error fault =>
      rw [hEntry] at h
      cases h
  | ok read =>
      obtain ⟨source, line, others⟩ := read
      rw [hEntry] at h
      cases h
      have hLength := Stencil.length_readEntry hEntry hText
      refine ⟨hLength.1, fun start keyword header indent bodyLine body hBlock => ?_⟩
      cases source with
      | whole content => cases hBlock
      | block start keyword header indent bodyLine body =>
          cases hBlock
          exact hLength.2

/-! ## Reading a whole text -/

/-- Reads nodes until the text is used up. -/
def readSuite (text : List Char) (number : Nat) : Except LayoutFault (List Node) :=
  match text with
  | [] => .ok []
  | c :: others =>
      match _h : readEntry (c :: others) number with
      | .error fault => .error fault
      | .ok (.whole content, next, rest) => do
          let nodes ← readSuite rest next
          return content :: nodes
      | .ok (.block start keyword header indent bodyLine body, next, rest) => do
          let suite ← readSuite body bodyLine
          let nodes ← readSuite rest next
          return .block start keyword header indent suite :: nodes
termination_by text.length
decreasing_by
  · exact (length_readEntry _h (by simp)).1
  · exact (length_readEntry _h (by simp)).2 _ _ _ _ _ _ rfl
  · exact (length_readEntry _h (by simp)).1

/-- Reads the text of a template. -/
def read (text : List Char) : Except LayoutFault Outline :=
  match declaration? text with
  | some rest => do
      let (header, body) := splitLine rest
      let nodes ← readSuite body 2
      return ⟨some (trim header), nodes⟩
  | none => do
      let nodes ← readSuite text 1
      return ⟨none, nodes⟩

/-- What is read of a body is sections. -/
theorem readSuite_eq (text : List Char) (number : Nat) :
    readSuite text number = nodes <$> Stencil.readSuite text number := by
  induction text, number using Stencil.readSuite.induct with
  | case1 number =>
      rw [readSuite, Stencil.readSuite]
      rfl
  | case2 number c others fault hEntry =>
      rw [readSuite, Stencil.readSuite, readEntry_eq, hEntry]
      rfl
  | case3 number c others content next rest hEntry ih =>
      rw [readSuite, Stencil.readSuite, readEntry_eq, hEntry]
      change (readSuite rest next >>= fun found => pure (content.node :: found)) =
        nodes <$> (Stencil.readSuite rest next >>= fun sections => pure (content :: sections))
      rw [ih, bind_map_left, map_bind]
      rfl
  | case4 number c others start keyword header indent bodyLine body next rest hEntry ih ih' =>
      rw [readSuite, Stencil.readSuite, readEntry_eq, hEntry]
      change (readSuite body bodyLine >>= fun suite => readSuite rest next >>= fun found =>
          pure (.block start keyword header indent suite :: found)) =
        nodes <$> (Stencil.readSuite body bodyLine >>= fun suite =>
          Stencil.readSuite rest next >>= fun sections =>
            pure (.block start keyword header indent suite :: sections))
      rw [ih, ih']
      simp only [bind_map_left, map_bind]
      rfl

/-- Every text is read into the tree of a document, or refused like it. -/
theorem read_eq (text : List Char) : read text = Document.outline <$> Document.read text := by
  unfold read Document.read
  cases declaration? text with
  | none =>
      dsimp only
      rw [readSuite_eq, bind_map_left, map_bind]
      rfl
  | some rest =>
      dsimp only
      rw [readSuite_eq, bind_map_left, map_bind]
      rfl

/-- A tree that is read is the tree of a document. -/
theorem exists_of_read {text : List Char} {outline : Outline} (h : read text = .ok outline) :
    ∃ document, Document.read text = .ok document ∧ document.outline = outline := by
  rw [read_eq] at h
  cases hRead : Document.read text with
  | error fault =>
      rw [hRead] at h
      cases h
  | ok document =>
      rw [hRead] at h
      cases h
      exact ⟨document, rfl, rfl⟩

/-- Every node that is read stands in its place: text and expressions are in lines, and in lines
there is nothing else. -/
theorem placed_of_read {text : List Char} {outline : Outline} (h : read text = .ok outline) :
    ∀ node ∈ outline.body, node.Placed := by
  obtain ⟨document, -, rfl⟩ := exists_of_read h
  exact placed_nodes document.body

end Outline

end Stencil
