import Stencil.Section

/-!
# Reading sections

A line that starts with a sigil and a keyword is a directive, a sigil before a blank starts a
statement, and any other line is text. The body of a block is the rest of its header line or the
indented region below it, read in the same way once its indentation is taken off.

Every entry takes at least one character from the text, and the body of a block is shorter than the
text the block starts in. These two facts end the recursion of `readSuite`.

## Main results

* `length_readEntry`: an entry takes text, and the body of a block is shorter than the text the
  block starts in.
* `newlines_readEntry`: the next entry has the number of the line that it starts on.
* `length_indentedBlock_le`: a region and what follows it are no longer than the text.
* `rest_region`, `body_region`: a region is the first lines that belong to it.
-/

namespace Stencil

open Stencil.Text

/-- The most spaces that one level of nesting takes off the body of a block. -/
def indentStep : Nat := 4

/-! ## Regions and headers -/

/-- Does the line belong to a region of this width? Blank lines always do. -/
def belongsTo (width : Nat) (line : List Char) : Bool :=
  allBlank line || width ≤ leadingSpaces line

/-- The line without its indentation; of a blank line only the newline stays. -/
def unindent (width : Nat) (line : List Char) : List Char :=
  if allBlank line then ['\n'] else line.drop width

/-- A region that is cut off the start of a text: its lines without their indentation, how many
newlines they had, and the text after it. -/
structure Region where
  body : List Char
  newlines : Nat
  rest : List Char

/-- Cuts the first lines off a text that belong to a region of this width. -/
def region (width : Nat) (text : List Char) : Region :=
  match text with
  | [] => ⟨[], 0, []⟩
  | c :: others =>
      let line := (splitLine (c :: others)).1
      if belongsTo width line then
        let below := region width (splitLine (c :: others)).2
        ⟨unindent width line ++ below.body, countNewlines line + below.newlines, below.rest⟩
      else ⟨[], 0, c :: others⟩
termination_by text.length
decreasing_by exact length_splitLine_rest_lt (by simp)

/-- Cuts the indented region off the start of a text. Without a width there is none. -/
def indentedBlock (width : Nat) (text : List Char) : Region :=
  if width = 0 then ⟨[], 0, text⟩ else region width text

/-- Where the colon of a header stands, by the number of characters before it. -/
inductive HeaderEnd where
  | colon (passed : Nat)
  | newline
  | exhausted
  deriving DecidableEq, Repr

/-- Looks for the colon outside all brackets. -/
def headerEnd (depth passed : Nat) : List Token → HeaderEnd
  | [] => .exhausted
  | t :: rest =>
      let next := passed + t.text.length
      match t.kind with
      | .opening => headerEnd (depth + 1) next rest
      | .closing => headerEnd (depth - 1) next rest
      | .newline => if depth = 0 then .newline else headerEnd depth next rest
      | .operator =>
          if t.text = [':'] ∧ depth = 0 then .colon passed else headerEnd depth next rest
      | _ => headerEnd depth next rest

/-- Cuts a header line at its colon: the header, and what follows the colon. -/
def splitHeader (content : List Char) : Except OpenQuote (Option (List Char × List Char)) :=
  let read := scan .strict content
  match headerEnd 0 0 read.tokens with
  | .colon passed => .ok (some (trimEnd (content.take passed), content.drop (passed + 1)))
  | .newline => .ok none
  | .exhausted =>
      match read.openQuote with
      | some offset => .error ⟨offset⟩
      | none => .ok none

/-! ## Lines of text -/

/-- An expression after its sigil. -/
def readExpression (escape : Bool) (text : List Char) : Except LayoutCause (Piece × List Char) :=
  match Inline.read text with
  | .error fault => .error (.inline fault)
  | .ok (code, rest) =>
      let code := Inline.normalize code
      if code.isEmpty then .error (.inline .missing) else .ok (.expression code escape, rest)

/-- The first piece of a line that is not empty, and the rest of the line. -/
def readPiece : List Char → Except LayoutCause (Piece × List Char)
  | '$' :: '$' :: rest => .ok (.text ['$'], rest)
  | '$' :: '#' :: rest => .ok (.text ['\n'], (splitLine rest).2)
  | '$' :: ':' :: rest => readExpression false rest
  | '$' :: rest => readExpression true rest
  | text => .ok (.text (text.takeWhile (· != '$')), text.dropWhile (· != '$'))

theorem length_readExpression_le {escape : Bool} {text rest : List Char} {piece : Piece}
    (h : readExpression escape text = .ok (piece, rest)) : rest.length ≤ text.length := by
  unfold readExpression at h
  split at h
  · cases h
  · rename_i code others hRead
    have hLen := congrArg List.length (Inline.read_append hRead)
    grind

theorem length_readPiece_lt {text rest : List Char} {piece : Piece}
    (h : readPiece text = .ok (piece, rest)) (hText : text ≠ []) : rest.length < text.length := by
  unfold readPiece at h
  split at h
  · grind
  · rename_i others
    have := length_splitLine others
    grind
  · have := length_readExpression_le h
    grind
  · have := length_readExpression_le h
    grind
  · rename_i hSigil
    cases text with
    | nil => contradiction
    | cons c others =>
        have hc : (c != '$') = true := by
          rw [bne_iff_ne]
          rintro rfl
          exact hSigil others rfl
        have hLen := (List.dropWhile_sublist (l := others) (· != '$')).length_le
        simp only [List.dropWhile_cons, hc, if_true, Except.ok.injEq, Prod.mk.injEq] at h
        rw [← h.2, List.length_cons]
        omega

/-- The pieces of a line. -/
def readPieces : List Char → Except LayoutCause (List Piece)
  | [] => .ok []
  | c :: rest =>
      match _h : readPiece (c :: rest) with
      | .error cause => .error cause
      | .ok (piece, others) => do
          let pieces ← readPieces others
          return piece :: pieces
termination_by text => text.length
decreasing_by exact length_readPiece_lt _h (by simp)

/-- The pieces of the line with this number. -/
def readLine (number : Nat) (text : List Char) : Except LayoutFault TextLine :=
  match readPieces text with
  | .error cause => .error ⟨number, cause⟩
  | .ok pieces => .ok ⟨number, pieces⟩

/-- The line without a backslash before its newline, and without that newline. -/
def joinLine (line : List Char) : List Char :=
  match line.reverse with
  | '\n' :: '\\' :: before => before.reverse
  | _ => line

/-! ## Directives -/

/-- What the characters after a sigil at the start of a line announce. -/
inductive Directive where
  | var
  | code
  | block (keyword : BlockKeyword)
  | flow (keyword : FlowKeyword)
  | assignment
  deriving DecidableEq, Repr

/-- The directive that the text after a sigil starts with. -/
def Directive.of? (after : List Char) : Option Directive :=
  match firstToken? after with
  | none => some .assignment
  | some t =>
      match t.kind with
      | .name =>
          if t.isName "var" then some .var
          else if t.isName "code" then some .code
          else match BlockKeyword.ofWord? t.text with
            | some keyword => some (.block keyword)
            | none => (FlowKeyword.ofWord? t.text).map .flow
      | .blank | .newline => some .assignment
      | _ => none

/-- What stands at the start of a text: a whole section, or a block whose body is still text. -/
inductive Entry where
  | whole (content : Section)
  | block (number : Nat) (keyword : BlockKeyword) (header : List Char) (indent : Nat)
      (bodyLine : Nat) (body : List Char)

/-- The length of the text that is still to be read. -/
def Entry.pending : Entry → Nat
  | .whole _ => 0
  | .block _ _ _ _ _ body => body.length

/-- The numbered lines of a fragment. Each ends with a newline of its own. -/
def readFragment (number : Nat) : List (List Char) → Except LayoutFault (List TextLine)
  | [] => .ok []
  | line :: rest => do
      let first ← readLine number line
      let others ← readFragment (number + 1) rest
      return { first with pieces := first.pieces ++ [.text ['\n']] } :: others

/-- An output variable: its name, a mark, and an expression, a text or an indented fragment. The
number of the line after it is given too. -/
def readVar (number indent : Nat) (after : List Char) :
    Except LayoutFault (Section × Nat × List Char) :=
  let (content, rest) := splitLine after
  let next := number + countNewlines content
  let tokens := lenientTokens content
  match tokens.filter (!·.isTrivia) with
  | _ :: name :: mark :: value :: _ =>
      if name.kind ≠ .name then .error ⟨number, .varName name.text⟩
      else if name.text = "body".toList then .error ⟨number, .reservedVar⟩
      else
        let label := String.ofList name.text
        let text := trim ((tokens.dropWhile (·.start ≤ mark.start)).flatMap Token.text)
        if mark.isOperator "=" then .ok (.varExpression number label text, next, rest)
        else if !mark.isOperator ":" then .error ⟨number, .varMark⟩
        else if value.kind = .newline then
          let below := indentedBlock (indent + indentStep) rest
          match readFragment (number + 1) (lines below.body) with
          | .error fault => .error fault
          | .ok content =>
              .ok (.varFragment number label content, next + below.newlines, below.rest)
        else
          match readLine number text with
          | .error fault => .error fault
          | .ok only => .ok (.varFragment number label [only], next, rest)
  | _ => .error ⟨number, .incompleteVar⟩

/-- How deep the first line that is not blank is indented. -/
def firstIndent (text : List Char) : Nat :=
  match text with
  | [] => 0
  | c :: others =>
      let line := (splitLine (c :: others)).1
      if allBlank line then firstIndent (splitLine (c :: others)).2 else leadingSpaces line
termination_by text.length
decreasing_by exact length_splitLine_rest_lt (by simp)

/-- A block whose body is still text: its header, its body without its indentation, the number of
the body's first line, the number of the line after the block, and the text after it. -/
structure BlockText where
  header : List Char
  body : List Char
  bodyLine : Nat
  next : Nat
  rest : List Char

/-- Reads a block. A body takes at most `most` spaces more than its header; what it is indented
beyond that stays in its lines. -/
def readBlock (number indent : Nat) (most : Nat → Nat) (after : List Char) :
    Except LayoutFault BlockText :=
  let (content, rest) := splitLine after
  let next := number + countNewlines content
  match splitHeader content with
  | .error fault => .error ⟨number, .openQuote fault⟩
  | .ok none =>
      let word := match firstToken? content with
        | some t => t.text
        | none => []
      .error ⟨number, .missingColon word⟩
  | .ok (some (header, remainder)) =>
      if allBlank remainder then
        let deeper := firstIndent rest - indent
        if deeper = 0 then .ok ⟨header, [], number + 1, next, rest⟩
        else
          let below := indentedBlock (indent + most deeper) rest
          .ok ⟨header, below.body, number + 1, next + below.newlines, below.rest⟩
      else .ok ⟨header, trimStart remainder, number, next, rest⟩

/-- Reads the directive that starts after a sigil, or the line of text that `text` starts with. The
number of the line after it is given too. -/
def readEntry (text : List Char) (number : Nat) :
    Except LayoutFault (Entry × Nat × List Char) :=
  match dropSpaces text with
  | '$' :: after =>
      let indent := leadingSpaces text
      let (content, rest) := splitLine after
      let next := number + countNewlines content
      match Directive.of? after with
      | some .var =>
          match readVar number indent after with
          | .error fault => .error fault
          | .ok (content, next, rest) => .ok (.whole content, next, rest)
      | some .code =>
          match readBlock number indent id after with
          | .error fault => .error fault
          | .ok block => .ok (.whole (.code block.bodyLine block.body), block.next, block.rest)
      | some (.block keyword) =>
          match readBlock number indent (min · indentStep) after with
          | .error fault => .error fault
          | .ok block =>
              if allBlank block.body then .error ⟨number, .missingBlock keyword⟩
              else
                let entry := .block number keyword block.header indent block.bodyLine block.body
                .ok (entry, block.next, block.rest)
      | some (.flow keyword) => .ok (.whole (.flow number keyword (trim content)), next, rest)
      | some .assignment => .ok (.whole (.assignment number (trim content)), next, rest)
      | none => textEntry
  | _ => textEntry
where
  /-- A line of text. -/
  textEntry : Except LayoutFault (Entry × Nat × List Char) :=
    let (content, rest) := splitLine text
    match readLine number (joinLine content) with
    | .error fault => .error fault
    | .ok line => .ok (.whole (.line line), number + countNewlines content, rest)

/-! ## Progress -/

theorem length_unindent_le (width : Nat) {line : List Char} (h : line ≠ []) :
    (unindent width line).length ≤ line.length := by
  have hPos := List.length_pos_iff.2 h
  unfold unindent
  split
  · simpa using Nat.succ_le_of_lt hPos
  · simp

theorem length_region_le (width : Nat) (text : List Char) :
    (region width text).body.length + (region width text).rest.length ≤ text.length := by
  fun_induction region width text with
  | case1 => simp
  | case2 c others line hBelongs below ih =>
      have hLine := length_splitLine (c :: others)
      have hUnindent := length_unindent_le width (splitLine_ne_nil (List.cons_ne_nil c others))
      simp only [List.length_append, line, below]
      omega
  | case3 c others line hBelongs => simp

/-- A region without its indentation and what follows it are no longer than the text. -/
theorem length_indentedBlock_le (width : Nat) (text : List Char) :
    (indentedBlock width text).body.length + (indentedBlock width text).rest.length ≤
      text.length := by
  unfold indentedBlock
  split
  · simp
  · exact length_region_le width text

/-- The text after a region starts with the first line that does not belong to it. -/
theorem rest_region (width : Nat) (text : List Char) :
    (region width text).rest = ((splitLines text).dropWhile (belongsTo width)).flatten := by
  fun_induction region width text with
  | case1 => rfl
  | case2 c others line hBelongs below ih =>
      rw [splitLines_of_ne_nil (List.cons_ne_nil c others), List.dropWhile_cons_of_pos hBelongs]
      exact ih
  | case3 c others line hBelongs =>
      have hLines := splitLines_of_ne_nil (List.cons_ne_nil c others)
      rw [hLines, List.dropWhile_cons_of_neg hBelongs, ← hLines, flatten_splitLines]

/-- The body of a region is the lines that belong to it, without their indentation. -/
theorem body_region (width : Nat) (text : List Char) :
    (region width text).body =
      ((splitLines text).takeWhile (belongsTo width)).flatMap (unindent width) := by
  fun_induction region width text with
  | case1 => rfl
  | case2 c others line hBelongs below ih =>
      rw [splitLines_of_ne_nil (List.cons_ne_nil c others), List.takeWhile_cons_of_pos hBelongs,
        List.flatMap_cons]
      exact congrArg (unindent width line ++ ·) ih
  | case3 c others line hBelongs =>
      rw [splitLines_of_ne_nil (List.cons_ne_nil c others), List.takeWhile_cons_of_neg hBelongs]
      rfl

theorem length_splitHeader_le {content header remainder : List Char}
    (h : splitHeader content = .ok (some (header, remainder))) :
    remainder.length ≤ content.length := by
  unfold splitHeader at h
  grind

theorem length_readVar_le {number indent next : Nat} {after rest : List Char} {content : Section}
    (h : readVar number indent after = .ok (content, next, rest)) :
    rest.length ≤ after.length := by
  have hLine := length_splitLine after
  have hBlock := length_indentedBlock_le (indent + indentStep) (splitLine after).2
  unfold readVar at h
  grind

theorem length_readBlock_le {number indent : Nat} {most : Nat → Nat} {after : List Char}
    {block : BlockText} (h : readBlock number indent most after = .ok block) :
    block.body.length ≤ after.length ∧ block.rest.length ≤ after.length := by
  have hLine := length_splitLine after
  unfold readBlock at h
  simp only at h
  split at h
  · cases h
  · cases h
  · rename_i head remainder hHeader
    have hRemainder := length_splitHeader_le hHeader
    have hTrim := length_trimStart_le remainder
    have hBlock := length_indentedBlock_le
      (indent + most (firstIndent (splitLine after).2 - indent)) (splitLine after).2
    grind

theorem length_dropSpaces_le (text : List Char) : (dropSpaces text).length ≤ text.length :=
  (List.dropWhile_sublist _).length_le

/-- An entry takes at least one character, and the body of a block is shorter than the text. -/
theorem length_readEntry {text rest : List Char} {number next : Nat} {entry : Entry}
    (h : readEntry text number = .ok (entry, next, rest)) (hText : text ≠ []) :
    rest.length < text.length ∧ entry.pending < text.length := by
  have hPos := List.length_pos_iff.2 hText
  have hLine := length_splitLine_rest_lt hText
  have hSpaces := length_dropSpaces_le text
  have hWhole : ∀ content, (Entry.whole content).pending = 0 := fun _ => rfl
  unfold readEntry readEntry.textEntry at h
  split at h
  · rename_i after hAfter
    have hAfterLine := length_splitLine after
    have hShort : after.length < text.length := by simp [hAfter] at hSpaces; omega
    simp only at h
    split at h
    · split at h
      · cases h
      · rename_i hVar
        have := length_readVar_le hVar
        grind
    · split at h
      · cases h
      · rename_i hBlock
        have := length_readBlock_le hBlock
        grind
    · split at h
      · cases h
      · rename_i hBlock
        have := length_readBlock_le hBlock
        grind [Entry.pending]
    · grind
    · grind
    · grind
  · grind

/-! ## Line numbers -/

theorem newlines_region (width : Nat) (text : List Char) :
    (region width text).newlines + countNewlines (region width text).rest =
      countNewlines text := by
  fun_induction region width text with
  | case1 => rfl
  | case2 c others line hBelongs below ih =>
      have hLine := countNewlines_splitLine (c :: others)
      simp only [line, below]
      omega
  | case3 c others line hBelongs => simp

theorem newlines_indentedBlock (width : Nat) (text : List Char) :
    (indentedBlock width text).newlines + countNewlines (indentedBlock width text).rest =
      countNewlines text := by
  unfold indentedBlock
  split
  · simp
  · exact newlines_region width text

theorem newlines_readVar {number indent next : Nat} {after rest : List Char} {content : Section}
    (h : readVar number indent after = .ok (content, next, rest)) :
    next + countNewlines rest = number + countNewlines after := by
  have hLine := countNewlines_splitLine after
  have hBlock := newlines_indentedBlock (indent + indentStep) (splitLine after).2
  unfold readVar at h
  grind

theorem newlines_readBlock {number indent : Nat} {most : Nat → Nat} {after : List Char}
    {block : BlockText} (h : readBlock number indent most after = .ok block) :
    block.next + countNewlines block.rest = number + countNewlines after := by
  have hLine := countNewlines_splitLine after
  have hBlock := newlines_indentedBlock
    (indent + most (firstIndent (splitLine after).2 - indent)) (splitLine after).2
  unfold readBlock at h
  grind

theorem countNewlines_dropSpaces (text : List Char) :
    countNewlines (dropSpaces text) = countNewlines text := by
  unfold dropSpaces countNewlines
  induction text with
  | nil => rfl
  | cons c rest ih =>
      by_cases h : c = ' '
      · subst h
        simpa using ih
      · simp [h]

/-- The next entry has the number of the line that it starts on. -/
theorem newlines_readEntry {text rest : List Char} {number next : Nat} {entry : Entry}
    (h : readEntry text number = .ok (entry, next, rest)) :
    next + countNewlines rest = number + countNewlines text := by
  have hText := countNewlines_splitLine text
  have hSpaces := countNewlines_dropSpaces text
  unfold readEntry readEntry.textEntry at h
  split at h
  · rename_i after hAfter
    have hAfterLine := countNewlines_splitLine after
    have hCount : countNewlines after = countNewlines text := by
      rw [← hSpaces, hAfter]
      simp [countNewlines]
    simp only at h
    split at h
    · split at h
      · cases h
      · rename_i hVar
        have := newlines_readVar hVar
        grind
    · split at h
      · cases h
      · rename_i hBlock
        have := newlines_readBlock hBlock
        grind
    · split at h
      · cases h
      · rename_i hBlock
        have := newlines_readBlock hBlock
        grind
    · grind
    · grind
    · grind
  · grind

/-! ## Reading a whole text -/

/-- Reads sections until the text is used up. -/
def readSuite (text : List Char) (number : Nat) : Except LayoutFault (List Section) :=
  match text with
  | [] => .ok []
  | c :: others =>
      match _h : readEntry (c :: others) number with
      | .error fault => .error fault
      | .ok (.whole content, next, rest) => do
          let sections ← readSuite rest next
          return content :: sections
      | .ok (.block start keyword header indent bodyLine body, next, rest) => do
          let suite ← readSuite body bodyLine
          let sections ← readSuite rest next
          return .block start keyword header indent suite :: sections
termination_by text.length
decreasing_by
  · exact (length_readEntry _h (by simp)).1
  · exact (length_readEntry _h (by simp)).2
  · exact (length_readEntry _h (by simp)).1

/-- Reads the first section of a text, and gives the text after it. -/
def readSection (text : List Char) (number : Nat) : Except LayoutFault (Section × List Char) :=
  match readEntry text number with
  | .error fault => .error fault
  | .ok (.whole content, _, rest) => .ok (content, rest)
  | .ok (.block number keyword header indent bodyLine body, _, rest) => do
      let suite ← readSuite body bodyLine
      return (.block number keyword header indent suite, rest)

/-- The parameter list that a first line may declare, and the rest of that line. -/
def declaration? (text : List Char) : Option (List Char) :=
  let opening := "$def with".toList
  if opening.isPrefixOf text then
    let rest := text.drop opening.length
    match rest with
    | c :: _ => if continuesName c then none else some rest
    | [] => some rest
  else none

/-- Reads the text of a template. -/
def Document.read (text : List Char) : Except LayoutFault Document :=
  match declaration? text with
  | some rest => do
      let (header, body) := splitLine rest
      let sections ← readSuite body 2
      return ⟨some (trim header), sections⟩
  | none => do
      let sections ← readSuite text 1
      return ⟨none, sections⟩

end Stencil
