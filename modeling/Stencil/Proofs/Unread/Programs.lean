import Stencil.Proofs.Placing
import Stencil.Proofs.Unread.Expressions

/-!
# Names that templates are read with

A program reads no name that the text it is compiled from does not mention: what the readers of code
blocks and the compiler of sections put into instructions they have from the readers of expressions,
and these put in no names of their own.

## Main results

* `CodeBlock.only_compile`, `only_compileSuite`: the names that instructions read stand in the code
  they are compiled from.
* `Program.reads_subset_identifiers`: the names that a program reads are mentioned in its text.
-/

namespace Stencil

open Stencil.Text

/-! ## Code -/

/-- Every name in the pieces of code is one of the words that are meant. -/
def CodesOnly (Word : String → Prop) (codes : List (List Char)) : Prop :=
  ∀ code ∈ codes, ∀ name ∈ namesIn code, Word name

/-- Every name that the instruction reads is one of the words that are meant. -/
def Instr.ReadsOnly (Word : String → Prop) (instr : Instr) : Prop :=
  ∀ name ∈ instr.reads, Word name

/-- Every name that the instructions read is one of the words that are meant. -/
def BodyOnly (Word : String → Prop) (body : List Instr) : Prop :=
  ∀ instr ∈ body, instr.ReadsOnly Word

section Bodies

variable {Word : String → Prop} {instr : Instr} {first rest body : List Instr}

theorem BodyOnly.nil : BodyOnly Word [] := List.forall_mem_nil _

theorem BodyOnly.cons (h : instr.ReadsOnly Word) (hRest : BodyOnly Word rest) :
    BodyOnly Word (instr :: rest) :=
  List.forall_mem_cons.2 ⟨h, hRest⟩

theorem BodyOnly.singleton (h : instr.ReadsOnly Word) : BodyOnly Word [instr] := .cons h .nil

theorem BodyOnly.append (hFirst : BodyOnly Word first) (hRest : BodyOnly Word rest) :
    BodyOnly Word (first ++ rest) :=
  List.forall_mem_append.2 ⟨hFirst, hRest⟩

theorem BodyOnly.reverse (h : BodyOnly Word body) : BodyOnly Word body.reverse :=
  fun instr hInstr => h instr (List.mem_reverse.1 hInstr)

theorem BodyOnly.allReads (h : BodyOnly Word body) : ∀ name ∈ Instr.allReads body, Word name := by
  induction body with
  | nil => exact nofun
  | cons instr rest ih =>
      obtain ⟨hInstr, hRest⟩ := List.forall_mem_cons.1 h
      exact List.forall_mem_append.2 ⟨hInstr, ih hRest⟩

theorem only_optionalReads {otherwise : Option (List Instr)}
    (h : ∀ body ∈ otherwise, BodyOnly Word body) :
    ∀ name ∈ Instr.optionalReads otherwise, Word name := by
  cases otherwise with
  | none => exact nofun
  | some body => exact (h body rfl).allReads

theorem only_branchReads {branches : List (Expr × List Instr)}
    (h : ∀ branch ∈ branches, branch.1.ReadsOnly Word ∧ BodyOnly Word branch.2) :
    ∀ name ∈ Instr.branchReads branches, Word name := by
  induction branches with
  | nil => exact nofun
  | cons branch branches ih =>
      obtain ⟨hBranch, hBranches⟩ := List.forall_mem_cons.1 h
      exact List.forall_mem_append.2
        ⟨hBranch.1, List.forall_mem_append.2 ⟨hBranch.2.allReads, ih hBranches⟩⟩

/-- Names of a branching are names of its branches. -/
theorem Instr.readsOnly_branch {branches : List (Expr × List Instr)}
    {otherwise : Option (List Instr)}
    (h : ∀ branch ∈ branches, branch.1.ReadsOnly Word ∧ BodyOnly Word branch.2)
    (hOtherwise : ∀ body ∈ otherwise, BodyOnly Word body) :
    (Instr.branch branches otherwise).ReadsOnly Word :=
  List.forall_mem_append.2 ⟨only_branchReads h, only_optionalReads hOtherwise⟩

/-- Names of a loop are names of what it goes over, or of its test, and of its bodies. -/
theorem Instr.readsOnly_loop {head : Expr} {otherwise : Option (List Instr)}
    (h : head.ReadsOnly Word) (hBody : BodyOnly Word body)
    (hOtherwise : ∀ body ∈ otherwise, BodyOnly Word body) :
    ∀ name ∈ head.reads ++ (Instr.allReads body ++ Instr.optionalReads otherwise), Word name :=
  List.forall_mem_append.2
    ⟨h, List.forall_mem_append.2 ⟨hBody.allReads, only_optionalReads hOtherwise⟩⟩

theorem Instr.readsOnly_define {kind : DefinitionKind} {name : String} {parameters : List Parameter}
    (h : ∀ parameter ∈ parameters, parameter.ReadsOnly Word) (hBody : BodyOnly Word body) :
    (Instr.define kind name parameters body).ReadsOnly Word :=
  List.forall_mem_append.2 ⟨only_defaultReads h, hBody.allReads⟩

theorem ensures_onLine {α : Type} {P : α → Prop} {result : Except SyntaxFault α}
    (h : Ensures P result) (line : Nat) : Ensures P (onLine line result) := by
  cases result with
  | error fault => exact .error _
  | ok value => exact .pure (h value rfl)

theorem only_flowInstr (within : Surroundings) (keyword : FlowKeyword) {code : List Char}
    (hCode : ∀ name ∈ namesIn code, Word name) (line : Nat) :
    Ensures (fun instr => BodyOnly Word instr.toList) (flowInstr within keyword code line) := by
  unfold flowInstr
  cases keyword with
  | pass => exact .pure nofun
  | breakLoop => exact .ite (fun _ => .pure (.singleton nofun)) fun _ => .error _
  | continueLoop => exact .ite (fun _ => .pure (.singleton nofun)) fun _ => .error _
  | returnValue =>
      refine (ensures_onLine (Expr.only_readReturn hCode) line).bind fun value hValue => ?_
      exact .ite (fun _ => .error _) fun _ => .pure (.singleton (Expr.only_optionalReads hValue))

end Bodies

/-! ## Code blocks -/

namespace CodeBlock

theorem mem_statementCodes (depth : Nat) (text : List Char) : text ∈ statementCodes depth text := by
  cases depth <;> exact List.mem_cons_self

theorem statementCodes_mono {depth deeper : Nat} (h : depth ≤ deeper) (text : List Char) :
    statementCodes depth text ⊆ statementCodes deeper text := by
  induction depth generalizing deeper text with
  | zero =>
      intro code hCode
      rw [List.mem_singleton.1 hCode]
      exact mem_statementCodes deeper text
  | succ depth ih =>
      obtain ⟨deeper, rfl⟩ := Nat.exists_eq_add_one_of_ne_zero (Nat.ne_zero_of_lt h)
      have hLe := Nat.le_of_succ_le_succ h
      unfold statementCodes
      refine List.cons_subset_cons _ ?_
      split
      · exact List.cons_subset_cons _ (ih hLe _)
      · exact List.Subset.refl _

/-- What follows a header is shorter than all of the statement. -/
theorem length_splitHeader_lt {content header rest : List Char}
    (h : splitHeader content = .ok (some (header, rest))) : rest.length < content.length := by
  unfold splitHeader at h
  simp only at h
  split at h
  · rename_i passed hEnd
    cases h
    cases content with
    | nil =>
        rw [scan, scanFrom] at hEnd
        cases hEnd
    | cons c others =>
        rw [List.length_drop]
        exact Nat.sub_lt (Nat.succ_pos _) (Nat.succ_pos _)
  · cases h
  · split at h <;> cases h

section Readers

variable {Word : String → Prop} {line : LogicalLine}

/-- Every name in the line is one of the words that are meant. -/
def LogicalLine.Spells (Word : String → Prop) (line : LogicalLine) : Prop :=
  CodesOnly Word line.codes

theorem LogicalLine.Spells.text (h : line.Spells Word) : ∀ name ∈ namesIn line.text, Word name :=
  h line.text (mem_statementCodes _ _)

/-- The names in the two parts of a statement with a header stand in the statement. -/
theorem LogicalLine.Spells.split (h : line.Spells Word) :
    Ensures (fun parts => (∀ name ∈ namesIn parts.1, Word name) ∧
      LogicalLine.Spells Word ⟨0, parts.2, line.number⟩) (splitStatement line) := by
  unfold splitStatement
  split
  · rename_i header rest hSplit
    have hLength := length_splitHeader_lt hSplit
    obtain ⟨depth, hDepth⟩ := Nat.exists_eq_add_one_of_ne_zero (Nat.ne_zero_of_lt hLength)
    have hCodes : line.codes = line.text :: header :: statementCodes depth (trim rest) := by
      rw [codes, hDepth, statementCodes, hSplit]
    have hTrim : (trim rest).length ≤ depth :=
      Nat.le_trans (length_trim_le rest) (Nat.le_of_lt_succ (Nat.lt_of_lt_of_eq hLength hDepth))
    unfold Spells at h
    rw [hCodes] at h
    refine .pure ⟨h header (List.mem_cons_of_mem _ List.mem_cons_self), fun code hCode => ?_⟩
    exact h code (List.mem_cons_of_mem _ (List.mem_cons_of_mem _
      (statementCodes_mono hTrim (trim rest) hCode)))
  · exact .error _
  · exact .error _

/-- From lines with names that are meant, what the reader gives satisfies `Q`. -/
abbrev Reader.Draws (Word : String → Prop) {α : Type} (Q : α → Prop) (reader : Reader α) : Prop :=
  Stencil.Draws (LogicalLine.Spells Word) Q reader

variable {α β : Type} {Q : α → Prop} {R : β → Prop}

theorem draws_refuse : Reader.Draws Word Q refuse :=
  .refuses fun rest => by cases rest <;> exact ⟨_, rfl⟩

theorem draws_lift {result : Except CompileFault α} (h : Ensures Q result) :
    Reader.Draws Word Q (liftM result) := by
  intro rest hRest a after hRead
  cases result with
  | error fault => cases hRead
  | ok value =>
      cases hRead
      exact ⟨h a rfl, hRest⟩

theorem draws_nextStarts (indent : Nat) (word : String) :
    Reader.Draws Word (fun _ => True) (nextStarts indent word) := by
  intro rest hRest a after hRead
  cases hRead
  exact ⟨trivial, hRest⟩

/-- What the readers of a code block put into instructions with this budget. -/
structure ReadersDraw (Word : String → Prop) (budget : Nat) : Prop where
  block : ∀ within indent,
    Reader.Draws Word (BodyOnly Word) (readBlock within indent budget)
  statement : ∀ within line, line.Spells Word →
    Reader.Draws Word (BodyOnly Word) (readStatement within line budget)
  compound : ∀ within line, line.Spells Word →
    Reader.Draws Word (fun found => (∀ name ∈ namesIn found.1, Word name) ∧ BodyOnly Word found.2)
      (readCompound within line budget)
  branches : ∀ within line word, line.Spells Word →
    Reader.Draws Word (fun found =>
      (∀ branch ∈ found.1, branch.1.ReadsOnly Word ∧ BodyOnly Word branch.2) ∧
        ∀ body ∈ found.2, BodyOnly Word body) (readBranches within line word budget)
  «else» : ∀ within indent,
    Reader.Draws Word (fun found => ∀ body ∈ found, BodyOnly Word body)
      (readElse within indent budget)

/-- A result on the lines that are left. -/
theorem Draws.onRest {reader : Reader α} {rest : List LogicalLine}
    (h : Reader.Draws Word Q reader) (hRest : ∀ line ∈ rest, line.Spells Word) :
    Ensures (fun found => Q found.1 ∧ ∀ line ∈ found.2, line.Spells Word) (reader rest) :=
  fun found hFound => h rest hRest found.1 found.2 hFound

/-- A reader is judged by what it gives on all lines. -/
theorem draws_of_onRest {reader : Reader α}
    (h : ∀ rest : List LogicalLine, (∀ line ∈ rest, line.Spells Word) →
      Ensures (fun found => Q found.1 ∧ ∀ line ∈ found.2, line.Spells Word) (reader rest)) :
    Reader.Draws Word Q reader :=
  fun rest hRest a after hRead => h rest hRest (a, after) hRead

variable {budget : Nat} (within : Surroundings)

theorem draws_readBlock (h : ReadersDraw Word budget) (indent : Nat) :
    Reader.Draws Word (BodyOnly Word) (readBlock within indent (budget + 1)) := by
  refine draws_of_onRest fun rest hRest => ?_
  cases rest with
  | nil => exact .pure ⟨nofun, hRest⟩
  | cons line others =>
      obtain ⟨hLine, hOthers⟩ := List.forall_mem_cons.1 hRest
      refine .ite (fun _ => .pure ⟨nofun, hRest⟩) fun _ => .ite (fun _ => .error _) fun _ => ?_
      refine (Draws.onRest (h.statement within line hLine) hOthers).bind fun first hFirst => ?_
      refine (Draws.onRest (h.block within indent) hFirst.2).bind fun next hNext => ?_
      exact .pure ⟨hFirst.1.append hNext.1, hNext.2⟩

theorem draws_readStatement (h : ReadersDraw Word budget) (line : LogicalLine)
    (hLine : line.Spells Word) :
    Reader.Draws Word (BodyOnly Word) (readStatement within line (budget + 1)) := by
  unfold readStatement
  cases line.word?.bind FlowKeyword.ofWord? with
  | some keyword =>
      exact (draws_lift (only_flowInstr within keyword hLine.text line.number)).bind
        fun instr hInstr => .pure hInstr
  | none =>
      refine .ite (fun _ => ?_) fun _ => .ite (fun _ => ?_) fun _ => .ite (fun _ => ?_) fun _ =>
        .ite (fun _ => ?_) fun _ => .ite (fun _ => ?_) fun _ => ?_
      · exact (h.branches within line "if" hLine).bind fun found hFound =>
          .pure (.singleton (Instr.readsOnly_branch hFound.1 hFound.2))
      · refine (h.compound within.looping line hLine).bind fun found hBody => ?_
        refine (h.else within line.indent).bind fun otherwise hOtherwise => ?_
        refine (draws_lift (ensures_onLine (only_readForHeader hBody.1) line.number)).bind
          fun head hHead => ?_
        exact .pure (.singleton (Instr.readsOnly_loop hHead hBody.2 hOtherwise))
      · refine (h.compound within.looping line hLine).bind fun found hBody => ?_
        refine (h.else within line.indent).bind fun otherwise hOtherwise => ?_
        refine (draws_lift (ensures_onLine (Expr.only_readAfter hBody.1 "while") line.number)).bind
          fun test hTest => ?_
        exact .pure (.singleton (Instr.readsOnly_loop hTest hBody.2 hOtherwise))
      · refine (h.compound within.defining line hLine).bind fun found hBody => ?_
        refine (draws_lift (ensures_onLine (only_readDefinitionHeader hBody.1) line.number)).bind
          fun head hHead => ?_
        exact .pure (.singleton (Instr.readsOnly_define hHead hBody.2))
      · exact draws_lift (.error _)
      · refine (draws_lift (ensures_onLine (Statement.only_read hLine.text) line.number)).bind
          fun statement hStatement => ?_
        exact .pure (.singleton hStatement)

theorem draws_readCompound (h : ReadersDraw Word budget) (line : LogicalLine)
    (hLine : line.Spells Word) :
    Reader.Draws Word (fun found => (∀ name ∈ namesIn found.1, Word name) ∧ BodyOnly Word found.2)
      (readCompound within line (budget + 1)) := by
  refine draws_of_onRest fun rest hRest => hLine.split.bind fun parts hParts => ?_
  refine .ite (fun _ => ?_) fun _ => ?_
  · refine (Draws.onRest (h.block within 0) (List.forall_mem_singleton.2 hParts.2)).bind
      fun body hBody => ?_
    exact .pure ⟨⟨hParts.1, hBody.1⟩, hRest⟩
  · cases rest with
    | nil => exact .error _
    | cons first others =>
        refine .ite (fun _ => .error _) fun _ => ?_
        refine (Draws.onRest (h.block within first.indent) hRest).bind fun found hFound => ?_
        obtain ⟨body, rest⟩ := found
        have hDone : Ensures (fun found : (List Char × List Instr) × List LogicalLine =>
            ((∀ name ∈ namesIn found.1.1, Word name) ∧ BodyOnly Word found.1.2) ∧
              ∀ line ∈ found.2, line.Spells Word)
            (Except.ok ((parts.1, body), rest) : Except CompileFault _) :=
          .pure ⟨⟨hParts.1, hFound.1⟩, hFound.2⟩
        cases rest with
        | nil => exact hDone
        | cons after rest => exact .ite (fun _ => .error _) fun _ => hDone

theorem draws_readBranches (h : ReadersDraw Word budget) (line : LogicalLine) (word : String)
    (hLine : line.Spells Word) :
    Reader.Draws Word (fun found =>
      (∀ branch ∈ found.1, branch.1.ReadsOnly Word ∧ BodyOnly Word branch.2) ∧
        ∀ body ∈ found.2, BodyOnly Word body) (readBranches within line word (budget + 1)) := by
  refine (h.compound within line hLine).bind fun found hBody => ?_
  refine (draws_lift (ensures_onLine (Expr.only_readAfter hBody.1 word) line.number)).bind
    fun test hTest => (draws_nextStarts line.indent "elif").bind fun more _ => ?_
  refine .ite (fun _ => draws_of_onRest fun rest hRest => ?_) fun _ => ?_
  · cases rest with
    | nil => exact .pure ⟨⟨List.forall_mem_singleton.2 ⟨hTest, hBody.2⟩, nofun⟩, hRest⟩
    | cons next others =>
        obtain ⟨hNext, hOthers⟩ := List.forall_mem_cons.1 hRest
        refine (Draws.onRest (h.branches within next "elif" hNext) hOthers).bind
          fun found hFound => ?_
        exact .pure ⟨⟨List.forall_mem_cons.2 ⟨⟨hTest, hBody.2⟩, hFound.1.1⟩, hFound.1.2⟩, hFound.2⟩
  · exact (h.else within line.indent).bind fun otherwise hOtherwise =>
      .pure ⟨List.forall_mem_singleton.2 ⟨hTest, hBody.2⟩, hOtherwise⟩

theorem draws_readElse (h : ReadersDraw Word budget) (indent : Nat) :
    Reader.Draws Word (fun found => ∀ body ∈ found, BodyOnly Word body)
      (readElse within indent (budget + 1)) := by
  refine (draws_nextStarts indent "else").bind fun more _ =>
    .ite (fun _ => draws_of_onRest fun rest hRest => ?_) fun _ => .pure nofun
  cases rest with
  | nil => exact .pure ⟨nofun, hRest⟩
  | cons line others =>
      obtain ⟨hLine, hOthers⟩ := List.forall_mem_cons.1 hRest
      refine (Draws.onRest (h.compound within line hLine) hOthers).bind fun found hFound => ?_
      refine .ite (fun _ => .pure ⟨fun body hBody => ?_, hFound.2⟩) fun _ => .error _
      exact Option.some.inj hBody ▸ hFound.1.2

theorem readersDraw (Word : String → Prop) (budget : Nat) : ReadersDraw Word budget := by
  induction budget with
  | zero =>
      constructor
      all_goals
        intros
        exact draws_refuse
  | succ budget ih =>
      exact ⟨fun within => draws_readBlock within ih,
        fun within => draws_readStatement within ih,
        fun within => draws_readCompound within ih,
        fun within => draws_readBranches within ih,
        fun within => draws_readElse within ih⟩

end Readers

/-- The names that a code block reads stand in its statements. -/
theorem only_compile {Word : String → Prop} (within : Surroundings) {text : List Char}
    {number : Nat}
    (h : CodesOnly Word (codes text number)) :
    Ensures (BodyOnly Word) (compile within text number) := by
  unfold compile
  unfold codes at h
  cases hLines : logicalLines text number with
  | error fault => exact .error fault
  | ok lines =>
      rw [hLines] at h
      have hSpells : ∀ line ∈ lines, line.Spells Word := fun line hLine code hCode =>
        h code (List.mem_flatMap.2 ⟨line, hLine, hCode⟩)
      exact (Draws.onRest ((readersDraw Word _).block within 0) hSpells).bind
        fun found hFound => .pure hFound.1

end CodeBlock

/-! ## Sections -/

section Suites

variable {Word : String → Prop}

/-- The names that the parts of an open construct read, or will read, are words that are meant. -/
def OpenBlock.ReadsOnly (Word : String → Prop) : OpenBlock → Prop
  | .nothing => True
  | .branches done => ∀ branch ∈ done, branch.1.ReadsOnly Word ∧ BodyOnly Word branch.2
  | .loop _ header body _ => (∀ name ∈ namesIn header, Word name) ∧ BodyOnly Word body

theorem only_loopInstr (overItems : Bool) {header : List Char} {body : List Instr}
    {otherwise : Option (List Instr)} (line : Nat) (hHeader : ∀ name ∈ namesIn header, Word name)
    (hBody : BodyOnly Word body) (hOtherwise : ∀ body ∈ otherwise, BodyOnly Word body) :
    Ensures (Instr.ReadsOnly Word) (loopInstr overItems header body otherwise line) := by
  cases overItems with
  | true =>
      exact (ensures_onLine (only_readForHeader hHeader) line).bind fun head hHead =>
        .pure (Instr.readsOnly_loop hHead hBody hOtherwise)
  | false =>
      exact (ensures_onLine (Expr.only_readAfter hHeader "while") line).bind fun test hTest =>
        .pure (Instr.readsOnly_loop hTest hBody hOtherwise)

theorem only_close {open_ : OpenBlock} {out : Emitted} (hOpen : open_.ReadsOnly Word)
    (hOut : BodyOnly Word out) : Ensures (BodyOnly Word) (open_.close out) := by
  cases open_ with
  | nothing => exact .pure hOut
  | branches done => exact .pure (.cons (Instr.readsOnly_branch hOpen nofun) hOut)
  | loop overItems header body line =>
      have hNone : ∀ body ∈ (none : Option (List Instr)), BodyOnly Word body := nofun
      exact .map ((only_loopInstr overItems line hOpen.1 hOpen.2 hNone).mono
        fun loop hLoop => .cons hLoop hOut)

theorem only_addText {out : Emitted} (h : BodyOnly Word out) (content : String) :
    BodyOnly Word (out.addText content) := by
  unfold Emitted.addText
  split
  · exact h
  · split
    · exact .cons nofun (List.forall_mem_cons.1 h).2
    · exact .cons nofun h

theorem only_compilePieces (number : Nat) {out : Emitted} (h : BodyOnly Word out)
    {pieces : List Piece} (hPieces : CodesOnly Word (pieces.flatMap Piece.codes)) :
    Ensures (BodyOnly Word) (compilePieces number out pieces) := by
  induction pieces generalizing out with
  | nil => exact .pure h
  | cons piece rest ih =>
      obtain ⟨hPiece, hRest⟩ := List.forall_mem_append.1 hPieces
      cases piece with
      | text content => exact ih (only_addText h _) hRest
      | expression code escape =>
          rw [compilePieces]
          split
          · rename_i value hRead
            have hValue := Expr.only_read (hPiece code (List.mem_singleton_self code)) value hRead
            exact ih (.cons hValue h) hRest
          · exact .error _

theorem only_compileLine (indent : Nat) {out : Emitted} (h : BodyOnly Word out) {line : TextLine}
    (hLine : CodesOnly Word line.codes) : Ensures (BodyOnly Word) (compileLine indent out line) :=
  only_compilePieces line.number (only_addText h _) hLine

theorem only_compileLines {out : Emitted} (h : BodyOnly Word out) {lines : List TextLine}
    (hLines : CodesOnly Word (lines.flatMap TextLine.codes)) :
    Ensures (BodyOnly Word) (compileLines out lines) := by
  induction lines generalizing out with
  | nil => exact .pure h
  | cons line rest ih =>
      obtain ⟨hLine, hRest⟩ := List.forall_mem_append.1 hLines
      rw [compileLines]
      exact (only_compileLine 0 h hLine).bind fun more hMore => ih hMore hRest

/-- The names that sections are compiled to read stand in their code. -/
theorem only_compileSuite (within : Surroundings) (open_ : OpenBlock) (out : Emitted)
    (sections : List Section) (hSections : CodesOnly Word (suiteCodes sections))
    (hOpen : open_.ReadsOnly Word) (hOut : BodyOnly Word out) :
    Ensures (BodyOnly Word) (compileSuite within open_ out sections) := by
  have hSuite {content : Section} {rest : List Section}
      (h : CodesOnly Word (suiteCodes (content :: rest))) :
      CodesOnly Word content.codes ∧ CodesOnly Word (suiteCodes rest) := List.forall_mem_append.1 h
  have hBlock {line indent : Nat} {keyword : BlockKeyword} {header : List Char}
      {body rest : List Section}
      (h : CodesOnly Word (suiteCodes (.block line keyword header indent body :: rest))) :
      (∀ name ∈ namesIn header, Word name) ∧ CodesOnly Word (suiteCodes body) ∧
        CodesOnly Word (suiteCodes rest) :=
    ⟨(List.forall_mem_cons.1 (hSuite h).1).1, (List.forall_mem_cons.1 (hSuite h).1).2,
      (hSuite h).2⟩
  induction within, open_, out, sections using compileSuite.induct with
  | case1 within open_ out =>
      rw [compileSuite]
      exact (only_close hOpen hOut).bind fun done hDone => .pure hDone.reverse
  | case2 within out line header indent body rest done ihBody ihRest =>
      obtain ⟨hHeader, hBody, hRest⟩ := hBlock hSections
      rw [compileSuite]
      refine (ensures_onLine (Expr.only_readAfter hHeader "elif") line).bind fun test hTest => ?_
      refine (ihBody hBody trivial .nil).bind fun inner hInner => ?_
      exact ihRest test inner hRest
        (List.forall_mem_append.2 ⟨hOpen, List.forall_mem_singleton.2 ⟨hTest, hInner⟩⟩) hOut
  | case3 within open_ out line header indent body rest hNot =>
      rw [compileSuite]
      · exact .andThen fun _ => .error _
      · exact hNot
  | case4 within out line header indent body rest done ihBody ihRest =>
      obtain ⟨-, hBody, hRest⟩ := hBlock hSections
      rw [compileSuite]
      refine .andThen fun _ => (ihBody hBody trivial .nil).bind fun inner hInner => ?_
      exact ihRest inner hRest trivial
        (.cons (Instr.readsOnly_branch hOpen fun _ hFound => Option.some.inj hFound ▸ hInner) hOut)
  | case5 within out line header indent body rest overItems loopHeader loopBody loopLine ihBody
      ihRest =>
      obtain ⟨-, hBody, hRest⟩ := hBlock hSections
      rw [compileSuite]
      refine .andThen fun _ => (ihBody hBody trivial .nil).bind fun inner hInner => ?_
      refine (only_loopInstr overItems loopLine hOpen.1 hOpen.2
        fun _ hFound => Option.some.inj hFound ▸ hInner).bind fun loop hLoop => ?_
      exact ihRest loop hRest trivial (.cons hLoop hOut)
  | case6 within out line header indent body rest =>
      rw [compileSuite]
      exact .error _
  | case7 within open_ out line header indent body rest ihBody ihRest =>
      obtain ⟨hHeader, hBody, hRest⟩ := hBlock hSections
      rw [compileSuite]
      refine (only_close hOpen hOut).bind fun done hDone => ?_
      refine (ensures_onLine (Expr.only_readAfter hHeader "if") line).bind fun test hTest => ?_
      refine (ihBody hBody trivial .nil).bind fun inner hInner => ?_
      exact ihRest done test inner hRest (List.forall_mem_singleton.2 ⟨hTest, hInner⟩) hDone
  | case8 within open_ out line header indent body rest ihBody ihRest =>
      obtain ⟨hHeader, hBody, hRest⟩ := hBlock hSections
      rw [compileSuite]
      refine (only_close hOpen hOut).bind fun done hDone => ?_
      refine (ihBody hBody trivial .nil).bind fun inner hInner => ?_
      exact ihRest done inner hRest ⟨hHeader, hInner⟩ hDone
  | case9 within open_ out line header indent body rest ihBody ihRest =>
      obtain ⟨hHeader, hBody, hRest⟩ := hBlock hSections
      rw [compileSuite]
      refine (only_close hOpen hOut).bind fun done hDone => ?_
      refine (ihBody hBody trivial .nil).bind fun inner hInner => ?_
      exact ihRest done inner hRest ⟨hHeader, hInner⟩ hDone
  | case10 within open_ out line header indent body rest ihBody ihRest =>
      obtain ⟨hHeader, hBody, hRest⟩ := hBlock hSections
      rw [compileSuite]
      refine (only_close hOpen hOut).bind fun done hDone => ?_
      refine (ensures_onLine (only_readDefinitionHeader hHeader) line).bind fun head hHead => ?_
      refine (ihBody hBody trivial .nil).bind fun inner hInner => ?_
      exact ihRest done head.1 head.2 inner hRest trivial
        (.cons (Instr.readsOnly_define hHead hInner) hDone)
  | case11 within open_ out content rest ihRest =>
      obtain ⟨hContent, hRest⟩ := hSuite hSections
      rw [compileSuite]
      refine (only_close hOpen hOut).bind fun done hDone => ?_
      exact (only_compileLine within.indent hDone hContent).bind fun more hMore =>
        ihRest more hRest trivial hMore
  | case12 within open_ out line code rest ihRest ihStatement =>
      obtain ⟨hCode, hRest⟩ := hSuite hSections
      have hCode := Statement.only_read (hCode code (List.mem_singleton_self code))
      rw [compileSuite]
      refine (only_close hOpen hOut).bind fun done hDone => ?_
      refine .ite (fun _ => ihRest done hRest trivial hDone) fun _ => ?_
      exact (ensures_onLine hCode line).bind fun statement hStatement =>
        ihStatement done statement hRest trivial (.cons hStatement hDone)
  | case13 within open_ out line keyword code rest ihRest =>
      obtain ⟨hCode, hRest⟩ := hSuite hSections
      have hCode := hCode code (List.mem_singleton_self code)
      rw [compileSuite]
      refine (only_close hOpen hOut).bind fun done hDone => ?_
      exact (only_flowInstr within keyword hCode line).bind fun instr hInstr =>
        ihRest done instr hRest trivial (hInstr.append hDone)
  | case14 within open_ out line text rest ihRest =>
      obtain ⟨hCode, hRest⟩ := hSuite hSections
      rw [compileSuite]
      refine (only_close hOpen hOut).bind fun done hDone => ?_
      exact (CodeBlock.only_compile within hCode).bind fun body hBody =>
        ihRest done body hRest trivial (hBody.reverse.append hDone)
  | case15 within open_ out line name code rest ihRest =>
      obtain ⟨hCode, hRest⟩ := hSuite hSections
      have hCode := Expr.only_read (hCode code (List.mem_singleton_self code))
      rw [compileSuite]
      refine (only_close hOpen hOut).bind fun done hDone => ?_
      exact (ensures_onLine hCode line).bind fun value hValue =>
        ihRest done value hRest trivial (.cons hValue hDone)
  | case16 within open_ out number name lines rest ihRest =>
      obtain ⟨hLines, hRest⟩ := hSuite hSections
      rw [compileSuite]
      refine (only_close hOpen hOut).bind fun done hDone => ?_
      refine (only_compileLines .nil hLines).bind fun body hBody => ?_
      have hFragment : (Instr.setFragment name body.reverse).ReadsOnly Word :=
        hBody.reverse.allReads
      exact ihRest done body hRest trivial (.cons hFragment hDone)

theorem Program.only_ofDocument {document : Document} (h : CodesOnly Word document.codes) :
    Ensures (fun program => ∀ name ∈ program.reads, Word name) (Program.ofDocument document) := by
  obtain ⟨hParameters, hSections⟩ := List.forall_mem_append.1 h
  have hBody (parameters : List Parameter)
      (hParameters : ∀ parameter ∈ parameters, parameter.ReadsOnly Word) :
      Ensures (fun program => ∀ name ∈ program.reads, Word name)
        ((fun body => (⟨parameters, body⟩ : Program)) <$>
          compileSuite .outside .nothing [] document.body) :=
    .map ((only_compileSuite .outside .nothing [] document.body hSections trivial .nil).mono
      fun body hBody => List.forall_mem_append.2 ⟨only_defaultReads hParameters, hBody.allReads⟩)
  unfold Program.ofDocument
  cases hText : document.parameters with
  | none => exact hBody [] nofun
  | some text =>
      rw [hText] at hParameters
      have hText := only_readParameters (hParameters text (List.mem_singleton_self text))
      exact (ensures_onLine hText 1).bind hBody

end Suites

/-- The names that a program reads are mentioned in the text that it is compiled from. -/
theorem Program.reads_subset_identifiers {text : String} {program : Program}
    (h : Program.read (normalizeText text.toList) = .ok program) :
    program.reads ⊆ Template.identifiers text := by
  rw [Program.read_eq] at h
  unfold Template.identifiers
  cases hRead : Document.read (normalizeText text.toList) with
  | error fault => rw [hRead] at h; cases h
  | ok document =>
      rw [hRead] at h
      have hCodes : CodesOnly (· ∈ document.codes.flatMap namesIn) document.codes :=
        fun code hCode name hName => List.mem_flatMap.2 ⟨code, hCode, hName⟩
      exact Program.only_ofDocument hCodes program h

end Stencil
