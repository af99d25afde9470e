import Stencil.Program
import Stencil.Proofs.Ensuring
import Stencil.Rendering

/-!
# Where instructions stand

What compiled templates consist of. Each instruction stands where it may: what steers a loop stands
in the body of one, what returns a value stands in a definition, and no output variable has the name
of the rendered text. The `else` of a loop is outside the loop, and the loops around a definition
are not around its body.

Directives and code blocks are compiled by two families of readers. What the readers of code blocks
may put together is said by `CodeRules`, and what the compiler of sections adds to that by
`SuiteRules`. What follows the rules holds of every compiled template; that its instructions stand
where they may is one such case.

## Main results

* `CodeRules.ensures_compile`: what follows the rules holds of the instructions of a code block.
* `SuiteRules.ensures_read`: what follows the rules holds of a compiled template.
* `Program.accepts_read`: the instructions of a compiled template stand where they may.
-/

namespace Stencil

/-- The instruction may stand inside a loop or outside all loops, inside a definition or outside all
definitions, and its parts stand where they may. -/
inductive Instr.Placed : (inLoop inDefinition : Bool) → Instr → Prop
  | text {l d : Bool} (content : String) : Placed l d (.text content)
  | emit {l d : Bool} (value : Expr) (escape : Bool) : Placed l d (.emit value escape)
  | execute {l d : Bool} (statement : Statement) : Placed l d (.execute statement)
  | branch {l d : Bool} {branches : List (Expr × List Instr)} {otherwise : Option (List Instr)}
      (hBranches : ∀ branch ∈ branches, ∀ instr ∈ branch.2, Placed l d instr)
      (hOtherwise : ∀ body ∈ otherwise, ∀ instr ∈ body, Placed l d instr) :
      Placed l d (.branch branches otherwise)
  | forLoop {l d : Bool} (target : Target) (items : Expr) {body : List Instr}
      {otherwise : Option (List Instr)} (tracked : Bool)
        (hBody : ∀ instr ∈ body, Placed true d instr)
      (hOtherwise : ∀ body ∈ otherwise, ∀ instr ∈ body, Placed l d instr) :
      Placed l d (.forLoop target items body otherwise tracked)
  | whileLoop {l d : Bool} (test : Expr) {body : List Instr} {otherwise : Option (List Instr)}
      (hBody : ∀ instr ∈ body, Placed true d instr)
      (hOtherwise : ∀ body ∈ otherwise, ∀ instr ∈ body, Placed l d instr) :
      Placed l d (.whileLoop test body otherwise)
  | define {l d : Bool} (kind : DefinitionKind) (name : String) (parameters : List Parameter)
      {body : List Instr} (hBody : ∀ instr ∈ body, Placed false true instr) :
      Placed l d (.define kind name parameters body)
  | setVar {l d : Bool} {name : String} (hName : (name == bodyName) = false) (value : Expr) :
      Placed l d (.setVar name value)
  | setFragment {l d : Bool} {name : String} {body : List Instr}
      (hName : (name == bodyName) = false) (hBody : ∀ instr ∈ body, Placed false false instr) :
      Placed l d (.setFragment name body)
  | breakLoop {d : Bool} : Placed true d .breakLoop
  | continueLoop {d : Bool} : Placed true d .continueLoop
  | returnNothing {l d : Bool} : Placed l d (.returnValue none)
  | returnValue {l : Bool} (value : Option Expr) : Placed l true (.returnValue value)

/-- The instructions may stand there. -/
def Surroundings.Accepts (within : Surroundings) (instrs : List Instr) : Prop :=
  ∀ instr ∈ instrs, instr.Placed within.inLoop within.inDefinition

/-! ## Sections -/

mutual

/-- Does the section set an output variable under the name of the text? -/
def Section.setsText : Section → Bool
  | .varExpression _ name _ => name == bodyName
  | .varFragment _ name _ => name == bodyName
  | .block _ _ _ _ body => suiteSetsText body
  | _ => false

/-- Does one of the sections set an output variable under the name of the text? -/
def suiteSetsText : List Section → Bool
  | [] => false
  | content :: rest => content.setsText || suiteSetsText rest

end

theorem setsText_readVar {number indent next : Nat} {after rest : List Char} {content : Section}
    (h : readVar number indent after = .ok (content, next, rest)) : content.setsText = false := by
  have hName (name : List Char) (hName : name ≠ "body".toList) :
      (String.ofList name == bodyName) = false := by
    refine beq_eq_false_iff_ne.2 fun hSame => hName ?_
    have hList := congrArg String.toList hSame
    rwa [String.toList_ofList] at hList
  unfold readVar at h
  grind [Section.setsText]

/-- A whole section that starts a text sets no output variable under the reserved name. -/
theorem setsText_readEntry {number next : Nat} {text rest : List Char} {content : Section}
    (h : readEntry text number = .ok (.whole content, next, rest)) : content.setsText = false := by
  unfold readEntry readEntry.textEntry at h
  grind [Section.setsText, setsText_readVar]

theorem suiteSetsText_readSuite (text : List Char) (number : Nat) :
    Ensures (fun sections => suiteSetsText sections = false) (readSuite text number) := by
  induction text, number using readSuite.induct with
  | case1 number =>
      rw [readSuite]
      exact .pure rfl
  | case2 c others number fault hEntry =>
      rw [readSuite, hEntry]
      exact .error fault
  | case3 c others number content next rest hEntry ih =>
      rw [readSuite, hEntry]
      refine ih.bind fun sections hSections => .pure ?_
      rw [suiteSetsText, setsText_readEntry hEntry, hSections]
      rfl
  | case4 c others number start keyword header indent bodyLine body next rest hEntry ih ih' =>
      rw [readSuite, hEntry]
      refine ih.bind fun suite hSuite => ih'.bind fun sections hSections => .pure ?_
      rw [suiteSetsText, Section.setsText, hSuite, hSections]
      rfl

theorem suiteSetsText_read (text : List Char) :
    Ensures (fun document => suiteSetsText document.body = false) (Document.read text) := by
  unfold Document.read
  cases declaration? text with
  | none => exact (suiteSetsText_readSuite text 1).bind fun _ hSections => .pure hSections
  | some rest =>
      exact (suiteSetsText_readSuite (Text.splitLine rest).2 2).bind fun _ hSections =>
        .pure hSections

/-! ## Rules for code blocks -/

/-- What holds of each instruction of a code block and of each list of them, as they are put
together by the readers of statements. -/
structure CodeRules (Single : Surroundings → Instr → Prop)
    (Whole : Surroundings → List Instr → Prop) : Prop where
  nil (within : Surroundings) : Whole within []
  cons {within : Surroundings} {instr : Instr} {rest : List Instr} : Single within instr →
    Whole within rest → Whole within (instr :: rest)
  flow (within : Surroundings) (keyword : FlowKeyword) (code : List Char) (line : Nat) :
    Ensures (fun found : Option Instr => ∀ instr ∈ found.toList, Single within instr)
      (flowInstr within keyword code line)
  execute (within : Surroundings) (statement : Statement) : Single within (.execute statement)
  branch {within : Surroundings} {branches : List (Expr × List Instr)}
    {otherwise : Option (List Instr)} : branches ≠ [] →
    (∀ branch ∈ branches, Whole within branch.2) → (∀ body ∈ otherwise, Whole within body) →
    Single within (.branch branches otherwise)
  forLoop {within : Surroundings} {body : List Instr} {otherwise : Option (List Instr)}
    (target : Target) (items : Expr) : Whole within.looping body →
    (∀ body ∈ otherwise, Whole within body) →
    Single within (.forLoop target items body otherwise false)
  whileLoop {within : Surroundings} {body : List Instr} {otherwise : Option (List Instr)}
    (test : Expr) : Whole within.looping body → (∀ body ∈ otherwise, Whole within body) →
    Single within (.whileLoop test body otherwise)
  procedure {within : Surroundings} {body : List Instr} (name : String)
    (parameters : List Parameter) : Whole within.defining body →
    Single within (.define .procedure name parameters body)

namespace CodeBlock

theorem refuse_ensures {α : Type} {P : α → Prop} : Ensures P (refuse : Reader α) := by
  rintro value ⟨lines, after, h⟩
  cases lines <;> cases h

theorem lift_ensures {α : Type} {P : α → Prop} {result : Except CompileFault α}
    (h : Ensures P result) : Ensures P (liftM result : Reader α) := by
  rintro value ⟨lines, after, hResult⟩
  cases result with
  | error fault => cases hResult
  | ok found =>
      cases hResult
      exact h value rfl

/-- A reader is judged by what it gives on all lines. -/
theorem reader_ensures {α : Type} {P : α → Prop} {reader : Reader α}
    (h : ∀ lines, Ensures (fun result => P result.1) (reader lines)) : Ensures P reader := by
  rintro value ⟨lines, after, hResult⟩
  exact h lines (value, after) hResult

theorem ensures_run {α : Type} {P : α → Prop} {reader : Reader α} (h : Ensures P reader)
    (lines : List LogicalLine) : Ensures (fun result => P result.1) (reader lines) := by
  intro result hResult
  exact h result.1 ⟨lines, result.2, hResult⟩

/-- What the readers of a code block give with a budget. -/
structure ReadersFollow (Single : Surroundings → Instr → Prop) (budget : Nat) : Prop where
  block : ∀ within indent,
    Ensures (fun body => ∀ instr ∈ body, Single within instr) (readBlock within indent budget)
  statement : ∀ within line,
    Ensures (fun body => ∀ instr ∈ body, Single within instr) (readStatement within line budget)
  compound : ∀ within line,
    Ensures (fun r => ∀ instr ∈ r.2, Single within instr) (readCompound within line budget)
  branches : ∀ within line word, Ensures (fun r => r.1 ≠ [] ∧
    (∀ branch ∈ r.1, ∀ instr ∈ branch.2, Single within instr) ∧
      ∀ body ∈ r.2, ∀ instr ∈ body, Single within instr) (readBranches within line word budget)
  «else» : ∀ within indent,
    Ensures (fun r => ∀ body ∈ r, ∀ instr ∈ body, Single within instr)
      (readElse within indent budget)

end CodeBlock

namespace CodeRules

open CodeBlock

variable {Single : Surroundings → Instr → Prop} {Whole : Surroundings → List Instr → Prop}
  {budget : Nat} (within : Surroundings)

theorem whole (rules : CodeRules Single Whole) {body : List Instr}
    (h : ∀ instr ∈ body, Single within instr) : Whole within body := by
  induction body with
  | nil => exact rules.nil within
  | cons instr rest ih =>
      rw [List.forall_mem_cons] at h
      exact rules.cons h.1 (ih h.2)

theorem whole_otherwise (rules : CodeRules Single Whole) {within : Surroundings}
    {otherwise : Option (List Instr)}
    (h : ∀ body ∈ otherwise, ∀ instr ∈ body, Single within instr) :
    ∀ body ∈ otherwise, Whole within body :=
  fun body hBody => rules.whole within (h body hBody)

theorem ensures_block (h : ReadersFollow Single budget) (indent : Nat) :
    Ensures (fun body => ∀ instr ∈ body, Single within instr)
      (CodeBlock.readBlock within indent (budget + 1)) := by
  refine reader_ensures fun lines => ?_
  cases lines with
  | nil => exact .pure nofun
  | cons line others =>
      refine .ite (fun _ => .pure nofun) fun _ => .ite (fun _ => .error _) fun _ => ?_
      refine (ensures_run (h.statement within line) others).bind fun first hFirst => ?_
      refine (ensures_run (h.block within indent) first.2).bind fun next hNext => ?_
      exact .pure (List.forall_mem_append.2 ⟨hFirst, hNext⟩)

theorem ensures_statement (rules : CodeRules Single Whole) (h : ReadersFollow Single budget)
    (line : LogicalLine) : Ensures (fun body => ∀ instr ∈ body, Single within instr)
      (CodeBlock.readStatement within line (budget + 1)) := by
  unfold CodeBlock.readStatement
  cases line.word?.bind FlowKeyword.ofWord? with
  | some keyword =>
      refine (lift_ensures (rules.flow within keyword line.text line.number)).bind ?_
      exact fun instr hInstr => .pure hInstr
  | none =>
      refine .ite (fun _ => ?_) fun _ => .ite (fun _ => ?_) fun _ => .ite (fun _ => ?_) fun _ =>
        .ite (fun _ => ?_) fun _ => .ite (fun _ => ?_) fun _ => ?_
      · refine (h.branches within line "if").bind fun result hResult => .pure ?_
        obtain ⟨hSome, hBranches, hOtherwise⟩ := hResult
        exact List.forall_mem_singleton.2 (rules.branch hSome
          (fun branch hBranch => rules.whole _ (hBranches branch hBranch))
          (rules.whole_otherwise hOtherwise))
      · refine (h.compound within.looping line).bind fun result hBody => ?_
        refine (h.else within line.indent).bind fun otherwise hOtherwise => .andThen fun head => ?_
        exact .pure (List.forall_mem_singleton.2
          (rules.forLoop _ _ (rules.whole _ hBody) (rules.whole_otherwise hOtherwise)))
      · refine (h.compound within.looping line).bind fun result hBody => ?_
        refine (h.else within line.indent).bind fun otherwise hOtherwise => .andThen fun test => ?_
        exact .pure (List.forall_mem_singleton.2
          (rules.whileLoop _ (rules.whole _ hBody) (rules.whole_otherwise hOtherwise)))
      · refine (h.compound within.defining line).bind fun result hBody => .andThen fun head => ?_
        exact .pure (List.forall_mem_singleton.2 (rules.procedure _ _ (rules.whole _ hBody)))
      · exact lift_ensures (.error _)
      · exact .andThen fun statement =>
          .pure (List.forall_mem_singleton.2 (rules.execute within statement))

theorem ensures_compound (h : ReadersFollow Single budget) (line : LogicalLine) :
    Ensures (fun r => ∀ instr ∈ r.2, Single within instr)
      (readCompound within line (budget + 1)) := by
  refine reader_ensures fun lines => .andThen fun split => ?_
  refine .ite (fun _ => ?_) fun _ => ?_
  · refine (ensures_run (h.block within 0) _).bind fun body hBody => ?_
    exact .pure hBody
  · cases lines with
    | nil => exact .error _
    | cons first others =>
        refine .ite (fun _ => .error _) fun _ => ?_
        refine (ensures_run (h.block within first.indent) _).bind fun result hBody => ?_
        obtain ⟨body, rest⟩ := result
        cases rest with
        | nil => exact .pure hBody
        | cons after rest => exact .ite (fun _ => .error _) fun _ => .pure hBody

theorem ensures_branches (h : ReadersFollow Single budget) (line : LogicalLine) (word : String) :
    Ensures (fun r => r.1 ≠ [] ∧ (∀ branch ∈ r.1, ∀ instr ∈ branch.2, Single within instr) ∧
      ∀ body ∈ r.2, ∀ instr ∈ body, Single within instr)
      (readBranches within line word (budget + 1)) := by
  refine (h.compound within line).bind fun result hBody => ?_
  refine .andThen fun test => .andThen fun more => ?_
  refine .ite (fun _ => reader_ensures fun lines => ?_) fun _ => ?_
  · cases lines with
    | nil => exact .pure ⟨by simp, List.forall_mem_singleton.2 hBody, nofun⟩
    | cons next others =>
        refine (ensures_run (h.branches within next "elif") others).bind fun rest hRest => ?_
        exact .pure
          ⟨by simp, List.forall_mem_cons.2 ⟨hBody, hRest.2.1⟩, hRest.2.2⟩
  · refine (h.else within line.indent).bind fun otherwise hOtherwise => ?_
    exact .pure ⟨by simp, List.forall_mem_singleton.2 hBody, hOtherwise⟩

theorem ensures_else (h : ReadersFollow Single budget) (indent : Nat) :
    Ensures (fun r => ∀ body ∈ r, ∀ instr ∈ body, Single within instr)
      (readElse within indent (budget + 1)) := by
  refine .andThen fun more => .ite (fun _ => reader_ensures fun lines => ?_) fun _ => ?_
  · cases lines with
    | nil => exact .pure nofun
    | cons line others =>
        refine (ensures_run (h.compound within line) others).bind fun result hBody => ?_
        refine .ite (fun _ => .pure fun body hFound => ?_) fun _ => .error _
        rw [← Option.some.inj hFound]
        exact hBody
  · exact .pure nofun

theorem readers (rules : CodeRules Single Whole) (budget : Nat) : ReadersFollow Single budget := by
  induction budget with
  | zero =>
      constructor
      all_goals
        intros
        exact refuse_ensures
  | succ budget ih =>
      exact ⟨fun within => ensures_block within ih, fun within => rules.ensures_statement within ih,
        fun within => ensures_compound within ih, fun within => ensures_branches within ih,
        fun within => ensures_else within ih⟩

/-- What follows the rules holds of each instruction of a code block. -/
theorem ensures_compile (rules : CodeRules Single Whole) (within : Surroundings) (text : List Char)
    (number : Nat) : Ensures (fun body => ∀ instr ∈ body, Single within instr)
      (compile within text number) := by
  refine .andThen fun lines => ?_
  refine (ensures_run ((rules.readers _).block within 0) lines).bind fun body hBody => ?_
  exact .pure hBody

end CodeRules

/-! ## Rules for sections -/

/-- What holds of each instruction of a compiled template and of each list of them, as they are put
together by the compiler of sections. Text is added to a list only by `Emitted.addText`, so the
rules say nothing of an instruction that appends text. -/
structure SuiteRules (Single : Surroundings → Instr → Prop)
    (Whole : Surroundings → List Instr → Prop) : Prop extends CodeRules Single Whole where
  /-- What a block adds to the indentation does not matter. -/
  enter {within : Surroundings} {indent : Nat} {instrs : List Instr} :
    Whole (within.enter indent) instrs → Whole within instrs
  reverse {within : Surroundings} {instrs : List Instr} : Whole within instrs →
    Whole within instrs.reverse
  addText {within : Surroundings} {out : Emitted} (content : String) : Whole within out →
    Whole within (out.addText content)
  emit (within : Surroundings) (value : Expr) (escape : Bool) : Single within (.emit value escape)
  trackedLoop {within : Surroundings} {body : List Instr} {otherwise : Option (List Instr)}
    (target : Target) (items : Expr) : Whole within.looping body →
    (∀ body ∈ otherwise, Whole within body) →
    Single within (.forLoop target items body otherwise true)
  template {within : Surroundings} {body : List Instr} (name : String)
    (parameters : List Parameter) : Whole within.defining body →
    Single within (.define .template name parameters body)
  setVar {within : Surroundings} {name : String} (value : Expr) : (name == bodyName) = false →
    Single within (.setVar name value)
  setFragment {within : Surroundings} {name : String} {body : List Instr} :
    (name == bodyName) = false → Whole .outside body → Single within (.setFragment name body)

/-- The parts of a construct that is still open satisfy what they should. -/
def OpenBlock.Follows (Whole : Surroundings → List Instr → Prop) (within : Surroundings) :
    OpenBlock → Prop
  | .nothing => True
  | .branches done => done ≠ [] ∧ ∀ branch ∈ done, Whole within branch.2
  | .loop _ _ body _ => Whole within.looping body

namespace SuiteRules

variable {Single : Surroundings → Instr → Prop} {Whole : Surroundings → List Instr → Prop}
  (rules : SuiteRules Single Whole) {within : Surroundings}
include rules

theorem append {first rest : List Instr} (hFirst : ∀ instr ∈ first, Single within instr)
    (hRest : Whole within rest) : Whole within (first ++ rest) := by
  induction first with
  | nil => exact hRest
  | cons instr first ih =>
      rw [List.forall_mem_cons] at hFirst
      exact rules.cons hFirst.1 (ih hFirst.2)

theorem ensures_loopInstr (overItems : Bool) (header : List Char) {body : List Instr}
    {otherwise : Option (List Instr)} (line : Nat) (hBody : Whole within.looping body)
    (hOtherwise : ∀ body ∈ otherwise, Whole within body) :
    Ensures (Single within) (loopInstr overItems header body otherwise line) := by
  cases overItems with
  | true => exact .andThen fun head => .pure (rules.trackedLoop _ _ hBody hOtherwise)
  | false => exact .andThen fun test => .pure (rules.whileLoop _ hBody hOtherwise)

theorem ensures_close {open_ : OpenBlock} {out : Emitted} (hOpen : open_.Follows Whole within)
    (hOut : Whole within out) : Ensures (Whole within) (open_.close out) := by
  have hNone : ∀ body ∈ (none : Option (List Instr)), Whole within body := nofun
  cases open_ with
  | nothing => exact .pure hOut
  | branches done => exact .pure (rules.cons (rules.branch hOpen.1 hOpen.2 hNone) hOut)
  | loop overItems header body line =>
      refine .map ?_
      exact (rules.ensures_loopInstr overItems header line hOpen hNone).mono
        fun loop hLoop => rules.cons hLoop hOut

theorem ensures_compilePieces (number : Nat) {out : Emitted} (h : Whole within out)
    (pieces : List Piece) : Ensures (Whole within) (compilePieces number out pieces) := by
  induction pieces generalizing out with
  | nil => exact .pure h
  | cons piece rest ih =>
      cases piece with
      | text content => exact ih (rules.addText _ h)
      | expression code escape =>
          rw [compilePieces]
          split
          · exact ih (rules.cons (rules.emit _ _ _) h)
          · exact .error _

theorem ensures_compileLine (indent : Nat) {out : Emitted} (h : Whole within out)
    (line : TextLine) : Ensures (Whole within) (compileLine indent out line) :=
  rules.ensures_compilePieces line.number (rules.addText _ h) line.pieces

theorem ensures_compileLines {out : Emitted} (h : Whole within out) (lines : List TextLine) :
    Ensures (Whole within) (compileLines out lines) := by
  induction lines generalizing out with
  | nil => exact .pure h
  | cons line rest ih =>
      rw [compileLines]
      exact (rules.ensures_compileLine 0 h line).bind fun more hMore => ih hMore

/-- What follows the rules holds of what sections are compiled to, when no section sets an output
variable under the name of the text. -/
theorem ensures_compileSuite (within : Surroundings) (open_ : OpenBlock) (out : Emitted)
    (sections : List Section) (hSections : suiteSetsText sections = false)
    (hOpen : open_.Follows Whole within) (hOut : Whole within out) :
    Ensures (Whole within) (compileSuite within open_ out sections) := by
  have hSome {within : Surroundings} {inner : List Instr} (hInner : Whole within inner) :
      ∀ body ∈ some inner, Whole within body := by
    rintro _ ⟨⟩
    exact hInner
  induction within, open_, out, sections using compileSuite.induct with
  | case1 within open_ out =>
      rw [compileSuite]
      exact (rules.ensures_close hOpen hOut).bind fun done hDone => .pure (rules.reverse hDone)
  | case2 within out line header indent body rest done ihBody ihRest =>
      rw [suiteSetsText, Bool.or_eq_false_iff] at hSections
      rw [compileSuite]
      refine .andThen fun test => ?_
      refine (ihBody hSections.1 trivial (rules.nil _)).bind fun inner hInner => ?_
      refine ihRest test inner hSections.2 ⟨by simp, fun branch hBranch => ?_⟩ hOut
      rcases List.mem_append.1 hBranch with hBranch | hBranch
      · exact hOpen.2 branch hBranch
      · rw [List.mem_singleton.1 hBranch]
        exact rules.enter hInner
  | case3 within open_ out line header indent body rest hNot =>
      rw [compileSuite]
      · exact .andThen fun _ => .error _
      · exact hNot
  | case4 within out line header indent body rest done ihBody ihRest =>
      rw [suiteSetsText, Bool.or_eq_false_iff] at hSections
      rw [compileSuite]
      refine .andThen fun _ => ?_
      refine (ihBody hSections.1 trivial (rules.nil _)).bind fun inner hInner => ?_
      have hBranch := rules.branch hOpen.1 hOpen.2 (hSome (rules.enter hInner))
      exact ihRest inner hSections.2 trivial (rules.cons hBranch hOut)
  | case5 within out line header indent body rest overItems loopHeader loopBody loopLine ihBody
      ihRest =>
      rw [suiteSetsText, Bool.or_eq_false_iff] at hSections
      rw [compileSuite]
      refine .andThen fun _ => ?_
      refine (ihBody hSections.1 trivial (rules.nil _)).bind fun inner hInner => ?_
      refine (rules.ensures_loopInstr overItems loopHeader loopLine hOpen
        (hSome (rules.enter hInner))).bind fun loop hLoop => ?_
      exact ihRest loop hSections.2 trivial (rules.cons hLoop hOut)
  | case6 within out line header indent body rest =>
      rw [compileSuite]
      exact .error _
  | case7 within open_ out line header indent body rest ihBody ihRest =>
      rw [suiteSetsText, Bool.or_eq_false_iff] at hSections
      rw [compileSuite]
      refine (rules.ensures_close hOpen hOut).bind fun done hDone => .andThen fun test => ?_
      refine (ihBody hSections.1 trivial (rules.nil _)).bind fun inner hInner => ?_
      exact ihRest done test inner hSections.2
        ⟨by simp, List.forall_mem_singleton.2 (rules.enter hInner)⟩ hDone
  | case8 within open_ out line header indent body rest ihBody ihRest =>
      rw [suiteSetsText, Bool.or_eq_false_iff] at hSections
      rw [compileSuite]
      refine (rules.ensures_close hOpen hOut).bind fun done hDone => ?_
      refine (ihBody hSections.1 trivial (rules.nil _)).bind fun inner hInner => ?_
      exact ihRest done inner hSections.2 (rules.enter hInner) hDone
  | case9 within open_ out line header indent body rest ihBody ihRest =>
      rw [suiteSetsText, Bool.or_eq_false_iff] at hSections
      rw [compileSuite]
      refine (rules.ensures_close hOpen hOut).bind fun done hDone => ?_
      refine (ihBody hSections.1 trivial (rules.nil _)).bind fun inner hInner => ?_
      exact ihRest done inner hSections.2 (rules.enter hInner) hDone
  | case10 within open_ out line header indent body rest ihBody ihRest =>
      rw [suiteSetsText, Bool.or_eq_false_iff] at hSections
      rw [compileSuite]
      refine (rules.ensures_close hOpen hOut).bind fun done hDone => .andThen fun head => ?_
      refine (ihBody hSections.1 trivial (rules.nil _)).bind fun inner hInner => ?_
      exact ihRest done head.1 head.2 inner hSections.2 trivial
        (rules.cons (rules.template _ _ (rules.enter hInner)) hDone)
  | case11 within open_ out content rest ihRest =>
      rw [suiteSetsText, Bool.or_eq_false_iff] at hSections
      rw [compileSuite]
      refine (rules.ensures_close hOpen hOut).bind fun done hDone => ?_
      refine (rules.ensures_compileLine within.indent hDone content).bind fun more hMore => ?_
      exact ihRest more hSections.2 trivial hMore
  | case12 within open_ out line code rest ihRest ihStatement =>
      rw [suiteSetsText, Bool.or_eq_false_iff] at hSections
      rw [compileSuite]
      refine (rules.ensures_close hOpen hOut).bind fun done hDone => ?_
      refine .ite (fun _ => ihRest done hSections.2 trivial hDone) fun _ => ?_
      refine .andThen fun statement => ?_
      exact ihStatement done statement hSections.2 trivial
        (rules.cons (rules.execute within statement) hDone)
  | case13 within open_ out line keyword code rest ihRest =>
      rw [suiteSetsText, Bool.or_eq_false_iff] at hSections
      rw [compileSuite]
      refine (rules.ensures_close hOpen hOut).bind fun done hDone => ?_
      refine (rules.flow within keyword code line).bind fun instr hInstr => ?_
      exact ihRest done instr hSections.2 trivial (rules.append hInstr hDone)
  | case14 within open_ out line text rest ihRest =>
      rw [suiteSetsText, Bool.or_eq_false_iff] at hSections
      rw [compileSuite]
      refine (rules.ensures_close hOpen hOut).bind fun done hDone => ?_
      refine (rules.ensures_compile within text line).bind fun body hBody => ?_
      exact ihRest done body hSections.2 trivial
        (rules.append (fun instr hInstr => hBody instr (List.mem_reverse.1 hInstr)) hDone)
  | case15 within open_ out line name code rest ihRest =>
      rw [suiteSetsText, Bool.or_eq_false_iff] at hSections
      rw [compileSuite]
      refine (rules.ensures_close hOpen hOut).bind fun done hDone => .andThen fun value => ?_
      exact ihRest done value hSections.2 trivial
        (rules.cons (rules.setVar value hSections.1) hDone)
  | case16 within open_ out number name lines rest ihRest =>
      rw [suiteSetsText, Bool.or_eq_false_iff] at hSections
      rw [compileSuite]
      refine (rules.ensures_close hOpen hOut).bind fun done hDone => ?_
      refine (rules.ensures_compileLines (rules.nil .outside) lines).bind fun body hBody => ?_
      exact ihRest done body hSections.2 trivial
        (rules.cons (rules.setFragment hSections.1 (rules.reverse hBody)) hDone)

/-- What follows the rules holds of a compiled document that was read from a text. -/
theorem ensures_ofDocument {document : Document} (h : suiteSetsText document.body = false) :
    Ensures (fun program => Whole .outside program.body) (Program.ofDocument document) := by
  have hBody (parameters : List Parameter) :
      Ensures (fun program => Whole .outside program.body)
        ((fun body => (⟨parameters, body⟩ : Program)) <$>
          compileSuite .outside .nothing [] document.body) :=
    .map (rules.ensures_compileSuite .outside .nothing [] document.body h trivial (rules.nil _))
  unfold Program.ofDocument
  cases document.parameters with
  | none => exact hBody []
  | some text => exact .andThen hBody

/-- What follows the rules holds of a compiled template. -/
theorem ensures_read (text : List Char) :
    Ensures (fun program => Whole .outside program.body) (Program.read text) := by
  rw [Program.read_eq]
  split
  · rename_i document hRead
    exact rules.ensures_ofDocument (suiteSetsText_read text document hRead)
  · exact .error _

end SuiteRules
/-! ## Where instructions of compiled templates stand -/

theorem accepts_flowInstr (within : Surroundings) (keyword : FlowKeyword) (code : List Char)
    (line : Nat) :
    Ensures (fun found : Option Instr => within.Accepts found.toList)
      (flowInstr within keyword code line) := by
  unfold flowInstr
  cases keyword with
  | pass => exact .pure nofun
  | breakLoop =>
      refine .ite (fun hLoop => .pure (List.forall_mem_singleton.2 ?_)) fun _ => .error _
      rw [hLoop]
      exact .breakLoop
  | continueLoop =>
      refine .ite (fun hLoop => .pure (List.forall_mem_singleton.2 ?_)) fun _ => .error _
      rw [hLoop]
      exact .continueLoop
  | returnValue =>
      refine .andThen fun value => .ite (fun _ => .error _) fun hAllowed => ?_
      refine .pure (List.forall_mem_singleton.2 ?_)
      cases value with
      | none => exact .returnNothing
      | some expr =>
          rw [Bool.not_eq_true, Option.isSome_some, Bool.true_and, Bool.not_eq_false'] at hAllowed
          rw [hAllowed]
          exact .returnValue _

/-- Where an instruction may stand is told by rules. -/
theorem placed_rules : SuiteRules
    (fun within instr => instr.Placed within.inLoop within.inDefinition) Surroundings.Accepts where
  nil within := nofun
  cons h hRest := List.forall_mem_cons.2 ⟨h, hRest⟩
  flow := accepts_flowInstr
  execute within statement := .execute statement
  branch _ hBranches hOtherwise := .branch hBranches hOtherwise
  forLoop target items hBody hOtherwise := .forLoop target items false hBody hOtherwise
  whileLoop test hBody hOtherwise := .whileLoop test hBody hOtherwise
  procedure name parameters hBody := .define .procedure name parameters hBody
  enter h := h
  reverse h := fun instr hInstr => h instr (List.mem_reverse.1 hInstr)
  addText content h := by
    unfold Emitted.addText
    split
    · exact h
    · split
      · exact List.forall_mem_cons.2 ⟨.text _, (List.forall_mem_cons.1 h).2⟩
      · exact List.forall_mem_cons.2 ⟨.text _, h⟩
  emit within value escape := .emit value escape
  trackedLoop target items hBody hOtherwise := .forLoop target items true hBody hOtherwise
  template name parameters hBody := .define .template name parameters hBody
  setVar value hName := .setVar hName value
  setFragment hName hBody := .setFragment hName hBody

/-- The instructions of a compiled template stand where they may. -/
theorem Program.accepts_read (text : List Char) :
    Ensures (fun program => Surroundings.outside.Accepts program.body) (Program.read text) :=
  placed_rules.ensures_read text

end Stencil
