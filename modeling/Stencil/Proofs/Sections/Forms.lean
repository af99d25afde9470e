import Stencil.Proofs.Sections.Directives

/-!
# Two forms of statements

Statements can be written as directives, each on a line of its own with a sigil before it, or as the
lines of a code block. The first form is read into sections, whose clauses are put together when
they are compiled; the second is read line by line. Both give the same instructions, but for two
marks: a loop over items that is written as a directive can be asked for its position, and a
definition that is written as a directive renders text.

## Main results

* `Suite.compiles`: what the sections of directives add to a program.
* `front_ends_agree`: the instructions of both forms.
-/

namespace Stencil

open Stencil.Text

/-! ## Marks -/

namespace Instr

mutual

/-- The instruction with these marks on all its loops over items and all its definitions. -/
def mark (tracked : Bool) (kind : DefinitionKind) : Instr → Instr
  | .branch branches otherwise =>
      .branch (markBranches tracked kind branches) (markOption tracked kind otherwise)
  | .forLoop target items body otherwise _ =>
      .forLoop target items (markAll tracked kind body) (markOption tracked kind otherwise) tracked
  | .whileLoop test body otherwise =>
      .whileLoop test (markAll tracked kind body) (markOption tracked kind otherwise)
  | .define _ name parameters body => .define kind name parameters (markAll tracked kind body)
  | .setFragment name body => .setFragment name (markAll tracked kind body)
  | .text content => .text content
  | .emit value escape => .emit value escape
  | .execute statement => .execute statement
  | .setVar name value => .setVar name value
  | .breakLoop => .breakLoop
  | .continueLoop => .continueLoop
  | .returnValue value => .returnValue value

/-- The instructions with these marks. -/
def markAll (tracked : Bool) (kind : DefinitionKind) : List Instr → List Instr
  | [] => []
  | instr :: rest => instr.mark tracked kind :: markAll tracked kind rest

/-- Instructions that may be absent, with these marks. -/
def markOption (tracked : Bool) (kind : DefinitionKind) : Option (List Instr) → Option (List Instr)
  | none => none
  | some body => some (markAll tracked kind body)

/-- Branches with these marks. -/
def markBranches (tracked : Bool) (kind : DefinitionKind) :
    List (Expr × List Instr) → List (Expr × List Instr)
  | [] => []
  | (test, body) :: rest => (test, markAll tracked kind body) :: markBranches tracked kind rest

end

variable (tracked : Bool) (kind : DefinitionKind)

theorem markAll_append (instrs more : List Instr) :
    markAll tracked kind (instrs ++ more) =
      markAll tracked kind instrs ++ markAll tracked kind more := by
  induction instrs with
  | nil => rfl
  | cons instr rest ih => rw [List.cons_append, markAll, markAll, ih, List.cons_append]

end Instr

open Instr

/-- The marks of directives: loops over items are tracked, and definitions are templates. -/
abbrev asDirectives : List Instr → List Instr := markAll true .template

/-- The marks of a code block. -/
abbrev asCode : List Instr → List Instr := markAll false .procedure

namespace CodeBlock

/-! ## Writing -/

/-- A header with its sigil and its colon. -/
def headerDirective (header : List Char) : List Char := '$' :: header ++ [':']

mutual

/-- The lines of a statement that is written as directives. -/
def Tree.directives : Tree → List (List Char)
  | .simple code => ['$' :: ' ' :: code]
  | .pass => ['$' :: "pass".toList]
  | .breakLoop => ['$' :: "break".toList]
  | .continueLoop => ['$' :: "continue".toList]
  | .returns code => ['$' :: code]
  | .conditional header _ body rest =>
      headerDirective header :: nested indentStep body.directives ++ rest.directives
  | .forLoop header _ body otherwise =>
      headerDirective header :: nested indentStep body.directives ++ otherwise.directives
  | .whileLoop header _ body otherwise =>
      headerDirective header :: nested indentStep body.directives ++ otherwise.directives
  | .define header _ body => headerDirective header :: nested indentStep body.directives

/-- The lines of statements that are written as directives. -/
def Suite.directives : Suite → List (List Char)
  | .one first => first.directives
  | .more first rest => first.directives ++ rest.directives

/-- The lines of clauses that are written as directives. -/
def Clauses.directives : Clauses → List (List Char)
  | .last otherwise => otherwise.directives
  | .elif header _ body rest =>
      headerDirective header :: nested indentStep body.directives ++ rest.directives

/-- The lines of an `else` that is written as directives. -/
def Otherwise.directives : Otherwise → List (List Char)
  | .nothing => []
  | .body _ body => headerDirective elseWord :: nested indentStep body.directives

end

/-- A line of a code block. -/
def TreeLine.text (line : TreeLine) : List Char := List.replicate line.1 ' ' ++ line.2

/-- The lines of statements that are written in a code block. -/
def Suite.codeLines (suite : Suite) : List (List Char) := (suite.lines 0).map TreeLine.text

/-- The text of statements that are written as directives. -/
def Suite.directiveText (suite : Suite) : List Char := written suite.directives

/-- The text of a code block for statements, indented by one space and as many more as is said. -/
def Suite.codeText (suite : Suite) (deeper : Nat) : List Char :=
  written ("$code:".toList :: nested (deeper + 1) suite.codeLines)

/-! ## Lines -/

/-- Lines of directives: none is blank, and the first one starts with a sigil. -/
structure AreDirectives (lines : List (List Char)) : Prop where
  textLines : ∀ line ∈ lines, IsTextLine line
  sigil : ∀ first ∈ lines.head?, first.head? = some '$'

theorem isTextLine_sigil {code : List Char} (h : '\n' ∉ code) : IsTextLine ('$' :: code) :=
  ⟨by simp [h], by rw [allBlank, List.all_cons]; rfl⟩

theorem areDirectives_nil : AreDirectives [] := ⟨by simp, by simp⟩

theorem areDirectives_singleton {code : List Char} (h : '\n' ∉ code) :
    AreDirectives ['$' :: code] :=
  ⟨List.forall_mem_singleton.2 (isTextLine_sigil h), by simp⟩

theorem AreDirectives.append {lines more : List (List Char)} (h : AreDirectives lines)
    (hMore : AreDirectives more) : AreDirectives (lines ++ more) := by
  refine ⟨List.forall_mem_append.2 ⟨h.textLines, hMore.textLines⟩, ?_⟩
  cases lines with
  | nil => exact hMore.sigil
  | cons first rest => exact h.sigil

theorem AreDirectives.block {header : List Char} {body : List (List Char)} (h : '\n' ∉ header)
    (hBody : AreDirectives body) :
    AreDirectives (headerDirective header :: nested indentStep body) := by
  refine ⟨List.forall_mem_cons.2 ⟨isTextLine_sigil (by simp [h]), ?_⟩, by simp [headerDirective]⟩
  intro line hLine
  obtain ⟨inner, hInner, rfl⟩ := List.mem_map.1 hLine
  exact (hBody.textLines inner hInner).replicate indentStep

mutual

theorem Tree.areDirectives : ∀ {tree : Tree}, tree.HasLines → AreDirectives tree.directives
  | .simple _, h => areDirectives_singleton (by simp [h.oneLine])
  | .pass, _ => areDirectives_singleton (by decide)
  | .breakLoop, _ => areDirectives_singleton (by decide)
  | .continueLoop, _ => areDirectives_singleton (by decide)
  | .returns _, h => areDirectives_singleton h.oneLine
  | .conditional .., h =>
      (AreDirectives.block h.1.oneLine (Suite.areDirectives h.2.1)).append
        (Clauses.areDirectives h.2.2)
  | .forLoop .., h =>
      (AreDirectives.block h.1.oneLine (Suite.areDirectives h.2.1)).append
        (Otherwise.areDirectives h.2.2)
  | .whileLoop .., h =>
      (AreDirectives.block h.1.oneLine (Suite.areDirectives h.2.1)).append
        (Otherwise.areDirectives h.2.2)
  | .define .., h => AreDirectives.block h.1.oneLine (Suite.areDirectives h.2)

theorem Suite.areDirectives : ∀ {suite : Suite}, suite.HasLines → AreDirectives suite.directives
  | .one _, h => Tree.areDirectives h
  | .more .., h => (Tree.areDirectives h.1).append (Suite.areDirectives h.2)

theorem Clauses.areDirectives : ∀ {clauses : Clauses}, clauses.HasLines →
    AreDirectives clauses.directives
  | .last _, h => Otherwise.areDirectives h
  | .elif .., h =>
      (AreDirectives.block h.1.oneLine (Suite.areDirectives h.2.1)).append
        (Clauses.areDirectives h.2.2)

theorem Otherwise.areDirectives : ∀ {otherwise : Otherwise}, otherwise.HasLines →
    AreDirectives otherwise.directives
  | .nothing, _ => areDirectives_nil
  | .body .., h => AreDirectives.block (by decide) (Suite.areDirectives h)

end

theorem AreDirectives.startsOutside {lines : List (List Char)} (h : AreDirectives lines) :
    StartsOutside (written lines) := by
  cases lines with
  | nil => exact Or.inl rfl
  | cons first rest =>
      right
      obtain ⟨c, code, rfl⟩ : ∃ c code, first = c :: code :=
        List.exists_cons_of_ne_nil fun hNil => by
          have hSigil := h.sigil first rfl
          rw [hNil] at hSigil
          cases hSigil
      obtain rfl : c = '$' := Option.some.inj (h.sigil _ rfl)
      rw [written_cons, splitLine_append_newline (h.textLines _ List.mem_cons_self).oneLine]
      exact ⟨rfl, rfl⟩

end CodeBlock

/-! ## Compiling sections -/

/-- Does the section go on with a construct before it? -/
def Section.isClause : Section → Bool
  | .block _ .elifBranch _ _ _ => true
  | .block _ .elseBranch _ _ _ => true
  | _ => false

/-- The sections go on with nothing before them. -/
def StartsAnew (sections : List Section) : Prop :=
  ∀ content ∈ sections.head?, content.isClause = false

/-- A construct that nothing goes on with is completed. -/
theorem compileSuite_close {within : Surroundings} {open_ : OpenBlock} {out closed : Emitted}
    {rest : List Section} (h : open_.close out = .ok closed) (hRest : StartsAnew rest) :
    compileSuite within open_ out rest = compileSuite within .nothing closed rest := by
  have hNothing : OpenBlock.close closed .nothing = .ok closed := rfl
  cases rest with
  | nil => rw [compileSuite, compileSuite, h, hNothing]
  | cons content rest =>
      have hClause := hRest content rfl
      cases content with
      | block line keyword header indent body =>
          cases keyword with
          | elifBranch => cases hClause
          | elseBranch => cases hClause
          | _ => rw [compileSuite, compileSuite, h, hNothing]
      | _ => rw [compileSuite, compileSuite, h, hNothing]

/-- What the construct becomes with this body of an `else`, or without. -/
def OpenBlock.Becomes (open_ : OpenBlock) (otherwise : Option (List Instr)) (instr : Instr) :
    Prop :=
  match open_ with
  | .nothing => False
  | .branches done => instr = .branch done otherwise
  | .loop overItems header body line => loopInstr overItems header body otherwise line = .ok instr

theorem OpenBlock.Becomes.close {open_ : OpenBlock} {instr : Instr} (h : open_.Becomes none instr)
    (out : Emitted) : open_.close out = .ok (instr :: out) := by
  cases open_ with
  | nothing => cases h
  | branches done =>
      cases h
      rfl
  | loop overItems header body line =>
      show (· :: out) <$> loopInstr overItems header body none line = _
      rw [show loopInstr overItems header body none line = .ok instr from h]
      rfl

theorem Surroundings.enter_zero (within : Surroundings) : within.enter 0 = within := by
  rw [Surroundings.enter, Nat.zero_add]

namespace CodeBlock

/-- The sections stand for these instructions: they go on with nothing before them, and they add the
instructions, with the marks of directives. -/
structure Adds (within : Surroundings) (sections : List Section) (instrs : List Instr) : Prop where
  anew : ∃ content more, sections = content :: more ∧ content.isClause = false
  compiled : ∀ {out rest}, StartsAnew rest → compileSuite within .nothing out (sections ++ rest) =
    compileSuite within .nothing ((asDirectives instrs).reverse ++ out) rest

namespace Adds

variable {within : Surroundings} {sections more : List Section} {instrs others : List Instr}

theorem startsAnew (h : Adds within sections instrs) (rest : List Section) :
    StartsAnew (sections ++ rest) := by
  obtain ⟨content, more, rfl, hClause⟩ := h.anew
  rintro _ ⟨⟩
  exact hClause

theorem whole (h : Adds within sections instrs) :
    compileSuite within .nothing [] sections = .ok (asDirectives instrs) := by
  have hAll : compileSuite within .nothing [] (sections ++ []) = _ :=
    h.compiled (by simp [StartsAnew])
  rw [List.append_nil] at hAll
  rw [hAll, compileSuite]
  show Except.ok _ = _
  rw [List.append_nil, List.reverse_reverse]

theorem append (h : Adds within sections instrs) (hMore : Adds within more others) :
    Adds within (sections ++ more) (instrs ++ others) := by
  obtain ⟨content, rest, rfl, hClause⟩ := h.anew
  refine ⟨⟨content, rest ++ more, rfl, hClause⟩, fun {out rest} hRest => ?_⟩
  rw [List.append_assoc, h.compiled (hMore.startsAnew rest), hMore.compiled hRest, asDirectives,
    markAll_append, List.reverse_append, List.append_assoc]

end Adds

/-- A statement that is written as directives is read into sections for its instructions. -/
def Tree.Compiles (tree : Tree) : Prop :=
  ∀ ⦃within : Surroundings⦄ ⦃instrs : List Instr⦄, tree.instrs within = some instrs →
    ∀ number, ∃ sections, readSuite (written tree.directives) number = .ok sections ∧
      Adds within sections instrs

/-- So are statements. -/
def Suite.Compiles (suite : Suite) : Prop :=
  ∀ ⦃within : Surroundings⦄ ⦃instrs : List Instr⦄, suite.instrs within = some instrs →
    ∀ number, ∃ sections, readSuite (written suite.directives) number = .ok sections ∧
      Adds within sections instrs

/-- An `else` that is written as directives completes the construct before it. -/
def Otherwise.Compiles (otherwise : Otherwise) : Prop :=
  ∀ ⦃within : Surroundings⦄ ⦃body : Option (List Instr)⦄, otherwise.instrs within = some body →
    ∀ number, ∃ sections, readSuite (written otherwise.directives) number = .ok sections ∧
      ∀ ⦃open_ : OpenBlock⦄ ⦃instr : Instr⦄ ⦃out : Emitted⦄ ⦃rest : List Section⦄,
        open_.Becomes (markOption true .template body) instr → StartsAnew rest →
        compileSuite within open_ out (sections ++ rest) =
          compileSuite within .nothing (instr :: out) rest

/-- The clauses of a conditional that are written as directives complete it. -/
def Clauses.Compiles (clauses : Clauses) : Prop :=
  ∀ ⦃within : Surroundings⦄ ⦃branches : List (Expr × List Instr)⦄
    ⦃otherwise : Option (List Instr)⦄, clauses.instrs within = some (branches, otherwise) →
    ∀ number, ∃ sections, readSuite (written clauses.directives) number = .ok sections ∧
      ∀ ⦃done : List (Expr × List Instr)⦄ ⦃out : Emitted⦄ ⦃rest : List Section⦄, StartsAnew rest →
        compileSuite within (.branches done) out (sections ++ rest) =
          compileSuite within .nothing (.branch (done ++ markBranches true .template branches)
            (markOption true .template otherwise) :: out) rest

variable {within : Surroundings} {number : Nat}

/-- A header with its body, and what stands below that. -/
theorem readSuite_compound (number : Nat) {keyword : BlockKeyword} {header : List Char}
    (hHeader : IsHeader keyword.word header) (hLine : '\n' ∉ header) {suite : Suite}
    (hLines : suite.HasLines) (hSuite : suite.Compiles) {body : List Instr}
    (hBody : suite.instrs within = some body) {more : List (List Char)} (hMore : AreDirectives more)
    {P : List Section → Prop}
    (hRead : ∀ number, ∃ sections, readSuite (written more) number = .ok sections ∧ P sections) :
    ∃ inner sections,
      readSuite (written (headerDirective header :: nested indentStep suite.directives ++ more))
        number = .ok (.block number keyword header 0 inner :: sections) ∧
      compileSuite within .nothing [] inner = .ok (asDirectives body) ∧ P sections := by
  obtain ⟨inner, hInner, hAdds⟩ := hSuite hBody (number + 1)
  have hDirectives := Suite.areDirectives hLines
  cases hList : suite.directives with
  | nil =>
      rw [hList] at hInner
      replace hInner : readSuite [] (number + 1) = .ok inner := hInner
      rw [readSuite] at hInner
      cases hInner
      obtain ⟨content, others, hNil, -⟩ := hAdds.anew
      cases hNil
  | cons first rest =>
      rw [hList] at hInner hDirectives
      have hFirst : first.head? ≠ some ' ' := by
        rw [hDirectives.sigil first rfl]
        decide
      have hBlock := readSuite_block hLine hHeader hDirectives.textLines hFirst hInner
      obtain ⟨sections, hSections, hP⟩ := hRead
        (number +
          countNewlines (written (headerDirective header :: nested indentStep (first :: rest))))
      refine ⟨inner, sections, ?_, hAdds.whole, hP⟩
      rw [written_append, readSuite_append (endsLine_written _) hMore.startsOutside]
      rw [show readSuite (written (headerDirective header :: nested indentStep (first :: rest)))
        number = .ok [.block number keyword header 0 inner] from hBlock, hSections]
      rfl

/-! ### Clauses -/

theorem Otherwise.compiles_nothing : Otherwise.nothing.Compiles := by
  intro within body hBody number
  cases hBody
  refine ⟨[], ?_, fun open_ instr out rest hInstr hRest => ?_⟩
  · show readSuite [] number = _
    rw [readSuite]
  · exact compileSuite_close (hInstr.close out) hRest

theorem Otherwise.compiles_body {deeper : Nat} {suite : Suite} (hLines : suite.HasLines)
    (hSuite : suite.Compiles) : (Otherwise.body deeper suite).Compiles := by
  intro within body hBody number
  obtain ⟨instrs, hInstrs, rfl⟩ := Option.map_eq_some_iff.1 hBody
  have hNone (number : Nat) : ∃ sections, readSuite (written []) number = .ok sections ∧
      sections = [] := ⟨[], by rw [written, List.flatMap_nil, readSuite], rfl⟩
  have hHeader : IsHeader BlockKeyword.elseBranch.word elseWord := isHeader_else
  obtain ⟨inner, sections, hRead, hInner, rfl⟩ := readSuite_compound number
    hHeader (by decide) hLines hSuite hInstrs areDirectives_nil hNone
  rw [List.append_nil] at hRead
  refine ⟨_, hRead, fun open_ instr out rest hInstr hRest => ?_⟩
  have hElse : checkElse elseWord number = .ok () := if_pos (by decide)
  cases open_ with
  | nothing => cases hInstr
  | branches done =>
      rw [List.cons_append, compileSuite, hElse, Surroundings.enter_zero, hInner, hInstr]
      rfl
  | loop overItems header body line =>
      replace hInstr :
          loopInstr overItems header body (some (asDirectives instrs)) line = .ok instr := hInstr
      rw [List.cons_append, compileSuite, hElse, Surroundings.enter_zero, hInner]
      show (loopInstr overItems header body (some (asDirectives instrs)) line >>= _) = _
      rw [hInstr]
      rfl

theorem Clauses.compiles_last {otherwise : Otherwise} (h : otherwise.Compiles) :
    (Clauses.last otherwise).Compiles := by
  intro within branches body hClauses number
  obtain ⟨found, hFound, hPair⟩ := Option.bind_eq_some_iff.1 hClauses
  cases hPair
  obtain ⟨sections, hRead, hCompiled⟩ := h hFound number
  refine ⟨sections, hRead, fun done out rest hRest => ?_⟩
  rw [markBranches, List.append_nil]
  exact hCompiled rfl hRest

theorem Clauses.compiles_elif {header : List Char} {deeper : Nat} {suite : Suite} {rest : Clauses}
    (hLine : IsHeaderLine header) (hLines : suite.HasLines) (hSuite : suite.Compiles)
    (hMore : rest.HasLines) (hRest : rest.Compiles) :
    (Clauses.elif header deeper suite rest).Compiles := by
  intro within branches otherwise hClauses number
  obtain ⟨test, hTest, hClauses⟩ := Option.bind_eq_some_iff.1 hClauses
  obtain ⟨body, hBody, hClauses⟩ := Option.bind_eq_some_iff.1 hClauses
  obtain ⟨others, hOthers, hPair⟩ := Option.bind_eq_some_iff.1 hClauses
  cases hPair
  have hTest := ok_of_toOption hTest
  have hHeader : IsHeader BlockKeyword.elifBranch.word header := isHeader_of_readAfter hLine hTest
  obtain ⟨inner, sections, hRead, hInner, hCompiled⟩ := readSuite_compound number
    hHeader hLine.oneLine hLines hSuite hBody (Clauses.areDirectives hMore) (hRest hOthers)
  refine ⟨_, hRead, fun done out after hAfter => ?_⟩
  rw [List.cons_append, compileSuite, hTest, Surroundings.enter_zero, hInner]
  show compileSuite within (.branches (done ++ [(test, asDirectives body)])) out
    (sections ++ after) = _
  rw [hCompiled hAfter, List.append_assoc]
  rfl

/-! ### Statements -/

theorem Tree.compiles_simple {code : List Char} (hLine : IsLine code) :
    (Tree.simple code).Compiles := by
  intro within instrs hInstrs number
  obtain ⟨statement, hRead, hPair⟩ := Option.bind_eq_some_iff.1 hInstrs
  cases hPair
  have hRead := ok_of_toOption hRead
  have hSome : code.isEmpty = false := by
    obtain ⟨c, rest, rfl, -⟩ := (isSimple_of_read hLine hRead).logical.starts
    rfl
  refine ⟨_, readSuite_assignment hLine.oneLine hLine.trimmed, ⟨_, [], rfl, rfl⟩, fun hRest => ?_⟩
  rw [List.cons_append, compileSuite, hSome, hRead]
  rfl

/-- What steers the flow has no marks. -/
theorem asDirectives_flowInstr {keyword : FlowKeyword} {code : List Char} {instr : Option Instr}
    (h : flowInstr within keyword code number = .ok instr) :
    asDirectives instr.toList = instr.toList := by
  cases keyword with
  | pass =>
      cases h
      rfl
  | breakLoop =>
      rw [flowInstr] at h
      split at h <;> cases h
      rfl
  | continueLoop =>
      rw [flowInstr] at h
      split at h <;> cases h
      rfl
  | returnValue =>
      rw [flowInstr] at h
      cases hRead : Expr.readReturn code with
      | error fault =>
          rw [hRead] at h
          cases h
      | ok value =>
          rw [hRead] at h
          replace h : (if _ then _ else _) = Except.ok instr := h
          split at h <;> cases h
          rfl

theorem Tree.compiles_flow {keyword : FlowKeyword} {tree : Tree} {code : List Char}
    (hFlow : tree.IsFlow keyword code) (hLine : '\n' ∉ code) (hTrim : trim code = code)
    (hLines : tree.directives = ['$' :: code])
    (hWord : ∀ {within instrs}, tree.instrs within = some instrs →
      firstWord (code ++ ['\n']) = some keyword.word.toList) : tree.Compiles := by
  intro within instrs hInstrs number
  obtain ⟨instr, hInstr, rfl⟩ := hFlow hInstrs number
  rw [hLines]
  refine ⟨_, readSuite_flow hLine hTrim (hWord hInstrs), ⟨_, [], rfl, rfl⟩, fun hRest => ?_⟩
  rw [List.cons_append, compileSuite, hInstr, asDirectives_flowInstr hInstr]
  cases instr <;> rfl

theorem Tree.compiles_returns {code : List Char} (hLine : IsLine code) :
    (Tree.returns code).Compiles := by
  refine Tree.compiles_flow (Tree.isFlow_returns code) hLine.oneLine hLine.trimmed rfl
    fun hInstrs => ?_
  obtain ⟨value, hRead, -⟩ := Option.bind_eq_some_iff.1 hInstrs
  exact (isLogical_of_readReturn hLine (ok_of_toOption hRead)).2.2 []

theorem Tree.compiles_conditional {header : List Char} {deeper : Nat} {suite : Suite}
    {rest : Clauses} (hLine : IsHeaderLine header) (hLines : suite.HasLines)
    (hSuite : suite.Compiles) (hMore : rest.HasLines) (hRest : rest.Compiles) :
    (Tree.conditional header deeper suite rest).Compiles := by
  intro within instrs hInstrs number
  obtain ⟨test, hTest, hInstrs⟩ := Option.bind_eq_some_iff.1 hInstrs
  obtain ⟨body, hBody, hInstrs⟩ := Option.bind_eq_some_iff.1 hInstrs
  obtain ⟨others, hOthers, hPair⟩ := Option.bind_eq_some_iff.1 hInstrs
  cases hPair
  have hTest := ok_of_toOption hTest
  have hHeader : IsHeader BlockKeyword.ifBranch.word header := isHeader_of_readAfter hLine hTest
  obtain ⟨inner, sections, hRead, hInner, hCompiled⟩ := readSuite_compound number
    hHeader hLine.oneLine hLines hSuite hBody (Clauses.areDirectives hMore) (hRest hOthers)
  refine ⟨_, hRead, ⟨_, sections, rfl, rfl⟩, fun {out after} hAfter => ?_⟩
  rw [List.cons_append, compileSuite, hTest, Surroundings.enter_zero, hInner]
  exact hCompiled hAfter

/-- A loop: its header, its body and its `else`. -/
theorem Tree.compiles_loop (overItems : Bool) {tree : Tree} {header : List Char} {suite : Suite}
    {otherwise : Otherwise} (hLine : IsHeaderLine header) (hLines : suite.HasLines)
    (hSuite : suite.Compiles) (hMore : otherwise.HasLines) (hOtherwise : otherwise.Compiles)
    (hDirectives : tree.directives =
      headerDirective header :: nested indentStep suite.directives ++ otherwise.directives)
    (h : ∀ {within instrs}, tree.instrs within = some instrs →
      IsHeader (if overItems then "for" else "while") header ∧ ∃ body else_ instr,
        suite.instrs within.looping = some body ∧ otherwise.instrs within = some else_ ∧
        instrs = [instr] ∧ ∀ number, loopInstr overItems header (asDirectives body)
          (markOption true .template else_) number = .ok (instr.mark true .template)) :
    tree.Compiles := by
  intro within instrs hInstrs number
  obtain ⟨hHeader, body, else_, instr, hBody, hElse, rfl, hInstr⟩ := h hInstrs
  rw [hDirectives]
  cases overItems with
  | true =>
      have hHeader : IsHeader BlockKeyword.forLoop.word header := hHeader
      obtain ⟨inner, sections, hRead, hInner, hCompiled⟩ := readSuite_compound number
        hHeader hLine.oneLine hLines hSuite hBody (Otherwise.areDirectives hMore) (hOtherwise hElse)
      refine ⟨_, hRead, ⟨_, sections, rfl, rfl⟩, fun {out after} hAfter => ?_⟩
      rw [List.cons_append, compileSuite, Surroundings.enter_zero, hInner]
      exact hCompiled (hInstr number) hAfter
  | false =>
      have hHeader : IsHeader BlockKeyword.whileLoop.word header := hHeader
      obtain ⟨inner, sections, hRead, hInner, hCompiled⟩ := readSuite_compound number
        hHeader hLine.oneLine hLines hSuite hBody (Otherwise.areDirectives hMore) (hOtherwise hElse)
      refine ⟨_, hRead, ⟨_, sections, rfl, rfl⟩, fun {out after} hAfter => ?_⟩
      rw [List.cons_append, compileSuite, Surroundings.enter_zero, hInner]
      exact hCompiled (hInstr number) hAfter

theorem Tree.compiles_forLoop {header : List Char} {deeper : Nat} {suite : Suite}
    {otherwise : Otherwise} (hLine : IsHeaderLine header) (hLines : suite.HasLines)
    (hSuite : suite.Compiles) (hMore : otherwise.HasLines) (hOtherwise : otherwise.Compiles) :
    (Tree.forLoop header deeper suite otherwise).Compiles := by
  refine Tree.compiles_loop true hLine hLines hSuite hMore hOtherwise rfl fun hInstrs => ?_
  obtain ⟨read, hRead, hInstrs⟩ := Option.bind_eq_some_iff.1 hInstrs
  obtain ⟨body, hBody, hInstrs⟩ := Option.bind_eq_some_iff.1 hInstrs
  obtain ⟨else_, hElse, hPair⟩ := Option.bind_eq_some_iff.1 hInstrs
  cases hPair
  have hRead := ok_of_toOption hRead
  refine ⟨isHeader_of_readForHeader hLine hRead, body, else_, _, hBody, hElse, rfl,
    fun number => ?_⟩
  rw [loopInstr, if_pos rfl, hRead]
  rfl

theorem Tree.compiles_whileLoop {header : List Char} {deeper : Nat} {suite : Suite}
    {otherwise : Otherwise} (hLine : IsHeaderLine header) (hLines : suite.HasLines)
    (hSuite : suite.Compiles) (hMore : otherwise.HasLines) (hOtherwise : otherwise.Compiles) :
    (Tree.whileLoop header deeper suite otherwise).Compiles := by
  refine Tree.compiles_loop false hLine hLines hSuite hMore hOtherwise rfl fun hInstrs => ?_
  obtain ⟨test, hTest, hInstrs⟩ := Option.bind_eq_some_iff.1 hInstrs
  obtain ⟨body, hBody, hInstrs⟩ := Option.bind_eq_some_iff.1 hInstrs
  obtain ⟨else_, hElse, hPair⟩ := Option.bind_eq_some_iff.1 hInstrs
  cases hPair
  have hTest := ok_of_toOption hTest
  refine ⟨isHeader_of_readAfter hLine hTest, body, else_, _, hBody, hElse, rfl, fun number => ?_⟩
  rw [loopInstr, if_neg Bool.false_ne_true, hTest]
  rfl

theorem Tree.compiles_define {header : List Char} {deeper : Nat} {suite : Suite}
    (hLine : IsHeaderLine header) (hLines : suite.HasLines) (hSuite : suite.Compiles) :
    (Tree.define header deeper suite).Compiles := by
  intro within instrs hInstrs number
  obtain ⟨read, hRead, hInstrs⟩ := Option.bind_eq_some_iff.1 hInstrs
  obtain ⟨body, hBody, hPair⟩ := Option.bind_eq_some_iff.1 hInstrs
  cases hPair
  have hRead := ok_of_toOption hRead
  have hHeader : IsHeader BlockKeyword.definition.word header :=
    isHeader_of_readDefinitionHeader hLine hRead
  have hNone (number : Nat) : ∃ sections, readSuite (written []) number = .ok sections ∧
      sections = [] := ⟨[], by rw [written, List.flatMap_nil, readSuite], rfl⟩
  obtain ⟨inner, sections, hSections, hInner, rfl⟩ := readSuite_compound number
    hHeader hLine.oneLine hLines hSuite hBody areDirectives_nil hNone
  rw [List.append_nil] at hSections
  refine ⟨_, hSections, ⟨_, [], rfl, rfl⟩, fun {out after} hAfter => ?_⟩
  rw [List.cons_append, compileSuite, hRead, Surroundings.enter_zero, hInner]
  rfl

theorem Suite.compiles_more {tree : Tree} {suite : Suite} (hTree : tree.Compiles)
    (hLines : suite.HasLines) (hSuite : suite.Compiles) : (Suite.more tree suite).Compiles := by
  intro within instrs hInstrs number
  obtain ⟨first, hFirst, hInstrs⟩ := Option.bind_eq_some_iff.1 hInstrs
  obtain ⟨rest, hRest, hPair⟩ := Option.bind_eq_some_iff.1 hInstrs
  cases hPair
  obtain ⟨sections, hSections, hAdds⟩ := hTree hFirst number
  obtain ⟨more, hMore, hAddsMore⟩ := hSuite hRest (number + countNewlines (written tree.directives))
  refine ⟨sections ++ more, ?_, hAdds.append hAddsMore⟩
  rw [Suite.directives, written_append,
    readSuite_append (endsLine_written _) (Suite.areDirectives hLines).startsOutside, hSections,
    hMore]
  rfl

mutual

theorem Tree.compiles : ∀ {tree : Tree}, tree.HasLines → tree.Compiles
  | .simple _, h => Tree.compiles_simple h
  | .pass, _ =>
      Tree.compiles_flow Tree.isFlow_pass (by decide) (by decide) rfl fun _ => by decide
  | .breakLoop, _ =>
      Tree.compiles_flow Tree.isFlow_breakLoop (by decide) (by decide) rfl fun _ => by decide
  | .continueLoop, _ =>
      Tree.compiles_flow Tree.isFlow_continueLoop (by decide) (by decide) rfl fun _ => by decide
  | .returns _, h => Tree.compiles_returns h
  | .conditional .., h =>
      Tree.compiles_conditional h.1 h.2.1 (Suite.compiles h.2.1) h.2.2 (Clauses.compiles h.2.2)
  | .forLoop .., h =>
      Tree.compiles_forLoop h.1 h.2.1 (Suite.compiles h.2.1) h.2.2 (Otherwise.compiles h.2.2)
  | .whileLoop .., h =>
      Tree.compiles_whileLoop h.1 h.2.1 (Suite.compiles h.2.1) h.2.2 (Otherwise.compiles h.2.2)
  | .define .., h => Tree.compiles_define h.1 h.2 (Suite.compiles h.2)

/-- Statements that are written as directives are read into sections for their instructions. -/
theorem Suite.compiles : ∀ {suite : Suite}, suite.HasLines → suite.Compiles
  | .one _, h => Tree.compiles h
  | .more .., h => Suite.compiles_more (Tree.compiles h.1) h.2 (Suite.compiles h.2)

theorem Clauses.compiles : ∀ {clauses : Clauses}, clauses.HasLines → clauses.Compiles
  | .last _, h => Clauses.compiles_last (Otherwise.compiles h)
  | .elif .., h =>
      Clauses.compiles_elif h.1 h.2.1 (Suite.compiles h.2.1) h.2.2 (Clauses.compiles h.2.2)

theorem Otherwise.compiles : ∀ {otherwise : Otherwise}, otherwise.HasLines → otherwise.Compiles
  | .nothing, _ => Otherwise.compiles_nothing
  | .body .., h => Otherwise.compiles_body h (Suite.compiles h)

end

/-! ## Code blocks -/

mutual

/-- A code block marks no loop as tracked and no definition as a template. -/
theorem Tree.mark_instrs : ∀ {tree : Tree} {within : Surroundings} {instrs : List Instr},
    tree.instrs within = some instrs → markAll false .procedure instrs = instrs
  | .simple _, _, _, h => by
      obtain ⟨statement, -, hPair⟩ := Option.bind_eq_some_iff.1 h
      cases hPair
      rfl
  | .pass, _, _, h => by
      cases h
      rfl
  | .breakLoop, _, _, h => by
      cases (Option.ite_none_right_eq_some.1 h).2
      rfl
  | .continueLoop, _, _, h => by
      cases (Option.ite_none_right_eq_some.1 h).2
      rfl
  | .returns _, _, _, h => by
      obtain ⟨value, -, h⟩ := Option.bind_eq_some_iff.1 h
      cases (Option.ite_none_left_eq_some.1 h).2
      rfl
  | .conditional .., _, _, h => by
      obtain ⟨test, -, h⟩ := Option.bind_eq_some_iff.1 h
      obtain ⟨body, hBody, h⟩ := Option.bind_eq_some_iff.1 h
      obtain ⟨others, hOthers, hPair⟩ := Option.bind_eq_some_iff.1 h
      cases hPair
      obtain ⟨hBranches, hOtherwise⟩ := Clauses.mark_instrs hOthers
      simp only [markAll, mark, markBranches]
      rw [hBranches, hOtherwise, Suite.mark_instrs hBody]
  | .forLoop .., _, _, h => by
      obtain ⟨read, -, h⟩ := Option.bind_eq_some_iff.1 h
      obtain ⟨body, hBody, h⟩ := Option.bind_eq_some_iff.1 h
      obtain ⟨otherwise, hOtherwise, hPair⟩ := Option.bind_eq_some_iff.1 h
      cases hPair
      simp only [markAll, mark]
      rw [Suite.mark_instrs hBody, Otherwise.mark_instrs hOtherwise]
  | .whileLoop .., _, _, h => by
      obtain ⟨test, -, h⟩ := Option.bind_eq_some_iff.1 h
      obtain ⟨body, hBody, h⟩ := Option.bind_eq_some_iff.1 h
      obtain ⟨otherwise, hOtherwise, hPair⟩ := Option.bind_eq_some_iff.1 h
      cases hPair
      simp only [markAll, mark]
      rw [Suite.mark_instrs hBody, Otherwise.mark_instrs hOtherwise]
  | .define .., _, _, h => by
      obtain ⟨read, -, h⟩ := Option.bind_eq_some_iff.1 h
      obtain ⟨body, hBody, hPair⟩ := Option.bind_eq_some_iff.1 h
      cases hPair
      simp only [markAll, mark]
      rw [Suite.mark_instrs hBody]

theorem Suite.mark_instrs : ∀ {suite : Suite} {within : Surroundings} {instrs : List Instr},
    suite.instrs within = some instrs → markAll false .procedure instrs = instrs
  | .one _, _, _, h => Tree.mark_instrs h
  | .more .., _, _, h => by
      obtain ⟨first, hFirst, h⟩ := Option.bind_eq_some_iff.1 h
      obtain ⟨rest, hRest, hPair⟩ := Option.bind_eq_some_iff.1 h
      cases hPair
      rw [markAll_append, Tree.mark_instrs hFirst, Suite.mark_instrs hRest]

theorem Clauses.mark_instrs : ∀ {clauses : Clauses} {within : Surroundings}
    {branches : List (Expr × List Instr)} {otherwise : Option (List Instr)},
    clauses.instrs within = some (branches, otherwise) →
      markBranches false .procedure branches = branches ∧
        markOption false .procedure otherwise = otherwise
  | .last _, _, _, _, h => by
      obtain ⟨otherwise, hOtherwise, hPair⟩ := Option.bind_eq_some_iff.1 h
      cases hPair
      exact ⟨rfl, Otherwise.mark_instrs hOtherwise⟩
  | .elif .., _, _, _, h => by
      obtain ⟨test, -, h⟩ := Option.bind_eq_some_iff.1 h
      obtain ⟨body, hBody, h⟩ := Option.bind_eq_some_iff.1 h
      obtain ⟨others, hOthers, hPair⟩ := Option.bind_eq_some_iff.1 h
      cases hPair
      obtain ⟨hBranches, hOtherwise⟩ := Clauses.mark_instrs hOthers
      rw [markBranches, hBranches, Suite.mark_instrs hBody]
      exact ⟨rfl, hOtherwise⟩

theorem Otherwise.mark_instrs : ∀ {otherwise : Otherwise} {within : Surroundings}
    {body : Option (List Instr)}, otherwise.instrs within = some body →
      markOption false .procedure body = body
  | .nothing, _, _, h => by
      cases h
      rfl
  | .body .., _, _, h => by
      obtain ⟨body, hBody, rfl⟩ := Option.map_eq_some_iff.1 h
      rw [markOption, Suite.mark_instrs hBody]

end

theorem pads_map (lines : List TreeLine) : Pads lines (lines.map TreeLine.text) := by
  induction lines with
  | nil => exact .nil
  | cons line rest ih => exact .line line.1 line.2 ih

theorem IsLogical.textLine {text : List Char} (h : IsLogical text) : IsTextLine text := by
  obtain ⟨c, rest, rfl, -, hBlank⟩ := h.head_not_blank
  refine ⟨h.oneLine, ?_⟩
  rw [allBlank, List.all_cons, hBlank, Bool.false_and]

theorem IsLogical.getLast {text : List Char} (h : IsLogical text) :
    text.getLast? ≠ some '\r' := by
  intro hLast
  have hBlank := (trim_eq_self_iff.1 h.trimmed).2 '\r' hLast
  cases hBlank

/-- The first statement of a block is indented as the block is. -/
theorem Suite.exists_first {suite : Suite} (h : suite.HasLines) {instrs : List Instr}
    (hInstrs : suite.instrs within = some instrs) (indent : Nat) :
    ∃ code others, suite.lines indent = (indent, code) :: others := by
  let lines : List LogicalLine := (suite.lines indent).map fun line => ⟨line.1, line.2, 0⟩
  have hLines : lines.map LogicalLine.entry = suite.lines indent := by
    rw [List.map_map]
    exact List.map_id _
  obtain ⟨first, others, hFirst, hIndent, -⟩ :=
    Suite.reads h hInstrs [] _ hLines (by simp) (Nat.le_refl _)
  subst hIndent
  exact ⟨first.text, others.map LogicalLine.entry, by rw [← hLines, hFirst]; rfl⟩

/-- A code block for statements is read as one section, and gives their instructions. -/
theorem Suite.compiles_code {suite : Suite} (h : suite.HasLines) {instrs : List Instr}
    (hInstrs : suite.instrs within = some instrs) (deeper number : Nat) :
    ∃ sections, readSuite (suite.codeText deeper) number = .ok sections ∧
      compileSuite within .nothing [] sections = .ok (asCode instrs) := by
  have hLogical : ∀ line ∈ suite.lines 0, IsLogical line.2 := Suite.isLogical_lines h hInstrs
  have hLines : ∀ line ∈ suite.codeLines, IsTextLine line ∧ line.getLast? ≠ some '\r' := by
    intro line hLine
    obtain ⟨entry, hEntry, rfl⟩ := List.mem_map.1 hLine
    have hEntry := hLogical entry hEntry
    refine ⟨hEntry.textLine.replicate entry.1, ?_⟩
    have hLast := hEntry.getLast
    obtain ⟨c, rest, hText, -⟩ := hEntry.starts
    rw [hText, List.getLast?_eq_some_getLast (List.cons_ne_nil c rest)] at hLast
    rwa [TreeLine.text, List.getLast?_append, hText,
      List.getLast?_eq_some_getLast (List.cons_ne_nil c rest), Option.some_or]
  obtain ⟨code, others, hFirst⟩ := Suite.exists_first h hInstrs 0
  have hCode : suite.codeLines = code :: others.map TreeLine.text := by
    rw [Suite.codeLines, hFirst]
    rfl
  have hSpace : code.head? ≠ some ' ' := by
    have hStart := hLogical (0, code) (hFirst ▸ List.mem_cons_self)
    intro hSpace
    have hBlank := (trim_eq_self_iff.1 hStart.trimmed).1 ' ' hSpace
    cases hBlank
  refine ⟨[.code (number + 1) (written suite.codeLines)], ?_, ?_⟩
  · rw [Suite.codeText, hCode]
    exact readSuite_code (Nat.succ_ne_zero deeper)
      (fun line hLine => (hLines line (hCode ▸ hLine)).1) hSpace
  · have hPads : Pads (suite.lines 0) (Text.lines (written suite.codeLines)) := by
      rw [lines_written fun line hLine => ⟨(hLines line hLine).1.oneLine, (hLines line hLine).2⟩]
      exact pads_map _
    rw [compileSuite, compile_pads h hInstrs hPads, asCode, Suite.mark_instrs hInstrs]
    show compileSuite within .nothing (instrs.reverse ++ []) [] = _
    rw [compileSuite, List.append_nil]
    show Except.ok _ = _
    rw [List.reverse_reverse]

/-! ## Whole templates -/

/-- A keyword is no name of a definition. -/
theorem readDefinitionHeader_with {more : List Char}
    (hMore : ∀ c ∈ more.head?, continuesName c = false) {read : String × List Parameter} :
    readDefinitionHeader ("def with".toList ++ more) ≠ .ok read := by
  intro hRead
  have hName : nameLength ("with".toList ++ more) = 4 := by
    have hNone : more.takeWhile continuesName = [] := by
      cases more with
      | nil => rfl
      | cons c rest => exact List.takeWhile_cons_of_neg (Bool.eq_false_iff.1 (hMore c rfl))
    rw [nameLength, List.takeWhile_append_of_pos (List.all_eq_true.1 rfl), hNone]
    rfl
  have hDef : lexeme .strict ('d' :: ("ef with".toList ++ more)) = some (.name, 3) := rfl
  have hBlank : lexeme .strict (' ' :: ("with".toList ++ more)) = some (.blank, 1) := rfl
  have hWith : lexeme .strict ('w' :: ("ith".toList ++ more)) = some (.name, 4) :=
    congrArg (fun length => some (TokenKind.name, length)) hName
  cases hTokens : strictTokens ("def with".toList ++ more) with
  | error fault =>
      rw [readDefinitionHeader, Reader.run, hTokens] at hRead
      cases hRead
  | ok tokens =>
      have hScan := scanFrom_of_strictTokens hTokens
      rw [readDefinitionHeader, Reader.run_eq_ok hTokens] at hRead
      replace hScan : scanFrom .strict 0 ('d' :: ("ef with".toList ++ more)) = ⟨tokens, none⟩ :=
        hScan
      rw [scanFrom, hDef] at hScan
      replace hScan : Scan.mk (⟨.name, "def".toList, 0⟩ ::
          (scanFrom .strict 3 (' ' :: ("with".toList ++ more))).tokens)
          (scanFrom .strict 3 (' ' :: ("with".toList ++ more))).openQuote = ⟨tokens, none⟩ := hScan
      rw [scanFrom, hBlank] at hScan
      replace hScan : Scan.mk (⟨.name, "def".toList, 0⟩ :: ⟨.blank, [' '], 3⟩ ::
          (scanFrom .strict 4 ('w' :: ("ith".toList ++ more))).tokens)
          (scanFrom .strict 4 ('w' :: ("ith".toList ++ more))).openQuote = ⟨tokens, none⟩ := hScan
      rw [scanFrom, hWith, Scan.mk.injEq] at hScan
      obtain ⟨rfl, -⟩ := hScan
      cases hRead

/-- A text that starts with a sigil declares no parameters, unless the words of a declaration stand
behind it. -/
theorem declaration?_eq_none {after : List Char}
    (h : ∀ rest, after = "def with".toList ++ rest → ∃ c ∈ rest.head?, continuesName c = true) :
    declaration? ('$' :: after) = none := by
  unfold declaration?
  simp only
  split
  · rename_i hPrefix
    obtain ⟨rest, hRest⟩ := List.isPrefixOf_iff_prefix.1 hPrefix
    obtain ⟨c, hc, hName⟩ := h rest (List.cons.inj hRest).2.symm
    have hDrop : ('$' :: after).drop "$def with".toList.length = rest := by
      rw [← hRest, List.drop_left]
    rw [hDrop]
    cases rest with
    | nil => cases hc
    | cons d more =>
        cases hc
        exact if_pos hName
  · rfl

theorem declaration?_of_head {after : List Char} (h : after.head? ≠ some 'd') :
    declaration? ('$' :: after) = none :=
  declaration?_eq_none fun _ hRest => absurd (hRest ▸ rfl) h

theorem declaration?_line {code : List Char} {c : Char} (hCode : code.head? = some c) (hc : c ≠ 'd')
    (lines : List (List Char)) (more : List Char) :
    declaration? (written (('$' :: code) :: lines) ++ more) = none := by
  obtain ⟨rest, rfl⟩ := List.head?_eq_some_iff.1 hCode
  rw [written_cons, List.cons_append, List.cons_append]
  exact declaration?_of_head fun hHead => hc (Option.some.inj hHead)

/-- A text starts with the first letter of its first word. -/
theorem head?_of_firstWord {text word : List Char} (h : firstWord text = some word) :
    text.head? = word.head? := by
  unfold firstWord LogicalLine.word? at h
  cases text with
  | nil => cases h
  | cons c rest =>
      rw [firstToken?] at h
      cases hLexeme : lexeme .lenient (c :: rest) with
      | none =>
          rw [hLexeme] at h
          cases h
      | some found =>
          rw [hLexeme] at h
          obtain ⟨-, hText⟩ := Option.ite_none_right_eq_some.1 h
          rw [← Option.some.inj hText]
          rfl

/-- A definition is no declaration, since the word of a declaration is no name. -/
theorem declaration?_define {header : List Char} {read : String × List Parameter}
    (hRead : readDefinitionHeader header = .ok read) (lines : List (List Char)) (more : List Char) :
    declaration? (written (headerDirective header :: lines) ++ more) = none := by
  have hText : written (headerDirective header :: lines) ++ more =
      '$' :: (header ++ ':' :: ('\n' :: written lines ++ more)) := by
    rw [written_cons, headerDirective]
    simp
  rw [hText]
  refine declaration?_eq_none fun rest hRest => ?_
  have hPrefix : "def with".toList.isPrefixOf header = true := by
    rw [← isPrefixOf_append_stop ('\n' :: written lines ++ more)
      (show ':' ∉ "def with".toList by decide) header, hRest]
    exact List.isPrefixOf_iff_prefix.2 (List.prefix_append ..)
  obtain ⟨behind, rfl⟩ := List.isPrefixOf_iff_prefix.1 hPrefix
  rw [List.append_assoc, List.append_cancel_left_eq] at hRest
  subst hRest
  cases behind with
  | nil => exact absurd hRead (readDefinitionHeader_with (by simp))
  | cons c others =>
      refine ⟨c, rfl, ?_⟩
      cases hName : continuesName c with
      | true => rfl
      | false =>
          refine absurd hRead (readDefinitionHeader_with ?_)
          rintro _ ⟨⟩
          exact hName

/-- A statement that is written as directives declares no parameters. -/
theorem Tree.declaration?_directives {tree : Tree} (h : tree.HasLines) {instrs : List Instr}
    (hInstrs : tree.instrs within = some instrs) (more : List Char) :
    declaration? (written tree.directives ++ more) = none := by
  cases tree with
  | simple code => exact declaration?_line rfl (by decide) [] more
  | pass => exact declaration?_line rfl (by decide) [] more
  | breakLoop => exact declaration?_line rfl (by decide) [] more
  | continueLoop => exact declaration?_line rfl (by decide) [] more
  | returns code =>
      obtain ⟨value, hRead, -⟩ := Option.bind_eq_some_iff.1 hInstrs
      have hWord := (isLogical_of_readReturn h (ok_of_toOption hRead)).2.1
      exact declaration?_line (head?_of_firstWord hWord) (by decide) [] more
  | conditional header deeper body rest =>
      obtain ⟨test, hRead, -⟩ := Option.bind_eq_some_iff.1 hInstrs
      have hHeader := isHeader_of_readAfter h.1 (ok_of_toOption hRead)
      exact declaration?_line (head?_of_firstWord (hHeader.word [])) (by decide) _ more
  | forLoop header deeper body otherwise =>
      obtain ⟨read, hRead, -⟩ := Option.bind_eq_some_iff.1 hInstrs
      have hHeader := isHeader_of_readForHeader h.1 (ok_of_toOption hRead)
      exact declaration?_line (head?_of_firstWord (hHeader.word [])) (by decide) _ more
  | whileLoop header deeper body otherwise =>
      obtain ⟨test, hRead, -⟩ := Option.bind_eq_some_iff.1 hInstrs
      have hHeader := isHeader_of_readAfter h.1 (ok_of_toOption hRead)
      exact declaration?_line (head?_of_firstWord (hHeader.word [])) (by decide) _ more
  | define header deeper body =>
      obtain ⟨read, hRead, -⟩ := Option.bind_eq_some_iff.1 hInstrs
      exact declaration?_define (ok_of_toOption hRead) _ more

theorem Suite.declaration?_directives : ∀ {suite : Suite}, suite.HasLines → ∀ {instrs : List Instr},
    suite.instrs within = some instrs → declaration? suite.directiveText = none
  | .one first, h, _, hInstrs => by
      have hNone := Tree.declaration?_directives h hInstrs []
      rwa [List.append_nil] at hNone
  | .more first rest, h, _, hInstrs => by
      obtain ⟨instrs, hFirst, -⟩ := Option.bind_eq_some_iff.1 hInstrs
      rw [Suite.directiveText, Suite.directives, written_append]
      exact Tree.declaration?_directives h.1 hFirst _

/-- A template without a declaration is what its sections give. -/
theorem read_of_sections {text : List Char} (hText : declaration? text = none)
    {sections : List Section} (hRead : readSuite text 1 = .ok sections) {instrs : List Instr}
    (hCompile : compileSuite .outside .nothing [] sections = .ok instrs) :
    Program.read text = .ok ⟨[], instrs⟩ := by
  have hDocument : Document.read text = .ok ⟨none, sections⟩ := by
    rw [Document.read, hText, hRead]
    rfl
  rw [Program.read_eq, hDocument]
  show (compileSuite .outside .nothing [] sections >>= _) = _
  rw [hCompile]
  rfl

/-- Statements that are written as directives and the same statements in a code block give the same
instructions, up to the marks of each form. They do so wherever the sections stand, and as templates
of their own. -/
theorem front_ends_agree {suite : Suite} (h : suite.HasLines) (deeper : Nat) :
    (∀ (within : Surroundings) (number : Nat) (instrs : List Instr),
      suite.instrs within = some instrs →
        (∃ sections, readSuite suite.directiveText number = .ok sections ∧
          compileSuite within .nothing [] sections = .ok (asDirectives instrs)) ∧
        (∃ sections, readSuite (suite.codeText deeper) number = .ok sections ∧
          compileSuite within .nothing [] sections = .ok (asCode instrs))) ∧
    (∀ instrs : List Instr, suite.instrs .outside = some instrs →
      Program.read suite.directiveText = .ok ⟨[], asDirectives instrs⟩ ∧
      Program.read (suite.codeText deeper) = .ok ⟨[], asCode instrs⟩) := by
  have hForms (within : Surroundings) (number : Nat) (instrs : List Instr)
      (hInstrs : suite.instrs within = some instrs) :
      (∃ sections, readSuite suite.directiveText number = .ok sections ∧
        compileSuite within .nothing [] sections = .ok (asDirectives instrs)) ∧
      (∃ sections, readSuite (suite.codeText deeper) number = .ok sections ∧
        compileSuite within .nothing [] sections = .ok (asCode instrs)) := by
    obtain ⟨sections, hRead, hAdds⟩ := Suite.compiles h hInstrs number
    exact ⟨⟨sections, hRead, hAdds.whole⟩, Suite.compiles_code h hInstrs deeper number⟩
  refine ⟨hForms, fun instrs hInstrs => ?_⟩
  obtain ⟨⟨sections, hRead, hCompile⟩, code, hCode, hCompileCode⟩ :=
    hForms .outside 1 instrs hInstrs
  constructor
  · exact read_of_sections (Suite.declaration?_directives h hInstrs) hRead hCompile
  · refine read_of_sections ?_ hCode hCompileCode
    have hNone : declaration? (written (('$' :: "code:".toList) ::
        nested (deeper + 1) suite.codeLines) ++ []) = none := declaration?_line rfl (by decide) _ []
    rwa [List.append_nil] at hNone

/-- A definition and a loop with an `else`. -/
def sampleForms : Suite :=
  .more (.define "def f(x)".toList 1 (.one (.returns "return x".toList)))
    (.one (.forLoop "for y in f(2)".toList 0
      (.more (.simple "z = y  # found".toList) (.one .breakLoop))
      (.body 2 (.one .pass))))

theorem sampleForms_agree : sampleForms.HasLines ∧
    ∃ instrs, sampleForms.instrs .outside = some instrs ∧
      Program.read sampleForms.directiveText = .ok ⟨[], asDirectives instrs⟩ ∧
      Program.read (sampleForms.codeText 1) = .ok ⟨[], asCode instrs⟩ := by
  have hLines : sampleForms.HasLines :=
    ⟨⟨(by decide +kernel : IsHeaderLine "def f(x)".toList),
      (by decide +kernel : IsLine "return x".toList)⟩,
      (by decide +kernel : IsHeaderLine "for y in f(2)".toList),
      ⟨(by decide +kernel : IsLine "z = y  # found".toList), trivial⟩, trivial⟩
  have hSome : (sampleForms.instrs .outside).isSome = true := by decide +kernel
  obtain ⟨instrs, hInstrs⟩ := Option.isSome_iff_exists.1 hSome
  exact ⟨hLines, instrs, hInstrs, (front_ends_agree hLines 1).2 instrs hInstrs⟩

end CodeBlock

end Stencil
