import Stencil.Proofs.Numbering.Sections
import Stencil.Proofs.Numbering.Statements
import Stencil.Proofs.Ensuring
import Stencil.Proofs.Sections.Steps

/-!
# The numbers of lines

The numbers that sections and faults carry are lines of the source, at every depth. A section holds
what stands on the line of its number. A text that is no template is refused on the line of the
section that is wrong; in a code block, on the line that the wrong statement starts on.

Whether a section is wrong depends on where it stands: a `$break` on the loops around it, a clause
on the construct before it. `Comes` says that compiling comes to a section at all, with what is
around it and what has been compiled before it, and a section is blamed for a fault only there.

Only blank lines are not told as they are. Inside a block a blank line is empty, whatever blanks
there were in it: `blank_line_of_code_is_emptied` is about a code block with a blank line that goes
beyond the indentation of the block.

## Main results

* `compileSuite_fails`: what sections are refused for.
* `numbers_tell_lines`: the lines of sections and faults.
-/

namespace Stencil

open Stencil.Text

/-! ## What a section is refused for -/

/-- The expression of the piece can be read. -/
def Piece.Readable : Piece → Prop
  | .text _ => True
  | .expression code _ => ∃ value, Expr.read code = .ok value

/-- An expression in the line cannot be read, and it is the first one. -/
def TextLine.Blames (content : TextLine) (fault : CompileFault) : Prop :=
  ∃ before code escape after cause, content.pieces = before ++ .expression code escape :: after ∧
    (∀ piece ∈ before, piece.Readable) ∧ Expr.read code = .error cause ∧
      fault = .code content.number (.expression code cause)

/-- May a block with this keyword stand behind the construct? A clause must go on with it. -/
def OpenBlock.Allows (open_ : OpenBlock) : BlockKeyword → Prop
  | .elifBranch => ∃ done, open_ = .branches done
  | .elseBranch => open_ ≠ .nothing
  | _ => True

/-- What a section is refused for, in itself or because of where it stands: what is around it, and
what has been compiled before it. -/
inductive Section.Blames (within : Surroundings) (state : Compiling) : Section → CompileFault → Prop
  | line {content : TextLine} {fault : CompileFault} : content.Blames fault →
      Blames within state (.line content) fault
  | fragment {number : Nat} {name : String} {before after : List TextLine} {content : TextLine}
      {fault : CompileFault} : (∀ line ∈ before, ∀ piece ∈ line.pieces, piece.Readable) →
      content.Blames fault →
      Blames within state (.varFragment number name (before ++ content :: after)) fault
  | value {number : Nat} {name : String} {code : List Char} {cause : SyntaxFault} :
      Expr.read code = .error cause →
      Blames within state (.varExpression number name code) (.code number (.malformed cause))
  | assignment {number : Nat} {code : List Char} {cause : SyntaxFault} : code ≠ [] →
      Statement.read code = .error cause →
      Blames within state (.assignment number code) (.code number (.malformed cause))
  | flow {number : Nat} {keyword : FlowKeyword} {code : List Char} {fault : CompileFault} :
      flowInstr within keyword code number = .error fault →
      Blames within state (.flow number keyword code) fault
  | header {number indent : Nat} {keyword : BlockKeyword} {header : List Char}
      {body : List Section} {cause : SyntaxFault} : state.1.Allows keyword →
      ¬ keyword.Readable header → keyword.Fails header cause →
      Blames within state (.block number keyword header indent body)
        (.code number (.malformed cause))
  /-- The header of a loop is read when its body has been compiled and nothing more belongs to the
  loop. -/
  | loopHeader {number indent : Nat} {keyword : BlockKeyword} {header : List Char}
      {body : List Section} {cause : SyntaxFault} {next : Compiling} :
      keyword = .forLoop ∨ keyword = .whileLoop →
      compileBlock within state number keyword header indent body = .ok next →
      keyword.Fails header cause →
      Blames within state (.block number keyword header indent body)
        (.code number (.malformed cause))
  | elseHeader {number indent : Nat} {header : List Char} {body : List Section} :
      state.1.Allows .elseBranch → trim header ≠ "else".toList →
      Blames within state (.block number .elseBranch header indent body)
        (.code number (.elseHeader header))
  /-- A clause continues no block. -/
  | clause {number indent : Nat} {keyword : BlockKeyword} {header : List Char}
      {body : List Section} : ¬ state.1.Allows keyword →
      Blames within state (.block number keyword header indent body)
        (.layout ⟨number, .strayClause keyword⟩)
  | code {number : Nat} {text : List Char} {fault : CompileFault} :
      CodeBlock.Blames within text number fault → Blames within state (.code number text) fault

/-- Is the construct before the section complete when the section is compiled? Only an `else` does
not wait for that. -/
def Section.Awaits (state : Compiling) : Section → Prop
  | .block _ .elseBranch _ _ _ => True
  | _ => ∃ out, state.1.close state.2 = .ok out

/-- Compiling sections comes to a section, with what is around it and what has been compiled before
it. What stands in between has been compiled. -/
inductive Comes (around : Surroundings) (found : Compiling) (s : Section) :
    Surroundings → Compiling → List Section → Prop
  | here {rest : List Section} : s.Awaits found → Comes around found s around found (s :: rest)
  | later {within : Surroundings} {state next : Compiling} {first : Section}
      {rest : List Section} : compileSection within state first = .ok next →
      Comes around found s within next rest → Comes around found s within state (first :: rest)
  | inside {within : Surroundings} {state : Compiling} {number indent : Nat}
      {keyword : BlockKeyword} {header : List Char} {body rest : List Section} :
      (Section.block number keyword header indent body).Awaits state →
      state.1.Allows keyword → keyword.Readable header →
      Comes around found s (keyword.around (within.enter indent)) (.nothing, []) body →
      Comes around found s within state (.block number keyword header indent body :: rest)

theorem Comes.mem {around within : Surroundings} {found state : Compiling} {s : Section}
    {sections : List Section} (h : Comes around found s within state sections) :
    s ∈ everySection sections := by
  induction h with
  | here => exact List.mem_append_left _ s.mem_within
  | later _ _ ih => exact List.mem_append_right _ ih
  | inside _ _ _ _ ih => exact List.mem_append_left _ (List.mem_cons_of_mem _ ih)

/-- Every fault of the computation satisfies `P`. -/
def Fails {ε α : Type} (P : ε → Prop) (action : Except ε α) : Prop :=
  ∀ cause, action = .error cause → P cause

namespace Fails

variable {ε α β : Type} {P Q : ε → Prop} {action other : Except ε α}

theorem mono (h : Fails P action) (hPQ : ∀ cause, P cause → Q cause) : Fails Q action :=
  fun cause hCause => hPQ cause (h cause hCause)

theorem ok (value : α) : Fails P (.ok value) := by
  intro cause h
  cases h

theorem error {cause : ε} (h : P cause) : Fails P (.error cause : Except ε α) := by
  rintro _ ⟨⟩
  exact h

theorem bind_of_ok {next : α → Except ε β} (h : Fails P action)
    (hNext : ∀ value, action = .ok value → Fails P (next value)) : Fails P (action >>= next) := by
  intro cause hCause
  rcases error_of_bind_eq_error hCause with hFirst | ⟨value, hValue, hSecond⟩
  · exact h cause hFirst
  · exact hNext value hValue cause hSecond

theorem bind {next : α → Except ε β} (h : Fails P action) (hNext : ∀ value, Fails P (next value)) :
    Fails P (action >>= next) :=
  h.bind_of_ok fun value _ => hNext value

theorem map {f : α → β} (h : Fails P action) : Fails P (f <$> action) := by
  intro cause hCause
  cases action with
  | error found =>
      cases hCause
      exact h _ rfl
  | ok value => cases hCause

theorem ite {c : Prop} [Decidable c] (h : c → Fails P action) (hOther : ¬ c → Fails P other) :
    Fails P (if c then action else other) := by
  split
  · exact h ‹_›
  · exact hOther ‹_›

section Lines

variable {P : CompileFault → Prop} {number : Nat} {result : Except SyntaxFault α}

theorem onLine (h : ∀ cause, result = .error cause → P (.code number (.malformed cause))) :
    Fails P (Stencil.onLine number result) := by
  cases result with
  | error cause => exact .error (h cause rfl)
  | ok value => exact .ok value

theorem onLine_bind {next : α → Except CompileFault β}
    (h : ∀ cause, result = .error cause → P (.code number (.malformed cause)))
    (hNext : ∀ value, result = .ok value → Fails P (next value)) :
    Fails P (Stencil.onLine number result >>= next) := by
  cases result with
  | error cause => exact .error (h cause rfl)
  | ok value => exact hNext value rfl

theorem checkElse_bind {header : List Char} {next : Unit → Except CompileFault β}
    (h : trim header ≠ "else".toList → P (.code number (.elseHeader header)))
    (hNext : trim header = "else".toList → Fails P (next ())) :
    Fails P (checkElse header number >>= next) := by
  unfold checkElse
  split
  · exact hNext ‹_›
  · exact .error (h ‹_›)

end Lines

end Fails

/-- The header of an open loop is refused when the loop is closed. -/
def OpenBlock.Blames : OpenBlock → CompileFault → Prop
  | .loop overItems header _ number, fault => ∃ cause,
      (if overItems then BlockKeyword.forLoop else .whileLoop).Fails header cause ∧
        fault = .code number (.malformed cause)
  | _, _ => False

theorem loopInstr_fails (overItems : Bool) (header : List Char) (body : List Instr)
    (otherwise : Option (List Instr)) (number : Nat) :
    Fails (OpenBlock.loop overItems header body number).Blames
      (loopInstr overItems header body otherwise number) := by
  cases overItems with
  | true => exact (Fails.onLine fun cause hCause => ⟨cause, hCause, rfl⟩).bind fun _ => .ok _
  | false => exact (Fails.onLine fun cause hCause => ⟨cause, hCause, rfl⟩).bind fun _ => .ok _

theorem close_fails (open_ : OpenBlock) (out : Emitted) :
    Fails open_.Blames (open_.close out) := by
  cases open_ with
  | nothing => exact .ok _
  | branches done => exact .ok _
  | loop overItems header body number =>
      exact .map (loopInstr_fails overItems header body none number)

/-- The pieces before the first one that is refused can be read. -/
theorem TextLine.Blames.cons {number : Nat} {piece : Piece} {rest : List Piece}
    {fault : CompileFault} (hPiece : piece.Readable) (h : TextLine.Blames ⟨number, rest⟩ fault) :
    TextLine.Blames ⟨number, piece :: rest⟩ fault := by
  obtain ⟨before, code, escape, after, cause, hPieces, hBefore, hCause⟩ := h
  refine ⟨piece :: before, code, escape, after, cause, ?_, ?_, hCause⟩
  · exact congrArg (piece :: ·) hPieces
  · exact List.forall_mem_cons.2 ⟨hPiece, hBefore⟩

theorem compilePieces_fails (number : Nat) (out : Emitted) (pieces : List Piece) :
    Fails (TextLine.Blames ⟨number, pieces⟩) (compilePieces number out pieces) := by
  induction pieces generalizing out with
  | nil => exact .ok _
  | cons piece rest ih =>
      cases piece with
      | text content => exact (ih _).mono fun _ => .cons trivial
      | expression code escape =>
          rw [compilePieces]
          split
          · rename_i value hValue
            exact (ih _).mono fun _ => .cons ⟨value, hValue⟩
          · rename_i cause hCause
            exact .error ⟨[], code, escape, rest, cause, rfl, List.forall_mem_nil _, hCause, rfl⟩

theorem readable_of_compilePieces {number : Nat} {out after : Emitted} {pieces : List Piece}
    (h : compilePieces number out pieces = .ok after) : ∀ piece ∈ pieces, piece.Readable := by
  induction pieces generalizing out with
  | nil => exact nofun
  | cons piece rest ih =>
      cases piece with
      | text content => exact List.forall_mem_cons.2 ⟨trivial, ih h⟩
      | expression code escape =>
          rw [compilePieces] at h
          split at h
          · rename_i value hValue
            exact List.forall_mem_cons.2 ⟨⟨value, hValue⟩, ih h⟩
          · cases h

theorem compileLines_fails {within : Surroundings} {state : Compiling} {number : Nat}
    {name : String} (out : Emitted) (before lines : List TextLine)
    (hBefore : ∀ line ∈ before, ∀ piece ∈ line.pieces, piece.Readable) :
    Fails ((Section.varFragment number name (before ++ lines)).Blames within state)
      (compileLines out lines) := by
  induction lines generalizing out before with
  | nil => exact .ok _
  | cons line rest ih =>
      rw [compileLines]
      refine Fails.bind_of_ok ?_ fun more hMore => ?_
      · exact (compilePieces_fails line.number _ line.pieces).mono fun _ => .fragment hBefore
      · rw [← List.singleton_append, ← List.append_assoc]
        refine ih more (before ++ [line]) (List.forall_mem_append.2 ⟨hBefore, ?_⟩)
        exact List.forall_mem_singleton.2 (readable_of_compilePieces hMore)

/-- What sections are refused for: a construct before them that is still open, or a section that
compiling comes to. -/
def SuiteBlames (within : Surroundings) (state : Compiling) (sections : List Section)
    (fault : CompileFault) : Prop :=
  state.1.Blames fault ∨
    ∃ around found s, Comes around found s within state sections ∧ s.Blames around found fault

section Suites

variable {within : Surroundings} {state next : Compiling} {first : Section} {rest : List Section}
  {fault : CompileFault}

theorem SuiteBlames.here (hAwaits : first.Awaits state) (h : first.Blames within state fault) :
    SuiteBlames within state (first :: rest) fault :=
  Or.inr ⟨within, state, first, .here hAwaits, h⟩

theorem SuiteBlames.later (hStep : compileSection within state first = .ok next)
    (hNext : next.1.Blames fault → SuiteBlames within state (first :: rest) fault)
    (h : SuiteBlames within next rest fault) : SuiteBlames within state (first :: rest) fault := by
  rcases h with hOpen | ⟨around, found, s, hComes, hFault⟩
  · exact hNext hOpen
  · exact Or.inr ⟨around, found, s, .later hStep hComes, hFault⟩

theorem SuiteBlames.inside {number indent : Nat} {keyword : BlockKeyword} {header : List Char}
    {body : List Section} (hAwaits : (Section.block number keyword header indent body).Awaits state)
    (hAllows : state.1.Allows keyword) (hHeader : keyword.Readable header)
    (h : SuiteBlames (keyword.around (within.enter indent)) (.nothing, []) body fault) :
    SuiteBlames within state (.block number keyword header indent body :: rest) fault := by
  rcases h with hNone | ⟨around, found, s, hComes, hFault⟩
  · cases hNone
  · exact Or.inr ⟨around, found, s, .inside hAwaits hAllows hHeader hComes, hFault⟩

end Suites

/-- A section that is no block is refused for itself. -/
theorem compileSimple_fails (within : Surroundings) (state : Compiling) (out : Emitted)
    (first : Section) : Fails (first.Blames within state) (compileSimple within out first) := by
  cases first with
  | line content =>
      exact (compilePieces_fails content.number _ content.pieces).mono fun _ => .line
  | assignment line code =>
      refine .ite (fun _ => .ok out) fun hSome => .map (.onLine fun _ => .assignment ?_)
      rintro rfl
      exact hSome rfl
  | flow line keyword code =>
      exact .map fun _ => .flow
  | block line keyword header indent body => exact .ok out
  | code line text =>
      exact .map fun _ hFault => .code (CodeBlock.compile_blames hFault)
  | varExpression line name code =>
      exact .map (.onLine fun _ => .value)
  | varFragment number name lines => exact .map (compileLines_fails [] [] lines nofun)

section Blocks

variable {within : Surroundings} {state : Compiling} {line indent : Nat} {keyword : BlockKeyword}
  {header : List Char} {body rest : List Section}

/-- A clause that can be compiled is allowed there, and what is open before another block is
complete. -/
theorem awaits_of_compileBlock {next : Compiling}
    (h : compileBlock within state line keyword header indent body = .ok next) :
    (Section.block line keyword header indent body).Awaits state := by
  obtain ⟨open_, out⟩ := state
  cases keyword with
  | elifBranch =>
      cases open_ with
      | branches done => exact ⟨_, rfl⟩
      | _ =>
          obtain ⟨closed, -, hStray⟩ := exists_of_bind_eq_ok h
          cases hStray
  | elseBranch => exact trivial
  | _ =>
      obtain ⟨closed, hClosed, -⟩ := exists_of_bind_eq_ok h
      exact ⟨closed, hClosed⟩

/-- A block is refused because of the construct before it, for itself, or because of its body. -/
theorem compileBlock_fails (hBody : ∀ around,
      Fails (SuiteBlames around (.nothing, []) body) (compileSuite around .nothing [] body)) :
    Fails (SuiteBlames within state (.block line keyword header indent body :: rest))
      (compileBlock within state line keyword header indent body) := by
  obtain ⟨open_, out⟩ := state
  have hClose : Fails (SuiteBlames within (open_, out)
      (.block line keyword header indent body :: rest)) (open_.close out) :=
    (close_fails open_ out).mono fun _ => Or.inl
  have hInside (hAwaits : (Section.block line keyword header indent body).Awaits (open_, out))
      (hAllows : open_.Allows keyword) (hHeader : keyword.Readable header) :
      Fails (SuiteBlames within (open_, out) (.block line keyword header indent body :: rest))
        (compileSuite (keyword.around (within.enter indent)) .nothing [] body) :=
    (hBody _).mono fun _ => .inside hAwaits hAllows hHeader
  have hHeader {cause : SyntaxFault}
      (hAwaits : (Section.block line keyword header indent body).Awaits (open_, out))
      (hAllows : open_.Allows keyword) (hNot : ¬ keyword.Readable header)
      (h : keyword.Fails header cause) :
      SuiteBlames within (open_, out) (.block line keyword header indent body :: rest)
        (.code line (.malformed cause)) := .here hAwaits (.header hAllows hNot h)
  have hUnread {α : Type} {result : Except SyntaxFault α} {cause : SyntaxFault}
      (h : result = .error cause) : ¬ ∃ value, result = .ok value := by
    rintro ⟨value, hValue⟩
    rw [h] at hValue
    cases hValue
  cases keyword with
  | elifBranch =>
      cases open_ with
      | branches done =>
          have hAwaits : ∃ closed, OpenBlock.close out (.branches done) = .ok closed := ⟨_, rfl⟩
          have hAllows : (OpenBlock.branches done).Allows .elifBranch := ⟨done, rfl⟩
          refine .onLine_bind (fun _ hCause => ?_) fun test hTest => ?_
          · exact hHeader hAwaits hAllows (hUnread hCause) hCause
          · exact (hInside hAwaits hAllows ⟨test, hTest⟩).bind fun _ => .ok _
      | _ =>
          refine hClose.bind_of_ok fun closed hClosed => .error (.here ⟨closed, hClosed⟩ ?_)
          exact .clause nofun
  | elseBranch =>
      cases open_ with
      | nothing => exact .error (.here trivial (.clause fun hAllows => hAllows rfl))
      | branches done =>
          have hAllows : (OpenBlock.branches done).Allows .elseBranch := nofun
          refine .checkElse_bind (fun hOther => ?_) fun hSame => ?_
          · exact .here trivial (.elseHeader hAllows hOther)
          · exact (hInside trivial hAllows hSame).bind fun _ => .ok _
      | loop overItems loopHeader loopBody loopLine =>
          have hAllows : (OpenBlock.loop overItems loopHeader loopBody loopLine).Allows
            .elseBranch := nofun
          refine .checkElse_bind (fun hOther => ?_) fun hSame => ?_
          · exact .here trivial (.elseHeader hAllows hOther)
          · refine (hInside trivial hAllows hSame).bind fun inner => .bind ?_ fun _ => .ok _
            exact (loopInstr_fails overItems loopHeader loopBody (some inner) loopLine).mono
              fun _ => Or.inl
  | ifBranch =>
      refine hClose.bind_of_ok fun closed hClosed => ?_
      refine .onLine_bind (fun _ hCause => ?_) fun test hTest => ?_
      · exact hHeader ⟨closed, hClosed⟩ trivial (hUnread hCause) hCause
      · exact (hInside ⟨closed, hClosed⟩ trivial ⟨test, hTest⟩).bind fun _ => .ok _
  | forLoop =>
      refine hClose.bind_of_ok fun closed hClosed => ?_
      exact (hInside ⟨closed, hClosed⟩ trivial trivial).bind fun _ => .ok _
  | whileLoop =>
      refine hClose.bind_of_ok fun closed hClosed => ?_
      exact (hInside ⟨closed, hClosed⟩ trivial trivial).bind fun _ => .ok _
  | definition =>
      refine hClose.bind_of_ok fun closed hClosed => ?_
      refine .onLine_bind (fun _ hCause => ?_) fun read hRead => ?_
      · exact hHeader ⟨closed, hClosed⟩ trivial (hUnread hCause) hCause
      · exact (hInside ⟨closed, hClosed⟩ trivial ⟨read, hRead⟩).bind fun _ => .ok _

/-- Only a loop leaves something open that can be refused later, its header. -/
theorem ensures_compileBlock : Ensures (fun next : Compiling => ∀ fault, next.1.Blames fault →
      (keyword = .forLoop ∨ keyword = .whileLoop) ∧
        ∃ cause, keyword.Fails header cause ∧ fault = .code line (.malformed cause))
    (compileBlock within state line keyword header indent body) := by
  obtain ⟨open_, out⟩ := state
  cases keyword with
  | elifBranch =>
      cases open_ with
      | branches done => exact .andThen fun _ => .andThen fun _ => .pure fun _ => False.elim
      | _ => exact .andThen fun _ => .error _
  | elseBranch =>
      cases open_ with
      | nothing => exact .error _
      | branches done => exact .andThen fun _ => .andThen fun _ => .pure fun _ => False.elim
      | loop overItems loopHeader loopBody loopLine =>
          exact .andThen fun _ => .andThen fun _ => .andThen fun _ => .pure fun _ => False.elim
  | ifBranch =>
      exact .andThen fun _ => .andThen fun _ => .andThen fun _ => .pure fun _ => False.elim
  | forLoop =>
      exact .andThen fun _ => .andThen fun _ => .pure fun _ hBlames => ⟨Or.inl rfl, hBlames⟩
  | whileLoop =>
      exact .andThen fun _ => .andThen fun _ => .pure fun _ hBlames => ⟨Or.inr rfl, hBlames⟩
  | definition =>
      exact .andThen fun _ => .andThen fun _ => .andThen fun _ => .pure fun _ => False.elim

/-- What a block leaves open is blamed on the block. -/
theorem blames_of_compileBlock {next : Compiling} {fault : CompileFault}
    (h : compileBlock within state line keyword header indent body = .ok next)
    (hFault : next.1.Blames fault) :
    SuiteBlames within state (.block line keyword header indent body :: rest) fault := by
  obtain ⟨hLoop, cause, hCause, rfl⟩ := ensures_compileBlock next h fault hFault
  exact .here (awaits_of_compileBlock h) (.loopHeader hLoop h hCause)

end Blocks

/-- Sections are refused because of the construct before them or because of one of them. -/
theorem compileSuite_fails : ∀ (sections : List Section) (within : Surroundings)
    (open_ : OpenBlock) (out : Emitted),
    Fails (SuiteBlames within (open_, out) sections) (compileSuite within open_ out sections)
  | [], within, open_, out => by
      rw [compileSuite]
      exact ((close_fails open_ out).mono fun _ => Or.inl).bind fun _ => .ok _
  | first :: rest, within, open_, out => by
      have hRest {next : Compiling} (hStep : compileSection within (open_, out) first = .ok next)
          (hNext : ∀ fault, next.1.Blames fault →
            SuiteBlames within (open_, out) (first :: rest) fault) :
          Fails (SuiteBlames within (open_, out) (first :: rest))
            (compileSuite within next.1 next.2 rest) :=
        (compileSuite_fails rest within next.1 next.2).mono fun fault =>
          .later hStep (hNext fault)
      have hSimple (hBlock : compileSection within (open_, out) first = (do
            let out ← open_.close out
            let out ← compileSimple within out first
            return (.nothing, out)))
          (hAwaits : ∀ closed, open_.close out = .ok closed → first.Awaits (open_, out)) :
          Fails (SuiteBlames within (open_, out) (first :: rest))
            (compileSection within (open_, out) first >>= fun next =>
              compileSuite within next.1 next.2 rest) := by
        refine .bind_of_ok ?_ fun next hNext => hRest hNext ?_
        · rw [hBlock]
          refine ((close_fails open_ out).mono fun _ => Or.inl).bind_of_ok fun closed hClosed => ?_
          refine .bind ?_ fun _ => .ok _
          exact (compileSimple_fails within (open_, out) closed first).mono fun _ =>
            SuiteBlames.here (hAwaits closed hClosed)
        · rw [hBlock] at hNext
          obtain ⟨closed, -, hThen⟩ := exists_of_bind_eq_ok hNext
          obtain ⟨after, -, hLast⟩ := exists_of_bind_eq_ok hThen
          cases hLast
          exact fun _ => False.elim
      rw [compileSuite_cons]
      cases first with
      | block line keyword header indent body =>
          refine (compileBlock_fails fun around =>
            compileSuite_fails body around .nothing []).bind_of_ok fun next hNext => ?_
          exact hRest hNext fun _ => blames_of_compileBlock hNext
      | _ => exact hSimple rfl fun closed hClosed => ⟨closed, hClosed⟩

/-! ## Whole sources -/

/-- The word that a declaration starts with is followed by the rest of the source. -/
theorem append_of_declaration {source rest : List Char} (h : declaration? source = some rest) :
    "$def with".toList ++ rest = source := by
  unfold declaration? at h
  simp only at h
  split at h
  · rename_i hOpening
    have hWhole := List.prefix_iff_eq_append.1 (List.isPrefixOf_iff_prefix.1 hOpening)
    have hRest : source.drop "$def with".toList.length = rest := by
      split at h
      · split at h
        · cases h
        · exact Option.some.inj h
      · exact Option.some.inj h
    rw [← hRest]
    exact hWhole
  · cases h

theorem splitLine_of_declaration {source rest : List Char} (h : declaration? source = some rest) :
    splitLine source = ("$def with".toList ++ (splitLine rest).1, (splitLine rest).2) := by
  rw [← append_of_declaration h]
  exact splitLine_append_of_not_mem (by decide) rest

/-- How many lines of the source the declaration takes. -/
def declaredLines (source : List Char) : Nat := if (declaration? source).isSome then 1 else 0

/-- The source behind the declaration. -/
def undeclared (source : List Char) : List Char :=
  ((splitLines source).drop (declaredLines source)).flatten

/-- The sections of a document are read from what is behind the declaration. -/
theorem Document.read_eq (source : List Char) : ∃ parameters,
    (∀ text, parameters = some text → ∃ line, lineAt? source 1 = some line ∧ text <:+: line) ∧
      Document.read source = (do
        let sections ← readSuite (undeclared source) (1 + declaredLines source)
        return ⟨parameters, sections⟩) := by
  unfold Document.read undeclared declaredLines
  cases hDeclaration : declaration? source with
  | none =>
      refine ⟨none, by simp, ?_⟩
      have hSource : ((splitLines source).drop 0).flatten = source := flatten_splitLines source
      exact hSource.symm ▸ rfl
  | some rest =>
      have hLine := splitLine_of_declaration hDeclaration
      have hSome : source ≠ [] := by
        rintro rfl
        cases hDeclaration
      have hBody : ((splitLines source).drop 1).flatten = (splitLine rest).2 := by
        rw [drop_one_flatten, hLine]
      refine ⟨some (trim (splitLine rest).1), ?_, hBody.symm ▸ rfl⟩
      rintro _ ⟨⟩
      refine ⟨(splitLine source).1, ?_, ?_⟩
      · rw [lineAt?, splitLines_of_ne_nil hSome]
        rfl
      · rw [hLine]
        exact (infix_trim _).trans (List.suffix_append ..).isInfix

/-- What a source is refused for: the reader stops there, or the parameter list on the first line
cannot be read, or a section is refused. -/
inductive Blamed (source : List Char) : CompileFault → Prop
  | layout {fault : LayoutFault} : Stops (1 + declaredLines source) (undeclared source) fault →
      Blamed source (.layout fault)
  | parameters {text line : List Char} {cause : SyntaxFault} : lineAt? source 1 = some line →
      text <:+: line → readParameters text = .error cause →
      Blamed source (.code 1 (.malformed cause))
  | «section» {document : Document} {around : Surroundings} {found : Compiling} {s : Section}
      {fault : CompileFault} : Document.read source = .ok document →
      Comes around found s .outside (.nothing, []) document.body → s.StandsIn source →
      s.Blames around found fault → Blamed source fault

section Sources

variable {source : List Char} {fault : CompileFault}

theorem ComesTo.lineAt {number : Nat} {line : List Char} (h : ComesTo source number line) :
    ∃ original, lineAt? source number = some original := by
  obtain ⟨before, text, original, -, -, hOriginal, -⟩ := h
  exact ⟨original, hOriginal⟩

/-- The end of a line that the reader comes to has no other line. -/
theorem ComesTo.splitLines_suffix {number : Nat} {line text : List Char}
    (h : ComesTo source number line) (hText : text <:+ line) : splitLines text <+: [text] := by
  obtain ⟨before, whole, original, -, hHead, -⟩ := h
  obtain ⟨passed, rfl⟩ := hText
  by_cases hSome : text = []
  · subst hSome
    exact List.nil_prefix
  · have hLine : (splitLine whole).1 = passed ++ text := by
      rw [head?_splitLines] at hHead
      split at hHead
      · cases hHead
      · exact Option.some.inj hHead
    exact ⟨[], by rw [List.append_nil, Excerpt.splitLines_tail hLine hSome]⟩

/-- A fault that a section is blamed for is on a line of the source. -/
theorem Section.Blames.lineAt {s : Section} {within : Surroundings} {state : Compiling}
    (h : s.Blames within state fault) (hStands : s.StandsIn source) :
    ∃ original, lineAt? source fault.line = some original := by
  cases h with
  | line hLine =>
      obtain ⟨line, hComes, -⟩ := hStands
      obtain ⟨before, code, escape, after, cause, -, -, -, rfl⟩ := hLine
      exact hComes.lineAt
  | @fragment _ _ earlier later fragment _ _ hLine =>
      have hMem : fragment ∈ earlier ++ fragment :: later := List.mem_append_cons_self
      obtain ⟨line, content, hFinds, -, hFragment⟩ := hStands
      obtain ⟨before, code, escape, after, cause, -, -, -, rfl⟩ := hLine
      rcases hFragment with ⟨pieces, value, hSingle, -⟩ | hLines
      · rw [hSingle] at hMem
        rw [List.mem_singleton.1 hMem]
        exact hFinds.1.lineAt
      · obtain ⟨j, hLess, hGet⟩ := List.mem_iff_getElem.1 hMem
        obtain ⟨line, pieces, hComes, -, hSame⟩ :=
          hLines j _ (by rw [List.getElem?_eq_getElem hLess, hGet])
        rw [hSame]
        exact hComes.lineAt
  | value _ =>
      obtain ⟨line, content, hFinds, -⟩ := hStands
      exact hFinds.1.lineAt
  | assignment _ _ =>
      obtain ⟨line, content, hFinds, -⟩ := hStands
      exact hFinds.1.lineAt
  | flow hFlow =>
      obtain ⟨line, content, hFinds, -⟩ := hStands
      rw [CodeBlock.line_of_flowInstr hFlow]
      exact hFinds.1.lineAt
  | header _ _ _ =>
      obtain ⟨line, content, remainder, hFinds, -⟩ := hStands
      exact hFinds.1.lineAt
  | loopHeader _ _ _ =>
      obtain ⟨line, content, remainder, hFinds, -⟩ := hStands
      exact hFinds.1.lineAt
  | elseHeader _ _ =>
      obtain ⟨line, content, remainder, hFinds, -⟩ := hStands
      exact hFinds.1.lineAt
  | clause _ =>
      obtain ⟨line, content, remainder, hFinds, -⟩ := hStands
      exact hFinds.1.lineAt
  | @code number text _ hBlames =>
      obtain ⟨place, raw, hRaw, hNumber⟩ := hBlames.place
      rw [lines_eq, List.getElem?_map, Option.map_eq_some_iff] at hRaw
      obtain ⟨whole, hWhole, -⟩ := hRaw
      rw [hNumber]
      rcases hStands with ⟨line, hComes, hText⟩ | ⟨width, -, hLines⟩
      · have hPlace := (List.getElem?_eq_some_iff.1 hWhole).1
        have hOne := (hComes.splitLines_suffix hText).length_le
        rw [List.length_singleton] at hOne
        obtain rfl : place = 0 := by omega
        exact hComes.lineAt
      · obtain ⟨original, hOriginal, -⟩ := hLines place whole hWhole
        exact ⟨original, hOriginal⟩

theorem undeclared_excerpt (source : List Char) :
    Excerpt source (1 + declaredLines source) [] (undeclared source) :=
  Excerpt.whole.behind _

theorem Blamed.lineAt (h : Blamed source fault) :
    ∃ original, lineAt? source fault.line = some original := by
  cases h with
  | layout hStops =>
      obtain ⟨line, hComes⟩ := hStops.comesTo (undeclared_excerpt source)
      exact hComes.lineAt
  | parameters hLine _ _ => exact ⟨_, hLine⟩
  | «section» _ _ hStands hBlames => exact hBlames.lineAt hStands

theorem tiles_of_read {document : Document} (h : Document.read source = .ok document) :
    Tiles (1 + declaredLines source) (undeclared source) document.body := by
  obtain ⟨parameters, -, hRead⟩ := Document.read_eq source
  rw [hRead] at h
  obtain ⟨sections, hSections, hDocument⟩ := exists_of_bind_eq_ok h
  cases hDocument
  exact readSuite_tiles hSections

theorem stands_of_read {document : Document} (h : Document.read source = .ok document) :
    ∀ s ∈ everySection document.body, s.StandsIn source :=
  (tiles_of_read h).stands fun _ => ⟨[], undeclared_excerpt source⟩

theorem blamed_of_read (h : Program.read source = .error fault) : Blamed source fault := by
  obtain ⟨parameters, hParameters, hRead⟩ := Document.read_eq source
  rw [Program.read_eq] at h
  cases hDocument : Document.read source with
  | error cause =>
      rw [hDocument] at h
      cases h
      rw [hRead] at hDocument
      rcases error_of_bind_eq_error hDocument with hSuite | ⟨_, -, hNone⟩
      · exact .layout (readSuite_stops hSuite)
      · cases hNone
  | ok document =>
      rw [hDocument] at h
      have hBody (list : List Parameter)
          (h : (compileSuite .outside .nothing [] document.body >>= fun body =>
            (.ok ⟨list, body⟩ : Except CompileFault Program)) = .error fault) :
          Blamed source fault := by
        rcases error_of_bind_eq_error h with hSuite | ⟨_, -, hNone⟩
        · rcases compileSuite_fails _ _ _ _ fault hSuite with hOpen |
            ⟨around, found, s, hComes, hBlames⟩
          · cases hOpen
          · exact .section hDocument hComes (stands_of_read hDocument s hComes.mem) hBlames
        · cases hNone
      have hSame : document.parameters = parameters := by
        rw [hRead] at hDocument
        obtain ⟨sections, -, hSections⟩ := exists_of_bind_eq_ok hDocument
        cases hSections
        rfl
      change Program.ofDocument document = .error fault at h
      unfold Program.ofDocument at h
      cases hText : document.parameters with
      | none =>
          rw [hText] at h
          exact hBody [] h
      | some text =>
          rw [hText] at h
          rcases error_of_bind_eq_error h with hList | ⟨list, -, hRest⟩
          · obtain ⟨line, hLine, hInfix⟩ := hParameters text (hSame ▸ hText)
            cases hFailed : readParameters text with
            | error cause =>
                rw [hFailed] at hList
                cases hList
                exact .parameters hLine hInfix hFailed
            | ok list =>
                rw [hFailed] at hList
                cases hList
          · exact hBody list hRest

end Sources

/-- The sections of a document are read from lines of the source, one behind the other. Every one,
at every depth, holds what stands on the line of its number, and the lines of a code block are the
lines from its number on, without the indentation of the block; only a blank line of it is empty.
What a source is refused for stands on the line that the fault names. -/
theorem numbers_tell_lines (source : List Char) :
    (∀ document, Document.read source = .ok document →
      Tiles (1 + declaredLines source) (undeclared source) document.body ∧
        ∀ s ∈ everySection document.body, s.StandsIn source) ∧
    ∀ fault, Program.read source = .error fault →
      Blamed source fault ∧ ∃ original, lineAt? source fault.line = some original :=
  ⟨fun _ hRead => ⟨tiles_of_read hRead, stands_of_read hRead⟩,
    fun _ hFault => ⟨blamed_of_read hFault, (blamed_of_read hFault).lineAt⟩⟩

/-- A declaration, and a loop with a conditional on one line and a code block. -/
def deepSource : List Char :=
  "$def with (a)\n$for x in a:\n  $if x: hi $x\n  $code:\n    y = (x,\n      2)\n".toList

/-- A loop with a conditional on one line and a fragment whose second line ends inside a bracket. -/
def brokenSource : List Char :=
  "$for x in a:\n  $if x: hi $x\n  $var y:\n      first\n      $(second\nlast\n".toList

/-- The sections of the first source have its lines, and the second one is refused on the line of
the bracket. -/
theorem deepSource_lines :
    (∃ document, Document.read deepSource = .ok document ∧
      Tiles 2 (undeclared deepSource) document.body ∧
        ∀ s ∈ everySection document.body, s.StandsIn deepSource) ∧
    ∃ fault, Program.read brokenSource = .error fault ∧ Blamed brokenSource fault ∧
      fault.line = 5 ∧ lineAt? brokenSource 5 = some "      $(second\n".toList := by
  constructor
  · have hSome : (Document.read deepSource).toOption.isSome = true := by decide +kernel
    cases hRead : Document.read deepSource with
    | error fault =>
        rw [hRead] at hSome
        cases hSome
    | ok document => exact ⟨document, rfl, (numbers_tell_lines deepSource).1 document hRead⟩
  · have hFault : (match Document.read brokenSource with
        | .error fault => fault.line
        | .ok _ => 0) = 5 := by decide +kernel
    cases hRead : Document.read brokenSource with
    | error fault =>
        rw [hRead] at hFault
        have hProgram : Program.read brokenSource = .error (.layout fault) := by
          rw [Program.read_eq, hRead]
        obtain ⟨hBlamed, -⟩ := (numbers_tell_lines brokenSource).2 _ hProgram
        exact ⟨_, hProgram, hBlamed, hFault, by decide +kernel⟩
    | ok document =>
        rw [hRead] at hFault
        cases hFault

/-- A code block with a line of blanks between its statements. -/
def spacedCode : List Char := "$code:\n    x = 1\n          \n    y = 2\n".toList

/-- The blank line of the block is longer than the block is indented, and still nothing is left of
it: no indentation is what the lines of the block leave out of the lines of the source. -/
theorem blank_line_of_code_is_emptied : ∃ text,
    Document.read spacedCode = .ok ⟨none, [.code 2 text]⟩ ∧
      ¬ ∃ width, ∀ j line, (splitLines text)[j]? = some line →
        lineAt? spacedCode (2 + j) = some (List.replicate width ' ' ++ line) := by
  refine ⟨"x = 1\n\ny = 2\n".toList, by with_unfolding_all rfl, ?_⟩
  rintro ⟨width, hLines⟩
  have hFirst : some "    x = 1\n".toList = some (List.replicate width ' ' ++ "x = 1\n".toList) :=
    hLines 0 "x = 1\n".toList (by decide +kernel)
  have hSecond : some "          \n".toList = some (List.replicate width ' ' ++ "\n".toList) :=
    hLines 1 "\n".toList (by decide +kernel)
  have hShort := congrArg List.length (Option.some.inj hFirst)
  have hLong := congrArg List.length (Option.some.inj hSecond)
  rw [List.length_append, List.length_replicate] at hShort hLong
  have hFour : width = 4 := by
    have hText : "    x = 1\n".toList.length = 10 ∧ "x = 1\n".toList.length = 6 := by decide
    omega
  have hTen : width = 10 := by
    have hText : "          \n".toList.length = 11 ∧ "\n".toList.length = 1 := by decide
    omega
  omega

end Stencil
