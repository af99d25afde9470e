import Stencil.Proofs.Comments.Entries
import Stencil.Proofs.Sections.Steps

/-!
# Comments

A comment at the end of a line is not seen in what a template renders. It is read to a newline, in
the place of the one that it takes with it. So a line of text is compiled to the same instructions,
at any depth and also where it is the body of a block on the line of its header. An output variable
is different: the newline is gone when its text is read, and a comment is a newline more.

The comment must not close a quote that the line leaves open, since the literal is then code. In a
code block the text of the line is code, and a comment behind a sigil is none there.

## Main results

* `Remarked.readSuite`: the sections of a text are the same but for the comment in one of them.
* `Noted.compileSuite`: behind a line of text, a comment changes no instruction.
* `RowsNoted.execute`: behind a text of an output variable, it is a newline more in the value.
* `comment_noted`: the same for whole templates.
-/

namespace Stencil

open Stencil.Text

/-! ## Sections -/

/-- Where a comment stands: behind a line of text, in a code block, or behind a text that an output
variable is set to. -/
inductive CommentPlace where
  | line
  | code
  | fragment
  deriving DecidableEq, Repr

/-- The other sections are the same but for the comment at this place, in one of them. -/
inductive Noted : CommentPlace → List Section → List Section → Prop
  | line {number : Nat} {pieces others : List Piece} (stands : DoFor others pieces)
      (rest : List Section) :
      Noted .line (.line ⟨number, pieces⟩ :: rest) (.line ⟨number, others⟩ :: rest)
  | code (number : Nat) (text other : List Char) (rest : List Section) :
      Noted .code (.code number text :: rest) (.code number other :: rest)
  | fragment {content other : Section} (noted : VarNoted content other) (rest : List Section) :
      Noted .fragment (content :: rest) (other :: rest)
  | inside {place : CommentPlace} {number indent : Nat} {keyword : BlockKeyword}
      {header : List Char} {body other : List Section} (below : Noted place body other)
      (rest : List Section) :
      Noted place (.block number keyword header indent body :: rest)
        (.block number keyword header indent other :: rest)
  | later {place : CommentPlace} {rest other : List Section} (first : Section)
      (below : Noted place rest other) : Noted place (first :: rest) (first :: other)

section Suites

variable {remark text other : List Char} {number next : Nat}

theorem readSuite_nested {start indent bodyLine : Nat} {keyword : BlockKeyword}
    {header body rest : List Char} (hText : text ≠ [])
    (h : readEntry text number =
      .ok (.block start keyword header indent bodyLine body, next, rest)) :
    readSuite text number = (do
      let suite ← readSuite body bodyLine
      let sections ← readSuite rest next
      return .block start keyword header indent suite :: sections) := by
  obtain ⟨c, others, rfl⟩ := List.exists_cons_of_ne_nil hText
  rw [readSuite, h]

/-- A comment in a text is in one of its sections. -/
theorem Remarked.readSuite (h : Remarked remark text other) {suite : List Section}
    (hRead : readSuite text number = .ok suite) :
    ∃ place found, Stencil.readSuite other number = .ok found ∧ Noted place suite found := by
  induction text, number using readSuite.induct generalizing other suite with
  | case1 number => exact absurd rfl h.ne_nil.1
  | case2 number c others fault hEntry =>
      rw [Stencil.readSuite, hEntry] at hRead
      cases hRead
  | case3 number c others content next rest hEntry ih =>
      rw [readSuite_whole h.ne_nil.1 hEntry] at hRead
      obtain ⟨sections, hSections, rfl⟩ := exists_of_map_eq_ok hRead
      obtain ⟨found, behind, hFound, hNoted⟩ := h.readsNoted hEntry
      rcases hNoted with ⟨rfl, hBehind⟩ | ⟨rfl, hNoted⟩
      · obtain ⟨place, more, hMore, hNoted⟩ := ih hBehind hSections
        rw [readSuite_whole h.ne_nil.2 hFound, hMore]
        exact ⟨place, content :: more, rfl, .later content hNoted⟩
      · cases hNoted with
        | line stands =>
            rw [readSuite_whole h.ne_nil.2 hFound, hSections]
            exact ⟨.line, _, rfl, .line stands sections⟩
        | code below =>
            rw [readSuite_whole h.ne_nil.2 hFound, hSections]
            exact ⟨.code, _, rfl, .code _ _ _ sections⟩
        | fragment noted =>
            rw [readSuite_whole h.ne_nil.2 hFound, hSections]
            exact ⟨.fragment, _, rfl, .fragment noted sections⟩
  | case4 number c others start keyword header indent bodyLine body next rest hEntry ih ih' =>
      rw [readSuite_nested h.ne_nil.1 hEntry] at hRead
      obtain ⟨inner, hInner, hRead⟩ := exists_of_bind_eq_ok hRead
      obtain ⟨sections, hSections, hRead⟩ := exists_of_bind_eq_ok hRead
      cases hRead
      obtain ⟨found, behind, hFound, hNoted⟩ := h.readsNoted hEntry
      rcases hNoted with ⟨rfl, hBehind⟩ | ⟨rfl, hNoted⟩
      · obtain ⟨place, more, hMore, hNoted⟩ := ih' hBehind hSections
        rw [readSuite_nested h.ne_nil.2 hFound, hInner, hMore]
        exact ⟨place, _, rfl, .later _ hNoted⟩
      · cases hNoted with
        | body below =>
            obtain ⟨place, more, hMore, hNoted⟩ := ih below hInner
            rw [readSuite_nested h.ne_nil.2 hFound, hMore, hSections]
            exact ⟨place, _, rfl, .inside hNoted sections⟩

end Suites

/-! ## Instructions -/

section Granting

variable {ε α β : Type}

theorem Grants.refl (action : Except ε α) : Grants action action := fun _ h => h

theorem Grants.bind {action other : Except ε α} {next next' : α → Except ε β}
    (h : Grants action other) (hNext : ∀ value, Grants (next value) (next' value)) :
    Grants (action >>= next) (other >>= next') := by
  intro result hResult
  obtain ⟨value, hValue, hRest⟩ := exists_of_bind_eq_ok hResult
  rw [h value hValue]
  exact hNext value result hRest

theorem Grants.then {action : Except ε α} {next next' : α → Except ε β}
    (h : ∀ value, Grants (next value) (next' value)) :
    Grants (action >>= next) (action >>= next') :=
  (Grants.refl action).bind h

end Granting

theorem grants_compileBlock {body other : List Section}
    (h : ∀ within, Grants (compileSuite within .nothing [] body)
      (compileSuite within .nothing [] other))
    (within : Surroundings) (state : Compiling) (line : Nat) (keyword : BlockKeyword)
    (header : List Char) (indent : Nat) :
    Grants (compileBlock within state line keyword header indent body)
      (compileBlock within state line keyword header indent other) := by
  have hBody (within : Surroundings) {β : Type} (next : List Instr → Except CompileFault β) :
      Grants (compileSuite within .nothing [] body >>= next)
        (compileSuite within .nothing [] other >>= next) :=
    (h within).bind fun _ => .refl _
  obtain ⟨open_, out⟩ := state
  cases keyword with
  | elifBranch =>
      cases open_ with
      | branches done => exact .then fun _ => hBody _ _
      | nothing => exact .refl _
      | loop overItems header body line => exact .refl _
  | elseBranch =>
      cases open_ with
      | branches done => exact .then fun _ => hBody _ _
      | nothing => exact .refl _
      | loop overItems header body line => exact .then fun _ => hBody _ _
  | ifBranch => exact .then fun _ => .then fun _ => hBody _ _
  | forLoop => exact .then fun _ => hBody _ _
  | whileLoop => exact .then fun _ => hBody _ _
  | definition => exact .then fun _ => .then fun _ => hBody _ _

/-- A comment behind a line of text changes no instruction. -/
theorem Noted.compileSuite {suite other : List Section} (h : Noted .line suite other)
    (within : Surroundings) (open_ : OpenBlock) (out : Emitted) :
    Grants (compileSuite within open_ out suite) (compileSuite within open_ out other) := by
  generalize hPlace : CommentPlace.line = place at h
  induction h generalizing within open_ out with
  | @line number pieces others stands rest =>
      rw [compileSuite_cons, compileSuite_cons]
      refine Grants.bind (.then fun closed => Grants.bind ?_ fun _ => .refl _) fun _ => .refl _
      exact stands number _
  | code => cases hPlace
  | fragment => cases hPlace
  | @inside place number indent keyword header body other below rest ih =>
      rw [compileSuite_cons, compileSuite_cons]
      refine Grants.bind ?_ fun _ => .refl _
      exact grants_compileBlock (fun within => ih within .nothing [] hPlace) within (open_, out)
        number keyword header indent
  | @later place rest other first below ih =>
      rw [compileSuite_cons, compileSuite_cons]
      exact .then fun state => ih within state.1 state.2 hPlace

/-! ## Output variables -/

/-- A comment in a line of a fragment: the fragment is compiled like the one with a newline more in
it, or like the fragment as it was where the line has a comment before. -/
theorem RowsNoted.exists_ended {rows others : List TextLine} (h : RowsNoted rows others) :
    ∃ ended front newline back, rows.flatMap TextLine.pieces = front ++ back ∧
      ended.flatMap TextLine.pieces = front ++ newline ++ back ∧
      (newline = [] ∨ newline = [.text ['\n']]) ∧
      ∀ out, Grants (compileLines out ended) (compileLines out others) := by
  induction h with
  | @here number pieces others stands after rest =>
      obtain ⟨newline, hEq, hNewline⟩ := withNewline_eq pieces
      refine ⟨⟨number, pieces ++ newline ++ after⟩ :: rest, pieces, newline,
        after ++ rest.flatMap TextLine.pieces, ?_, ?_, hNewline, fun out => ?_⟩
      · rw [List.flatMap_cons, List.append_assoc]
      · rw [List.flatMap_cons, List.append_assoc (pieces ++ newline)]
      · refine Grants.bind ?_ fun _ => .refl _
        show Grants (compilePieces number _ (pieces ++ newline ++ after))
          (compilePieces number _ (others ++ after))
        rw [← hEq, compilePieces_append, compilePieces_append]
        exact (stands number _).bind fun _ => .refl _
  | later row below ih =>
      obtain ⟨ended, front, newline, back, hRows, hEnded, hNewline, hGrants⟩ := ih
      refine ⟨row :: ended, row.pieces ++ front, newline, back, ?_, ?_, hNewline, fun out => ?_⟩
      · rw [List.flatMap_cons, hRows, List.append_assoc]
      · rw [List.flatMap_cons, hEnded, List.append_assoc row.pieces, List.append_assoc row.pieces]
      · exact .then fun next => hGrants next

/-- With a comment behind a line of its text, an output variable is set to the same texts with a
newline more between them, unless the line has a comment before. -/
theorem RowsNoted.execute {rows others : List TextLine} (h : RowsNoted rows others)
    {within : Surroundings} {out after : Emitted} {number : Nat} {name : String}
    (hName : name ≠ bodyName)
    (hCompile : compileSimple within out (.varFragment number name rows) = .ok after) :
    ∃ front newline back instr, rows.flatMap TextLine.pieces = front ++ back ∧
      (newline = [] ∨ newline = [.text ['\n']]) ∧
      compileSimple within out (.varFragment number name others) = .ok (instr :: out) ∧
      ∀ services scene rendered, execute services scene rendered instr = do
        let texts ← renderPieces services scene .empty (front ++ newline ++ back)
        let text ← Run.settle (.ofString (String.join texts))
        return (.normal, rendered.set name text) := by
  obtain ⟨ended, front, newline, back, hRows, hEnded, hNewline, hGrants⟩ := h.exists_ended
  obtain ⟨body, hBody, -⟩ := exists_of_map_eq_ok hCompile
  have hAll := exists_compileLines_iff.1 ⟨body, hBody⟩
  rw [hRows, List.forall_mem_append] at hAll
  have hMore : ∀ piece ∈ newline, piece.Compiles := by
    rcases hNewline with rfl | rfl <;> simp [Piece.Compiles]
  obtain ⟨found, hFound⟩ : ∃ found, compileLines [] ended = .ok found := by
    refine exists_compileLines_iff.2 ?_
    rw [hEnded, List.forall_mem_append, List.forall_mem_append]
    exact ⟨⟨hAll.1, hMore⟩, hAll.2⟩
  have hOthers : compileLines [] others = compileLines [] ended :=
    (hGrants [] found hFound).trans hFound.symm
  have hSame : compileSimple within out (.varFragment number name others) =
      compileSimple within out (.varFragment number name ended) := by
    rw [compileSimple, compileSimple, hOthers]
  have hEndedCompiles : compileSimple within out (.varFragment number name ended) =
      .ok (.setFragment name found.reverse :: out) := by
    rw [compileSimple, hFound]
    rfl
  obtain ⟨instr, hInstr, hExecute⟩ := execute_fragment hName hEndedCompiles
  rw [hEnded] at hExecute
  refine ⟨front, newline, back, instr, hRows, hNewline, ?_, hExecute⟩
  rw [hSame, hEndedCompiles, hInstr]

/-! ## Documents -/

/-- The words of a declaration, and what stands behind them. -/
theorem declaration?_append (more : List Char) {first : List Char}
    (hPrefix : "$def with".toList.isPrefixOf (first ++ more) =
      "$def with".toList.isPrefixOf first)
    (hMore : NoHead continuesName more) :
    declaration? (first ++ more) = (declaration? first).map (· ++ more) := by
  rw [declaration?, declaration?]
  simp only [hPrefix]
  split
  · rename_i hIs
    obtain ⟨rest, rfl⟩ := List.isPrefixOf_iff_prefix.1 hIs
    rw [List.append_assoc, List.drop_left, List.drop_left]
    cases rest with
    | nil =>
        cases more with
        | nil => rfl
        | cons c others =>
            simp only [List.nil_append, hMore c rfl, Bool.false_eq_true, if_false]
            rfl
    | cons c others =>
        simp only [List.cons_append]
        split <;> rfl
  · rfl

/-- What declares the parameters is told by the first line. -/
theorem declaration?_line (row rest : List Char) :
    declaration? (row ++ '\n' :: rest) = (declaration? row).map (· ++ '\n' :: rest) :=
  declaration?_append _ (isPrefixOf_append_stop rest (by decide) row) (.cons (by decide) rest)

theorem declaration?_withRemark {line : List Char} (hLine : line ≠ [])
    (h : declaration? line = none) (remark rest : List Char) :
    declaration? (withRemark line remark ++ '\n' :: rest) = none := by
  have hPrefix (more : List Char) : "$def with".toList.isPrefixOf (line ++ '$' :: more) =
      "$def with".toList.isPrefixOf line :=
    isPrefixOf_append_of_noHead hLine (by simp)
  rw [withRemark, List.append_assoc]
  exact (declaration?_append _ (hPrefix _) (.cons (by decide) _)).trans (by rw [h]; rfl)

theorem suffix_of_declaration? {text rest : List Char} (h : declaration? text = some rest) :
    rest <:+ text := by
  rw [declaration?] at h
  split at h
  · simp only at h
    split at h
    · split at h
      · cases h
      · cases h
        exact List.drop_suffix _ _
    · cases h
      exact List.drop_suffix _ _
  · cases h

/-- A document that declares no parameters. -/
theorem Document.read_of_none {text : List Char} (h : declaration? text = none) :
    Document.read text = (⟨none, ·⟩) <$> readSuite text 1 := by
  rw [Document.read, h]
  cases readSuite text 1 <;> rfl

/-- A document whose first line declares parameters. -/
theorem Document.read_of_some {row rest : List Char} (h : declaration? row = some rest)
    (hRow : '\n' ∉ row) (below : List Char) : Document.read (row ++ '\n' :: below) =
      (⟨some (trim (rest ++ ['\n'])), ·⟩) <$> readSuite below 2 := by
  have hRest : '\n' ∉ rest := fun hMem => hRow ((suffix_of_declaration? h).subset hMem)
  rw [Document.read, declaration?_line, h]
  simp only [Option.map_some, splitLine_append_newline hRest]
  cases readSuite below 2 <;> rfl

variable {rows : List (List Char)} {line remark after : List Char}

theorem remarked_written (hRows : ∀ row ∈ rows, '\n' ∉ row) (takes : TakesComment line remark)
    (after : List Char) : Remarked remark (written rows ++ (line ++ '\n' :: after))
      (written rows ++ (withRemark line remark ++ '\n' :: after)) := by
  induction rows with
  | nil => exact .here takes after
  | cons row rest ih =>
      obtain ⟨hRow, hRest⟩ := List.forall_mem_cons.1 hRows
      rw [written_cons, List.append_assoc, List.append_assoc]
      exact .later hRow (ih hRest)

/-- The parameters of a template are the same. -/
theorem Noted.ofDocument {suite other : List Section} (h : Noted .line suite other)
    (parameters : Option (List Char)) :
    Grants (Program.ofDocument ⟨parameters, suite⟩) (Program.ofDocument ⟨parameters, other⟩) := by
  cases parameters <;> exact .then fun _ => (h.compileSuite _ _ _).bind fun _ => .refl _

/-- The sections below the declaration of the parameters, with a comment in one of them. -/
theorem Remarked.document {text other below below' : List Char} {number : Nat}
    {parameters : Option (List Char)} {document : Document} (h : Remarked remark below below')
    (hText : Document.read text = (⟨parameters, ·⟩) <$> Stencil.readSuite below number)
    (hOther : Document.read other = (⟨parameters, ·⟩) <$> Stencil.readSuite below' number)
    (hRead : Document.read text = .ok document) :
    ∃ place body, Noted place document.body body ∧
      Document.read other = .ok { document with body := body } ∧
      (place = .line → Grants (Program.read text) (Program.read other)) := by
  have hDocument := hRead
  rw [hText] at hRead
  obtain ⟨suite, hSuite, rfl⟩ := exists_of_map_eq_ok hRead
  obtain ⟨place, body, hBody, hNoted⟩ := h.readSuite hSuite
  have hFound : Document.read other = .ok ⟨parameters, body⟩ := by
    rw [hOther, hBody]
    rfl
  refine ⟨place, body, hNoted, hFound, ?_⟩
  rintro rfl
  rw [Program.read_eq, Program.read_eq, hDocument, hFound]
  exact hNoted.ofDocument parameters

/-- A comment behind a line that takes text, anywhere in a template: the template is read to the
same sections but for the comment. Behind a line of text it changes no instruction, so the program
is the same. -/
theorem comment_noted (hRows : ∀ row ∈ rows, '\n' ∉ row) (takes : TakesComment line remark)
    (hFirst : rows = [] → declaration? line = none) {document : Document}
    (hRead : Document.read (written rows ++ (line ++ '\n' :: after)) = .ok document) :
    ∃ place body, Noted place document.body body ∧
      Document.read (written rows ++ (withRemark line remark ++ '\n' :: after)) =
        .ok { document with body := body } ∧
      (place = .line → Grants (Program.read (written rows ++ (line ++ '\n' :: after)))
        (Program.read (written rows ++ (withRemark line remark ++ '\n' :: after)))) := by
  cases rows with
  | nil =>
      have hNone := hFirst rfl
      have hSome : line ≠ [] := by
        rintro rfl
        cases takes.notBlank
      have hText : declaration? (line ++ '\n' :: after) = none := by
        rw [declaration?_line, hNone]
        rfl
      exact (Remarked.here takes after).document (Document.read_of_none hText)
        (Document.read_of_none (declaration?_withRemark hSome hNone remark after)) hRead
  | cons row rest =>
      obtain ⟨hRow, hRest⟩ := List.forall_mem_cons.1 hRows
      have hBelow := remarked_written hRest takes after
      simp only [written_cons, List.append_assoc, List.cons_append] at hRead ⊢
      cases hDeclared : declaration? row with
      | none =>
          have hNone (below : List Char) : declaration? (row ++ '\n' :: below) = none := by
            rw [declaration?_line, hDeclared]
            rfl
          exact (Remarked.later hRow hBelow).document (Document.read_of_none (hNone _))
            (Document.read_of_none (hNone _)) hRead
      | some parameters =>
          exact hBelow.document (Document.read_of_some hDeclared hRow _)
            (Document.read_of_some hDeclared hRow _) hRead

example : TakesComment "Hi $name".toList " it's".toList where
  takesText := .line fun _ h => nomatch h
  notBlank := by decide
  oneLine := by decide
  remarkLine := by decide
  apart := by simp [isQuote]
  noBackslash := by decide
  noReturn := by decide

end Stencil
