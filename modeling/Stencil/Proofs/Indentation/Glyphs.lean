import Stencil.Proofs.Numbering.Sections
import Stencil.Proofs.Sections.Steps

/-!
# What sections are compiled to

What a step of compiling does to the instructions before it is nothing, as far as what they emit is
concerned: `glyphs` takes literal text apart into characters, so that it does not tell where one
text ends and the next one starts.

## Main results

* `compileSuite_append_line`: where a line of text stands among what its sections are compiled to.
* `compileSuite_block`: what the body of a block is compiled to is in an instruction.
-/

namespace Stencil

/-! ## What is emitted -/

/-- A character of literal text, or an instruction that is no text. -/
inductive Glyph where
  | char (c : Char)
  | step (instr : Instr)

/-- What an instruction is made of. -/
def Instr.glyphs : Instr → List Glyph
  | .text content => content.toList.map .char
  | other => [.step other]

/-- What instructions are made of, whichever way their literal text is cut. -/
def glyphs (instrs : List Instr) : List Glyph := instrs.flatMap Instr.glyphs

theorem glyphs_append (first second : List Instr) :
    glyphs (first ++ second) = glyphs first ++ glyphs second := List.flatMap_append

theorem glyphs_text (content : String) (rest : List Instr) :
    glyphs (.text content :: rest) = content.toList.map .char ++ glyphs rest := rfl

/-- Added text stands behind what was there. -/
theorem glyphs_addText (out : Emitted) (content : String) :
    glyphs (out.addText content).reverse = glyphs out.reverse ++ content.toList.map .char := by
  by_cases hEmpty : content = ""
  · subst hEmpty
    exact (List.append_nil _).symm
  by_cases hText : ∃ before rest, out = .text before :: rest
  · obtain ⟨before, rest, rfl⟩ := hText
    rw [Emitted.addText_text, List.reverse_cons, List.reverse_cons, glyphs_append, glyphs_append,
      List.append_assoc, glyphs_text, glyphs_text, String.toList_append, List.map_append]
    simp [glyphs]
  · have hOut : ∀ before rest, out ≠ .text before :: rest :=
      fun before rest hSame => hText ⟨before, rest, hSame⟩
    rw [Emitted.addText_other hEmpty hOut, List.reverse_cons, glyphs_append, glyphs_text]
    simp [glyphs]

/-- Pieces add the same, whatever is before them. -/
theorem glyphs_compilePieces {number : Nat} {out after : Emitted} {pieces : List Piece}
    (h : compilePieces number out pieces = .ok after) (other : Emitted) :
    ∃ otherAfter added, compilePieces number other pieces = .ok otherAfter ∧
      glyphs after.reverse = glyphs out.reverse ++ added ∧
      glyphs otherAfter.reverse = glyphs other.reverse ++ added := by
  induction pieces generalizing out other with
  | nil =>
      cases h
      exact ⟨other, [], rfl, (List.append_nil _).symm, (List.append_nil _).symm⟩
  | cons piece rest ih =>
      cases piece with
      | text content =>
          obtain ⟨otherAfter, added, hOther, hAfter, hOtherAfter⟩ :=
            ih h (other.addText (String.ofList content))
          rw [glyphs_addText, List.append_assoc] at hAfter hOtherAfter
          exact ⟨otherAfter, _, hOther, hAfter, hOtherAfter⟩
      | expression code escape =>
          rw [compilePieces] at h ⊢
          cases hRead : Expr.read code with
          | error cause =>
              rw [hRead] at h
              cases h
          | ok value =>
              rw [hRead] at h
              obtain ⟨otherAfter, added, hOther, hAfter, hOtherAfter⟩ :=
                ih h (.emit value escape :: other)
              rw [List.reverse_cons, glyphs_append, List.append_assoc] at hAfter hOtherAfter
              exact ⟨otherAfter, _, hOther, hAfter, hOtherAfter⟩

/-! ## Bodies -/

/-- The instruction lists in an instruction that runs them. -/
def Instr.bodies : Instr → List (List Instr)
  | .branch branches otherwise => branches.map Prod.snd ++ otherwise.toList
  | .forLoop _ _ body otherwise _ => body :: otherwise.toList
  | .whileLoop _ body otherwise => body :: otherwise.toList
  | .define _ _ _ body => [body]
  | _ => []

/-- The instruction lists in an open construct. -/
def OpenBlock.bodies : OpenBlock → List (List Instr)
  | .nothing => []
  | .branches done => done.map Prod.snd
  | .loop _ _ body _ => [body]

/-- The list is in the open construct or in an instruction. -/
def Compiling.Holds (state : Compiling) (body : List Instr) : Prop :=
  body ∈ state.1.bodies ∨ ∃ instr ∈ state.2, body ∈ instr.bodies

/-- Nothing that was there is lost: neither what is emitted nor a body. -/
structure Grows (before after : Compiling) : Prop where
  glyphs : ∃ more, glyphs after.2.reverse = glyphs before.2.reverse ++ more
  bodies : ∀ body, before.Holds body → after.Holds body

section Growing

variable {within : Surroundings} {open_ : OpenBlock} {out out' : Emitted} {instr : Instr}
  {state state' last : Compiling}

theorem Grows.refl (state : Compiling) : Grows state state :=
  ⟨⟨[], (List.append_nil _).symm⟩, fun _ => id⟩

theorem Grows.trans (h : Grows state state') (hNext : Grows state' last) : Grows state last := by
  obtain ⟨first, hFirst⟩ := h.glyphs
  obtain ⟨second, hSecond⟩ := hNext.glyphs
  refine ⟨⟨first ++ second, ?_⟩, fun body hBody => hNext.bodies body (h.bodies body hBody)⟩
  rw [hSecond, hFirst, List.append_assoc]

/-- Instructions are added, and the open construct is one of them or stays. -/
theorem Grows.add {next : OpenBlock} (added : List Instr)
    (hOpen : ∀ body ∈ open_.bodies, body ∈ next.bodies ∨ ∃ instr ∈ added, body ∈ instr.bodies) :
    Grows (open_, out) (next, added ++ out) := by
  constructor
  · exact ⟨Stencil.glyphs added.reverse, by rw [List.reverse_append, glyphs_append]⟩
  · rintro body (hBody | ⟨instr, hMem, hBody⟩)
    · rcases hOpen body hBody with hNext | ⟨instr, hMem, hInstr⟩
      · exact Or.inl hNext
      · exact Or.inr ⟨instr, List.mem_append_left _ hMem, hInstr⟩
    · exact Or.inr ⟨instr, List.mem_append_right _ hMem, hBody⟩

theorem bodies_loopInstr {overItems : Bool} {header : List Char} {body : List Instr}
    {otherwise : Option (List Instr)} {line : Nat}
    (h : loopInstr overItems header body otherwise line = .ok instr) :
    instr.bodies = body :: otherwise.toList := by
  cases overItems with
  | true =>
      obtain ⟨read, -, hInstr⟩ := exists_of_bind_eq_ok h
      cases hInstr
      rfl
  | false =>
      obtain ⟨test, -, hInstr⟩ := exists_of_bind_eq_ok h
      cases hInstr
      rfl

theorem exists_of_map_eq_ok {ε α β : Type} {action : Except ε α} {f : α → β} {result : β}
    (h : f <$> action = .ok result) : ∃ value, action = .ok value ∧ f value = result := by
  cases action with
  | error cause => cases h
  | ok value => exact ⟨value, rfl, Except.ok.inj h⟩

theorem grows_close (h : open_.close out = .ok out') : Grows (open_, out) (.nothing, out') := by
  cases open_ with
  | nothing =>
      cases h
      exact .refl _
  | branches done =>
      cases h
      exact .add [.branch done none] fun body hBody =>
        Or.inr ⟨_, List.mem_singleton_self _, List.mem_append_left _ hBody⟩
  | loop overItems header body line =>
      obtain ⟨instr, hInstr, rfl⟩ := exists_of_map_eq_ok h
      refine .add [instr] fun inner hInner => Or.inr ⟨instr, List.mem_singleton_self _, ?_⟩
      rw [bodies_loopInstr hInstr, List.mem_singleton.1 hInner]
      exact List.mem_cons_self

theorem grows_addText (content : String) :
    Grows (.nothing, out) (.nothing, out.addText content) := by
  refine ⟨⟨_, glyphs_addText out content⟩, ?_⟩
  rintro body (hNone | ⟨instr, hMem, hBody⟩)
  · cases hNone
  · refine Or.inr ⟨instr, ?_, hBody⟩
    unfold Emitted.addText
    split
    · exact hMem
    · split
      · rcases List.mem_cons.1 hMem with rfl | hRest
        · cases hBody
        · exact List.mem_cons_of_mem _ hRest
      · exact List.mem_cons_of_mem _ hMem

theorem grows_compilePieces {number : Nat} {pieces : List Piece}
    (h : compilePieces number out pieces = .ok out') : Grows (.nothing, out) (.nothing, out') := by
  induction pieces generalizing out with
  | nil =>
      cases h
      exact .refl _
  | cons piece rest ih =>
      cases piece with
      | text content => exact (grows_addText _).trans (ih h)
      | expression code escape =>
          rw [compilePieces] at h
          split at h
          · rename_i value _
            exact (Grows.add [.emit value escape] (by simp [OpenBlock.bodies])).trans (ih h)
          · cases h

theorem grows_compileSimple {content : Section} (h : compileSimple within out content = .ok out') :
    Grows (.nothing, out) (.nothing, out') := by
  have hAdd (added : List Instr) : Grows (.nothing, out) (.nothing, added ++ out) :=
    .add added (by simp [OpenBlock.bodies])
  cases content with
  | line content => exact (grows_addText _).trans (grows_compilePieces h)
  | assignment line code =>
      rw [compileSimple] at h
      split at h
      · cases h
        exact .refl _
      · obtain ⟨statement, -, rfl⟩ := exists_of_map_eq_ok h
        exact hAdd [_]
  | flow line keyword code =>
      obtain ⟨found, -, rfl⟩ := exists_of_map_eq_ok h
      exact hAdd _
  | code line text =>
      obtain ⟨body, -, rfl⟩ := exists_of_map_eq_ok h
      exact hAdd _
  | varExpression line name code =>
      obtain ⟨value, -, rfl⟩ := exists_of_map_eq_ok h
      exact hAdd [_]
  | varFragment number name lines =>
      obtain ⟨body, -, rfl⟩ := exists_of_map_eq_ok h
      exact hAdd [_]
  | block line keyword header indent body =>
      cases h
      exact .refl _

/-- What the body of a block is compiled to is in what the block adds. -/
def HoldsBody (within : Surroundings) (indent : Nat) (body : List Section) (state : Compiling) :
    Prop :=
  ∃ around inner, around.indent = indent + within.indent ∧
    compileSuite around .nothing [] body = .ok inner ∧ state.Holds inner

theorem grows_compileBlock {line indent : Nat} {keyword : BlockKeyword} {header : List Char}
    {body : List Section}
    (h : compileBlock within state line keyword header indent body = .ok state') :
    Grows state state' ∧ HoldsBody within indent body state' := by
  obtain ⟨open_, out⟩ := state
  cases keyword with
  | elifBranch =>
      cases open_ with
      | branches done =>
          obtain ⟨test, -, h⟩ := exists_of_bind_eq_ok h
          obtain ⟨inner, hInner, h⟩ := exists_of_bind_eq_ok h
          cases h
          refine ⟨.add [] fun body hBody => Or.inl ?_, within.enter indent, inner, rfl, hInner, ?_⟩
          · rw [OpenBlock.bodies, List.map_append]
            exact List.mem_append_left _ hBody
          · left
            simp [OpenBlock.bodies]
      | nothing => cases h
      | loop overItems loopHeader loopBody loopLine =>
          obtain ⟨closed, -, h⟩ := exists_of_bind_eq_ok h
          cases h
  | elseBranch =>
      cases open_ with
      | nothing => cases h
      | branches done =>
          obtain ⟨_, -, h⟩ := exists_of_bind_eq_ok h
          obtain ⟨inner, hInner, h⟩ := exists_of_bind_eq_ok h
          cases h
          refine ⟨.add [.branch done (some inner)] fun body hBody => Or.inr ?_,
            within.enter indent, inner, rfl, hInner, Or.inr ?_⟩
          · exact ⟨_, List.mem_singleton_self _, List.mem_append_left _ hBody⟩
          · exact ⟨_, List.mem_cons_self, by simp [Instr.bodies]⟩
      | loop overItems loopHeader loopBody loopLine =>
          obtain ⟨_, -, h⟩ := exists_of_bind_eq_ok h
          obtain ⟨inner, hInner, h⟩ := exists_of_bind_eq_ok h
          obtain ⟨loop, hLoop, h⟩ := exists_of_bind_eq_ok h
          cases h
          have hBodies := bodies_loopInstr hLoop
          refine ⟨.add [loop] fun body hBody => Or.inr ⟨loop, List.mem_singleton_self _, ?_⟩,
            within.enter indent, inner, rfl, hInner, Or.inr ⟨loop, List.mem_cons_self, ?_⟩⟩
          · rw [hBodies, List.mem_singleton.1 hBody]
            exact List.mem_cons_self
          · rw [hBodies]
            simp
  | ifBranch =>
      obtain ⟨closed, hClose, h⟩ := exists_of_bind_eq_ok h
      obtain ⟨test, -, h⟩ := exists_of_bind_eq_ok h
      obtain ⟨inner, hInner, h⟩ := exists_of_bind_eq_ok h
      cases h
      refine ⟨(grows_close hClose).trans (.add [] (by simp [OpenBlock.bodies])),
        within.enter indent, inner, rfl, hInner, Or.inl ?_⟩
      simp [OpenBlock.bodies]
  | forLoop =>
      obtain ⟨closed, hClose, h⟩ := exists_of_bind_eq_ok h
      obtain ⟨inner, hInner, h⟩ := exists_of_bind_eq_ok h
      cases h
      exact ⟨(grows_close hClose).trans (.add [] (by simp [OpenBlock.bodies])),
        (within.enter indent).looping, inner, rfl, hInner, Or.inl (List.mem_singleton_self _)⟩
  | whileLoop =>
      obtain ⟨closed, hClose, h⟩ := exists_of_bind_eq_ok h
      obtain ⟨inner, hInner, h⟩ := exists_of_bind_eq_ok h
      cases h
      exact ⟨(grows_close hClose).trans (.add [] (by simp [OpenBlock.bodies])),
        (within.enter indent).looping, inner, rfl, hInner, Or.inl (List.mem_singleton_self _)⟩
  | definition =>
      obtain ⟨closed, hClose, h⟩ := exists_of_bind_eq_ok h
      obtain ⟨head, -, h⟩ := exists_of_bind_eq_ok h
      obtain ⟨inner, hInner, h⟩ := exists_of_bind_eq_ok h
      cases h
      exact ⟨(grows_close hClose).trans (.add [_] (by simp [OpenBlock.bodies])),
        (within.enter indent).defining, inner, rfl, hInner,
        Or.inr ⟨_, List.mem_cons_self, List.mem_singleton_self _⟩⟩

theorem grows_compileSection {content : Section}
    (h : compileSection within state content = .ok state') : Grows state state' := by
  obtain ⟨open_, out⟩ := state
  have hSimple {other : Section} (h : (do
      let out ← open_.close out
      let out ← compileSimple within out other
      return (OpenBlock.nothing, out) : Except CompileFault Compiling) = .ok state') :
      Grows (open_, out) state' := by
    obtain ⟨closed, hClose, h⟩ := exists_of_bind_eq_ok h
    obtain ⟨after, hAfter, h⟩ := exists_of_bind_eq_ok h
    cases h
    exact (grows_close hClose).trans (grows_compileSimple hAfter)
  cases content with
  | block line keyword header indent body => exact (grows_compileBlock h).1
  | _ => exact hSimple h

theorem grows_compileSections {sections : List Section}
    (h : compileSections within state sections = .ok state') : Grows state state' := by
  induction sections generalizing state with
  | nil =>
      cases h
      exact .refl _
  | cons first rest ih =>
      rw [compileSections, List.foldlM_cons] at h
      obtain ⟨next, hNext, h⟩ := exists_of_bind_eq_ok h
      exact (grows_compileSection hNext).trans (ih h)

/-! ## A section among others -/

variable {before after : List Section} {content : Section} {result : List Instr}

/-- What is compiled before a section, with it and behind it. -/
theorem compileSuite_split (h : compileSuite within .nothing [] (before ++ content :: after) =
    .ok result) : ∃ state state' last out,
      compileSections within (.nothing, []) before = .ok state ∧
      compileSection within state content = .ok state' ∧ Grows state' last ∧
      last.1.close last.2 = .ok out ∧ out.reverse = result := by
  rw [compileSuite_eq, compileSections, List.foldlM_append] at h
  obtain ⟨last, hLast, h⟩ := exists_of_bind_eq_ok h
  obtain ⟨out, hOut, h⟩ := exists_of_bind_eq_ok h
  obtain ⟨state, hState, hLast⟩ := exists_of_bind_eq_ok hLast
  rw [List.foldlM_cons] at hLast
  obtain ⟨state', hNext, hLast⟩ := exists_of_bind_eq_ok hLast
  exact ⟨state, state', last, out, hState, hNext, grows_compileSections hLast, hOut,
    Except.ok.inj h⟩

/-- A line of text is added to what the sections before it are compiled to, and the rest stands
behind it. -/
theorem compileSuite_append_line {line : TextLine}
    (h : compileSuite within .nothing [] (before ++ .line line :: after) = .ok result) :
    ∃ earlier more later, compileSuite within .nothing [] before = .ok earlier ∧
      compileLine within.indent earlier.reverse line = .ok more ∧
      glyphs result = glyphs more.reverse ++ later := by
  obtain ⟨state, state', last, out, hState, hLine, hGrows, hClose, hResult⟩ :=
    compileSuite_split h
  obtain ⟨closed, hClosed, hLine⟩ := exists_of_bind_eq_ok hLine
  obtain ⟨more, hMore, hLine⟩ := exists_of_bind_eq_ok hLine
  cases hLine
  obtain ⟨later, hLater⟩ := (hGrows.trans (grows_close hClose)).glyphs
  refine ⟨closed.reverse, more, later, ?_, ?_, ?_⟩
  · rw [compileSuite_eq, hState]
    show (do let out ← state.1.close state.2; return out.reverse) = _
    rw [hClosed]
    rfl
  · rw [List.reverse_reverse]
    exact hMore
  · rw [← hResult]
    exact hLater

/-- What the body of a block is compiled to is in an instruction. -/
theorem compileSuite_block {number indent : Nat} {keyword : BlockKeyword} {header : List Char}
    {body : List Section} (h : compileSuite within .nothing []
      (before ++ .block number keyword header indent body :: after) = .ok result) :
    ∃ around inner, around.indent = indent + within.indent ∧
      compileSuite around .nothing [] body = .ok inner ∧
        ∃ instr ∈ result, inner ∈ instr.bodies := by
  obtain ⟨state, state', last, out, -, hBlock, hGrows, hClose, hResult⟩ := compileSuite_split h
  obtain ⟨-, around, inner, hIndent, hInner, hHolds⟩ := grows_compileBlock hBlock
  refine ⟨around, inner, hIndent, hInner, ?_⟩
  rcases (hGrows.trans (grows_close hClose)).bodies inner hHolds with hNone | ⟨instr, hMem, hBody⟩
  · cases hNone
  · exact ⟨instr, by rwa [← hResult, List.mem_reverse], hBody⟩

end Growing

end Stencil
