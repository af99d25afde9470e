import Mathlib.Data.List.Chain
import Stencil.Proofs.Numbering
import Stencil.Proofs.Placing

/-!
# Tidy programs

A template that can be read is compiled to lists of instructions that hold nothing idle. Literal
text is never empty, and two literal texts never stand side by side, since text is only added where
it joins the text before it. The instructions of a code block append no literal text at all, so they
can stand anywhere between texts. A conditional has a branch, and no output variable has the name of
the rendered text. All this holds in the body of the template and in every list inside it.

Compiling starts from an outline, where a directive could stand among the pieces of a line, or an
expression outside all lines. The first is refused (`compilePieces_directive`), and the second is
refused on line zero if it cannot be read (`compileSuite_expression`). Neither happens to an outline
that is read: its nodes stand in their places, so it is the outline of sections, and a section is
only refused on a line of its own.

## Main results

* `tidy_rules`: tidiness follows the rules of compiling.
* `ofOutline_fails_of_placed`: nodes that stand in their places are not refused for that.
* `compiled_templates_are_tidy`: both, of every template that can be read.
-/

namespace Stencil

/-! ## Lists at every depth -/

mutual

/-- The lists of instructions inside an instruction, at every depth. -/
def Instr.lists : Instr → List (List Instr)
  | .branch branches otherwise => branchLists branches ++ optionalLists otherwise
  | .forLoop _ _ body otherwise _ => body :: innerLists body ++ optionalLists otherwise
  | .whileLoop _ body otherwise => body :: innerLists body ++ optionalLists otherwise
  | .define _ _ _ body => body :: innerLists body
  | .setFragment _ body => body :: innerLists body
  | _ => []

/-- The lists of instructions inside the instructions of a list. -/
def innerLists : List Instr → List (List Instr)
  | [] => []
  | instr :: rest => instr.lists ++ innerLists rest

/-- The lists of instructions of a body that may be absent. -/
def optionalLists : Option (List Instr) → List (List Instr)
  | none => []
  | some body => body :: innerLists body

/-- The lists of instructions of branches. -/
def branchLists : List (Expr × List Instr) → List (List Instr)
  | [] => []
  | (_, body) :: rest => body :: innerLists body ++ branchLists rest

end

/-- A list of instructions and the lists inside it, at every depth. -/
def everyList (instrs : List Instr) : List (List Instr) := instrs :: innerLists instrs

theorem mem_innerLists {list instrs : List Instr} :
    list ∈ innerLists instrs ↔ ∃ instr ∈ instrs, list ∈ instr.lists := by
  induction instrs with
  | nil => simp [innerLists]
  | cons instr rest ih => simp [innerLists, ih]

section Lists

variable {P : List Instr → Prop}

theorem forall_optionalLists {otherwise : Option (List Instr)}
    (h : ∀ body ∈ otherwise, ∀ list ∈ everyList body, P list) :
    ∀ list ∈ optionalLists otherwise, P list := by
  cases otherwise with
  | none => exact nofun
  | some body => exact h body rfl

theorem forall_branchLists {branches : List (Expr × List Instr)}
    (h : ∀ branch ∈ branches, ∀ list ∈ everyList branch.2, P list) :
    ∀ list ∈ branchLists branches, P list := by
  induction branches with
  | nil => exact nofun
  | cons branch rest ih =>
      rw [List.forall_mem_cons] at h
      exact List.forall_mem_append.2 ⟨h.1, ih h.2⟩

/-- What holds of the lists inside a loop holds of its body and of its `else`. -/
theorem forall_loopLists {body : List Instr} {otherwise : Option (List Instr)}
    (hBody : ∀ list ∈ everyList body, P list)
    (hOtherwise : ∀ body ∈ otherwise, ∀ list ∈ everyList body, P list) :
    ∀ list ∈ body :: innerLists body ++ optionalLists otherwise, P list :=
  List.forall_mem_append.2 ⟨hBody, forall_optionalLists hOtherwise⟩

end Lists

/-! ## Tidy lists -/

/-- Does the instruction append literal text? -/
def Instr.isText : Instr → Bool
  | .text _ => true
  | _ => false

/-- Literal text is not empty, a conditional has a branch, and an output variable has another name
than the rendered text. -/
def Instr.Proper : Instr → Prop
  | .text content => content ≠ ""
  | .branch branches _ => branches ≠ []
  | .setVar name _ => name ≠ bodyName
  | .setFragment name _ => name ≠ bodyName
  | _ => True

/-- Proper instructions without two literal texts side by side. -/
structure Tidy (instrs : List Instr) : Prop where
  proper : ∀ instr ∈ instrs, instr.Proper
  apart : instrs.IsChain fun first second => ¬ (first.isText = true ∧ second.isText = true)

variable {instr : Instr} {instrs rest : List Instr}

theorem Tidy.nil : Tidy [] := ⟨nofun, .nil⟩

theorem Tidy.cons (hText : instr.isText = false) (hProper : instr.Proper) (h : Tidy rest) :
    Tidy (instr :: rest) where
  proper := List.forall_mem_cons.2 ⟨hProper, h.proper⟩
  apart := by
    refine List.isChain_cons.2 ⟨fun second _ hBoth => ?_, h.apart⟩
    rw [hText] at hBoth
    cases hBoth.1

theorem Tidy.reverse (h : Tidy instrs) : Tidy instrs.reverse where
  proper := fun instr hInstr => h.proper instr (List.mem_reverse.1 hInstr)
  apart := List.isChain_reverse.2 (h.apart.imp fun _ _ hNot hBoth => hNot hBoth.symm)

/-- Text that is added joins the text before it, or stands behind something else. -/
theorem Tidy.addText {out : Emitted} (h : Tidy out) (content : String) :
    Tidy (out.addText content) := by
  unfold Emitted.addText
  split
  · exact h
  · rename_i hContent
    have hSome : content ≠ "" := fun hEmpty => hContent (String.isEmpty_iff.2 hEmpty)
    split
    · rename_i before others
      obtain ⟨hProper, hApart⟩ := h
      rw [List.forall_mem_cons] at hProper
      rw [List.isChain_cons] at hApart
      refine ⟨List.forall_mem_cons.2 ⟨fun hEmpty => hSome ?_, hProper.2⟩,
        List.isChain_cons.2 ⟨hApart.1, hApart.2⟩⟩
      exact (String.append_eq_empty_iff.1 hEmpty).2
    · rename_i hNot
      refine ⟨List.forall_mem_cons.2 ⟨hSome, h.proper⟩, List.isChain_cons.2 ⟨?_, h.apart⟩⟩
      rintro second hSecond ⟨-, hText⟩
      obtain ⟨others, rfl⟩ := List.head?_eq_some_iff.1 hSecond
      cases second with
      | text before => exact hNot before others rfl
      | _ => cases hText

theorem innerLists_addText (out : Emitted) (content : String) :
    innerLists (out.addText content) = innerLists out := by
  unfold Emitted.addText
  split
  · rfl
  · split
    · simp [innerLists, Instr.lists]
    · simp [innerLists, Instr.lists]

/-! ## What compiling gives -/

/-- The instruction appends no literal text, is proper, and all lists inside it are tidy. -/
structure Instr.TidyInside (instr : Instr) : Prop where
  noText : instr.isText = false
  proper : instr.Proper
  lists : ∀ list ∈ instr.lists, Tidy list

theorem tidyInside_flowInstr (within : Surroundings) (keyword : FlowKeyword) (code : List Char)
    (line : Nat) :
    Ensures (fun found : Option Instr => ∀ instr ∈ found.toList, instr.TidyInside)
      (flowInstr within keyword code line) := by
  have hJump : Instr.breakLoop.TidyInside ∧ Instr.continueLoop.TidyInside :=
    ⟨⟨rfl, trivial, nofun⟩, ⟨rfl, trivial, nofun⟩⟩
  unfold flowInstr
  cases keyword with
  | pass => exact .pure nofun
  | breakLoop =>
      exact .ite (fun _ => .pure (List.forall_mem_singleton.2 hJump.1)) fun _ => .error _
  | continueLoop =>
      exact .ite (fun _ => .pure (List.forall_mem_singleton.2 hJump.2)) fun _ => .error _
  | returnValue =>
      refine .andThen fun value => .ite (fun _ => .error _) fun _ => ?_
      exact .pure (List.forall_mem_singleton.2 ⟨rfl, trivial, nofun⟩)

/-- Tidiness at every depth follows the rules of compiling. -/
theorem tidy_rules : SuiteRules (fun _ instr => instr.TidyInside)
    (fun _ instrs => ∀ list ∈ everyList instrs, Tidy list) where
  nil _ := List.forall_mem_singleton.2 .nil
  cons hInstr hRest := by
    rw [everyList, List.forall_mem_cons] at hRest ⊢
    refine ⟨hRest.1.cons hInstr.noText hInstr.proper, ?_⟩
    exact List.forall_mem_append.2 ⟨hInstr.lists, hRest.2⟩
  flow := tidyInside_flowInstr
  execute _ _ := ⟨rfl, trivial, nofun⟩
  branch hSome hBranches hOtherwise := ⟨rfl, hSome, List.forall_mem_append.2
    ⟨forall_branchLists hBranches, forall_optionalLists hOtherwise⟩⟩
  forLoop _ _ hBody hOtherwise := ⟨rfl, trivial, forall_loopLists hBody hOtherwise⟩
  whileLoop _ hBody hOtherwise := ⟨rfl, trivial, forall_loopLists hBody hOtherwise⟩
  procedure _ _ hBody := ⟨rfl, trivial, hBody⟩
  enter h := h
  reverse h := by
    rw [everyList, List.forall_mem_cons] at h ⊢
    refine ⟨h.1.reverse, fun list hList => h.2 list ?_⟩
    simpa only [mem_innerLists, List.mem_reverse] using hList
  addText content h := by
    rw [everyList, List.forall_mem_cons] at h ⊢
    rw [innerLists_addText]
    exact ⟨h.1.addText content, h.2⟩
  emit _ _ _ := ⟨rfl, trivial, nofun⟩
  trackedLoop _ _ hBody hOtherwise := ⟨rfl, trivial, forall_loopLists hBody hOtherwise⟩
  template _ _ hBody := ⟨rfl, trivial, hBody⟩
  setVar _ hName := ⟨rfl, beq_eq_false_iff_ne.1 hName, nofun⟩
  setFragment hName hBody := ⟨rfl, beq_eq_false_iff_ne.1 hName, hBody⟩

/-! ## What compiling refuses -/

namespace Outline

/-- A directive among the pieces of a line is refused on its own line. -/
theorem compilePieces_directive {directive : Node} {place : Nat} (h : directive.line? = some place)
    (number : Nat) (out : Emitted) (texts : List (List Char)) (rest : List Node) :
    compilePieces number out (texts.map Node.text ++ directive :: rest) =
      layoutError place .strayDirective := by
  induction texts generalizing out with
  | nil =>
      cases directive with
      | text content => cases h
      | expression code escape => cases h
      | _ =>
          cases h
          rfl
  | cons content others ih => exact ih _

/-- An expression outside all lines is refused on line zero. -/
theorem compileSuite_expression {code : List Char} {fault : SyntaxFault}
    (h : Expr.read code = .error fault) (within : Surroundings) (out : Emitted) (escape : Bool)
    (rest : List Node) : compileSuite within .nothing out (.expression code escape :: rest) =
      .error (.code 0 (.expression code fault)) := by
  have hPieces : compilePieces 0 out [.expression code escape] =
      .error (.code 0 (.expression code fault)) := by
    rw [compilePieces, h]
  rw [compileSuite, OpenBlock.close]
  exact congrArg (· >>= fun out => compileSuite within .nothing out rest) hPieces

end Outline

/-- The fault of a directive inside a line. -/
def CompileFault.IsStray (fault : CompileFault) : Prop :=
  ∃ number, fault = .layout ⟨number, .strayDirective⟩

theorem flowInstr_fails (within : Surroundings) (keyword : FlowKeyword) (code : List Char)
    (line : Nat) : Fails (¬ ·.IsStray) (flowInstr within keyword code line) := by
  cases keyword with
  | pass => exact .ok _
  | breakLoop => exact .ite (fun _ => .ok _) fun _ => .error nofun
  | continueLoop => exact .ite (fun _ => .ok _) fun _ => .error nofun
  | returnValue =>
      exact .bind (.onLine fun _ _ => nofun) fun _ =>
        .ite (fun _ => .error nofun) fun _ => .ok _

/-- Statements are not refused for being inside a line. -/
theorem CodeBlock.Place.Refused.not_isStray {place : CodeBlock.Place} {fault : CompileFault}
    (h : place.Refused fault) : ¬ fault.IsStray := by
  induction h with
  | here hRefuses =>
      cases hRefuses with
      | flow _ hFlow => exact flowInstr_fails _ _ _ _ _ hFlow
      | colon hSplit =>
          unfold CodeBlock.splitStatement at hSplit
          split at hSplit
          · cases hSplit
          · cases hSplit
            exact nofun
          · cases hSplit
            exact nofun
      | _ => exact nofun
  | later _ _ ih => exact ih

/-- No section is refused for being inside a line. -/
theorem Section.Blames.not_isStray {s : Section} {within : Surroundings} {state : Compiling}
    {fault : CompileFault} (h : s.Blames within state fault) : ¬ fault.IsStray := by
  cases h with
  | line hLine =>
      obtain ⟨before, code, escape, after, cause, -, -, -, rfl⟩ := hLine
      exact nofun
  | fragment _ hLine =>
      obtain ⟨before, code, escape, after, cause, -, -, -, rfl⟩ := hLine
      exact nofun
  | flow hFlow => exact flowInstr_fails _ _ _ _ _ hFlow
  | code hBlames =>
      cases hBlames with
      | join hJoin =>
          cases hJoin with
          | tab => exact nofun
          | unfinished => exact nofun
      | statement _ hRefused => exact hRefused.not_isStray
  | _ => exact nofun

/-- Nodes that stand in their places are not refused for that. -/
theorem ofOutline_fails_of_placed {outline : Outline} (h : ∀ node ∈ outline.body, node.Placed) :
    Fails (¬ ·.IsStray) (Program.ofOutline outline) := by
  obtain ⟨parameters, body⟩ := outline
  obtain ⟨sections, rfl⟩ := placed_iff.1 h
  have hSuite : Fails (¬ ·.IsStray) (compileSuite .outside .nothing [] sections) := by
    refine (compileSuite_fails sections .outside .nothing []).mono fun fault hFault => ?_
    rcases hFault with hOpen | ⟨around, found, s, -, hBlames⟩
    · cases hOpen
    · exact hBlames.not_isStray
  have hParameters (text : List Char) : Fails (¬ ·.IsStray) (onLine 1 (readParameters text)) :=
    .onLine fun _ _ => nofun
  change Fails _ (Program.ofOutline (Document.outline ⟨parameters, sections⟩))
  rw [Program.ofOutline_outline]
  cases parameters with
  | none => exact hSuite.bind fun body => .ok _
  | some text => exact (hParameters text).bind fun list => hSuite.bind fun body => .ok _

/-- Texts with different ends differ. -/
theorem append_ne_of_end {back whole : String}
    (h : back.toList.getLast?.any (whole.toList.getLast? != some ·) = true) (front : String) :
    front ++ back ≠ whole := by
  rintro rfl
  obtain ⟨c, hLast, hNot⟩ := (Option.any_eq_true _ _).1 h
  rw [String.toList_append, List.getLast?_append, hLast] at hNot
  exact absurd rfl (bne_iff_ne.1 hNot)

theorem Inline.Fault.message_ne (fault : Inline.Fault) :
    fault.message ≠ "unexpected directive inside a line" := by
  cases fault with
  | missing => decide +kernel
  | unclosed bracket => exact append_ne_of_end (by decide +kernel) _

theorem LayoutCause.message_ne (cause : LayoutCause) (h : cause ≠ .strayDirective) :
    cause.message ≠ "unexpected directive inside a line" := by
  cases cause with
  | inline fault => exact fault.message_ne
  | openQuote fault =>
      have hMessage : "unterminated string literal" ≠ "unexpected directive inside a line" := by
        decide +kernel
      exact hMessage
  | missingColon keyword => exact append_ne_of_end (by decide +kernel) _
  | missingBlock keyword => exact append_ne_of_end (by decide +kernel) _
  | varName text => exact append_ne_of_end (by decide +kernel) _
  | strayClause keyword => exact append_ne_of_end (by decide +kernel) _
  | strayWord word => exact append_ne_of_end (by decide +kernel) _
  | strayDirective => contradiction
  | _ => decide +kernel

theorem SyntaxFault.message_ne (fault : SyntaxFault) :
    fault.message ≠ "unexpected directive inside a line" := by
  unfold message
  exact append_ne_of_end (by decide +kernel) _

theorem CodeCause.message_ne (cause : CodeCause) :
    cause.message ≠ "unexpected directive inside a line" := by
  cases cause with
  | malformed fault => exact fault.message_ne
  | expression code fault =>
      unfold message SyntaxFault.message
      dsimp only
      rw [← String.append_assoc]
      exact append_ne_of_end (by decide +kernel) _
  | outsideLoop code => exact append_ne_of_end (by decide +kernel) _
  | returnOutside => decide +kernel
  | elseHeader header => exact append_ne_of_end (by decide +kernel) _

/-- Only a directive inside a line is worded so. -/
theorem CompileFault.message_ne {fault : CompileFault} (h : ¬ fault.IsStray) :
    fault.message ≠ "unexpected directive inside a line" := by
  cases fault with
  | layout fault =>
      obtain ⟨number, cause⟩ := fault
      refine cause.message_ne ?_
      rintro rfl
      exact h ⟨number, rfl⟩
  | code line cause => exact cause.message_ne

/-- An outline that is read from a text is refused on a line of the text. -/
theorem line_ne_zero_of_ofOutline {text : List Char} {outline : Outline} {fault : CompileFault}
    (hRead : Outline.read text = .ok outline)
    (hFault : Program.ofOutline outline = .error fault) : fault.line ≠ 0 := by
  have hProgram : Program.read text = .error fault := by
    rw [Program.read, hRead]
    exact hFault
  obtain ⟨original, hLine⟩ := (blamed_of_read hProgram).lineAt
  intro hZero
  rw [hZero] at hLine
  cases hLine

/-- When a template is read, every node stands in its place, and it is compiled to tidy lists of
instructions, at every depth. What is refused instead stands on a line of the text, and is no
directive inside a line. -/
theorem compiled_templates_are_tidy (text : List Char) (outline : Outline)
    (h : Outline.read text = .ok outline) :
    (∀ node ∈ outline.body, node.Placed) ∧
    (∀ fault, Program.ofOutline outline = .error fault →
      fault.message ≠ "unexpected directive inside a line" ∧ fault.line ≠ 0) ∧
    ∀ program, Program.ofOutline outline = .ok program →
      ∀ list ∈ everyList program.body, Tidy list := by
  have hPlaced := Outline.placed_of_read h
  refine ⟨hPlaced, fun fault hFault => ?_, fun program hProgram => ?_⟩
  · have hNotStray := ofOutline_fails_of_placed hPlaced fault hFault
    exact ⟨CompileFault.message_ne hNotStray, line_ne_zero_of_ofOutline h hFault⟩
  · obtain ⟨document, hDocument, rfl⟩ := Outline.exists_of_read h
    rw [Program.ofOutline_outline] at hProgram
    exact tidy_rules.ensures_ofDocument (suiteSetsText_read text document hDocument) program
      hProgram

/-- Two lines with a code block between them that does nothing, and a fragment. -/
def idleSource : List Char := "one\n$code:\n    pass\ntwo\n$var c:\n    three\n".toList

/-- The texts of the two lines have become one. -/
def idleBody : List Instr := [.text "one\ntwo\n", .setFragment "c" [.text "three\n"]]

/-- An `else` that continues nothing. -/
def straySource : List Char := "one\n$else:\n    two\n".toList

theorem compile_pass : CodeBlock.compile .outside "pass\n".toList 3 = .ok [] := by
  have hLines : Text.lines "pass\n".toList = ["pass".toList] := by decide
  have hEnd : Text.trimEnd (Text.dropSpaces "pass".toList) = "pass".toList := by decide
  have hOpen : CodeBlock.isOpen "pass".toList = false := by decide +kernel
  have hLogical : CodeBlock.logicalLines "pass\n".toList 3 = .ok [⟨0, "pass".toList, 3⟩] := by
    rw [CodeBlock.logicalLines, hLines, CodeBlock.joinLines]
    simp only [CodeBlock.joinLines.finish, CodeBlock.joinLines, hEnd, hOpen]
    rfl
  rw [CodeBlock.compile, hLogical]
  rfl

/-- The first text is compiled to two tidy lists, and the second one is refused on its second line.
-/
theorem idleBody_is_tidy :
    (∃ outline, Outline.read idleSource = .ok outline ∧
      Program.ofOutline outline = .ok ⟨[], idleBody⟩ ∧
      ∀ list ∈ [idleBody, [.text "three\n"]], Tidy list) ∧
    ∃ outline, Outline.read straySource = .ok outline ∧
      Program.ofOutline outline = .error (.layout ⟨2, .strayClause .elseBranch⟩) ∧
      (LayoutCause.strayClause .elseBranch).message ≠ "unexpected directive inside a line" := by
  constructor
  · have hDocument : Document.read idleSource = .ok ⟨none,
        [.line ⟨1, [.text "one\n".toList]⟩, .code 3 "pass\n".toList,
          .line ⟨4, [.text "two\n".toList]⟩,
          .varFragment 5 "c" [⟨6, [.text "three".toList, .text ['\n']]⟩]]⟩ := by
      with_unfolding_all rfl
    have hProgram : Program.ofDocument ⟨none,
        [.line ⟨1, [.text "one\n".toList]⟩, .code 3 "pass\n".toList,
          .line ⟨4, [.text "two\n".toList]⟩,
          .varFragment 5 "c" [⟨6, [.text "three".toList, .text ['\n']]⟩]]⟩ =
            .ok ⟨[], idleBody⟩ := by
      simp only [Program.ofDocument, compileSuite, OpenBlock.close, compile_pass]
      rfl
    have hRead := Outline.read_eq idleSource
    rw [hDocument] at hRead
    have hOutline := (Program.ofOutline_outline _).trans hProgram
    exact ⟨_, hRead, hOutline, (compiled_templates_are_tidy idleSource _ hRead).2.2 _ hOutline⟩
  · have hDocument : Document.read straySource = .ok ⟨none, [.line ⟨1, [.text "one\n".toList]⟩,
        .block 2 .elseBranch "else".toList 0 [.line ⟨3, [.text "two\n".toList]⟩]]⟩ := by
      with_unfolding_all rfl
    have hFault : Program.ofDocument ⟨none, [.line ⟨1, [.text "one\n".toList]⟩,
        .block 2 .elseBranch "else".toList 0 [.line ⟨3, [.text "two\n".toList]⟩]]⟩ =
          .error (.layout ⟨2, .strayClause .elseBranch⟩) := by
      simp only [Program.ofDocument, compileSuite, OpenBlock.close]
      rfl
    have hRead := Outline.read_eq straySource
    rw [hDocument] at hRead
    have hOutline := (Program.ofOutline_outline _).trans hFault
    have hRefused := (compiled_templates_are_tidy straySource _ hRead).2.1 _ hOutline
    exact ⟨_, hRead, hOutline, hRefused.1⟩

end Stencil
