import Stencil.Proofs.Ensuring
import Stencil.Proofs.Isolation
import Stencil.Proofs.Quoting.Lines

/-!
# Quoted texts

A text is made of quoted lines: literals with doubled sigils, and code in brackets after a sigil. It
holds no directive, so it is compiled to the literals and the code alone, and it renders the
literals as they are with the text of each value in its place.

Unifying the ends of the lines and the marks of sigils comes before reading. It leaves a text alone
that has no carriage return, no mark of the byte order, and no backslash before a sigil.

## Main results

* `Program.read_writeText`: what a quoted text is compiled to.
* `executeAll_mergeTexts`: joining adjacent texts does not change what is rendered.
* `quoted_text_is_exact`: a quoted text is compiled to its parts and renders them in order.
-/

namespace Stencil

open Stencil.Text

/-- The lines as they are written. -/
def writeText (lines : List (List Quoted)) : List Char := lines.flatMap writeLine

/-! ## Normal texts -/

theorem getLast?_writeText {lines : List (List Quoted)} (h : lines ≠ []) :
    (writeText lines).getLast? = some '\n' := by
  obtain ⟨front, last, rfl⟩ := List.eq_nil_or_concat lines |>.resolve_left h
  simp [writeText, writeLine]

/-- Normalizing leaves quoted lines alone that a normal text consists of. -/
theorem normalizeText_writeText {lines : List (List Quoted)} (hLines : lines ≠ [])
    (hSigil : ¬ ['\\', '$'] <:+: writeText lines) (hReturn : '\r' ∉ writeText lines)
    (hMark : (writeText lines).head? ≠ some '\uFEFF') :
    normalizeText (writeText lines) = writeText lines := by
  have hStart : normalizeText (writeText lines) =
      doubleEscaped (endLine (unifyLineEnds (writeText lines))) := by
    unfold normalizeText
    split
    · rename_i rest hText
      rw [hText] at hMark
      exact absurd rfl hMark
    · rfl
  rw [hStart, unifyLineEnds_of_notMem hReturn, endLine, if_pos (getLast?_writeText hLines),
    doubleEscaped_of_not_infix hSigil]

/-! ## Reading -/

/-- A text that starts with a whole section. -/
theorem readSuite_whole {text rest : List Char} {number next : Nat} {content : Section}
    (hText : text ≠ []) (h : readEntry text number = .ok (.whole content, next, rest)) :
    readSuite text number = (content :: ·) <$> readSuite rest next := by
  obtain ⟨c, others, rfl⟩ := List.exists_cons_of_ne_nil hText
  rw [readSuite.eq_def]
  simp only
  split
  · rename_i fault hFault
    rw [h] at hFault
    cases hFault
  · rename_i found after left hFound
    rw [h] at hFound
    cases hFound
    cases readSuite rest next <;> rfl
  · rename_i hFound
    rw [h] at hFound
    cases hFound

/-- The sections add these instructions to a program. -/
def SuiteReadsAs (text : List Char) (number : Nat) (instrs : List Instr) : Prop :=
  ∃ sections, readSuite text number = .ok sections ∧
    ∀ out, compileSuite .outside .nothing out sections =
      .ok (Emitted.addAll out instrs).reverse

theorem compileSuite_line {out : Emitted} {line : TextLine} {rest : List Section}
    {after : Emitted} (h : compilePieces line.number out line.pieces = .ok after) :
    compileSuite .outside .nothing out (.line line :: rest) =
      compileSuite .outside .nothing after rest := by
  have hIndent : out.addText (String.ofList (List.replicate 0 ' ')) = out := rfl
  have hLine : compileLine Surroundings.outside.indent out line = .ok after := by
    rw [compileLine, Surroundings.outside, hIndent, h]
  rw [compileSuite]
  show (compileLine Surroundings.outside.indent out line >>= _) = _
  rw [hLine]
  rfl

theorem suiteReadsAs_writeText {lines : List (List Quoted)}
    (hEnd : ∀ line ∈ lines, (line.flatMap Quoted.write).getLast? ≠ some '\\') (number : Nat) :
    SuiteReadsAs (writeText lines) number (lines.flatMap lineInstrs) := by
  induction lines generalizing number with
  | nil =>
      refine ⟨[], ?_, fun out => by rw [compileSuite]; rfl⟩
      show readSuite [] number = _
      rw [readSuite]
  | cons line rest ih =>
      obtain ⟨hLine, hRest⟩ := List.forall_mem_cons.1 hEnd
      obtain ⟨sections, hSections, hCompile⟩ := ih hRest (number + 1)
      obtain ⟨pieces, hEntry, hPieces⟩ := readEntry_line line hLine (writeText rest) number
      have hText : writeLine line ++ writeText rest ≠ [] := by simp [writeLine]
      refine ⟨.line ⟨number, pieces⟩ :: sections, ?_, fun out => ?_⟩
      · show readSuite (writeLine line ++ writeText rest) number = _
        rw [readSuite_whole hText hEntry, hSections]
        rfl
      · rw [compileSuite_line (hPieces number out), hCompile, List.flatMap_cons,
          Emitted.addAll, Emitted.addAll, Emitted.addAll, List.foldl_append]

/-- A quoted text declares no parameters. -/
theorem declaration?_writeText (lines : List (List Quoted)) :
    declaration? (writeText lines) = none := by
  have hNone : NoDirective (writeText lines) := by
    cases lines with
    | nil =>
        intro after hAfter
        cases hAfter
    | cons line rest => exact NoDirective.line line (writeText rest)
  simp only [declaration?]
  split
  · rename_i hPrefix
    obtain ⟨rest, hRest⟩ := List.isPrefixOf_iff_prefix.1 hPrefix
    have hDefinition := hNone ("def with".toList ++ rest) (by rw [← hRest]; rfl)
    cases hDefinition
  · rfl

/-! ## Merging -/

/-- Puts a text before instructions, joined with a text that they start with. Empty text adds
nothing. -/
def consText (content : String) : List Instr → List Instr
  | .text more :: rest => .text (content ++ more) :: rest
  | rest => if content = "" then rest else .text content :: rest

/-- The instructions with adjacent texts as one text, and without empty texts. -/
def mergeTexts : List Instr → List Instr
  | [] => []
  | .text content :: rest => consText content (mergeTexts rest)
  | instr :: rest => instr :: mergeTexts rest

/-- Do the instructions start with a text? -/
def startsWithText : List Instr → Bool
  | .text _ :: _ => true
  | _ => false

/-- No text is empty, and no two texts are adjacent. -/
def IsMerged : List Instr → Prop
  | [] => True
  | .text content :: rest => content ≠ "" ∧ startsWithText rest = false ∧ IsMerged rest
  | _ :: rest => IsMerged rest

theorem consText_of_not {content : String} {rest : List Instr} (h : startsWithText rest = false) :
    consText content rest = if content = "" then rest else .text content :: rest := by
  unfold consText
  split
  · cases h
  · rfl

theorem isMerged_consText {content : String} {rest : List Instr} (h : IsMerged rest) :
    IsMerged (consText content rest) := by
  by_cases hText : ∃ more others, rest = .text more :: others
  · obtain ⟨more, others, rfl⟩ := hText
    refine ⟨fun hEmpty => h.1 ?_, h.2⟩
    exact (String.append_eq_empty_iff.1 hEmpty).2
  · have hNot : startsWithText rest = false := by
      unfold startsWithText
      split
      · exact absurd ⟨_, _, rfl⟩ hText
      · rfl
    rw [consText_of_not hNot]
    split
    · exact h
    · exact ⟨‹_›, hNot, h⟩

theorem isMerged_mergeTexts (instrs : List Instr) : IsMerged (mergeTexts instrs) := by
  fun_induction mergeTexts instrs with
  | case1 => trivial
  | case2 content rest ih => exact isMerged_consText ih
  | case3 instr rest hNot ih =>
      unfold IsMerged
      split
      · trivial
      · rename_i hEq
        cases hEq
        exact absurd rfl (hNot _)
      · rename_i hEq
        cases hEq
        exact ih

namespace Emitted

theorem addAll_consText (out : Emitted) (content : String) (rest : List Instr) :
    addAll out (consText content rest) = addAll (out.addText content) rest := by
  unfold consText
  split
  · rename_i more others
    show addAll (out.addText (content ++ more)) others =
      addAll ((out.addText content).addText more) others
    rw [addText_append]
  · split
    · rename_i hEmpty
      rw [hEmpty]
      rfl
    · rfl

/-- Adding instructions merges texts on the way. -/
theorem addAll_mergeTexts (out : Emitted) (instrs : List Instr) :
    addAll out (mergeTexts instrs) = addAll out instrs := by
  induction instrs generalizing out with
  | nil => rfl
  | cons instr rest ih =>
      cases instr with
      | text content => rw [mergeTexts, addAll_consText, ih]; rfl
      | _ => exact ih _

theorem addAll_of_isMerged {instrs : List Instr} (h : IsMerged instrs) {out : Emitted}
    (hStart : startsWithText out = false ∨ startsWithText instrs = false) :
    addAll out instrs = instrs.reverse ++ out := by
  induction instrs generalizing out with
  | nil => rfl
  | cons instr rest ih =>
      rw [List.reverse_cons, List.append_assoc, List.singleton_append]
      cases instr with
      | text content =>
          obtain ⟨hContent, hRest, hMerged⟩ := h
          have hOut : startsWithText out = false := hStart.resolve_right (by simp [startsWithText])
          have hAdd : out.addText content = .text content :: out := by
            refine addText_other hContent fun before others hEq => ?_
            rw [hEq] at hOut
            cases hOut
          show addAll (out.addText content) rest = _
          rw [hAdd]
          exact ih hMerged (Or.inr hRest)
      | _ => exact ih h (Or.inl rfl)

theorem addAll_empty (instrs : List Instr) : addAll [] instrs = (mergeTexts instrs).reverse := by
  rw [← addAll_mergeTexts, addAll_of_isMerged (isMerged_mergeTexts instrs) (Or.inl rfl),
    List.append_nil]

end Emitted

/-- A quoted text is compiled to its literals and its code. -/
theorem Program.read_writeText {lines : List (List Quoted)}
    (hEnd : ∀ line ∈ lines, (line.flatMap Quoted.write).getLast? ≠ some '\\') :
    Program.read (writeText lines) = .ok ⟨[], mergeTexts (lines.flatMap lineInstrs)⟩ := by
  obtain ⟨sections, hSections, hCompile⟩ := suiteReadsAs_writeText hEnd 1
  have hDocument : Document.read (writeText lines) = .ok ⟨none, sections⟩ := by
    simp only [Document.read, declaration?_writeText, hSections]
    rfl
  rw [Program.read_eq, hDocument]
  simp only [Program.ofDocument, hCompile, Emitted.addAll_empty, List.reverse_reverse]
  rfl

/-! ## Rendering -/

section Rendering

variable (services : Services) (scene : Scene)

/-- The text of a value where it is emitted. The absent value has none. -/
def Scene.shown (value : Value) (escape : Bool) : String :=
  if value.isNone then "" else if escape then scene.escape.apply value.text else value.text

/-- The text of a part: a literal as it is, and the text of the value of code. -/
def Quoted.render (out : Rendering Value) : Quoted → Run String
  | literal content _ => return String.ofList content
  | expression code escape => do
      let value ← code.tree.evaluate services scene out
      return scene.shown value escape

/-- The texts of the parts of a line, each one rendered after those before it. -/
def renderParts (out : Rendering Value) : List Quoted → Run (List String)
  | [] => return []
  | part :: rest => do
      let text ← part.render services scene out
      let texts ← renderParts (out.push text) rest
      return text :: texts

/-- The texts of lines. -/
def renderLines (out : Rendering Value) : List (List Quoted) → Run (List String)
  | [] => return []
  | line :: rest => do
      let texts ← renderParts services scene out line
      let text := String.join texts ++ "\n"
      let others ← renderLines (out.push text) rest
      return text :: others

theorem Rendering.push_empty {α : Type} (out : Rendering α) : out.push "" = out := by
  rw [push, String.append_empty]

theorem Rendering.push_append {α : Type} (out : Rendering α) (first second : String) :
    out.push (first ++ second) = (out.push first).push second := by
  rw [push, push, push, String.append_assoc]

theorem Scene.emit_eq (out : Rendering Value) (value : Value) (escape : Bool) :
    scene.emit out value escape = out.push (scene.shown value escape) := by
  unfold emit shown
  split
  · rw [Rendering.push_empty]
  · split <;> rfl

theorem execute_instr (out : Rendering Value) (part : Quoted) :
    execute services scene out part.instr =
      (fun text => (.normal, out.push text)) <$> part.render services scene out := by
  cases part with
  | literal content oneLine => exact (map_pure ..).symm
  | expression code escape =>
      rw [Quoted.instr, execute, Quoted.render, map_bind]
      refine bind_congr fun value => ?_
      rw [Scene.emit_eq, map_pure]

theorem executeAll_consText (out : Rendering Value) (content : String) (rest : List Instr) :
    executeAll services scene out (consText content rest) =
      executeAll services scene (out.push content) rest := by
  unfold consText
  split
  · rename_i more others
    show executeAll services scene (out.push (content ++ more)) others = _
    rw [Rendering.push_append]
    rfl
  · split
    · rename_i hEmpty
      rw [hEmpty, Rendering.push_empty]
    · rfl

/-- Joining adjacent texts does not change what is rendered. -/
theorem executeAll_mergeTexts (out : Rendering Value) (instrs : List Instr) :
    executeAll services scene out (mergeTexts instrs) = executeAll services scene out instrs := by
  induction instrs generalizing out with
  | nil => rfl
  | cons instr rest ih =>
      have hCons : executeAll services scene out (instr :: mergeTexts rest) =
          executeAll services scene out (instr :: rest) := by
        rw [executeAll_cons, executeAll_cons]
        refine bind_congr fun progress => ?_
        obtain ⟨flow, out⟩ := progress
        cases flow <;> first | exact ih out | rfl
      cases instr with
      | text content => rw [mergeTexts, executeAll_consText, ih]; rfl
      | _ => exact hCons

theorem executeAll_parts (out : Rendering Value) (line : List Quoted) (rest : List Instr) :
    executeAll services scene out (line.map Quoted.instr ++ rest) = (do
      let texts ← renderParts services scene out line
      executeAll services scene (out.push (String.join texts)) rest) := by
  induction line generalizing out with
  | nil =>
      rw [renderParts, pure_bind]
      exact congrArg (executeAll services scene · rest) (Rendering.push_empty out).symm
  | cons part others ih =>
      rw [List.map_cons, List.cons_append, executeAll_cons, execute_instr, bind_map_left,
        renderParts, bind_assoc]
      refine bind_congr fun text => ?_
      simp only [ih, bind_assoc, pure_bind, String.join_cons, Rendering.push_append]

/-- Lines are rendered part by part. -/
theorem executeAll_lines (out : Rendering Value) (lines : List (List Quoted)) :
    executeAll services scene out (lines.flatMap lineInstrs) =
      (fun texts => (.normal, out.push (String.join texts))) <$>
        renderLines services scene out lines := by
  induction lines generalizing out with
  | nil =>
      rw [renderLines, map_pure]
      exact congrArg (fun out => pure (Flow.normal, out)) (Rendering.push_empty out).symm
  | cons line rest ih =>
      rw [List.flatMap_cons, lineInstrs, List.append_assoc, executeAll_parts, renderLines, map_bind]
      refine bind_congr fun texts => ?_
      show executeAll services scene ((out.push (String.join texts)).push "\n")
        (rest.flatMap lineInstrs) = _
      rw [← Rendering.push_append, ih, map_bind, map_eq_pure_bind]
      simp only [map_pure, String.join_cons, Rendering.push_append]

end Rendering

/-! ## Whole templates -/

/-- Defining variables never fails. -/
theorem Run.defineAll_ok (frame : FrameId) (entries : List (String × Value)) (setting : Setting)
    (before : Store) : ∃ after, Run.defineAll frame entries setting before = .ok () after := by
  induction entries generalizing before with
  | nil => exact ⟨before, rfl⟩
  | cons entry rest ih => exact ih _

/-- Compiling a template whose program takes no parameters succeeds when its text is read. -/
theorem Template.compile_ok {text : String} {body : List Instr}
    (h : Program.read (normalizeText text.toList) = .ok ⟨[], body⟩) (builder : Services)
    (name : String) (globals : List (String × Value)) (escape : Option Escape)
    (setting : Setting) (before : Store) :
    ∃ frame after, compile builder text name globals escape setting before =
      .ok ⟨name, ⟨[], body⟩, [], escape.getD (.ofName name), frame⟩ after := by
  obtain ⟨after, hAfter⟩ := Run.defineAll_ok before.frames.next globals setting
    { before with frames := before.frames.child Store.builtinFrame }
  refine ⟨before.frames.next, after, ?_⟩
  rw [compile_eq, h]
  show EStateM.bind (Run.defineAll before.frames.next globals setting) _ _ = _
  rw [EStateM.bind, hAfter]
  rfl

/-- A run of a template ends with what its body renders in the frame of the run. -/
theorem Template.exists_of_run_eq_ok {inner : Option Services} {template : Template Value}
    {extras : List (String × Value)} {arguments : Arguments} {setting : Setting}
    {before after : Store} {record : Rendering Value}
    (h : template.run inner extras arguments setting before = .ok record after) :
    ∃ services frame store flow out, inner = some services ∧
      executeAll services ⟨frame, [], template.escape⟩ .empty template.program.body setting store =
        .ok (flow, out) after ∧ record = out.fold := by
  cases inner with
  | none => cases h
  | some services =>
      obtain ⟨bound, _, _, h⟩ := Run.exists_of_bind_eq_ok h
      obtain ⟨frame, _, _, h⟩ := Run.exists_of_bind_eq_ok h
      obtain ⟨_, _, _, h⟩ := Run.exists_of_bind_eq_ok h
      obtain ⟨_, store, _, h⟩ := Run.exists_of_bind_eq_ok h
      obtain ⟨⟨flow, out⟩, _, hBody, h⟩ := Run.exists_of_bind_eq_ok h
      cases h
      exact ⟨services, frame, store, flow, out, rfl, hBody, rfl⟩

/-- Lines of literals and code are compiled to just these, and a run renders the literals unchanged
and in the place of each code the text of its value. -/
theorem quoted_text_is_exact {lines : List (List Quoted)} (hLines : lines ≠ [])
    (hSigil : ¬ ['\\', '$'] <:+: writeText lines)
    (hEnd : ∀ line ∈ lines, (line.flatMap Quoted.write).getLast? ≠ some '\\')
    (hReturn : '\r' ∉ writeText lines) (hMark : (writeText lines).head? ≠ some '\uFEFF')
    (builder : Services) (name : String) (globals : List (String × Value))
    (escape : Option Escape) (setting : Setting) (before : Store) :
    ∃ template after,
      Template.compile builder (String.ofList (writeText lines)) name globals escape setting
        before = .ok template after ∧
      template.program = ⟨[], mergeTexts (lines.flatMap lineInstrs)⟩ ∧
      IsMerged template.program.body ∧
      ∀ inner extras arguments setting' before' record after',
        template.run inner extras arguments setting' before' = .ok record after' →
        ∃ services frame store texts, inner = some services ∧
          renderLines services ⟨frame, [], template.escape⟩ .empty lines setting' store =
            .ok texts after' ∧
          record.text = String.join texts := by
  have hProgram := Program.read_writeText hEnd
  rw [← normalizeText_writeText hLines hSigil hReturn hMark,
    ← @String.toList_ofList (writeText lines)] at hProgram
  obtain ⟨frame, after, hCompile⟩ :=
    Template.compile_ok hProgram builder name globals escape setting before
  refine ⟨_, after, hCompile, rfl, isMerged_mergeTexts _, ?_⟩
  intro inner extras arguments setting' before' record after' hRun
  obtain ⟨services, runFrame, store, flow, out, hInner, hBody, rfl⟩ :=
    Template.exists_of_run_eq_ok hRun
  rw [executeAll_mergeTexts, executeAll_lines] at hBody
  obtain ⟨texts, hTexts, hOut⟩ := Run.exists_of_map_eq_ok hBody
  refine ⟨services, runFrame, store, texts, hInner, hTexts, ?_⟩
  cases hOut
  simp

theorem tokens_x : strictTokens ['x'] = .ok [⟨.name, ['x'], 0⟩] := by
  have hName : lexeme .strict ['x'] = some (.name, 1) := rfl
  have hEnd : scanFrom .strict 1 [] = ⟨[], none⟩ := by rw [scanFrom]
  have hScan : scanFrom .strict 0 ['x'] = ⟨[⟨.name, ['x'], 0⟩], none⟩ := by
    rw [scanFrom, hName]
    show Scan.mk (_ :: (scanFrom .strict 1 []).tokens) (scanFrom .strict 1 []).openQuote = _
    rw [hEnd]
    rfl
  rw [strictTokens, scan, hScan]

/-- The code `x`. -/
def InlineCode.ofX : InlineCode where
  code := ['x']
  tokens := [⟨.name, ['x'], 0⟩]
  tree := .name "x"
  tokens_eq := tokens_x
  uncommented := by decide
  balanced := by decide
  oneLine := by decide
  tree_eq := (Reader.run_eq_ok tokens_x _).2 rfl

/-- Two lines with sigils and brackets in their literals. -/
def sampleLines : List (List Quoted) :=
  [[.literal "a$b (".toList (by decide), .expression .ofX true, .literal ".c".toList (by decide)],
    [.expression .ofX false, .literal ")".toList (by decide)]]

/-- The two lines are compiled to five instructions. -/
theorem sampleLines_exact : String.ofList (writeText sampleLines) = "a$$b ($(x).c\n$:(x))\n" ∧
    ∃ template after,
      Template.compile ⟨fun _ _ => pure .none, fun _ _ => pure .none⟩
        (String.ofList (writeText sampleLines)) "page.txt" [] none ⟨⟨[], [], []⟩, 9⟩ .initial =
        .ok template after ∧
      template.program = ⟨[], [.text "a$b (", .emit (.name "x") true, .text ".c\n",
        .emit (.name "x") false, .text ")\n"]⟩ := by
  refine ⟨by decide, ?_⟩
  have hLines : sampleLines ≠ [] := List.cons_ne_nil _ _
  have hSigil : ¬ ['\\', '$'] <:+: writeText sampleLines := by decide
  have hEnd : ∀ line ∈ sampleLines, (line.flatMap Quoted.write).getLast? ≠ some '\\' := by
    simp [sampleLines]
    decide
  obtain ⟨template, after, hCompile, hProgram, -⟩ :=
    quoted_text_is_exact hLines hSigil hEnd (by decide) (by decide)
      ⟨fun _ _ => pure .none, fun _ _ => pure .none⟩ "page.txt" [] none ⟨⟨[], [], []⟩, 9⟩ .initial
  exact ⟨template, after, hCompile, hProgram⟩

end Stencil
