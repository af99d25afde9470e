import Stencil.Calling
import Stencil.Proofs.Chunks
import Stencil.Proofs.Quoting

/-!
# Escaped output

A template that is compiled for HTML renders a text whose only source of markup is the template
itself: its literal text, and the values that it emits raw. What values hold, and what the functions
and templates that are called render, comes in escaped.

## Main results

* `Template.map_trace`: running with an account of the chunks is running.
* `markup_comes_from_literals`: the rendered text is its chunks, and markup comes from literals when
  nothing is emitted raw.
-/

namespace Stencil

/-- Runs a template with an account of the chunks of its text. -/
def Template.trace (inner : Option Services) (template : Template Value)
    (extras : List (String × Value)) (arguments : Arguments) :
    Run (Rendering Value × List Chunk) :=
  match inner with
  | none => Run.fault (.value .callDepth)
  | some services => do
      let bound ← bindParameters template.name template.program.parameters template.defaults
        arguments
      let frame ← Run.openFrame template.frame
      Run.defineAll frame extras
      Run.defineAll frame bound
      let ((_, out), chunks) ← traceAll services ⟨frame, [], template.escape⟩ .empty
        template.program.body
      return (out.fold, chunks)

/-- The account changes nothing. -/
theorem Template.map_trace (inner : Option Services) (template : Template Value)
    (extras : List (String × Value)) (arguments : Arguments) :
    Prod.fst <$> template.trace inner extras arguments =
      template.run inner extras arguments := by
  cases inner with
  | none => rfl
  | some services =>
      rw [trace, run, map_bind]
      refine bind_congr fun bound => ?_
      rw [map_bind]
      refine bind_congr fun frame => ?_
      rw [map_bind]
      refine bind_congr fun _ => ?_
      rw [map_bind]
      refine bind_congr fun _ => ?_
      rw [map_bind, ← traceAll_progress, bind_map_left]
      rfl

/-- The program of a template that was compiled sets no variable under the name of the text. -/
theorem Template.leavesText_compile (services : Services) (text name : String)
    (globals : List (String × Value)) (escape : Option Escape) :
    Ensures (fun template : Template Value => LeavesText template.program.body)
      (compile services text name globals escape) := by
  unfold compile
  cases hRead : Program.read (normalizeText text.toList) with
  | error fault =>
      rintro template ⟨setting, before, after, h⟩
      cases h
  | ok program =>
      have hProgram : Ensures (fun program : Program => LeavesText program.body)
          (pure program : Run Program) := .pure (Program.leavesText_read _ program hRead)
      exact hProgram.bind fun program hProgram =>
        .andThen fun frame => .andThen fun _ => .andThen fun defaults => .pure hProgram

/-- The text of a run is its chunks. -/
theorem Template.appends_trace {services : Services} {template : Template Value}
    (h : LeavesText template.program.body) (extras : List (String × Value))
    (arguments : Arguments) :
    Ensures (fun result : Rendering Value × List Chunk =>
      result.1.text.toList = Chunk.joinTexts template.escape result.2 ∧
      ∀ chunk ∈ result.2, chunk.ComesFrom services (allSteps template.program.body))
      (template.trace (some services) extras arguments) := by
  refine .andThen fun bound => .andThen fun frame => .andThen fun _ => .andThen fun _ => ?_
  refine (appends_traceAll ⟨frame, [], template.escape⟩ .empty _ h).bind fun traced hTraced => ?_
  refine .pure ⟨?_, hTraced.source⟩
  rw [Rendering.text_fold, hTraced.text, Rendering.text_empty]
  rfl

/-- The text that a template renders is the concatenation of its chunks, in the order in which they
are appended. When the template is compiled for HTML and emits nothing raw, every angle bracket and
every quote in the text stands in a literal of the program. Escaping a text leaves no such character
in it, and no ampersand that does not start an entity, and loses nothing. -/
theorem markup_comes_from_literals {builder : Services} {text name : String}
    {globals : List (String × Value)} {escape : Option Escape} {template : Template Value}
    {setting setting' : Setting} {before before' after after' : Store} {inner : Option Services}
    {extras : List (String × Value)} {arguments : Arguments} {record : Rendering Value}
    (hCompile : Template.compile builder text name globals escape setting before =
      .ok template after)
    (hHtml : template.escape = .html)
    (hRun : template.run inner extras arguments setting' before' = .ok record after') :
    (∃ services chunks, inner = some services ∧
      template.trace inner extras arguments setting' before' = .ok (record, chunks) after' ∧
      record.text.toList = Chunk.joinTexts .html chunks ∧
      (∀ chunk ∈ chunks, chunk.ComesFrom services (allSteps template.program.body)) ∧
      ((∀ code, Instr.emit code false ∉ allSteps template.program.body) →
        ∀ front c back, record.text.toList = front ++ c :: back → Escape.isMarkup c = true →
          Chunk.IsInLiteral .html chunks front c back)) ∧
    ∀ text : List Char,
      (∀ c ∈ Escape.escapeHtml text, Escape.isMarkup c = false) ∧
      (∀ front back, Escape.escapeHtml text = front ++ '&' :: back →
        ∃ entry ∈ Escape.entities, entry.2 <+: '&' :: back) ∧
      Escape.unescapeHtml (Escape.escapeHtml text) = text := by
  refine ⟨?_, fun text => ⟨fun c => Escape.not_isMarkup_of_mem_escapeHtml,
    fun front back => Escape.exists_entity_of_ampersand, Escape.unescapeHtml_escapeHtml text⟩⟩
  have hLeaves : LeavesText template.program.body :=
    Template.leavesText_compile builder text name globals escape template
      ⟨setting, before, after, hCompile⟩
  rw [← Template.map_trace] at hRun
  obtain ⟨⟨record, chunks⟩, hTrace, rfl⟩ := Run.exists_of_map_eq_ok hRun
  cases inner with
  | none => cases hTrace
  | some services =>
      obtain ⟨hText, hSource⟩ := Template.appends_trace hLeaves extras arguments (record, chunks)
        ⟨setting', before', after', hTrace⟩
      rw [hHtml] at hText
      refine ⟨services, chunks, rfl, hTrace, hText, hSource,
        fun hRaw front c back hSplit hMarkup => ?_⟩
      refine Chunk.exists_literal (fun code value hMem => ?_) (hText ▸ hSplit) hMarkup
      exact hRaw code (hSource _ hMem).1

/-! ### A page with one value -/

namespace Page

def setting : Setting := ⟨⟨[], [], []⟩, 9⟩

def globals : List (String × Value) := [("x", .ofString "a<b")]

/-- A value between two tags. -/
def program : Program := ⟨[], [.text "<b>", .emit (.name "x") true, .text "</b>\n"]⟩

def template : Template Value := ⟨"page.html", program, [], .html, 1⟩

/-- What is stored when the page is compiled. -/
def store : Store :=
  ((Template.prepare .standard "page.html" program globals .html).perform setting .initial).2

def lines : List (List Quoted) :=
  [[.literal "<b>".toList (by decide), .expression .ofX true, .literal "</b>".toList (by decide)]]

theorem read_page : Program.read (normalizeText "<b>$(x)</b>\n".toList) = .ok program := by
  have hEnd : ∀ line ∈ lines, (line.flatMap Quoted.write).getLast? ≠ some '\\' := by
    simp only [lines, List.mem_singleton, forall_eq]
    decide
  exact Program.read_writeText hEnd

theorem compile_page :
    Template.compile .standard "<b>$(x)</b>\n" "page.html" globals none setting .initial =
      .ok template store := by
  rw [Template.compile_eq, read_page]
  rfl

end Page

/-- The angle brackets of the page come from its literals, and that of the value is escaped. -/
theorem markup_of_page : ∃ record after,
    Template.compile .standard "<b>$(x)</b>\n" "page.html" Page.globals none Page.setting .initial =
      .ok Page.template Page.store ∧
    Page.template.run Services.inner [] (.ofList []) Page.setting Page.store = .ok record after ∧
    record.text = "<b>a&lt;b</b>\n" ∧
    ∃ chunks, record.text.toList = Chunk.joinTexts .html chunks ∧
      ∀ front c back, record.text.toList = front ++ c :: back → Escape.isMarkup c = true →
        Chunk.IsInLiteral .html chunks front c back := by
  have hRun : ∃ record after,
      Page.template.run Services.inner [] (.ofList []) Page.setting Page.store =
        .ok record after ∧ record.text = "<b>a&lt;b</b>\n" := ⟨_, _, rfl, rfl⟩
  obtain ⟨record, after, hRun, hText⟩ := hRun
  refine ⟨record, after, Page.compile_page, hRun, hText, ?_⟩
  obtain ⟨⟨services, chunks, -, -, hChunks, -, hMarkup⟩, -⟩ :=
    markup_comes_from_literals Page.compile_page rfl hRun
  refine ⟨chunks, hChunks, hMarkup ?_⟩
  intro code
  simp [Page.template, Page.program, allSteps, Instr.steps]

end Stencil
