import Stencil.Template
import Stencil.Proofs.Escaping
import Stencil.Proofs.Reserved

/-!
# Chunks of output

The text that a template renders is put together from chunks: literal text of the program, and the
texts of values. `trace` executes instructions as `execute` does and keeps account of the chunks, in
the order in which they are appended. Text that goes elsewhere, into fragments and into what
definitions and other templates render, is not in this account.

## Main results

* `trace_progress`: keeping the account changes nothing.
* `appends_trace`: the text is the chunks, one after another, and each of them comes from a step of
  the instructions.
* `Chunk.exists_literal`: where nothing is emitted raw, markup comes from literal text.
-/

namespace Stencil

/-! ## Chunks -/

/-- A piece of text that is appended to the output. -/
inductive Chunk where
  /-- Literal text of the program. -/
  | literal (content : String)
  /-- The text of a value, escaped or not, with the code that gave the value. -/
  | emitted (code : Expr) (value : Value) (escape : Bool)

namespace Chunk

/-- The text that the chunk appends. -/
def text (escape : Escape) : Chunk → String
  | literal content => content
  | emitted _ value true => escape.apply value.text
  | emitted _ value false => value.text

/-- The texts of chunks, one after another. -/
def joinTexts (escape : Escape) (chunks : List Chunk) : List Char :=
  chunks.flatMap fun chunk => (chunk.text escape).toList

/-- The chunk of a value. The absent value has none. -/
def ofValue (code : Expr) (value : Value) (escape : Bool) : List Chunk :=
  if value.isNone then [] else [emitted code value escape]

/-- The chunk is literal text of a step, or a step emits a value other than the absent one, which
its code gives. -/
def ComesFrom (services : Services) (steps : List Instr) : Chunk → Prop
  | literal content => .text content ∈ steps
  | emitted code value escape => .emit code escape ∈ steps ∧ value.isNone = false ∧
      ∃ scene out, MonadAttach.CanReturn (code.evaluate services scene out) value

/-- The character that stands between the two parts of the joined texts belongs to a literal. -/
def IsInLiteral (escape : Escape) (chunks : List Chunk) (before : List Char) (c : Char)
    (after : List Char) : Prop :=
  ∃ first content rest front back, chunks = first ++ literal content :: rest ∧
    content.toList = front ++ c :: back ∧ before = joinTexts escape first ++ front ∧
    after = back ++ joinTexts escape rest

theorem ComesFrom.mono {services : Services} {steps more : List Instr} {chunk : Chunk}
    (h : chunk.ComesFrom services steps) (hSteps : steps ⊆ more) :
    chunk.ComesFrom services more := by
  cases chunk with
  | literal content => exact hSteps h
  | emitted code value escape => exact ⟨hSteps h.1, h.2⟩

theorem joinTexts_append (escape : Escape) (first rest : List Chunk) :
    joinTexts escape (first ++ rest) = joinTexts escape first ++ joinTexts escape rest :=
  List.flatMap_append ..

/-- Markup in the texts of chunks that no raw output is among comes from a literal. -/
theorem exists_literal {chunks : List Chunk} {before after : List Char} {c : Char}
    (hRaw : ∀ code value, emitted code value false ∉ chunks)
    (h : joinTexts .html chunks = before ++ c :: after) (hMarkup : Escape.isMarkup c = true) :
    IsInLiteral .html chunks before c after := by
  induction chunks generalizing before with
  | nil => exact absurd h.symm (by simp [joinTexts])
  | cons chunk rest ih =>
      have hSplit : (chunk.text .html).toList ++ joinTexts .html rest = before ++ c :: after := h
      have hRest : ∀ code value, emitted code value false ∉ rest :=
        fun code value hMem => hRaw code value (List.mem_cons_of_mem _ hMem)
      have later {before : List Char} (hLater : joinTexts .html rest = before ++ c :: after) :
          IsInLiteral .html (chunk :: rest) ((chunk.text .html).toList ++ before) c after := by
        obtain ⟨first, content, last, front, back, hChunks, hContent, hBefore, hAfter⟩ :=
          ih hRest hLater
        refine ⟨chunk :: first, content, last, front, back, by rw [hChunks]; rfl, hContent, ?_,
          hAfter⟩
        show (chunk.text .html).toList ++ before = ((chunk.text .html).toList ++ _) ++ front
        rw [hBefore, List.append_assoc]
        rfl
      rcases List.append_eq_append_iff.1 hSplit with
        ⟨middle, rfl, hTail⟩ | ⟨middle, hFirst, hTail⟩
      · exact later hTail
      · cases middle with
        | nil =>
            have hLater : joinTexts .html rest = [] ++ c :: after := hTail.symm
            have hHere := later hLater
            rwa [hFirst, List.append_nil, List.append_nil] at hHere
        | cons d others =>
            obtain ⟨rfl, rfl⟩ := List.cons.inj hTail
            cases chunk with
            | literal content => exact ⟨[], content, rest, before, others, rfl, hFirst, rfl, rfl⟩
            | emitted code value escape =>
                cases escape with
                | false => exact absurd (List.mem_cons_self ..) (hRaw code value)
                | true =>
                    have hMem : c ∈ Escape.escapeHtml value.text.toList := by
                      have hText : (Chunk.text .html (emitted code value true)).toList =
                          Escape.escapeHtml value.text.toList := String.toList_ofList ..
                      rw [← hText, hFirst]
                      exact List.mem_append_right _ (List.mem_cons_self ..)
                    rw [Escape.not_isMarkup_of_mem_escapeHtml hMem] at hMarkup
                    cases hMarkup

end Chunk

/-! ## Execution with an account -/

/-- The progress of an execution, and the chunks that it appended. -/
abbrev Traced := Progress × List Chunk

/-- The same with these chunks before. -/
def Traced.after (chunks : List Chunk) (traced : Traced) : Traced := (traced.1, chunks ++ traced.2)

/-- Makes a pass for each item, with an account. -/
def traceEach (tracked : Bool) (pass : Loops → Value → Rendering Value → Run Traced)
    (loops : Loops) (out : Rendering Value) : List Value → Run Traced
  | [] => return ((.normal, out), [])
  | item :: rest => do
      let loops := if tracked then loops.advance else loops
      let ((flow, out), chunks) ← pass loops item out
      if flow.goesOn then Traced.after chunks <$> traceEach tracked pass loops out rest
      else return ((flow, out), chunks)

/-- Makes passes while a test holds, at most so many, with an account. -/
def traceWhile (test : Rendering Value → Run Bool) (pass : Rendering Value → Run Traced) :
    Nat → Rendering Value → Run Traced
  | 0, out => do
      let holds ← test out
      if holds then throw .unfinished else return ((.normal, out), [])
  | passes + 1, out => do
      let holds ← test out
      if holds then
        let ((flow, out), chunks) ← pass out
        if flow.goesOn then Traced.after chunks <$> traceWhile test pass passes out
        else return ((flow, out), chunks)
      else return ((.normal, out), [])

section Tracing

variable (services : Services)

mutual

/-- Executes an instruction with an account. -/
def trace (scene : Scene) (out : Rendering Value) : Instr → Run Traced
  | .text content => return ((.normal, out.push content), [.literal content])
  | .emit code escape => do
      let value ← code.evaluate services scene out
      return ((.normal, scene.emit out value escape), Chunk.ofValue code value escape)
  | .branch branches otherwise => do
      match ← traceBranches scene out branches with
      | some traced => return traced
      | none => traceOptional scene out otherwise
  | .forLoop target items body otherwise tracked => do
      let source ← items.evaluate services scene out
      let items ← source.items
      let loops := if tracked then scene.loops.enter items.length else scene.loops
      let pass := fun (loops : Loops) (item : Value) (out : Rendering Value) => do
        assign scene.frame item target
        traceAll { scene with loops } out body
      let ((flow, out), chunks) ← traceEach tracked pass loops out items
      match flow with
      | .normal => Traced.after chunks <$> traceOptional scene out otherwise
      | .returned value => return ((.returned value, out), chunks)
      | _ => return ((.normal, out), chunks)
  | .whileLoop test body otherwise => do
      let holds := fun out => Value.truthy <$> test.evaluate services scene out
      let passes := (← read).passes
      let ((flow, out), chunks) ← traceWhile holds (fun out => traceAll scene out body) passes out
      match flow with
      | .normal => Traced.after chunks <$> traceOptional scene out otherwise
      | .returned value => return ((.returned value, out), chunks)
      | _ => return ((.normal, out), chunks)
  | instr => (·, []) <$> execute services scene out instr

/-- Executes instructions in order, with an account. -/
def traceAll (scene : Scene) (out : Rendering Value) : List Instr → Run Traced
  | [] => return ((.normal, out), [])
  | instr :: rest => do
      let ((flow, out), chunks) ← trace scene out instr
      match flow with
      | .normal => Traced.after chunks <$> traceAll scene out rest
      | flow => return ((flow, out), chunks)

/-- Executes instructions that may be absent, with an account. -/
def traceOptional (scene : Scene) (out : Rendering Value) : Option (List Instr) → Run Traced
  | none => return ((.normal, out), [])
  | some body => traceAll scene out body

/-- Executes the body of the first branch whose test holds, with an account. -/
def traceBranches (scene : Scene) (out : Rendering Value) :
    List (Expr × List Instr) → Run (Option Traced)
  | [] => return none
  | (test, body) :: rest => do
      let test ← test.evaluate services scene out
      if test.truthy then some <$> traceAll scene out body
      else traceBranches scene out rest

end

/-! ### The account changes nothing -/

theorem traceEach_progress (tracked : Bool)
    (pass : Loops → Value → Rendering Value → Run Traced) (loops : Loops) (out : Rendering Value)
    (items : List Value) :
    Prod.fst <$> traceEach tracked pass loops out items =
      forEach tracked (fun loops item out => Prod.fst <$> pass loops item out) loops out items := by
  induction items generalizing loops out with
  | nil => exact map_pure ..
  | cons item rest ih =>
      rw [traceEach, forEach, map_bind, bind_map_left]
      refine bind_congr fun traced => ?_
      obtain ⟨⟨flow, out⟩, chunks⟩ := traced
      show Prod.fst <$> (if _ then _ else _) = if _ then _ else _
      cases flow.goesOn with
      | true =>
          show Prod.fst <$> (Traced.after chunks <$> _) = _
          rw [← comp_map]
          exact ih _ out
      | false => exact map_pure ..

theorem traceWhile_progress (test : Rendering Value → Run Bool)
    (pass : Rendering Value → Run Traced) (passes : Nat) (out : Rendering Value) :
    Prod.fst <$> traceWhile test pass passes out =
      whileHolds test (fun out => Prod.fst <$> pass out) passes out := by
  induction passes generalizing out with
  | zero =>
      rw [traceWhile, whileHolds, map_bind]
      refine bind_congr fun holds => ?_
      cases holds <;> rfl
  | succ passes ih =>
      rw [traceWhile, whileHolds, map_bind]
      refine bind_congr fun holds => ?_
      cases holds with
      | false => rfl
      | true =>
          show Prod.fst <$> (pass out >>= _) = (Prod.fst <$> pass out) >>= _
          rw [map_bind, bind_map_left]
          refine bind_congr fun traced => ?_
          obtain ⟨⟨flow, out⟩, chunks⟩ := traced
          show Prod.fst <$> (if _ then _ else _) = if _ then _ else _
          cases flow.goesOn with
          | true =>
              show Prod.fst <$> (Traced.after chunks <$> _) = _
              rw [← comp_map]
              exact ih out
          | false => rfl

/-- After a loop, the `else` is executed, or the flow is that of the loop. -/
theorem afterLoop_progress (scene : Scene) {otherwise : Option (List Instr)}
    (h : ∀ out, Prod.fst <$> traceOptional services scene out otherwise =
      executeOptional services scene out otherwise)
    {loop : Run Traced} {other : Run Progress} (hLoop : Prod.fst <$> loop = other) :
    Prod.fst <$> (do
      let ((flow, out), chunks) ← loop
      match flow with
      | .normal => Traced.after chunks <$> traceOptional services scene out otherwise
      | .returned value => return ((.returned value, out), chunks)
      | _ => return ((.normal, out), chunks)) = (do
      let (flow, out) ← other
      match flow with
      | .normal => executeOptional services scene out otherwise
      | .returned value => return (.returned value, out)
      | _ => return (.normal, out)) := by
  rw [← hLoop, map_bind, bind_map_left]
  refine bind_congr fun traced => ?_
  obtain ⟨⟨flow, out⟩, chunks⟩ := traced
  cases flow with
  | normal =>
      show Prod.fst <$> (Traced.after chunks <$> _) = _
      rw [← comp_map]
      exact h out
  | broke => rfl
  | continued => rfl
  | returned value => rfl

/-- What appends nothing of its own is executed as it is. -/
theorem map_fst_pair {α β : Type} (action : Run α) (b : β) :
    Prod.fst <$> (fun a => (a, b)) <$> action = action := by
  rw [← comp_map]
  exact id_map action

mutual

/-- An execution with an account is the execution. -/
theorem trace_progress (scene : Scene) (out : Rendering Value) : ∀ instr : Instr,
    Prod.fst <$> trace services scene out instr = execute services scene out instr
  | .text content => by
      rw [trace, execute, map_pure]
  | .emit code escape => by
      rw [trace, execute, map_bind]
      rfl
  | .branch branches otherwise => by
      rw [trace, execute, map_bind, ← traceBranches_progress scene out branches, bind_map_left]
      refine bind_congr fun found => ?_
      cases found with
      | none => exact traceOptional_progress scene out otherwise
      | some traced => rfl
  | .forLoop target items body otherwise tracked => by
      rw [trace, execute, map_bind]
      refine bind_congr fun source => ?_
      rw [map_bind]
      refine bind_congr fun items => ?_
      refine afterLoop_progress services scene
        (fun out => traceOptional_progress scene out otherwise) ?_
      rw [traceEach_progress]
      simp only [map_bind, traceAll_progress _ _ body]
  | .whileLoop test body otherwise => by
      rw [trace, execute, map_bind]
      refine bind_congr fun setting => ?_
      refine afterLoop_progress services scene
        (fun out => traceOptional_progress scene out otherwise) ?_
      rw [traceWhile_progress]
      simp only [traceAll_progress _ _ body]
  | .execute _ => map_fst_pair _ _
  | .define .. => map_fst_pair _ _
  | .setVar .. => map_fst_pair _ _
  | .setFragment .. => map_fst_pair _ _
  | .breakLoop => map_fst_pair _ _
  | .continueLoop => map_fst_pair _ _
  | .returnValue _ => map_fst_pair _ _

theorem traceAll_progress (scene : Scene) (out : Rendering Value) : ∀ instrs : List Instr,
    Prod.fst <$> traceAll services scene out instrs = executeAll services scene out instrs
  | [] => by
      rw [traceAll, executeAll, map_pure]
  | instr :: rest => by
      rw [traceAll, executeAll, map_bind, ← trace_progress scene out instr, bind_map_left]
      refine bind_congr fun traced => ?_
      obtain ⟨⟨flow, out⟩, chunks⟩ := traced
      cases flow with
      | normal =>
          show Prod.fst <$> (Traced.after chunks <$> _) = _
          rw [← comp_map]
          exact traceAll_progress scene out rest
      | broke => rfl
      | continued => rfl
      | returned value => rfl

theorem traceOptional_progress (scene : Scene) (out : Rendering Value) :
    ∀ body : Option (List Instr),
    Prod.fst <$> traceOptional services scene out body = executeOptional services scene out body
  | none => by
      rw [traceOptional, executeOptional, map_pure]
  | some body => by
      rw [traceOptional, executeOptional]
      exact traceAll_progress scene out body

theorem traceBranches_progress (scene : Scene) (out : Rendering Value) :
    ∀ branches : List (Expr × List Instr),
    Option.map Prod.fst <$> traceBranches services scene out branches =
      executeBranches services scene out branches
  | [] => by
      rw [traceBranches, executeBranches, map_pure]
      rfl
  | (test, body) :: rest => by
      rw [traceBranches, executeBranches, map_bind]
      refine bind_congr fun holds => ?_
      cases holds.truthy with
      | true =>
          show Option.map Prod.fst <$> (some <$> _) = some <$> _
          rw [← traceAll_progress scene out body, ← comp_map, ← comp_map]
          rfl
      | false => exact traceBranches_progress scene out rest

end

/-! ### The text is the chunks -/

/-- The text afterwards is the text before and the chunks behind it, and each chunk comes from one
of the steps. -/
structure Appends (escape : Escape) (steps : List Instr) (out : Rendering Value)
    (traced : Traced) : Prop where
  text : traced.1.2.text.toList = out.text.toList ++ Chunk.joinTexts escape traced.2
  source : ∀ chunk ∈ traced.2, chunk.ComesFrom services steps

variable {services} {escape : Escape} {steps more : List Instr} {out out' : Rendering Value}
  {flow : Flow} {chunks : List Chunk} {traced : Traced}

theorem Appends.nothing (h : out'.text = out.text) :
    Appends services escape steps out ((flow, out'), []) := by
  refine ⟨?_, fun chunk hChunk => absurd hChunk (List.not_mem_nil)⟩
  show out'.text.toList = out.text.toList ++ []
  rw [h, List.append_nil]

theorem Appends.mono (h : Appends services escape steps out traced) (hSteps : steps ⊆ more) :
    Appends services escape more out traced :=
  ⟨h.text, fun chunk hChunk => (h.source chunk hChunk).mono hSteps⟩

theorem Appends.withFlow (h : Appends services escape steps out ((flow, out'), chunks))
    (flow' : Flow) : Appends services escape steps out ((flow', out'), chunks) :=
  ⟨h.text, h.source⟩

/-- What is appended in two steps in a row. -/
theorem Appends.after (h : Appends services escape steps out ((flow, out'), chunks))
    (hNext : Appends services escape steps out' traced) :
    Appends services escape steps out (traced.after chunks) := by
  have hText : out'.text.toList = out.text.toList ++ Chunk.joinTexts escape chunks := h.text
  constructor
  · show traced.1.2.text.toList = _ ++ Chunk.joinTexts escape (chunks ++ traced.2)
    rw [Chunk.joinTexts_append, hNext.text, hText, List.append_assoc]
  · intro chunk hChunk
    rcases List.mem_append.1 hChunk with hChunk | hChunk
    · exact h.source chunk hChunk
    · exact hNext.source chunk hChunk

theorem Appends.literal (content : String) (out : Rendering Value) :
    Appends services escape [.text content] out
      ((.normal, out.push content), [.literal content]) := by
  constructor
  · simp [Chunk.joinTexts, Chunk.text]
  · intro chunk hChunk
    rw [List.mem_singleton.1 hChunk]
    exact List.mem_singleton_self _

theorem Appends.emitted {scene : Scene} {code : Expr} {value : Value}
    (h : MonadAttach.CanReturn (code.evaluate services scene out) value) (raw : Bool) :
    Appends services scene.escape [.emit code raw] out
      ((.normal, scene.emit out value raw), Chunk.ofValue code value raw) := by
  unfold Scene.emit Chunk.ofValue
  cases hNone : value.isNone with
  | true => exact .nothing rfl
  | false =>
      constructor
      · cases raw <;> simp [Chunk.joinTexts, Chunk.text]
      · intro chunk hChunk
        rw [List.mem_singleton.1 hChunk]
        exact ⟨List.mem_singleton_self _, hNone, scene, out, h⟩

theorem appends_traceEach {tracked : Bool} {pass : Loops → Value → Rendering Value → Run Traced}
    (hPass : ∀ loops item out,
      Ensures (Appends services escape steps out) (pass loops item out))
    (loops : Loops) (out : Rendering Value) (items : List Value) :
    Ensures (Appends services escape steps out) (traceEach tracked pass loops out items) := by
  induction items generalizing loops out with
  | nil => exact .pure (.nothing rfl)
  | cons item rest ih =>
      refine (hPass _ item out).bind fun traced hTraced => ?_
      obtain ⟨⟨flow, out'⟩, chunks⟩ := traced
      refine .ite (fun _ => .map ?_) fun _ => .pure hTraced
      exact (ih _ out').mono fun next hNext => hTraced.after hNext

theorem appends_traceWhile {test : Rendering Value → Run Bool}
    {pass : Rendering Value → Run Traced}
    (hPass : ∀ out, Ensures (Appends services escape steps out) (pass out))
    (passes : Nat) (out : Rendering Value) :
    Ensures (Appends services escape steps out) (traceWhile test pass passes out) := by
  induction passes generalizing out with
  | zero =>
      refine .andThen fun holds => .ite (fun _ => ?_) fun _ => .pure (.nothing rfl)
      rintro traced ⟨setting, before, after, h⟩
      cases h
  | succ passes ih =>
      refine .andThen fun holds => .ite (fun _ => ?_) fun _ => .pure (.nothing rfl)
      refine (hPass out).bind fun traced hTraced => ?_
      obtain ⟨⟨flow, out'⟩, chunks⟩ := traced
      refine .ite (fun _ => .map ?_) fun _ => .pure hTraced
      exact (ih out').mono fun next hNext => hTraced.after hNext

/-- After a loop, the `else` is executed, or nothing more. -/
theorem appends_afterLoop {scene : Scene} {otherwise : Option (List Instr)} {loop : Run Traced}
    (h : ∀ out, Ensures (Appends services escape steps out)
      (traceOptional services scene out otherwise))
    (hLoop : Ensures (Appends services escape steps out) loop) :
    Ensures (Appends services escape steps out) (do
      let ((flow, out), chunks) ← loop
      match flow with
      | .normal => Traced.after chunks <$> traceOptional services scene out otherwise
      | .returned value => return ((.returned value, out), chunks)
      | _ => return ((.normal, out), chunks)) := by
  refine hLoop.bind fun traced hTraced => ?_
  obtain ⟨⟨flow, out'⟩, chunks⟩ := traced
  cases flow with
  | normal => exact .map ((h out').mono fun next hNext => hTraced.after hNext)
  | broke => exact .pure (hTraced.withFlow _)
  | continued => exact .pure (hTraced.withFlow _)
  | returned value => exact .pure hTraced

theorem insert_text {r : Rendering Value} {name : String} (h : (name == bodyName) = false)
    (value : Value) : (r.insert name value).text = r.text := by
  rw [Rendering.insert, if_neg (beq_eq_false_iff_ne.1 h), Rendering.text_set]

/-- What sets no variable under the name of the text leaves the text as it is. -/
theorem appends_plain {scene : Scene} {instr : Instr}
    (h : Ensures (fun progress : Progress => progress.2.text = out.text)
      (execute services scene out instr)) :
    Ensures (Appends services escape steps out)
      ((·, []) <$> execute services scene out instr) :=
  .map (h.mono fun _ hText => .nothing hText)

mutual

/-- An instruction appends chunks that come from its steps. -/
theorem appends_trace (scene : Scene) (out : Rendering Value) : ∀ instr : Instr,
    (∀ step ∈ instr.steps, step.setsText = false) →
    Ensures (Appends services scene.escape instr.steps out) (trace services scene out instr)
  | .text content, _ => .pure (.literal content out)
  | .emit code raw, _ => by
      have hValue : Ensures (MonadAttach.CanReturn (code.evaluate services scene out))
          (code.evaluate services scene out) := fun _ hValue => hValue
      exact hValue.bind fun value hValue => .pure (.emitted hValue raw)
  | .branch branches otherwise, h => by
      rw [Instr.steps, List.forall_mem_append] at h
      rw [trace, Instr.steps]
      refine (appends_traceBranches scene out branches h.1).bind fun found hFound => ?_
      cases found with
      | some traced =>
          exact .pure ((hFound traced rfl).mono (List.subset_append_left ..))
      | none =>
          refine (appends_traceOptional scene out otherwise h.2).mono fun traced hTraced => ?_
          exact hTraced.mono (List.subset_append_right ..)
  | .forLoop target items body otherwise tracked, h => by
      rw [Instr.steps, List.forall_mem_append] at h
      rw [trace, Instr.steps]
      refine .andThen fun source => .andThen fun items => appends_afterLoop (fun out => ?_) ?_
      · refine (appends_traceOptional scene out otherwise h.2).mono fun traced hTraced => ?_
        exact hTraced.mono (List.subset_append_right ..)
      · refine appends_traceEach (fun loops item out => .andThen fun _ => ?_) _ out items
        refine (appends_traceAll { scene with loops } out body h.1).mono fun traced hTraced => ?_
        exact hTraced.mono (List.subset_append_left ..)
  | .whileLoop test body otherwise, h => by
      rw [Instr.steps, List.forall_mem_append] at h
      rw [trace, Instr.steps]
      refine .andThen fun setting => appends_afterLoop (fun out => ?_) ?_
      · refine (appends_traceOptional scene out otherwise h.2).mono fun traced hTraced => ?_
        exact hTraced.mono (List.subset_append_right ..)
      · refine appends_traceWhile (fun out => ?_) _ out
        refine (appends_traceAll scene out body h.1).mono fun traced hTraced => ?_
        exact hTraced.mono (List.subset_append_left ..)
  | .execute statement, _ => appends_plain (.andThen fun _ => .pure rfl)
  | .define .., _ => appends_plain (.andThen fun _ => .andThen fun _ => .pure rfl)
  | .setVar name value, h => by
      refine appends_plain (.andThen fun value => .pure ?_)
      exact insert_text (h _ (List.mem_singleton_self _)) value
  | .setFragment name body, h => by
      refine appends_plain (.andThen fun progress => ?_)
      obtain ⟨flow, fragment⟩ := progress
      have hText (value : Value) : (out.insert name value).text = out.text :=
        insert_text (h _ (List.mem_singleton_self _)) value
      cases flow with
      | returned value => exact .pure rfl
      | _ => exact .andThen fun text => .pure (hText text)
  | .breakLoop, _ => appends_plain (.pure rfl)
  | .continueLoop, _ => appends_plain (.pure rfl)
  | .returnValue value, _ => appends_plain (.andThen fun _ => .pure rfl)

theorem appends_traceAll (scene : Scene) (out : Rendering Value) : ∀ instrs : List Instr,
    (∀ step ∈ allSteps instrs, step.setsText = false) →
    Ensures (Appends services scene.escape (allSteps instrs) out)
      (traceAll services scene out instrs)
  | [], _ => .pure (.nothing rfl)
  | instr :: rest, h => by
      rw [allSteps, List.forall_mem_append] at h
      rw [traceAll, allSteps]
      refine (appends_trace scene out instr h.1).bind fun traced hTraced => ?_
      have hTraced := hTraced.mono (List.subset_append_left _ (allSteps rest))
      obtain ⟨⟨flow, out'⟩, chunks⟩ := traced
      cases flow with
      | normal =>
          refine .map ((appends_traceAll scene out' rest h.2).mono fun next hNext => ?_)
          exact hTraced.after (hNext.mono (List.subset_append_right ..))
      | broke => exact .pure hTraced
      | continued => exact .pure hTraced
      | returned value => exact .pure hTraced

theorem appends_traceOptional (scene : Scene) (out : Rendering Value) :
    ∀ body : Option (List Instr), (∀ step ∈ optionalSteps body, step.setsText = false) →
    Ensures (Appends services scene.escape (optionalSteps body) out)
      (traceOptional services scene out body)
  | none, _ => .pure (.nothing rfl)
  | some body, h => by
      rw [traceOptional]
      exact appends_traceAll scene out body h

theorem appends_traceBranches (scene : Scene) (out : Rendering Value) :
    ∀ branches : List (Expr × List Instr),
    (∀ step ∈ branchSteps branches, step.setsText = false) →
    Ensures (fun found : Option Traced => ∀ traced ∈ found,
      Appends services scene.escape (branchSteps branches) out traced)
      (traceBranches services scene out branches)
  | [], _ => .pure fun traced hTraced => absurd hTraced (Option.not_mem_none traced)
  | (test, body) :: rest, h => by
      rw [branchSteps, List.forall_mem_append] at h
      rw [traceBranches, branchSteps]
      refine .andThen fun holds => .ite (fun _ => .map ?_) fun _ => ?_
      · refine (appends_traceAll scene out body h.1).mono fun traced hTraced found hFound => ?_
        rw [← Option.some.inj hFound]
        exact hTraced.mono (List.subset_append_left ..)
      · refine (appends_traceBranches scene out rest h.2).mono fun found hFound traced hMem => ?_
        exact (hFound traced hMem).mono (List.subset_append_right ..)

end

end Tracing

end Stencil
