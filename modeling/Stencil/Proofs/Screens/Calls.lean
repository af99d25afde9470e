import Stencil.Proofs.Screens.Execution
import Stencil.Proofs.Session
import Stencil.Publishing

/-!
# Calls behind a screen

A call opens a frame inside that of the function or template that is called, and whatever may be
looked up there may be looked up in the new frame. What names of libraries lead to is remembered, or
looked up in the files. When all these steps have a property, then calls and attributes have it,
however deep calls are inside one another.

A library is made and set up with values that a run may come across. Where a counter may be made,
too, setting a library up has the property, and so has rendering its pages.

## Main results

* `View.CallRules.services`: calls and attributes have the property.
* `View.CallRules.resolve`: so has what a name of a library leads to.
* `View.CallRules.newRenderer`, `View.CallRules.applyAll`: making a library and setting it up have
  the property.
* `View.CallRules.render`: so has rendering a page.
-/

namespace Stencil

/-- The services for what happens at any depth of calls and of templates that are compiled. -/
def Services.within (calls : Option Nat) (loads : Nat) : Services :=
  servicesAbove (calls.map services) loads

/-- A name that does not lead down is refused before any file is looked at. -/
theorem Renderer.load_of_refused (services : Services) (renderer : Renderer Value) {name : String}
    {cause : Failure} (h : checkName name = .error cause) :
    renderer.load services name = Run.fail cause := by
  unfold load
  rw [h]
  rfl

namespace View

variable {W : Type} [Preorder W]

/-- Steps of calls that work on what a run may come across have the property. -/
structure CallRules (view : View W) (P : W → {α : Type} → [Renamable α] → Run α → Prop) : Prop
    extends view.CodeRules P where
  inNewFrame : ∀ {w : W} {α : Type} [Renamable α] {parent : FrameId} {next : FrameId → Run α},
    view.knows w parent →
    (∀ w', w ≤ w' → ∀ frame,
      (∀ names, view.Covers w parent names → view.Covers w' frame names) → P w' (next frame)) →
    P w (Run.openFrame parent >>= next)
  /-- A library that may be there may have the new memory. -/
  newCache : ∀ {w : W} {α : Type} [Renamable α] {next : Nat → Run α},
    (∀ w', w ≤ w' → ∀ memory,
      (∀ root cache counter, (view.screen w').serves root cache counter →
        (view.screen w').serves root (some memory) counter) → P w' (next memory)) →
    P w (Run.newCache >>= next)
  remembered? : ∀ {w : W} {root : String} {cache counter : Nat} (name : String),
    (view.screen w).serves root (some cache) counter → P w (Run.remembered? cache name)
  /-- Only names that lead down are remembered. -/
  remember : ∀ {w : W} {root : String} {cache counter : Nat} {name : String} {resolved : Resolved},
    (view.screen w).serves root (some cache) counter → checkName name = .ok () →
    view.Passes w resolved → P w (Run.remember cache name resolved)
  count : ∀ {w : W} {root : String} {cache : Option Nat} {counter : Nat},
    (view.screen w).serves root cache counter → P w (Run.count counter)
  locate : ∀ {w : W} {α : Type} [Renamable α] {root : String} {cache : Option Nat} {counter : Nat}
    {name : String} {next : Located → Run α}, (view.screen w).serves root cache counter →
    (∀ located, (∀ path, located = .directory path → (view.screen w).serves path cache counter) →
      P w (next located)) →
    P w (MonadReader.read >>= fun setting =>
      Run.ofResult (Renderer.locate setting.files root name) >>= next)
  /-- In the frame of the built-in functions, all names may be looked up. -/
  builtins : ∀ {w : W} (names : List String), view.Covers w Store.builtinFrame names

namespace CallRules

variable {view : View W} {P : W → {α : Type} → [Renamable α] → Run α → Prop} {w : W}

/-- The services for what happens inside, if there are any, have the property. -/
abbrev Inside (view : View W) (P : W → {α : Type} → [Renamable α] → Run α → Prop)
    (inner : Option Services) : Prop :=
  ∀ services ∈ inner, view.Obeyed P services

/-! ## Templates and functions -/

section Calls

variable {inner : Option Services} {loader services : Services}

/-- Running a template has the property. -/
theorem runTemplate (rules : view.CallRules P) (h : Inside view P inner) {template : Template Value}
    (hTemplate : view.Passes w template) {extras : List (String × Value)}
    (hExtras : view.Passes w extras) {arguments : Arguments}
    (hArguments : view.Passes w arguments) :
    P w (template.run inner extras arguments) := by
  cases inner with
  | none => exact rules.fault _
  | some services =>
      obtain ⟨hAdmits, hDefaults⟩ := hTemplate.template
      have hReads := rules.admits.1 hAdmits
      refine rules.bind (rules.liftFault (hDefaults.bindParameters _ _ hArguments))
        fun w₁ h₁ bound hBound => rules.inNewFrame (view.knows_mono h₁ hReads.1)
          fun w₂ h₂ frame hFrame => ?_
      have hScene := hFrame _ (hReads.mono h₁)
      refine rules.bind (rules.defineAll frame (passes_mono (h₁.trans h₂) hExtras))
        fun w₃ h₃ _ _ => ?_
      refine rules.bind (rules.defineAll frame (passes_mono (h₂.trans h₃) hBound))
        fun w₄ h₄ _ _ => ?_
      have hScene : view.Covers w₄ (Scene.mk frame [] template.escape).frame
          (Instr.allReads template.program.body) := hScene.mono (h₃.trans h₄)
      exact rules.bind (rules.executeAll (h services rfl) template.program.body hScene rfl)
        fun _ _ _ hProgress => rules.pure hProgress.snd.fold

/-- Calling a function has the property. -/
theorem runClosure (rules : view.CallRules P) (h : Inside view P inner) {closure : Closure Value}
    (hAdmits : (view.screen w).admits closure.body closure.frame)
    (hDefaults : view.Passes w closure.defaults) {arguments : Arguments}
    (hArguments : view.Passes w arguments) : P w (closure.run inner arguments) := by
  cases inner with
  | none => exact rules.fault _
  | some services =>
      have hReads := rules.admits.1 hAdmits
      refine rules.bind (rules.liftFault (hDefaults.bindParameters _ _ hArguments))
        fun w₁ h₁ bound hBound => rules.inNewFrame (view.knows_mono h₁ hReads.1)
          fun w₂ h₂ frame hFrame => ?_
      have hScene := hFrame _ (hReads.mono h₁)
      refine rules.bind (rules.defineAll frame (passes_mono h₂ hBound)) fun w₃ h₃ _ _ => ?_
      have hScene : view.Covers w₃ (Scene.mk frame [] closure.escape).frame
          (Instr.allReads closure.body) := hScene.mono h₃
      refine rules.bind (rules.executeAll (h services rfl) closure.body hScene rfl)
        fun w₄ h₄ progress hProgress => ?_
      obtain ⟨flow, out⟩ := progress
      have hRendering : view.Passes w₄ (Value.ofRendering out) := hProgress.snd.ofRendering
      cases flow with
      | returned value =>
          cases value with
          | none =>
              cases closure.kind <;> first | exact rules.pure hRendering | exact rules.pure rfl
          | some value =>
              have hFlow : view.Passes w₄ (Flow.returned (some value)) := hProgress.fst
              have hValue : view.Passes w₄ (some value) := Flow.returned.inj hFlow
              cases closure.kind <;> exact rules.pure hValue.of_some
      | _ => cases closure.kind <;> first | exact rules.pure hRendering | exact rules.pure rfl

/-- Once its globals are defined, a program is made a template. That has the property, when the
frame of its globals is one in which its names may be looked up. -/
theorem finish (rules : view.CallRules P) (h : view.Obeyed P services) {program : Program}
    {frame : FrameId} (hReads : view.Covers w frame program.reads) (name : String)
    (escape : Escape) :
    P w (do
      let defaults ← evaluateDefaults services ⟨frame, [], escape⟩ .empty program.parameters
      return (⟨name, program, defaults, escape, frame⟩ : Template Value)) := by
  have hScene : view.Covers w (Scene.mk frame [] escape).frame (defaultReads program.parameters) :=
    hReads.left
  refine rules.bind (rules.evaluateDefaults h program.parameters hScene rfl)
    fun w' hLe defaults hDefaults => rules.pure ?_
  exact Screen.Passes.ofTemplate (rules.admits.2 (hReads.right.mono hLe)) hDefaults

/-- Compiling a template of a library has the property: its globals lie inside the frame of the
built-in functions. -/
theorem compile (rules : view.CallRules P) (h : view.Obeyed P services) (text name : String)
    {globals : List (String × Value)} (hGlobals : view.Passes w globals) (escape : Option Escape) :
    P w (Template.compile services text name globals escape) := by
  rw [Template.compile_eq]
  cases Program.read (normalizeText text.toList) with
  | error fault => exact rules.fail _
  | ok program =>
      refine rules.inNewFrame (rules.builtins []).1 fun w' hLe frame hFrame => ?_
      refine rules.bind (rules.defineAll frame (passes_mono hLe hGlobals)) fun w'' hLe' _ _ => ?_
      exact rules.finish h ((hFrame _ (rules.builtins program.reads)).mono hLe') name _

/-! ## Libraries -/

/-- What a name of a library leads to in the files has the property. -/
theorem load (rules : view.CallRules P) (h : view.Obeyed P services) {renderer : Renderer Value}
    (hRenderer : view.Passes w renderer) (name : String) :
    P w (renderer.load services name) := by
  obtain ⟨hServes, hGlobals, -⟩ := hRenderer.renderer
  rw [Renderer.load_eq]
  refine rules.locate hServes fun located hLocated => ?_
  cases located with
  | directory path =>
      rw [Renderer.enter]
      cases hCache : renderer.library.cache with
      | none =>
          rw [Option.mapM_none, pure_bind]
          have hChild := hRenderer.descend (hCache ▸ hLocated path rfl)
          exact rules.pure (congrArg Resolved.directory hChild)
      | some cache =>
          rw [Option.mapM_some, map_eq_pure_bind, bind_assoc]
          refine rules.newCache fun w' hLe memory hMemory => ?_
          rw [pure_bind]
          have hServes := hMemory path _ _ ((view.screen_mono hLe).2 path _ _ (hLocated path rfl))
          exact rules.pure
            (congrArg Resolved.directory ((passes_mono hLe hRenderer).descend hServes))
  | template text fileName =>
      refine rules.bind (rules.compile h text fileName hGlobals _) fun w₁ h₁ template hTemplate =>
        ?_
      have hServes := (view.screen_mono h₁).2 _ _ _ hServes
      refine rules.bind (rules.count hServes) fun w₂ h₂ _ _ => rules.pure ?_
      exact congrArg Resolved.template (passes_mono h₂ hTemplate)

/-- What a name of a library leads to has the property. -/
theorem resolve (rules : view.CallRules P) (h : view.Obeyed P services) {renderer : Renderer Value}
    (hRenderer : view.Passes w renderer) (name : String) :
    P w (renderer.resolve services name) := by
  have hServes := hRenderer.renderer.1
  unfold Renderer.resolve
  unfold Screen.Serves at hServes
  cases hCache : renderer.library.cache with
  | none => exact rules.load h hRenderer name
  | some cache =>
      rw [hCache] at hServes
      refine rules.bind (rules.remembered? name hServes) fun w₁ h₁ found hFound => ?_
      cases found with
      | some resolved => exact rules.pure hFound.of_some
      | none =>
          simp only
          cases hName : checkName name with
          | error cause =>
              rw [Renderer.load_of_refused services renderer hName]
              exact rules.fail cause
          | ok _ =>
              exact rules.bind (rules.load h (passes_mono h₁ hRenderer) name)
                fun _ h₂ _ hResolved =>
                  rules.remember ((view.screen_mono (h₁.trans h₂)).2 _ _ _ hServes) hName hResolved

/-- The template that a name leads to has the property. -/
theorem template (rules : view.CallRules P) (h : view.Obeyed P services)
    {renderer : Renderer Value} (hRenderer : view.Passes w renderer) (name : String) :
    P w (renderer.template services name) := by
  refine rules.bind (rules.resolve h hRenderer name) fun _ _ found hFound => ?_
  cases found with
  | template content => exact rules.pure (Resolved.template.inj hFound)
  | directory renderer => exact rules.fail _

/-- Rendering a page of a library has the property, with the layout around it. -/
theorem invoke (rules : view.CallRules P) (hInner : Inside view P inner)
    (h : view.Obeyed P services) {renderer : Renderer Value} (hRenderer : view.Passes w renderer)
    {leaf : Template Value} (hLeaf : view.Passes w leaf) {arguments : Arguments}
    (hArguments : view.Passes w arguments) :
    P w (renderer.invoke inner services leaf arguments) := by
  refine rules.bind (rules.runTemplate hInner hLeaf hRenderer.exposed hArguments)
    fun w₁ h₁ content hContent => ?_
  cases hLayout : renderer.layout with
  | none => exact rules.pure hContent
  | some layout =>
      have hOuter := (passes_mono h₁ hRenderer).renderer.2.2 layout hLayout
      refine rules.bind (rules.template h hOuter layout.name) fun w₂ h₂ page hPage => ?_
      have hPositional : view.Passes w₂ (Arguments.ofList [.ofRendering content]) :=
        congrArg Arguments.ofList ((passes_mono h₂ hContent).ofRendering.cons .nil)
      exact rules.runTemplate hInner hPage (passes_mono h₂ hOuter).exposed hPositional

/-! ## Services -/

theorem access (rules : view.CallRules P) (h : view.Obeyed P loader) {value : Value}
    (hValue : view.Passes w value) (name : String) : P w (accessWith loader value name) := by
  rw [accessWith_eq]
  cases hRenderer : value.renderer? with
  | none => exact rules.ofEvaluation (hValue.access name)
  | some content =>
      have hContent : view.Passes w content :=
        Screen.Passes.of_some (hRenderer ▸ hValue.renderer?)
      refine rules.bind (rules.resolve h hContent name) fun _ hLe found hFound => ?_
      cases found with
      | template leaf =>
          have hPage := (passes_mono hLe hContent).ofPage (Resolved.template.inj hFound) none
          exact rules.pure hPage
      | directory child =>
          have hChild : view.Passes _ child := Resolved.directory.inj hFound
          exact rules.pure (hChild.ofRenderer none)

theorem call (rules : view.CallRules P) (hInner : Inside view P inner)
    (hLoader : view.Obeyed P loader) {access : Value → String → Run Value}
    (hAccess : ∀ w value name, view.Passes w value → P w (access value name))
    {callback : Value → Value → Run Value} (hCallback : Rules.Callback view P callback)
    {value : Value} (hValue : view.Passes w value) {arguments : Arguments}
    (hArguments : view.Passes w arguments) :
    P w (callWith inner access callback loader value arguments) := by
  cases value with
  | builtin name mark => exact rules.builtin hCallback name hArguments
  | method receiver name mark =>
      have hMethod := hValue.receiver.callMethod name hArguments
      rw [callWith_method]
      cases receiver.text? with
      | none => exact rules.ofEvaluation hMethod
      | some text =>
          exact Rules.ite (rules.brace hAccess _ hArguments) (rules.ofEvaluation hMethod)
  | function closure mark =>
      exact rules.runClosure hInner hValue.closure.1 hValue.closure.2 hArguments
  | template content mark =>
      exact rules.map (rules.runTemplate hInner hValue.of_template .nil hArguments)
        fun _ _ hRendering => hRendering.ofRendering
  | page content leaf mark =>
      obtain ⟨hContent, hLeaf⟩ := hValue.of_page
      exact rules.map (rules.invoke hInner hLoader hContent hLeaf hArguments)
        fun _ _ hRendering => hRendering.ofRendering
  | _ => exact rules.fault _

theorem assemble (rules : view.CallRules P) (hInner : Inside view P inner)
    (hLoader : view.Obeyed P loader) : view.Obeyed P (Stencil.assemble inner loader) where
  call _ _ _ hValue hArguments := by
    refine rules.call hInner hLoader (fun _ _ name hValue => rules.access hLoader hValue name)
      (fun w function item hFunction hItem => ?_) hValue hArguments
    have hPositional : view.Passes w (Arguments.ofList [item]) :=
      congrArg Arguments.ofList (hItem.cons .nil)
    exact rules.call hInner hLoader (fun _ _ name hValue => rules.access hLoader hValue name)
      (fun _ _ _ _ _ => rules.fault _) hFunction hPositional
  access _ _ name hValue := rules.access hLoader hValue name

end Calls

theorem spent (rules : view.CallRules P) : view.Obeyed P Services.spent :=
  ⟨fun _ _ _ _ _ => rules.fault _, fun _ _ _ _ => rules.fault _⟩

/-- Calls and attributes have the property, however deep calls are inside one another. -/
theorem services (rules : view.CallRules P) (calls : Nat) :
    view.Obeyed P (Stencil.services calls) :=
  services_of_assemble rules.spent (fun _ _ hInner hLoader => rules.assemble hInner hLoader)
    (fun _ h =>
      { call := fun w value arguments hValue hArguments =>
          rules.passes fun loads => (h loads).call w value arguments hValue hArguments
        access := fun w value name hValue =>
          rules.passes fun loads => (h loads).access w value name hValue }) calls

/-- The services inside a call at the start of a run have the property. -/
theorem inner (rules : view.CallRules P) : Inside view P Services.inner :=
  fun services hServices => by
  obtain rfl : Stencil.services (callLimit - 1) = services := Option.some.inj hServices
  exact rules.services (callLimit - 1)

/-- Calls and attributes have the property at any depth. -/
theorem within (rules : view.CallRules P) (calls : Option Nat) (loads : Nat) :
    view.Obeyed P (Services.within calls loads) :=
  servicesAbove_of_assemble rules.spent (fun _ hLoader => rules.assemble (fun inside hInside => by
    cases calls with
    | none => cases hInside
    | some depth =>
        obtain rfl : Stencil.services depth = inside := Option.some.inj hInside
        exact rules.services depth) hLoader) loads

end CallRules

end View

/-! ## Setting libraries up -/

namespace View.CallRules

variable {W : Type} [Preorder W] {view : View W}
  {P : W → {α : Type} → [Renamable α] → Run α → Prop} {w : W}

/-- Making a renderer for a directory that is served has the property. -/
theorem newRenderer (rules : view.CallRules P) (hCounter : ∀ w', w ≤ w' → P w' Run.newCounter)
    {root : String}
    (hServes : ∀ w', w ≤ w' → ∀ cache counter, (view.screen w').serves root cache counter) :
    P w (Renderer.new root) :=
  rules.newCache fun w₁ h₁ cache _ => rules.bind (hCounter w₁ h₁) fun w₂ h₂ counter _ =>
    rules.pure (Renderer.passes_iff.2
      ⟨hServes w₂ (h₁.trans h₂) (some cache) counter, trivial, trivial⟩)

/-- A library without a memory, or with a new one. -/
theorem withCache (rules : view.CallRules P) {renderer : Renderer Value}
    (h : view.Passes w renderer)
    (hServes : ∀ w', w ≤ w' → ∀ cache counter,
      (view.screen w').serves renderer.library.root cache counter)
    (enabled : Bool) : P w (renderer.withCache enabled) := by
  have hChanged (w' : W) (hLe : w ≤ w') (cache : Option Nat) : view.Passes w'
      ({ renderer with library := { renderer.library with cache } } : Renderer Value) :=
    (passes_mono hLe h).descend (hServes w' hLe cache _)
  cases enabled with
  | true =>
      exact rules.newCache fun w' hLe cache _ => rules.pure (hChanged w' hLe (some cache))
  | false => exact rules.pure (hChanged w le_rfl none)

/-- Saying one more thing about a library has the property. -/
theorem configure (rules : view.CallRules P) {renderer : Renderer Value}
    (h : view.Passes w renderer) {configuration : Configuration Value}
    (hGlobal : ∀ name value, configuration = .global name value → view.Passes w value) :
    P w (configuration.apply renderer) := by
  obtain ⟨hServes, hGlobals, hLayout⟩ := Renderer.passes_iff.1 h
  cases configuration with
  | layout name => exact rules.pure (Renderer.passes_iff.2 ⟨hServes, hGlobals, hServes, hGlobals⟩)
  | escape filter => exact rules.pure (Renderer.passes_iff.2 ⟨hServes, hGlobals, hLayout⟩)
  | «global» name value =>
      refine rules.bind (rules.settle (hGlobal name value rfl)) fun w' hLe value hValue => ?_
      obtain ⟨hServes, hGlobals, hLayout⟩ := Renderer.passes_iff.1 (passes_mono hLe h)
      have hInserted := (passes_entries_iff.2 hGlobals).insert name hValue
      exact rules.pure (Renderer.passes_iff.2 ⟨hServes, passes_entries_iff.1 hInserted, hLayout⟩)
  | exposeAs name => exact rules.pure (Renderer.passes_iff.2 ⟨hServes, hGlobals, hLayout⟩)

/-- Saying several things about a library has the property. -/
theorem applyAll (rules : view.CallRules P) {configurations : List (Configuration Value)}
    (hGlobals : ∀ configuration ∈ configurations, ∀ name value,
      configuration = .global name value → view.Passes w value)
    {renderer : Renderer Value} (h : view.Passes w renderer) :
    P w (Configuration.applyAll renderer configurations) := by
  induction configurations generalizing w renderer with
  | nil => exact rules.pure h
  | cons first rest ih =>
      obtain ⟨hFirst, hRest⟩ := List.forall_mem_cons.1 hGlobals
      refine rules.bind (rules.configure h hFirst) fun w' hLe renderer hRenderer => ?_
      exact ih (fun configuration hMem name value hGlobal =>
        passes_mono hLe (hRest configuration hMem name value hGlobal)) hRenderer

/-- Rendering a page has the property. -/
theorem render (rules : view.CallRules P) {renderer : Renderer Value}
    (hRenderer : view.Passes w renderer) (name : String) {parameters : List (String × Value)}
    (hParameters : view.Passes w parameters) : P w (renderer.render name parameters) := by
  have hArguments : view.Passes w (Arguments.ofEntries parameters) :=
    Screen.Passes.nil.mkArguments hParameters
  refine rules.bind (rules.template (rules.services callLimit) hRenderer name)
    fun w' hLe leaf hLeaf => ?_
  exact rules.invoke rules.inner (rules.services callLimit) (passes_mono hLe hRenderer) hLeaf
    (passes_mono hLe hArguments)

end View.CallRules

end Stencil
