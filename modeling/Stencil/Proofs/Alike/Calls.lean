import Stencil.Proofs.Alike.Builtins
import Stencil.Proofs.Alike.Execution
import Stencil.Proofs.Isolation

/-!
# Calls that are alike

A function or a template that is called on arguments that are alike gives what is alike, however
deep the calls inside one another go: each call opens a frame on each side, and the two frames are
paired while its body is executed. Where names of libraries lead to is a parameter; libraries
without a memory compile on each side.

## Main results

* `alike_compile`: a text compiles to templates that are alike.
* `alike_load`: a library without a memory finds what is alike.
* `alike_services`: calls and attributes of what is alike are alike.
-/

namespace Stencil

variable {I : Invariant} {p q : Pairing}

/-! ## Templates and functions -/

instance : Renamable (Template Value) where
  rename ρ := Template.rename ρ
  of_agree h a b hab := by
    have hDefaults := Renamable.of_agree h a.defaults b.defaults
      (congrArg (fun t => t.defaults) hab)
    exact Template.rename_of_agree h hDefaults hab

/-- Templates that are alike have the same program, and frames that are paired. -/
structure Template.Twins (p : Pairing) (a b : Template Value) : Prop where
  name : b.name = a.name
  program : b.program = a.program
  escape : b.escape = a.escape
  defaults : Alike p a.defaults b.defaults
  follows : p.Permits a.program.body
  frame : p.frame b.frame = some a.frame

theorem Alike.template {a b : Template Value} (h : Alike p a b) : a.Twins p b := by
  have hProgram : a.program = b.program := congrArg (fun t => t.program) h
  have hFrame : p.left.frame a.program.body a.frame = p.right.frame a.program.body b.frame :=
    (congrArg (fun t => t.frame) h).trans (by rw [hProgram]; rfl)
  have hDefaults : Alike p a.defaults b.defaults :=
    congrArg (fun t : Template Value => t.defaults) h
  obtain ⟨hFollows, hPair⟩ := (p.frame_eq_iff _ _ _).1 hFrame
  exact ⟨(congrArg (fun t => t.name) h).symm, hProgram.symm,
    (congrArg (fun t => t.escape) h).symm, hDefaults, hFollows, hPair⟩

theorem Template.Twins.alike {a b : Template Value} (h : a.Twins p b) : Alike p a b := by
  obtain ⟨name, program, defaults, escape, frame⟩ := a
  obtain ⟨name', program', defaults', escape', frame'⟩ := b
  obtain ⟨hName, hProgram, hEscape, hDefaults, hFollows, hPair⟩ := h
  obtain rfl : name' = name := hName
  obtain rfl : program' = program := hProgram
  obtain rfl : escape' = escape := hEscape
  have hFrame := (p.frame_eq_iff program'.body frame frame').2 ⟨hFollows, hPair⟩
  show Template.rename p.left _ = Template.rename p.right _
  simp only [Template.rename, hFrame]
  exact congrArg (fun values => Template.mk _ _ values _ _) hDefaults

/-- Functions that are alike have the same body, and frames that are paired. -/
structure Closure.Twins (p : Pairing) (a b : Closure Value) : Prop where
  kind : b.kind = a.kind
  name : b.name = a.name
  parameters : b.parameters = a.parameters
  body : b.body = a.body
  escape : b.escape = a.escape
  defaults : Alike p a.defaults b.defaults
  follows : p.Permits a.body
  frame : p.frame b.frame = some a.frame

theorem Closure.twins {a b : Closure Value} (h : a.rename p.left = b.rename p.right) :
    a.Twins p b := by
  have hBody : a.body = b.body := congrArg (fun c => c.body) h
  have hFrame : p.left.frame a.body a.frame = p.right.frame a.body b.frame :=
    (congrArg (fun c => c.frame) h).trans (by rw [hBody]; rfl)
  have hDefaults : Alike p a.defaults b.defaults :=
    congrArg (fun c : Closure Value => c.defaults) h
  obtain ⟨hFollows, hPair⟩ := (p.frame_eq_iff _ _ _).1 hFrame
  exact ⟨(congrArg (fun c => c.kind) h).symm, (congrArg (fun c => c.name) h).symm,
    (congrArg (fun c => c.parameters) h).symm, hBody.symm, (congrArg (fun c => c.escape) h).symm,
    hDefaults, hFollows, hPair⟩

theorem Alike.fold {out out' : Rendering Value} (h : Alike p out out') :
    Alike p out.fold out'.fold :=
  h.apply fun ρ _ r => Rendering.fold_rename ρ r

theorem Alike.bindParameters (function : String) (parameters : List Parameter)
    {defaults defaults' : List (Option Value)} (h : Alike p defaults defaults')
    {arguments arguments' : Arguments} (hArguments : Alike p arguments arguments') :
    Alike p (Stencil.bindParameters function parameters defaults arguments)
      (Stencil.bindParameters function parameters defaults' arguments') :=
  (h.pair hArguments).apply (f := fun x => Stencil.bindParameters function parameters x.1 x.2)
    fun ρ _ x => bindParameters_rename ρ function parameters x.1 x.2

section Calls

variable {inner : Option Services} (hInner : ∀ services ∈ inner, services.Alike I p)
include hInner

theorem alike_runTemplate {template template' : Template Value}
    (hTemplate : Alike p template template') {extras extras' : List (String × Value)}
    (hExtras : Alike p extras extras') {arguments arguments' : Arguments}
    (hArguments : Alike p arguments arguments') :
    Run.Alike I p (template.run inner extras arguments)
      (template'.run inner extras' arguments') := by
  cases inner with
  | none => exact .fault _
  | some services =>
      have hTwins := hTemplate.template
      rw [Template.run, Template.run]
      simp only [hTwins.name, hTwins.program, hTwins.escape]
      refine (Run.Alike.liftFault (Alike.bindParameters _ _ hTwins.defaults hArguments)).bind
        fun q hq bound bound' hBound => ?_
      refine .inNewFrame (hq.frame _ _ hTwins.frame) fun r hr i j hPair hOpen => ?_
      have hqr := hq.trans hr
      refine (Run.Alike.defineAll hPair hOpen (hExtras.mono hqr)).bind fun u hu _ _ _ => ?_
      have hOpen' : ¬ u.isSealed i := fun hSealed => hOpen (hu.stays i j hPair hSealed)
      have hPair' := hu.frame i j hPair
      refine (Run.Alike.defineAll hPair' hOpen' (hBound.mono (hr.trans hu))).bind
        fun v hv _ _ _ => ?_
      have hpv := hqr.trans (hu.trans hv)
      have hScene : Scene.AlikeOpen v ⟨i, [], template.escape⟩ ⟨j, [], template.escape⟩ :=
        ⟨⟨hv.frame i j hPair', rfl, rfl⟩, fun hSealed => hOpen' (hv.stays i j hPair' hSealed)⟩
      exact (alike_executeAll ((hInner services rfl).mono hpv) hScene template.program.body .empty
        .empty rfl (hTwins.follows.mono hpv.toExtends)).bind fun _ _ _ _ hProgress =>
          .pure hProgress.snd.fold

theorem alike_runClosure {closure closure' : Closure Value}
    (hClosure : closure.rename p.left = closure'.rename p.right)
    {arguments arguments' : Arguments} (hArguments : Alike p arguments arguments') :
    Run.Alike I p (closure.run inner arguments) (closure'.run inner arguments') := by
  cases inner with
  | none => exact .fault _
  | some services =>
      have hTwins := Closure.twins hClosure
      rw [Closure.run, Closure.run]
      simp only [hTwins.name, hTwins.parameters, hTwins.body, hTwins.escape, hTwins.kind]
      refine (Run.Alike.liftFault (Alike.bindParameters _ _ hTwins.defaults hArguments)).bind
        fun q hq bound bound' hBound => ?_
      refine .inNewFrame (hq.frame _ _ hTwins.frame) fun r hr i j hPair hOpen => ?_
      have hqr := hq.trans hr
      refine (Run.Alike.defineAll hPair hOpen (hBound.mono hr)).bind fun u hu _ _ _ => ?_
      have hpu := hqr.trans hu
      have hScene : Scene.AlikeOpen u ⟨i, [], closure.escape⟩ ⟨j, [], closure.escape⟩ :=
        ⟨⟨hu.frame i j hPair, rfl, rfl⟩, fun hSealed => hOpen (hu.stays i j hPair hSealed)⟩
      refine (alike_executeAll ((hInner services rfl).mono hpu) hScene closure.body .empty .empty
        rfl (hTwins.follows.mono hpu.toExtends)).bind fun v hv progress progress' hProgress => ?_
      obtain ⟨flow, out⟩ := progress
      obtain ⟨flow', out'⟩ := progress'
      have hFlow := hProgress.fst
      have hRendering : Alike v (Value.ofRendering out) (Value.ofRendering out') :=
        hProgress.snd.ofRendering
      cases flow <;> cases flow' <;> try cases hFlow
      · cases closure.kind <;> first | exact .pure hRendering | exact .pure rfl
      · cases closure.kind <;> first | exact .pure hRendering | exact .pure rfl
      · cases closure.kind <;> first | exact .pure hRendering | exact .pure rfl
      · rename_i value value'
        have hValue : Alike v value value' := Flow.returned.inj hFlow
        cases value with
        | none =>
            cases value' with
            | none => cases closure.kind <;> first | exact .pure hRendering | exact .pure rfl
            | some value' => cases hValue
        | some value =>
            cases value' with
            | none => cases hValue
            | some value' =>
                have hValue : Alike v value value' := Option.some.inj hValue
                cases closure.kind <;> exact .pure hValue

end Calls

/-! ## Compiling -/

/-- Can the pairing follow the program that a text compiles to? -/
def Pairing.FollowsText (p : Pairing) (text : String) : Prop :=
  ∀ program, Program.read (normalizeText text.toList) = .ok program →
    p.Follows program.testsIdentity

/-- Can the pairing follow the programs in all files? -/
def Pairing.FollowsFiles (p : Pairing) : Prop :=
  ∀ path text, p.setting.files.readText path = .ok text → p.FollowsText text

theorem Pairing.FollowsFiles.mono (h : p.FollowsFiles) (hLe : p ≤ q) : q.FollowsFiles := by
  intro path text hText program hProgram
  rw [hLe.setting] at hText
  exact (h path text hText program hProgram).mono hLe.toExtends

section Compiling

variable {services : Services} (h : services.Alike I p)
include h

/-- In frames that are paired a program is made into templates that are alike. -/
theorem alike_finish {program : Program} (hFollows : p.Follows program.testsIdentity)
    {i j : FrameId}
    (hPair : p.frame j = some i) (name : String) (escape : Escape) :
    Run.Alike I p
      (do
        let defaults ← evaluateDefaults services ⟨i, [], escape⟩ .empty program.parameters
        return (⟨name, program, defaults, escape, i⟩ : Template Value))
      (do
        let defaults ← evaluateDefaults services ⟨j, [], escape⟩ .empty program.parameters
        return ⟨name, program, defaults, escape, j⟩) := by
  obtain ⟨hParameters, hBody⟩ := Pairing.follows_or.1 hFollows
  have hScene : Scene.Alike p ⟨i, [], escape⟩ ⟨j, [], escape⟩ := ⟨hPair, rfl, rfl⟩
  have hEmpty : Alike p (Rendering.empty : Rendering Value) .empty := rfl
  refine (alike_evaluateDefaults h hScene hEmpty program.parameters hParameters).bind
    fun q hq defaults defaults' hDefaults => .pure ?_
  exact Template.Twins.alike ⟨rfl, rfl, rfl, hDefaults, hBody.mono hq.toExtends, hq.frame i j hPair⟩

/-- A text compiles to templates that are alike. -/
theorem alike_compile {text : String} (hFollows : p.FollowsText text) (name : String)
    {globals globals' : List (String × Value)} (hGlobals : Alike p globals globals')
    (hRoot : p.frame Store.builtinFrame = some Store.builtinFrame) (escape : Option Escape) :
    Run.Alike I p (Template.compile services text name globals escape)
      (Template.compile services text name globals' escape) := by
  rw [Template.compile_eq, Template.compile_eq]
  cases hRead : Program.read (normalizeText text.toList) with
  | error fault => exact .fail _
  | ok program =>
      refine .inNewFrame hRoot fun q hq i j hPair hOpen => ?_
      refine (Run.Alike.defineAll hPair hOpen (hGlobals.mono hq)).bind fun r hr _ _ _ => ?_
      have hpr := hq.trans hr
      exact alike_finish (h.mono hpr) ((hFollows program hRead).mono hpr.toExtends)
        (hr.frame i j hPair) name _

end Compiling

/-! ## Libraries -/

instance : Renamable (Renderer Value) where
  rename ρ := Renderer.rename ρ
  of_agree h a b hab := by
    have hLayout := congrArg (fun r => r.layout) hab
    exact Renderer.rename_of_agree h
      (Value.entries_of_agree h _ _ (congrArg (fun r => r.library.globals) hab))
      (Value.layout_of_agree h _ _ hLayout) hab

instance : Renamable Resolved where
  rename ρ resolved := match resolved with
    | .template content => .template (content.rename ρ)
    | .directory renderer => .directory (renderer.rename ρ)
  of_agree h a b hab := by
    cases a with
    | template a =>
        cases b with
        | template b =>
            have hab := Renamable.of_agree h a b (Resolved.template.inj hab)
            exact ⟨congrArg Resolved.template hab.1, congrArg Resolved.template hab.2⟩
        | directory b => cases hab
    | directory a =>
        cases b with
        | template b => cases hab
        | directory b =>
            have hab := Renamable.of_agree h a b (Resolved.directory.inj hab)
            exact ⟨congrArg Resolved.directory hab.1, congrArg Resolved.directory hab.2⟩

/-- Renderers that are alike have the same configuration. -/
structure Renderer.Twins (p : Pairing) (a b : Renderer Value) : Prop where
  root : b.library.root = a.library.root
  globals : Alike p a.library.globals b.library.globals
  escape : b.library.escape = a.library.escape
  exposedAs : b.library.exposedAs = a.library.exposedAs
  layout : a.layout.map (Layout.rename p.left) = b.layout.map (Layout.rename p.right)

theorem Alike.renderer {a b : Renderer Value} (h : Alike p a b) : a.Twins p b where
  root := (congrArg (fun r => r.library.root) h).symm
  globals := congrArg (fun r : Renderer Value => r.library.globals) h
  escape := (congrArg (fun r => r.library.escape) h).symm
  exposedAs := (congrArg (fun r => r.library.exposedAs) h).symm
  layout := congrArg (fun r => r.layout) h

theorem Alike.layout {a b : Layout Value} (h : a.rename p.left = b.rename p.right) :
    b.name = a.name ∧ Alike p (Renderer.ofLayout a) (Renderer.ofLayout b) := by
  refine ⟨(congrArg (fun l => l.name) h).symm, ?_⟩
  exact congrArg (fun l : Layout Value => (⟨l.library, Option.none⟩ : Renderer Value)) h

theorem Alike.ofRenderer {a b : Renderer Value} (h : Alike p a b) :
    Alike p (Value.renderer a Option.none) (Value.renderer b Option.none) := by
  show Value.rename _ _ = Value.rename _ _
  rw [Value.rename_renderer, Value.rename_renderer]
  exact congrArg (fun r => Value.renderer r Option.none) h

theorem Alike.ofPage {a b : Renderer Value} (h : Alike p a b) {leaf leaf' : Template Value}
    (hLeaf : Alike p leaf leaf') :
    Alike p (Value.page a leaf Option.none) (Value.page b leaf' Option.none) := by
  show Value.rename _ _ = Value.rename _ _
  rw [Value.rename_page, Value.rename_page]
  exact congrArg₂ (fun r t => Value.page r t Option.none) h hLeaf

theorem Alike.exposed {a b : Renderer Value} (h : Alike p a b) : Alike p a.exposed b.exposed := by
  have hTwins := h.renderer
  unfold Renderer.exposed
  rw [hTwins.exposedAs]
  cases a.library.exposedAs with
  | none => exact .nil
  | some name =>
      have hName : Alike p name name := rfl
      exact (hName.pair h.ofRenderer).cons .nil

/-- What a name leads to in the files. -/
inductive Located where
  | directory (path : String)
  /-- The text of a template, and the name that it is compiled under. -/
  | template (text fileName : String)

/-- Looks a name up in the files. -/
def Renderer.locate (files : Files) (root name : String) : Except Failure Located := do
  checkName name
  let path := Path.join root name
  if files.isDirectory path then return .directory path
  else
    match files.find? path with
    | none => throw (.lookup (.notFound name root))
    | some file => do
        let text ← files.readText file
        return .template text ((Path.relativeTo root file).map fun c => if c = '\\' then '/' else c)

/-- What is done with what a name leads to. -/
def Renderer.enter (services : Services) (renderer : Renderer Value) : Located → Run Resolved
  | .directory path => do
      let cache ← renderer.library.cache.mapM fun _ => Run.newCache
      return .directory { renderer with library := { renderer.library with root := path, cache } }
  | .template text fileName => do
      let template ← Template.compile services text fileName renderer.library.globals
        renderer.library.escape
      Run.count renderer.library.counter
      return .template template

theorem Renderer.load_eq (services : Services) (renderer : Renderer Value) (name : String) :
    renderer.load services name = (do
      let setting ← MonadReader.read
      let located ← Run.ofResult (locate setting.files renderer.library.root name)
      renderer.enter services located) := by
  funext setting store
  have hRead {α : Type} (next : Setting → Run α) :
      (MonadReader.read >>= next) setting store = next setting setting store := rfl
  have hFiles {α : Type} (next : Files → Run α) :
      (Run.files >>= next) setting store = next setting.files setting store := rfl
  rw [hRead]
  unfold load locate
  cases checkName name with
  | error cause => rfl
  | ok _ =>
      have hPure : (liftM (Except.ok () : Except Failure Unit) : Run Unit) = pure () := rfl
      simp only [hPure, pure_bind, hFiles, bind_ok]
      split
      · rfl
      · cases setting.files.find? (Path.join renderer.library.root name) with
        | none => rfl
        | some file =>
            simp only
            cases setting.files.readText file <;> rfl

theorem Renderer.load_apply (services : Services) (renderer : Renderer Value) (name : String)
    (setting : Setting) (store : Store) : renderer.load services name setting store =
      match locate setting.files renderer.library.root name with
      | .error cause => .error (.failure cause) store
      | .ok located => renderer.enter services located setting store := by
  rw [load_eq]
  have hRead {α : Type} (next : Setting → Run α) :
      (MonadReader.read >>= next) setting store = next setting setting store := rfl
  rw [hRead]
  cases locate setting.files renderer.library.root name <;> rfl

theorem Renderer.load_of_locate {services : Services} {renderer : Renderer Value} {name : String}
    {setting : Setting} {located : Located}
    (h : locate setting.files renderer.library.root name = .ok located) (store : Store) :
    renderer.load services name setting store = renderer.enter services located setting store := by
  rw [load_apply, h]

/-- The text of a template that is found is the text of a file. -/
theorem Renderer.locate_template {files : Files} {root name text fileName : String}
    (h : locate files root name = .ok (.template text fileName)) :
    ∃ path, files.readText path = .ok text := by
  unfold locate at h
  cases hName : checkName name with
  | error cause => simp [hName] at h
  | ok _ =>
      simp only [hName, bind_ok] at h
      split at h
      · simp at h
      · split at h
        · simp at h
        · rename_i path _
          cases hText : files.readText path with
          | error cause => simp [hText] at h
          | ok found =>
              simp only [hText, bind_ok, pure_eq_ok, Except.ok.injEq, Located.template.injEq] at h
              exact ⟨path, by rw [hText, h.1]⟩

/-- Renderers without a memory and with the same configuration are alike. -/
theorem Renderer.Twins.alike {a b : Renderer Value} (h : a.Twins p b)
    (hLeft : a.library.cache = none) (hRight : b.library.cache = none) : Alike p a b := by
  obtain ⟨⟨root, globals, escape, cache, exposedAs, counter⟩, layout⟩ := a
  obtain ⟨⟨root', globals', escape', cache', exposedAs', counter'⟩, layout'⟩ := b
  obtain rfl : root' = root := h.root
  obtain rfl : escape' = escape := h.escape
  obtain rfl : exposedAs' = exposedAs := h.exposedAs
  obtain rfl : cache = none := hLeft
  obtain rfl : cache' = none := hRight
  have hGlobals : Entries.rename p.left globals = Entries.rename p.right globals' := h.globals
  have hLayout : layout.map (Layout.rename p.left) = layout'.map (Layout.rename p.right) := h.layout
  show Renderer.rename p.left _ = Renderer.rename p.right _
  simp only [Renderer.rename, Library.rename, Library.renameWith, hGlobals, hLayout]
  rfl

/-- What a library without a memory finds is alike. -/
theorem alike_load {services : Services} (h : services.Alike I p) (hFollows : p.FollowsFiles)
    (hRoot : p.frame Store.builtinFrame = some Store.builtinFrame) {a b : Renderer Value}
    (hRenderer : Alike p a b) (hLeft : a.library.cache = none) (hRight : b.library.cache = none)
    (name : String) : Run.Alike I p (a.load services name) (b.load services name) := by
  have hTwins := hRenderer.renderer
  rw [Renderer.load_eq, Renderer.load_eq, hTwins.root]
  refine .read ?_
  cases hLocated : Renderer.locate p.setting.files a.library.root name with
  | error cause => exact .fail cause
  | ok located =>
      rw [Run.ofResult, pure_bind, pure_bind]
      cases located with
      | directory path =>
          simp only [Renderer.enter, hLeft, hRight, Option.mapM_none, pure_bind]
          refine .pure (congrArg Resolved.directory ?_)
          refine Renderer.Twins.alike ⟨rfl, hTwins.globals, hTwins.escape, hTwins.exposedAs,
            hTwins.layout⟩ rfl rfl
      | template text fileName =>
          obtain ⟨path, hText⟩ := Renderer.locate_template hLocated
          have hCompile := alike_compile h (hFollows path text hText) fileName hTwins.globals hRoot
            a.library.escape
          simp only [Renderer.enter, hTwins.escape]
          refine hCompile.bind fun q hq template template' hTemplate => ?_
          refine (Run.Alike.count _ _).bind fun r hr _ _ _ => .pure ?_
          exact congrArg Resolved.template (hTemplate.mono hr)

/-! ## Calling values -/

/-- What names of libraries lead to is alike. -/
def Services.ResolveAlike (I : Invariant) (p : Pairing) (services : Services) : Prop :=
  ∀ q, p ≤ q → ∀ a b : Renderer Value, Stencil.Alike q a b → ∀ name,
    Run.Alike I q (a.resolve services name) (b.resolve services name)

theorem Services.ResolveAlike.mono {services : Services} (h : services.ResolveAlike I p)
    (hLe : p ≤ q) : services.ResolveAlike I q :=
  fun r hr => h r (hLe.trans hr)

theorem alike_invoke {inner : Option Services} (hInner : ∀ services ∈ inner, services.Alike I p)
    {services : Services} (hResolve : services.ResolveAlike I p) {a b : Renderer Value}
    (hRenderer : Alike p a b) {leaf leaf' : Template Value} (hLeaf : Alike p leaf leaf')
    {arguments arguments' : Arguments} (hArguments : Alike p arguments arguments') :
    Run.Alike I p (a.invoke inner services leaf arguments)
      (b.invoke inner services leaf' arguments') := by
  refine (alike_runTemplate hInner hLeaf hRenderer.exposed hArguments).bind
    fun q hq content content' hContent => ?_
  have hLayout := hRenderer.renderer.layout
  cases hLeft : a.layout with
  | none =>
      cases hRight : b.layout with
      | none => exact .pure hContent
      | some layout => rw [hLeft, hRight] at hLayout; cases hLayout
  | some layout =>
      cases hRight : b.layout with
      | none => rw [hLeft, hRight] at hLayout; cases hLayout
      | some layout' =>
          rw [hLeft, hRight] at hLayout
          obtain ⟨hName, hOuter⟩ := Alike.layout (Option.some.inj hLayout)
          simp only [hName]
          have hPage : Run.Alike I q
              ((Renderer.ofLayout layout).template services layout.name)
              ((Renderer.ofLayout layout').template services layout.name) := by
            refine (hResolve q hq _ _ (hOuter.mono hq) layout.name).bind
              fun r hr found found' hFound => ?_
            cases found <;> cases found' <;> try cases hFound
            · exact .pure (Resolved.template.inj hFound)
            · exact .fail _
          refine hPage.bind fun r hr page page' hPage => ?_
          have hqr := hq.trans hr
          have hValue := (hContent.mono hr).ofRendering
          have hPositional : Alike r (Arguments.ofList [.ofRendering content])
              (Arguments.ofList [.ofRendering content']) :=
            congrArg Arguments.ofList (hValue.cons .nil)
          exact alike_runTemplate (fun inside hInside => (hInner inside hInside).mono hqr) hPage
            (hOuter.mono hqr).exposed hPositional

theorem accessWith_eq (loader : Services) (value : Value) (name : String) :
    accessWith loader value name = match value.renderer? with
      | some content => do
          match ← content.resolve loader name with
          | .template leaf => return .page content leaf none
          | .directory child => return .renderer child none
      | none => Run.ofEvaluation (value.access name) := by
  cases value <;> rfl

theorem alike_access {loader : Services} (hResolve : loader.ResolveAlike I p) {value twin : Value}
    (hValue : Alike p value twin) (name : String) :
    Run.Alike I p (accessWith loader value name) (accessWith loader twin name) := by
  have hRenderer : Option.map (Renderer.rename p.left) value.renderer? =
      Option.map (Renderer.rename p.right) twin.renderer? := by
    rw [← Value.renderer?_rename, ← Value.renderer?_rename]
    exact congrArg Value.renderer? hValue
  rw [accessWith_eq, accessWith_eq]
  cases hLeft : value.renderer? with
  | none =>
      cases hRight : twin.renderer? with
      | some content => rw [hLeft, hRight] at hRenderer; cases hRenderer
      | none =>
          exact .ofEvaluation (hValue.apply (f := fun x => x.access name)
            fun ρ _ x => Value.access_rename ρ x name)
  | some content =>
      cases hRight : twin.renderer? with
      | none => rw [hLeft, hRight] at hRenderer; cases hRenderer
      | some content' =>
          rw [hLeft, hRight] at hRenderer
          have hContent : Alike p content content' := Option.some.inj hRenderer
          refine (hResolve p le_rfl content content' hContent name).bind
            fun q hq found found' hFound => ?_
          cases found <;> cases found' <;> try cases hFound
          · exact .pure ((hContent.mono hq).ofPage (Resolved.template.inj hFound))
          · have hChild : Alike q _ _ := Resolved.directory.inj hFound
            exact .pure hChild.ofRenderer

/-- No library uses a memory, and no frame is sealed. -/
def Invariant.unremembered : Invariant where
  Holds p _ := (∀ c library layout, ¬ p.memory c library layout) ∧ ∀ i, ¬ p.isSealed i
  stable h _ hMemory hSame _ _ := by
    rw [hMemory, hSame]
    exact h

/-- Libraries that use no memory find what is alike. -/
theorem resolveAlike_unremembered {services : Services}
    (h : services.Alike .unremembered p) (hFollows : p.FollowsFiles)
    (hRoot : p.frame Store.builtinFrame = some Store.builtinFrame) :
    services.ResolveAlike .unremembered p := by
  intro q hq a b hRenderer name r hr s t hStores
  have hCache := congrArg (fun r : Renderer Value => r.library.cache)
    (show a.rename q.left = b.rename q.right from hRenderer)
  have hNone : a.library.cache = none ∧ b.library.cache = none := by
    simp only [Renderer.rename, Library.rename, Library.renameWith, Pairing.left, Pairing.right]
      at hCache
    cases hLeft : a.library.cache with
    | none =>
        rw [hLeft] at hCache
        cases hRight : b.library.cache with
        | none => exact ⟨rfl, rfl⟩
        | some c => rw [hRight] at hCache; cases hCache
    | some c =>
        have hMemory library layout : ¬ q.memory c library layout :=
          fun hUse => hStores.holds.1 c library layout (hr.memory c library layout hUse)
        rw [hLeft] at hCache
        cases hRight : b.library.cache <;> simp [hRight, hMemory] at hCache
  have hpr := hq.trans hr
  rw [Renderer.resolve, Renderer.resolve, hNone.1, hNone.2]
  exact alike_load (h.mono hpr) (hFollows.mono hpr) (hpr.frame _ _ hRoot) (hRenderer.mono hr)
    hNone.1 hNone.2 name r le_rfl s t hStores

/-! ## Services -/

theorem alike_followAttributes {access : Value → String → Run Value} {p : Pairing}
    (h : ∀ q, p ≤ q → ∀ a b : Value, Alike q a b → ∀ name,
      Run.Alike I q (access a name) (access b name))
    {value twin : Value} (hValue : Alike p value twin) (names : List String) :
    Run.Alike I p (Format.followAttributes access value names)
      (Format.followAttributes access twin names) := by
  induction names generalizing p value twin with
  | nil => exact .pure hValue
  | cons name rest ih =>
      exact (h p le_rfl _ _ hValue name).bind fun q hq _ _ hFound =>
        ih (fun r hr => h r (hq.trans hr)) hFound

theorem alike_fillBraces {access : Value → String → Run Value} {p : Pairing}
    (h : ∀ q, p ≤ q → ∀ a b : Value, Alike q a b → ∀ name,
      Run.Alike I q (access a name) (access b name))
    {arguments arguments' : Arguments} (hArguments : Alike p arguments arguments')
    (pieces : List Format.BracePiece) (done : List (List Char)) (next : Nat) :
    Run.Alike I p (Format.fillBraces access arguments done next pieces)
      (Format.fillBraces access arguments' done next pieces) := by
  induction pieces generalizing p done next with
  | nil => exact .pure rfl
  | cons piece rest ih =>
      cases piece with
      | text content => exact ih h hArguments _ _
      | broken cause => exact .liftFault rfl
      | field field =>
          have hFound : Alike p (field.source.find arguments next)
              (field.source.find arguments' next) :=
            hArguments.apply (f := fun x => field.source.find x next)
              fun ρ _ x => Format.FieldSource.find_rename ρ field.source x next
          refine (Run.Alike.liftFault hFound).bind fun q hq found found' hFound => ?_
          refine (alike_followAttributes (fun r hr => h r (hq.trans hr)) hFound.fst
            field.attributes).bind fun r hr value twin hValue => ?_
          have hText : Format.applySpec field.spec value = Format.applySpec field.spec twin :=
            hValue.same (f := Format.applySpec field.spec)
              fun ρ x => Format.applySpec_rename ρ field.spec x
          have hNext : found.2 = found'.2 := hFound.snd
          have hSpec : Alike r (Format.applySpec field.spec twin)
              (Format.applySpec field.spec twin) := by
            cases Format.applySpec field.spec twin <;> rfl
          simp only [hText, hNext]
          refine (Run.Alike.liftFault hSpec).bind fun u hu text text' hSame => ?_
          obtain rfl : text = text' := hSame
          have hpu := hq.trans (hr.trans hu)
          exact ih (fun v hv => h v (hpu.trans hv)) (hArguments.mono hpu) _ _

theorem alike_brace {access : Value → String → Run Value}
    (h : ∀ q, p ≤ q → ∀ a b : Value, Alike q a b → ∀ name,
      Run.Alike I q (access a name) (access b name))
    (format : List Char) {arguments arguments' : Arguments}
    (hArguments : Alike p arguments arguments') :
    Run.Alike I p (Format.brace access format arguments)
      (Format.brace access format arguments') :=
  (alike_fillBraces h hArguments _ _ _).map fun _ _ text text' hSame => by
    obtain rfl : text = text' := hSame
    rfl

theorem callWith_method (inner : Option Services) (access : Value → String → Run Value)
    (callback : Value → Value → Run Value) (loader : Services) (receiver : Value)
    (name : String) (mark : Mark) (arguments : Arguments) :
    callWith inner access callback loader (.method receiver name mark) arguments =
      match receiver.text? with
      | some text =>
          if name = "format" then Format.brace access text.toList arguments
          else Run.ofEvaluation (callMethod receiver name arguments)
      | none => Run.ofEvaluation (callMethod receiver name arguments) := by
  cases receiver with
  | string text mark =>
      by_cases hName : name = "format"
      · subst hName
        rfl
      · simp only [Value.text?, if_neg hName]
        unfold callWith
        split <;> simp_all
  | _ => rfl

theorem alike_call {inner : Option Services} (hInner : ∀ services ∈ inner, services.Alike I p)
    {access : Value → String → Run Value}
    (hAccess : ∀ q, p ≤ q → ∀ a b : Value, Alike q a b → ∀ name,
      Run.Alike I q (access a name) (access b name))
    {callback : Value → Value → Run Value} (hCallback : CallbackAlike I p callback)
    {loader : Services} (hResolve : loader.ResolveAlike I p)
    {value twin : Value} (hValue : Alike p value twin) {arguments arguments' : Arguments}
    (hArguments : Alike p arguments arguments') :
    Run.Alike I p (callWith inner access callback loader value arguments)
      (callWith inner access callback loader twin arguments') := by
  have hRename : twin.rename p.right = value.rename p.left := Eq.symm hValue
  cases value with
  | builtin name mark =>
      obtain ⟨m, rfl, -⟩ := Value.of_rename_builtin hRename
      exact alike_builtin hCallback name hArguments
  | method receiver name mark =>
      obtain ⟨own, m, rfl, hReceiver, -⟩ := Value.of_rename_method hRename
      have hReceiver : Alike p receiver own := hReceiver.symm
      have hMethod : Alike p (callMethod receiver name arguments)
          (callMethod own name arguments') :=
        (hReceiver.pair hArguments).apply (f := fun x => callMethod x.1 name x.2)
          fun ρ hρ x => callMethod_rename hρ.mark x.1 name x.2
      have hText : receiver.text? = own.text? := hReceiver.same Value.text?_rename
      rw [callWith_method, callWith_method, hText]
      cases own.text? with
      | none => exact .ofEvaluation hMethod
      | some text =>
          exact .ite Iff.rfl (alike_brace hAccess _ hArguments) (.ofEvaluation hMethod)
  | function closure mark =>
      obtain ⟨own, m, rfl, hClosure, -⟩ :=
        Value.of_rename_function (hRename.trans (Value.rename_function ..))
      exact alike_runClosure hInner hClosure.symm hArguments
  | template content mark =>
      obtain ⟨own, m, rfl, hContent, -⟩ :=
        Value.of_rename_template (hRename.trans (Value.rename_template ..))
      have hContent : Alike p content own := hContent.symm
      exact (alike_runTemplate hInner hContent .nil hArguments).map
        fun _ _ _ _ hRendering => hRendering.ofRendering
  | page content leaf mark =>
      obtain ⟨own, leaf', m, rfl, hContent, hLeaf, -⟩ :=
        Value.of_rename_page (hRename.trans (Value.rename_page ..))
      have hContent : Alike p content own := hContent.symm
      have hLeaf : Alike p leaf leaf' := hLeaf.symm
      exact (alike_invoke hInner hResolve hContent hLeaf hArguments).map
        fun _ _ _ _ hRendering => hRendering.ofRendering
  | none =>
      obtain rfl := Value.of_rename_none hRename
      exact .fault _
  | bool b =>
      obtain rfl := Value.of_rename_bool hRename
      exact .fault _
  | int i =>
      obtain rfl := Value.of_rename_int hRename
      exact .fault _
  | float x =>
      obtain rfl := Value.of_rename_float hRename
      exact .fault _
  | string text mark =>
      obtain ⟨m, rfl, -⟩ := Value.of_rename_string hRename
      exact .fault _
  | list items mark =>
      obtain ⟨own, m, rfl, -⟩ := Value.of_rename_list (hRename.trans (Value.rename_list ..))
      exact .fault _
  | dict entries mark =>
      obtain ⟨own, m, rfl, -⟩ := Value.of_rename_dict (hRename.trans (Value.rename_dict ..))
      exact .fault _
  | rendering content mark =>
      obtain ⟨own, m, rfl, -⟩ :=
        Value.of_rename_rendering (hRename.trans (Value.rename_rendering ..))
      exact .fault _
  | renderer content mark =>
      obtain ⟨own, m, rfl, -⟩ :=
        Value.of_rename_renderer (hRename.trans (Value.rename_renderer ..))
      exact .fault _
  | loop level outer =>
      obtain ⟨own, others, rfl, -⟩ := Value.of_rename_loop hRename
      exact .fault _

/-- Calls on a level are alike when those on the level below are, and when names of libraries lead
to what is alike. -/
theorem alike_assemble {inner : Option Services} {loader : Services}
    (hInner : ∀ services ∈ inner, services.Alike I p)
    (hResolve : loader.ResolveAlike I p) :
    (assemble inner loader).Alike I p := by
  have hInner q (hq : p ≤ q) : ∀ services ∈ inner, services.Alike I q :=
    fun services hServices => (hInner services hServices).mono hq
  have hResolve q (hq : p ≤ q) : loader.ResolveAlike I q := hResolve.mono hq
  have hAccess : ∀ q, p ≤ q → ∀ a b : Value, Alike q a b → ∀ name,
      Run.Alike I q (accessWith loader a name) (accessWith loader b name) :=
    fun q hq _ _ hValue name => alike_access (hResolve q hq) hValue name
  have hCallback : CallbackAlike I p (callForItem inner (accessWith loader) loader) := by
    intro q hq a b x y hFunction hItem
    have hNone : CallbackAlike I q
        (fun function _ => Run.fault (.notCallable function.typeName)) := by
      intro r hr a b x y hFunction hItem
      simp only [hFunction.typeName]
      exact .fault _
    have hPositional : Alike q (Arguments.ofList [x]) (Arguments.ofList [y]) :=
      congrArg Arguments.ofList (hItem.cons .nil)
    exact alike_call (hInner q hq) (fun r hr => hAccess r (hq.trans hr)) hNone (hResolve q hq)
      hFunction hPositional
  refine ⟨fun q hq a b x y hFunction hArguments => ?_, hAccess⟩
  exact alike_call (hInner q hq) (fun r hr => hAccess r (hq.trans hr)) (hCallback.mono hq)
    (hResolve q hq) hFunction hArguments

/-- Calls and attributes of what is alike are alike, however deep calls are inside one another. -/
theorem alike_services
    (hResolve : ∀ services : Services, services.Alike I p → services.ResolveAlike I p)
    (calls : Nat) : (Stencil.services calls).Alike I p :=
  services_of_assemble ⟨fun _ _ _ _ _ _ _ _ => .fault _, fun _ _ _ _ _ _ => .fault _⟩
    (fun _ _ hInner hLoader => alike_assemble hInner (hResolve _ hLoader))
    (fun _ h =>
      { call := fun q hq _ _ _ _ hFunction hArguments =>
          Run.Alike.read ((h q.setting.passes).call q hq _ _ _ _ hFunction hArguments)
        access := fun q hq _ _ hValue name =>
          Run.Alike.read ((h q.setting.passes).access q hq _ _ hValue name) }) calls

end Stencil
