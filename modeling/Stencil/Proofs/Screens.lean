import Stencil.Proofs.Alike.Calls

/-!
# Screens

A screen says which code may refer to which frame, and of which directories and memories there may
be libraries. A value passes the screen when everything in it is as the screen says.

Whether a value passes is told by two renamings, which give the same numbers to what the screen
admits and different ones to everything else. Every operation that commutes with renaming then makes
values that pass from values that pass, whichever the screen is, so that what a screen says of
values does not have to be shown for each operation again.

## Main results

* `Screen.Passes.apply`: a function that does not see the numbers gives what passes.
* `Screen.Passes.mono`: what passes a screen passes one that admits more.
* `Screen.Passes.closure`, `Screen.Passes.template`, `Screen.Passes.renderer`: what is inside a
  value that passes.
* `Value.passes_iff`: the values that pass.
-/

namespace Stencil

/-- What values may refer to. -/
structure Screen where
  /-- May this code be defined in this frame? -/
  admits : List Instr → FrameId → Prop
  /-- May there be a library of this directory with this memory and this counter? -/
  serves : String → Option Nat → Nat → Prop

/-- May there be this library? -/
abbrev Screen.Serves (screen : Screen) (library : Library Value) : Prop :=
  screen.serves library.root library.cache library.counter

namespace Screen

instance : Preorder Screen where
  le narrow wide := (∀ body frame, narrow.admits body frame → wide.admits body frame) ∧
    ∀ root cache counter, narrow.serves root cache counter → wide.serves root cache counter
  le_refl _ := ⟨fun _ _ h => h, fun _ _ _ h => h⟩
  le_trans _ _ _ h h' := ⟨fun body frame hBody => h'.1 body frame (h.1 body frame hBody),
    fun root cache counter hRoot => h'.2 root cache counter (h.2 root cache counter hRoot)⟩

open Classical in
/-- Numbers for what the screen admits; what it does not gets this number. -/
noncomputable def numbers (screen : Screen) (other : Nat) : Renaming where
  frame body id := if screen.admits body id then id + 2 else other
  mark m := m
  data m := m
  memory library _ := if screen.Serves library then none else some other

theorem numbers_tells (screen : Screen) (other : Nat) : (screen.numbers other).Tells true :=
  ⟨fun _ _ h => h, fun _ => rfl⟩

theorem frame_numbers_eq_iff {screen : Screen} {body : List Instr} {id : FrameId} :
    (screen.numbers 0).frame body id = (screen.numbers 1).frame body id ↔
      screen.admits body id := by
  by_cases h : screen.admits body id <;> simp [numbers, h]

theorem memory_numbers_eq_iff {screen : Screen} {library other : Library Value}
    (hRoot : other.root = library.root) (hCache : other.cache = library.cache)
    (hCounter : other.counter = library.counter) (layout layout' : Option (Layout Value)) :
    (screen.numbers 0).memory library layout = (screen.numbers 1).memory other layout' ↔
      screen.Serves library := by
  by_cases h : screen.serves library.root library.cache library.counter <;>
    simp [numbers, Serves, hRoot, hCache, hCounter, h]

/-- The numbers of a screen that admits more are the same where they agreed. -/
theorem keep_numbers {narrow wide : Screen} (h : narrow ≤ wide) :
    Renaming.Keep (narrow.numbers 0) (narrow.numbers 1) (wide.numbers 0) (wide.numbers 1) where
  frame body i j hSame := by
    have hi := h.1 body i
    have hj := h.1 body j
    simp only [numbers] at hSame ⊢
    split at hSame <;> split at hSame <;> simp_all
  mark _ _ _ := ⟨rfl, rfl⟩
  data _ _ _ := ⟨rfl, rfl⟩
  memory library other layout hSame := by
    have hLibrary := h.2 library.root library.cache library.counter
    have hOther := h.2 other.root other.cache other.counter
    simp only [numbers, Serves] at hSame ⊢
    split at hSame <;> split at hSame <;> simp_all

/-- All that the thing refers to is as the screen says. -/
def Passes (screen : Screen) {α : Type} [Renamable α] (a : α) : Prop :=
  Renamable.rename (screen.numbers 0) a = Renamable.rename (screen.numbers 1) a

theorem renameWith_eq (screen : Screen) (library : Library Value)
    (h : screen.Serves library) {globals globals' : List (String × Value)}
    (hGlobals : globals = globals') (layout layout' : Option (Layout Value)) :
    library.renameWith (screen.numbers 0) globals layout =
      library.renameWith (screen.numbers 1) globals' layout' := by
  subst hGlobals
  exact congrArg (fun cache => { library with globals, cache, counter := 0 })
    ((memory_numbers_eq_iff rfl rfl rfl layout layout').2 h)

end Screen

/-! ## Operations -/

namespace Screen.Passes

variable {α β : Type} [Renamable α] [Renamable β] {screen : Screen}

/-- A function that does not see the numbers gives what passes. -/
theorem apply {f : α → β}
    (hf : ∀ ρ : Renaming, ρ.Tells true → ∀ x, f (Renamable.rename ρ x) = Renamable.rename ρ (f x))
    {a : α} (h : screen.Passes a) : screen.Passes (f a) := by
  unfold Passes at h ⊢
  rw [← hf _ (screen.numbers_tells 0), ← hf _ (screen.numbers_tells 1), h]

/-- What passes a screen passes one that admits more. -/
theorem mono {wide : Screen} (hLe : screen ≤ wide) {a : α} (h : screen.Passes a) :
    wide.Passes a := by
  obtain ⟨hLeft, hRight⟩ := Renamable.of_agree (keep_numbers hLe) a a h
  exact hLeft.trans (h.trans hRight.symm)

theorem pair {a : α} {b : β} (h : screen.Passes a) (h' : screen.Passes b) : screen.Passes (a, b) :=
  Prod.ext h h'

theorem fst {x : α × β} (h : screen.Passes x) : screen.Passes x.1 := (Prod.ext_iff.1 h).1

theorem snd {x : α × β} (h : screen.Passes x) : screen.Passes x.2 := (Prod.ext_iff.1 h).2

theorem some {a : α} (h : screen.Passes a) : screen.Passes (some a) := congrArg Option.some h

theorem none : screen.Passes (none : Option α) := rfl

theorem of_some {a : α} (h : screen.Passes (Option.some a)) : screen.Passes a := Option.some.inj h

theorem nil : screen.Passes ([] : List α) := rfl

theorem cons {a : α} {rest : List α} (h : screen.Passes a) (hRest : screen.Passes rest) :
    screen.Passes (a :: rest) :=
  (congrArg₂ List.cons h hRest : _ :: _ = _ :: _)

theorem head {a : α} {rest : List α} (h : screen.Passes (a :: rest)) : screen.Passes a :=
  (List.cons.inj h).1

theorem tail {a : α} {rest : List α} (h : screen.Passes (a :: rest)) : screen.Passes rest :=
  (List.cons.inj h).2

theorem reverse {xs : List α} (h : screen.Passes xs) : screen.Passes xs.reverse :=
  h.apply (f := List.reverse) fun _ _ _ => List.map_reverse.symm

/-- A result that refers to nothing passes. -/
theorem ofExcept {ε : Type} {x : Except ε α} (h : ∀ a, x = .ok a → screen.Passes a) :
    screen.Passes x := by
  cases x with
  | error cause => rfl
  | ok a => exact congrArg Except.ok (h a rfl)

section Operations

variable {a b : Value} {arguments : Arguments}

theorem literal (constant : Literal) : screen.Passes constant.value := by cases constant <;> rfl

theorem items (h : screen.Passes a) : screen.Passes a.items :=
  h.apply fun ρ _ => Value.items_rename ρ

theorem index (h : screen.Passes a) (hKey : screen.Passes b) : screen.Passes (a.index b) :=
  (h.pair hKey).apply (f := fun x => x.1.index x.2) fun ρ _ x => Value.index_rename ρ x.1 x.2

theorem unary (op : UnaryOp) (h : screen.Passes a) : screen.Passes (op.apply a) :=
  h.apply fun ρ _ => UnaryOp.apply_rename ρ op

theorem binary (op : BinaryOp) (h : screen.Passes a) (h' : screen.Passes b) :
    screen.Passes (op.apply a b) :=
  (h.pair h').apply (f := fun x => op.apply x.1 x.2) fun ρ _ x => BinaryOp.apply_rename ρ op x.1 x.2

theorem slice {start stop step : Option Value} (h : screen.Passes a) (hStart : screen.Passes start)
    (hStop : screen.Passes stop) (hStep : screen.Passes step) :
    screen.Passes (a.slice start stop step) :=
  (h.pair (hStart.pair (hStop.pair hStep))).apply
    (f := fun x => x.1.slice x.2.1 x.2.2.1 x.2.2.2)
    fun ρ _ x => Value.slice_rename ρ x.1 x.2.1 x.2.2.1 x.2.2.2

theorem access (h : screen.Passes a) (name : String) : screen.Passes (a.access name) :=
  h.apply (f := fun x => x.access name) fun ρ _ x => Value.access_rename ρ x name

theorem ofList {values : List Value} (h : screen.Passes values) :
    screen.Passes (Value.ofList values) :=
  h.apply fun ρ _ values => (Value.rename_ofList ρ values).symm

theorem ofEntries {entries : Entries Value} (h : screen.Passes entries) :
    screen.Passes (Value.ofEntries entries) :=
  h.apply fun ρ _ entries => (Value.rename_ofEntries ρ entries).symm

theorem ofRendering {out : Rendering Value} (h : screen.Passes out) :
    screen.Passes (Value.ofRendering out) :=
  h.apply fun ρ _ out => (Value.rename_ofRendering ρ out).symm

theorem fold {out : Rendering Value} (h : screen.Passes out) : screen.Passes out.fold :=
  h.apply fun ρ _ out => Rendering.fold_rename ρ out

theorem push {out : Rendering Value} (h : screen.Passes out) (text : String) :
    screen.Passes (out.push text) :=
  h.apply (f := fun out => out.push text) fun ρ _ out => Rendering.push_rename ρ out text

theorem setValue {out : Rendering Value} (h : screen.Passes out) (name : String)
    (hValue : screen.Passes a) : screen.Passes (out.insert name a) :=
  (h.pair hValue).apply (f := fun x => Rendering.insert x.1 name x.2)
    fun ρ _ x => Value.insert_rename ρ x.1 name x.2

theorem emit {out : Rendering Value} (h : screen.Passes out) (scene : Scene) (value : Value)
    (escape : Bool) : screen.Passes (scene.emit out value escape) := by
  unfold Scene.emit
  split
  · exact h
  · split
    · exact h.push _
    · exact h.push _

theorem find? {entries : Entries Value} (h : screen.Passes entries) (name : String) :
    screen.Passes (Entries.find? name entries) :=
  h.apply fun ρ _ entries => Entries.find?_rename ρ name entries

theorem insert {entries : Entries Value} (h : screen.Passes entries) (name : String)
    (hValue : screen.Passes a) : screen.Passes (Entries.insert name a entries) :=
  (h.pair hValue).apply (f := fun x => Entries.insert name x.2 x.1)
    fun ρ _ x => Entries.insert_rename ρ name x.2 x.1

theorem positional (h : screen.Passes arguments) : screen.Passes arguments.positional :=
  congrArg Arguments.positional h

theorem argument (h : screen.Passes arguments) (place : Nat) :
    screen.Passes (Stencil.argument arguments place) :=
  h.apply (f := fun x => Stencil.argument x place) fun ρ _ x => argument_rename ρ x place

theorem take (h : screen.Passes arguments) (name : String) : screen.Passes (arguments.take name) :=
  h.apply (f := fun x => x.take name) fun ρ _ x => Arguments.take_rename ρ x name

theorem mkArguments {positional : List Value} {named : Entries Value} (h : screen.Passes positional)
    (hNamed : screen.Passes named) : screen.Passes (⟨positional, named⟩ : Arguments) :=
  congrArg₂ Arguments.mk h hNamed

theorem keyOf {key : Option Value} (h : screen.Passes key) : screen.Passes (Builtin.keyOf key) := by
  cases key with
  | none => exact .none
  | some function =>
      show screen.Passes (if (!function.isNone) = true then Option.some function else Option.none)
      split
      · exact h
      · exact .none

theorem resultOf (name : String) {found : Option Value} (h : screen.Passes found) :
    screen.Passes (Builtin.resultOf name found) := by
  cases found with
  | none => rfl
  | some value => exact congrArg Except.ok h.of_some

theorem bindParameters (function : String) (parameters : List Parameter)
    {defaults : List (Option Value)} (h : screen.Passes defaults)
    (hArguments : screen.Passes arguments) :
    screen.Passes (Stencil.bindParameters function parameters defaults arguments) :=
  (h.pair hArguments).apply (f := fun x => Stencil.bindParameters function parameters x.1 x.2)
    fun ρ _ x => bindParameters_rename ρ function parameters x.1 x.2

theorem callMethod (h : screen.Passes a) (name : String) (hArguments : screen.Passes arguments) :
    screen.Passes (Stencil.callMethod a name arguments) :=
  (h.pair hArguments).apply (f := fun x => Stencil.callMethod x.1 name x.2)
    fun _ hρ x => callMethod_rename hρ.mark x.1 name x.2

end Operations

/-! ## What is inside -/

theorem receiver {receiver : Value} {name : String} {mark : Mark}
    (h : screen.Passes (Value.method receiver name mark)) : screen.Passes receiver :=
  (Value.method.inj h).1

theorem closure {closure : Closure Value} {mark : Mark}
    (h : screen.Passes (Value.function closure mark)) :
    screen.admits closure.body closure.frame ∧ screen.Passes closure.defaults := by
  have hSame : Value.rename _ _ = Value.rename _ _ := h
  rw [Value.rename_function, Value.rename_function] at hSame
  have hClosure := (Value.function.inj hSame).1
  exact ⟨frame_numbers_eq_iff.1 (congrArg (fun c => c.frame) hClosure),
    congrArg (fun c : Closure Value => c.defaults) hClosure⟩

theorem ofClosure {closure : Closure Value} (hAdmits : screen.admits closure.body closure.frame)
    (hDefaults : screen.Passes closure.defaults) :
    screen.Passes (Value.function closure Option.none) := by
  show Value.rename _ _ = Value.rename _ _
  rw [Value.rename_function, Value.rename_function, Closure.rename, Closure.rename,
    frame_numbers_eq_iff.2 hAdmits]
  exact congrArg (fun defaults => Value.function ⟨_, _, _, _, _, defaults, _⟩ _) hDefaults

theorem template {content : Template Value} (h : screen.Passes content) :
    screen.admits content.program.body content.frame ∧ screen.Passes content.defaults :=
  ⟨frame_numbers_eq_iff.1 (congrArg (fun t => t.frame) h),
    congrArg (fun t : Template Value => t.defaults) h⟩

theorem ofTemplate {content : Template Value}
    (hAdmits : screen.admits content.program.body content.frame)
    (hDefaults : screen.Passes content.defaults) : screen.Passes content := by
  show Template.rename _ _ = Template.rename _ _
  rw [Template.rename, Template.rename, frame_numbers_eq_iff.2 hAdmits]
  exact congrArg (Template.mk _ _ · _ _) hDefaults

theorem ofTemplateValue {content : Template Value} (h : screen.Passes content) (mark : Mark) :
    screen.Passes (Value.template content mark) := by
  show Value.rename _ _ = Value.rename _ _
  rw [Value.rename_template, Value.rename_template]
  exact congrArg (Value.template · (mark.map fun m => m)) h

theorem of_template {content : Template Value} {mark : Mark}
    (h : screen.Passes (Value.template content mark)) : screen.Passes content := by
  have hSame : Value.rename _ _ = Value.rename _ _ := h
  rw [Value.rename_template, Value.rename_template] at hSame
  exact (Value.template.inj hSame).1

theorem of_page {content : Renderer Value} {leaf : Template Value} {mark : Mark}
    (h : screen.Passes (Value.page content leaf mark)) :
    screen.Passes content ∧ screen.Passes leaf := by
  have hSame : Value.rename _ _ = Value.rename _ _ := h
  rw [Value.rename_page, Value.rename_page] at hSame
  obtain ⟨hContent, hLeaf, -⟩ := Value.page.inj hSame
  exact ⟨hContent, hLeaf⟩

/-- The renderer that a value is passes with the value. -/
theorem renderer? {value : Value} (h : screen.Passes value) : screen.Passes value.renderer? :=
  h.apply fun ρ _ => Value.renderer?_rename ρ

/-- A library that is served, with a layout from a library that is served. -/
theorem renderer {content : Renderer Value} (h : screen.Passes content) :
    screen.Serves content.library ∧ screen.Passes content.library.globals ∧
      ∀ layout ∈ content.layout, screen.Passes (Renderer.ofLayout layout) := by
  have hCache : (screen.numbers 0).memory content.library Option.none =
      (screen.numbers 1).memory content.library Option.none :=
    congrArg (fun r : Renderer Value => r.library.cache) h
  refine ⟨(memory_numbers_eq_iff rfl rfl rfl _ _).1 hCache,
    congrArg (fun r : Renderer Value => r.library.globals) h, fun layout hLayout => ?_⟩
  have hSame : content.layout.map _ = content.layout.map _ := congrArg (fun r => r.layout) h
  rw [Option.mem_def.1 hLayout] at hSame
  exact congrArg (fun l : Layout Value => (⟨l.library, Option.none⟩ : Renderer Value))
    (Option.some.inj hSame)

/-- The library for another directory that is served. -/
theorem descend {content : Renderer Value} (h : screen.Passes content) {root : String}
    {cache : Option Nat} (hServes : screen.serves root cache content.library.counter) :
    screen.Passes { content with library := { content.library with root, cache } } := by
  have hLayout : content.layout.map _ = content.layout.map _ := congrArg (fun r => r.layout) h
  have hGlobals : Entries.rename _ _ = Entries.rename _ _ := h.renderer.2.1
  show Renderer.rename _ _ = Renderer.rename _ _
  simp only [Renderer.rename, Library.rename]
  rw [hLayout]
  exact congrArg (Renderer.mk · _)
    (screen.renameWith_eq { content.library with root, cache } hServes hGlobals _ _)

theorem ofRenderer {content : Renderer Value} (h : screen.Passes content) (mark : Mark) :
    screen.Passes (Value.renderer content mark) := by
  show Value.rename _ _ = Value.rename _ _
  rw [Value.rename_renderer, Value.rename_renderer]
  exact congrArg (Value.renderer · (mark.map fun m => m)) h

theorem of_renderer {content : Renderer Value} {mark : Mark}
    (h : screen.Passes (Value.renderer content mark)) : screen.Passes content := by
  have hSame : Value.rename _ _ = Value.rename _ _ := h
  rw [Value.rename_renderer, Value.rename_renderer] at hSame
  exact (Value.renderer.inj hSame).1

theorem ofPage {content : Renderer Value} (h : screen.Passes content) {leaf : Template Value}
    (hLeaf : screen.Passes leaf) (mark : Mark) : screen.Passes (Value.page content leaf mark) := by
  show Value.rename _ _ = Value.rename _ _
  rw [Value.rename_page, Value.rename_page]
  exact congrArg₂ (Value.page · · (mark.map fun m => m)) h hLeaf

theorem exposed {content : Renderer Value} (h : screen.Passes content) :
    screen.Passes content.exposed := by
  unfold Renderer.exposed
  cases content.library.exposedAs with
  | none => exact nil
  | some name =>
      have hName : screen.Passes name := rfl
      exact (hName.pair (h.ofRenderer Option.none)).cons nil

end Screen.Passes

/-! ## The values that pass -/

section Values

variable (screen : Screen)

mutual

/-- All functions, templates and libraries in the value are as the screen says. -/
def Value.Respects : Value → Prop
  | .none => True
  | .bool _ => True
  | .int _ => True
  | .float _ => True
  | .string _ _ => True
  | .list ⟨items⟩ _ => itemsRespect items
  | .dict entries _ => entriesRespect entries
  | .rendering ⟨_, _, attributes⟩ _ => entriesRespect attributes
  | .builtin _ _ => True
  | .method receiver _ _ => receiver.Respects
  | .function ⟨_, _, _, body, frame, defaults, _⟩ _ =>
      screen.admits body frame ∧ defaultsRespect defaults
  | .template ⟨_, program, defaults, _, frame⟩ _ =>
      screen.admits program.body frame ∧ defaultsRespect defaults
  | .renderer ⟨⟨root, globals, _, cache, _, counter⟩, layout⟩ _ =>
      screen.serves root cache counter ∧ entriesRespect globals ∧ layoutRespects layout
  | .page ⟨⟨root, globals, _, cache, _, counter⟩, layout⟩ ⟨_, program, defaults, _, frame⟩ _ =>
      (screen.serves root cache counter ∧ entriesRespect globals ∧ layoutRespects layout) ∧
        screen.admits program.body frame ∧ defaultsRespect defaults
  | .loop _ _ => True

/-- All items are as the screen says. -/
def itemsRespect : List Value → Prop
  | [] => True
  | item :: rest => item.Respects ∧ itemsRespect rest

/-- All named values are as the screen says. -/
def entriesRespect : List (String × Value) → Prop
  | [] => True
  | (_, value) :: rest => value.Respects ∧ entriesRespect rest

/-- All defaults are as the screen says. -/
def defaultsRespect : List (Option Value) → Prop
  | [] => True
  | none :: rest => defaultsRespect rest
  | some value :: rest => value.Respects ∧ defaultsRespect rest

/-- The library of the layout is as the screen says. -/
def layoutRespects : Option (Layout Value) → Prop
  | none => True
  | some ⟨_, ⟨root, globals, _, cache, _, counter⟩⟩ =>
      screen.serves root cache counter ∧ entriesRespect globals

end

/-- What a name led to is as the screen says. -/
def Resolved.Respects : Resolved → Prop
  | .template content => (Value.template content none).Respects screen
  | .directory renderer => (Value.renderer renderer none).Respects screen

end Values

section Values

variable {screen : Screen}

/-- The two renamings agree on a library just when it is served and they agree on its globals. -/
theorem renameWith_eq_iff (library : Library Value) (globals globals' : List (String × Value))
    (layout layout' : Option (Layout Value)) :
    library.renameWith (screen.numbers 0) globals layout =
        library.renameWith (screen.numbers 1) globals' layout' ↔
      screen.Serves library ∧ globals = globals' := by
  refine ⟨fun h => ⟨?_, congrArg Library.globals h⟩, fun h =>
    screen.renameWith_eq library h.1 h.2 _ _⟩
  have hCache : (screen.numbers 0).memory { library with globals } layout =
      (screen.numbers 1).memory { library with globals := globals' } layout' :=
    congrArg Library.cache h
  exact (Screen.memory_numbers_eq_iff rfl rfl rfl layout layout').1 hCache

mutual

/-- The values that pass a screen are those that are as it says. -/
theorem Value.rename_numbers_eq_iff : ∀ value : Value,
    value.rename (screen.numbers 0) = value.rename (screen.numbers 1) ↔ value.Respects screen
  | .none => iff_of_true rfl trivial
  | .bool _ => iff_of_true rfl trivial
  | .int _ => iff_of_true rfl trivial
  | .float _ => iff_of_true rfl trivial
  | .string _ _ => iff_of_true rfl trivial
  | .list ⟨items⟩ mark => by
      rw [Value.rename, Value.rename, Value.Respects, ← renameItems_numbers_eq_iff items]
      simp [Screen.numbers]
  | .dict entries mark => by
      rw [Value.rename, Value.rename, Value.Respects, ← renameEntries_numbers_eq_iff entries]
      simp [Screen.numbers]
  | .rendering ⟨body, pending, attributes⟩ mark => by
      rw [Value.rename, Value.rename, Value.Respects, ← renameEntries_numbers_eq_iff attributes]
      simp [Screen.numbers]
  | .builtin _ _ => iff_of_true rfl trivial
  | .method receiver name mark => by
      rw [Value.rename, Value.rename, Value.Respects, ← Value.rename_numbers_eq_iff receiver]
      simp [Screen.numbers]
  | .function ⟨kind, name, parameters, body, frame, defaults, escape⟩ mark => by
      rw [Value.rename, Value.rename, Value.Respects, ← renameDefaults_numbers_eq_iff defaults,
        ← Screen.frame_numbers_eq_iff]
      simp [Screen.numbers]
  | .template ⟨name, program, defaults, escape, frame⟩ mark => by
      rw [Value.rename, Value.rename, Value.Respects, ← renameDefaults_numbers_eq_iff defaults,
        ← Screen.frame_numbers_eq_iff]
      simp [Screen.numbers, and_comm]
  | .renderer ⟨⟨root, globals, escape, cache, exposedAs, counter⟩, layout⟩ mark => by
      rw [Value.rename, Value.rename, Value.Respects, ← renameEntries_numbers_eq_iff globals,
        ← renameLayout_numbers_eq_iff layout, Value.renderer.injEq, Renderer.mk.injEq,
        renameWith_eq_iff]
      simp only [Screen.numbers, and_true, and_assoc]
  | .page ⟨⟨root, globals, escape, cache, exposedAs, counter⟩, layout⟩
      ⟨name, program, defaults, escape', frame⟩ mark => by
      rw [Value.rename, Value.rename, Value.Respects, ← renameEntries_numbers_eq_iff globals,
        ← renameLayout_numbers_eq_iff layout, ← renameDefaults_numbers_eq_iff defaults,
        ← Screen.frame_numbers_eq_iff, Value.page.injEq, Renderer.mk.injEq, Template.mk.injEq,
        renameWith_eq_iff]
      simp only [Screen.numbers, true_and, and_true, and_assoc]
      exact and_congr_right' (and_congr_right' (and_congr_right' and_comm))
  | .loop _ _ => iff_of_true rfl trivial

theorem renameItems_numbers_eq_iff : ∀ items : List Value,
    renameItems (screen.numbers 0) items = renameItems (screen.numbers 1) items ↔
      itemsRespect screen items
  | [] => iff_of_true rfl trivial
  | item :: rest => by
      rw [renameItems, renameItems, itemsRespect, ← Value.rename_numbers_eq_iff item,
        ← renameItems_numbers_eq_iff rest, List.cons.injEq]

theorem renameEntries_numbers_eq_iff : ∀ entries : List (String × Value),
    renameEntries (screen.numbers 0) entries = renameEntries (screen.numbers 1) entries ↔
      entriesRespect screen entries
  | [] => iff_of_true rfl trivial
  | (name, value) :: rest => by
      rw [renameEntries, renameEntries, entriesRespect, ← Value.rename_numbers_eq_iff value,
        ← renameEntries_numbers_eq_iff rest, List.cons.injEq, Prod.mk.injEq, eq_self, true_and]

theorem renameDefaults_numbers_eq_iff : ∀ defaults : List (Option Value),
    renameDefaults (screen.numbers 0) defaults = renameDefaults (screen.numbers 1) defaults ↔
      defaultsRespect screen defaults
  | [] => iff_of_true rfl trivial
  | none :: rest => by
      rw [renameDefaults, renameDefaults, defaultsRespect, ← renameDefaults_numbers_eq_iff rest,
        List.cons.injEq, eq_self, true_and]
  | some value :: rest => by
      rw [renameDefaults, renameDefaults, defaultsRespect, ← Value.rename_numbers_eq_iff value,
        ← renameDefaults_numbers_eq_iff rest, List.cons.injEq, Option.some.injEq]

theorem renameLayout_numbers_eq_iff : ∀ layout : Option (Layout Value),
    renameLayout (screen.numbers 0) layout = renameLayout (screen.numbers 1) layout ↔
      layoutRespects screen layout
  | none => iff_of_true rfl trivial
  | some ⟨name, ⟨root, globals, escape, cache, exposedAs, counter⟩⟩ => by
      rw [renameLayout, renameLayout, layoutRespects, ← renameEntries_numbers_eq_iff globals,
        ← renameWith_eq_iff ⟨root, globals, escape, cache, exposedAs, counter⟩ _ _ none none]
      simp

end

theorem Value.passes_iff {value : Value} : screen.Passes value ↔ value.Respects screen :=
  value.rename_numbers_eq_iff

theorem passes_entries_iff {entries : List (String × Value)} :
    screen.Passes entries ↔ entriesRespect screen entries := by
  rw [← renameEntries_numbers_eq_iff, renameEntries_eq, renameEntries_eq]
  rfl

theorem Renderer.passes_iff {renderer : Renderer Value} :
    screen.Passes renderer ↔
      screen.Serves renderer.library ∧
        entriesRespect screen renderer.library.globals ∧ layoutRespects screen renderer.layout := by
  have hValue : screen.Passes renderer ↔ (Value.renderer renderer none).Respects screen :=
    ⟨fun h => Value.passes_iff.1 (h.ofRenderer none), fun h => (Value.passes_iff.2 h).of_renderer⟩
  rw [hValue]
  obtain ⟨⟨root, globals, escape, cache, exposedAs, counter⟩, layout⟩ := renderer
  exact Iff.rfl

theorem Resolved.passes_iff {resolved : Resolved} :
    screen.Passes resolved ↔ resolved.Respects screen := by
  cases resolved with
  | template content =>
      refine ⟨fun h => Value.passes_iff.1 ?_, fun h => ?_⟩
      · exact Screen.Passes.ofTemplateValue (Resolved.template.inj h) none
      · have hContent : screen.Passes (Value.template content none) := Value.passes_iff.2 h
        exact congrArg Resolved.template hContent.of_template
  | directory renderer =>
      refine ⟨fun h => Value.passes_iff.1 ?_, fun h => ?_⟩
      · exact Screen.Passes.ofRenderer (Resolved.directory.inj h) none
      · have hContent : screen.Passes (Value.renderer renderer none) := Value.passes_iff.2 h
        exact congrArg Resolved.directory hContent.of_renderer

end Values

end Stencil
