import Stencil.Proofs.Alike.Calls
import Stencil.Proofs.Ending.Steady

/-!
# Code without `while`

A `Reach` is a part of a running program that code without `while` cannot leave: it says which
frames, memories and directories belong to it. A value is within a reach when all functions and
templates in it are code without `while` whose frames belong to the reach, and all libraries in it
are libraries of the reach.

Whether a value is within a reach is told by two renamings that give the same numbers to what
belongs to the reach and different ones to everything else. Every operation that commutes with
renaming then stays within the reach.

## Main results

* `Reach.Inside.apply`: a function that does not see the numbers stays within the reach.
* `Value.inside`: the two renamings agree on values that are within the reach.
-/

namespace Stencil

/-! ## Regions -/

/-- What code can get to: files, and which frames, memories and directories belong to it. -/
structure Reach where
  files : Files
  frame : FrameId → Prop
  memory : Nat → Prop
  root : String → Prop

namespace Reach

/-- Code without `while`, in a frame of the reach. -/
def Admits (reach : Reach) (body : List Instr) (frame : FrameId) : Prop :=
  Instr.anyHasWhile body = false ∧ reach.frame frame

/-- A directory of the reach, with a memory of the reach if there is one. -/
def Serves (reach : Reach) (root : String) (cache : Option Nat) : Prop :=
  reach.root root ∧ ∀ memory ∈ cache, reach.memory memory

/-- What names lead to from a directory of the reach belongs to the reach: directories do, and
templates have no `while`. -/
structure Closed (reach : Reach) : Prop where
  directory : ∀ root name path, reach.root root →
    Renderer.locate reach.files root name = .ok (.directory path) → reach.root path
  template : ∀ root name text fileName program, reach.root root →
    Renderer.locate reach.files root name = .ok (.template text fileName) →
    Program.read (normalizeText text.toList) = .ok program → Instr.anyHasWhile program.body = false

end Reach

section Values

variable (reach : Reach)

mutual

/-- All functions, templates and libraries in the value belong to the reach. -/
def Value.Within : Value → Prop
  | .none => True
  | .bool _ => True
  | .int _ => True
  | .float _ => True
  | .string _ _ => True
  | .list ⟨items⟩ _ => itemsWithin items
  | .dict entries _ => entriesWithin entries
  | .rendering ⟨_, _, attributes⟩ _ => entriesWithin attributes
  | .builtin _ _ => True
  | .method receiver _ _ => receiver.Within
  | .function ⟨_, _, _, body, frame, defaults, _⟩ _ =>
      reach.Admits body frame ∧ defaultsWithin defaults
  | .template ⟨_, program, defaults, _, frame⟩ _ =>
      reach.Admits program.body frame ∧ defaultsWithin defaults
  | .renderer ⟨⟨root, globals, _, cache, _, _⟩, layout⟩ _ =>
      reach.Serves root cache ∧ entriesWithin globals ∧ layoutWithin layout
  | .page ⟨⟨root, globals, _, cache, _, _⟩, layout⟩ ⟨_, program, defaults, _, frame⟩ _ =>
      (reach.Serves root cache ∧ entriesWithin globals ∧ layoutWithin layout) ∧
        reach.Admits program.body frame ∧ defaultsWithin defaults
  | .loop _ _ => True

/-- All items belong to the reach. -/
def itemsWithin : List Value → Prop
  | [] => True
  | item :: rest => item.Within ∧ itemsWithin rest

/-- All named values belong to the reach. -/
def entriesWithin : List (String × Value) → Prop
  | [] => True
  | (_, value) :: rest => value.Within ∧ entriesWithin rest

/-- All defaults belong to the reach. -/
def defaultsWithin : List (Option Value) → Prop
  | [] => True
  | none :: rest => defaultsWithin rest
  | some value :: rest => value.Within ∧ defaultsWithin rest

/-- The library of the layout belongs to the reach. -/
def layoutWithin : Option (Layout Value) → Prop
  | none => True
  | some ⟨_, ⟨root, globals, _, cache, _, _⟩⟩ => reach.Serves root cache ∧ entriesWithin globals

end

end Values

/-- The arguments belong to the reach. -/
def Arguments.Within (reach : Reach) (arguments : Arguments) : Prop :=
  itemsWithin reach arguments.positional ∧ entriesWithin reach arguments.named

/-- What a name led to belongs to the reach. -/
def Resolved.Within (reach : Reach) : Resolved → Prop
  | .template content => (Value.template content none).Within reach
  | .directory renderer => (Value.renderer renderer none).Within reach

/-- What the frames and the memories of the reach hold belongs to the reach, and so do those that
are not there yet. -/
structure Store.Within (reach : Reach) (store : Store) : Prop where
  builtins : reach.frame builtinFrame
  frames : ∀ id frame, reach.frame id → store.frames.frame? id = some frame →
    entriesWithin reach frame.bindings ∧ ∀ parent ∈ frame.parent, reach.frame parent
  newFrames : ∀ id, store.frames.next ≤ id → reach.frame id
  memories : ∀ memory entries name resolved, reach.memory memory →
    store.caches[memory]? = some entries → Entries.find? name entries = some resolved →
    resolved.Within reach
  newMemories : ∀ memory, store.caches.size ≤ memory → reach.memory memory

/-! ## The two renamings -/

namespace Reach

open Classical in
/-- Numbers for what belongs to the reach; what does not gets this number. -/
noncomputable def numbers (reach : Reach) (other : Nat) : Renaming where
  frame body id := if reach.Admits body id then id + 2 else other
  mark m := m
  data m := m
  memory library _ := if reach.Serves library.root library.cache then none else some other

theorem numbers_tells (reach : Reach) (other : Nat) : (reach.numbers other).Tells true :=
  ⟨fun _ _ h => h, fun _ => rfl⟩

theorem frame_numbers_eq_iff {reach : Reach} {body : List Instr} {id : FrameId} :
    (reach.numbers 0).frame body id = (reach.numbers 1).frame body id ↔
      reach.Admits body id := by
  by_cases h : reach.Admits body id <;> simp [numbers, h]

theorem memory_numbers_eq_iff {reach : Reach} {library other : Library Value}
    (hRoot : other.root = library.root) (hCache : other.cache = library.cache)
    (layout layout' : Option (Layout Value)) :
    (reach.numbers 0).memory library layout = (reach.numbers 1).memory other layout' ↔
      reach.Serves library.root library.cache := by
  by_cases h : reach.Serves library.root library.cache <;> simp [numbers, hRoot, hCache, h]

/-- Everything in the thing that has a number belongs to the reach. -/
def Inside (reach : Reach) {α : Type} [Renamable α] (a : α) : Prop :=
  Renamable.rename (reach.numbers 0) a = Renamable.rename (reach.numbers 1) a

end Reach

section Values

variable {reach : Reach}

theorem renameWith_eq (library : Library Value)
    (h : reach.Serves library.root library.cache) {globals globals' : List (String × Value)}
    (hGlobals : globals = globals') (layout layout' : Option (Layout Value)) :
    library.renameWith (reach.numbers 0) globals layout =
      library.renameWith (reach.numbers 1) globals' layout' := by
  subst hGlobals
  exact congrArg (fun cache => { library with globals, cache, counter := 0 })
    ((Reach.memory_numbers_eq_iff rfl rfl layout layout').2 h)

mutual

/-- The two renamings agree on values that are within the reach. -/
theorem Value.inside : ∀ value : Value, value.Within reach →
    value.rename (reach.numbers 0) = value.rename (reach.numbers 1)
  | .none, _ => rfl
  | .bool _, _ => rfl
  | .int _, _ => rfl
  | .float _, _ => rfl
  | .string _ _, _ => rfl
  | .list ⟨items⟩ mark, h => by
      rw [Value.rename, Value.rename, items_inside items h]
      rfl
  | .dict entries mark, h => by
      rw [Value.rename, Value.rename, entries_inside entries h]
      rfl
  | .rendering ⟨body, pending, attributes⟩ mark, h => by
      rw [Value.rename, Value.rename, entries_inside attributes h]
      rfl
  | .builtin _ _, _ => rfl
  | .method receiver name mark, h => by
      rw [Value.rename, Value.rename, Value.inside receiver h]
      rfl
  | .function ⟨kind, name, parameters, body, frame, defaults, escape⟩ mark, h => by
      rw [Value.rename, Value.rename, Reach.frame_numbers_eq_iff.2 h.1,
        defaults_inside defaults h.2]
      rfl
  | .template ⟨name, program, defaults, escape, frame⟩ mark, h => by
      rw [Value.rename, Value.rename, Reach.frame_numbers_eq_iff.2 h.1,
        defaults_inside defaults h.2]
      rfl
  | .renderer ⟨⟨root, globals, escape, cache, exposedAs, counter⟩, layout⟩ mark, h => by
      have hGlobals := entries_inside globals h.2.1
      rw [Value.rename, Value.rename, layout_inside layout h.2.2, renameWith_eq _ h.1 hGlobals _ _]
      rfl
  | .page ⟨⟨root, globals, escape, cache, exposedAs, counter⟩, layout⟩
      ⟨name, program, defaults, escape', frame⟩ mark, h => by
      have hGlobals := entries_inside globals h.1.2.1
      rw [Value.rename, Value.rename, layout_inside layout h.1.2.2,
        renameWith_eq _ h.1.1 hGlobals _ _, Reach.frame_numbers_eq_iff.2 h.2.1,
        defaults_inside defaults h.2.2]
      rfl
  | .loop _ _, _ => rfl

theorem items_inside : ∀ items : List Value, itemsWithin reach items →
    renameItems (reach.numbers 0) items = renameItems (reach.numbers 1) items
  | [], _ => rfl
  | item :: rest, h => by
      rw [renameItems, renameItems, Value.inside item h.1, items_inside rest h.2]

theorem entries_inside : ∀ entries : List (String × Value), entriesWithin reach entries →
    renameEntries (reach.numbers 0) entries = renameEntries (reach.numbers 1) entries
  | [], _ => rfl
  | (name, value) :: rest, h => by
      rw [renameEntries, renameEntries, Value.inside value h.1, entries_inside rest h.2]

theorem defaults_inside : ∀ defaults : List (Option Value), defaultsWithin reach defaults →
    renameDefaults (reach.numbers 0) defaults = renameDefaults (reach.numbers 1) defaults
  | [], _ => rfl
  | none :: rest, h => by
      rw [renameDefaults, renameDefaults, defaults_inside rest h]
  | some value :: rest, h => by
      rw [renameDefaults, renameDefaults, Value.inside value h.1, defaults_inside rest h.2]

theorem layout_inside : ∀ layout : Option (Layout Value), layoutWithin reach layout →
    renameLayout (reach.numbers 0) layout = renameLayout (reach.numbers 1) layout
  | none, _ => rfl
  | some ⟨name, ⟨root, globals, escape, cache, exposedAs, counter⟩⟩, h => by
      rw [renameLayout, renameLayout, renameWith_eq _ h.1 (entries_inside globals h.2) none none]

end

end Values

/-! ## Operations -/

namespace Reach.Inside

variable {α β : Type} [Renamable α] [Renamable β] {reach : Reach}

/-- A function that does not see the numbers stays within the reach. -/
theorem apply {f : α → β}
    (hf : ∀ ρ : Renaming, ρ.Tells true → ∀ x, f (Renamable.rename ρ x) = Renamable.rename ρ (f x))
    {a : α} (h : reach.Inside a) : reach.Inside (f a) := by
  unfold Inside at h ⊢
  rw [← hf _ (reach.numbers_tells 0), ← hf _ (reach.numbers_tells 1), h]

theorem pair {a : α} {b : β} (h : reach.Inside a) (h' : reach.Inside b) : reach.Inside (a, b) :=
  Prod.ext h h'

theorem fst {x : α × β} (h : reach.Inside x) : reach.Inside x.1 := (Prod.ext_iff.1 h).1

theorem snd {x : α × β} (h : reach.Inside x) : reach.Inside x.2 := (Prod.ext_iff.1 h).2

theorem some {a : α} (h : reach.Inside a) : reach.Inside (some a) := congrArg Option.some h

theorem none : reach.Inside (none : Option α) := rfl

theorem of_some {a : α} (h : reach.Inside (Option.some a)) : reach.Inside a := Option.some.inj h

theorem nil : reach.Inside ([] : List α) := rfl

theorem cons {a : α} {rest : List α} (h : reach.Inside a) (hRest : reach.Inside rest) :
    reach.Inside (a :: rest) :=
  (congrArg₂ List.cons h hRest : _ :: _ = _ :: _)

theorem head {a : α} {rest : List α} (h : reach.Inside (a :: rest)) : reach.Inside a :=
  (List.cons.inj h).1

theorem tail {a : α} {rest : List α} (h : reach.Inside (a :: rest)) : reach.Inside rest :=
  (List.cons.inj h).2

/-- A result that refers to nothing is within the reach. -/
theorem ofExcept {ε : Type} {x : Except ε α} (h : ∀ a, x = .ok a → reach.Inside a) :
    reach.Inside x := by
  cases x with
  | error cause => rfl
  | ok a => exact congrArg Except.ok (h a rfl)

section Operations

variable {a b : Value} {arguments : Arguments}

theorem items (h : reach.Inside a) : reach.Inside a.items :=
  h.apply fun ρ _ => Value.items_rename ρ

theorem index (h : reach.Inside a) (hKey : reach.Inside b) : reach.Inside (a.index b) :=
  (h.pair hKey).apply (f := fun x => x.1.index x.2) fun ρ _ x => Value.index_rename ρ x.1 x.2

theorem unary (op : UnaryOp) (h : reach.Inside a) : reach.Inside (op.apply a) :=
  h.apply fun ρ _ => UnaryOp.apply_rename ρ op

theorem binary (op : BinaryOp) (h : reach.Inside a) (h' : reach.Inside b) :
    reach.Inside (op.apply a b) :=
  (h.pair h').apply (f := fun x => op.apply x.1 x.2) fun ρ _ x => BinaryOp.apply_rename ρ op x.1 x.2

theorem slice {start stop step : Option Value} (h : reach.Inside a) (hStart : reach.Inside start)
    (hStop : reach.Inside stop) (hStep : reach.Inside step) :
    reach.Inside (a.slice start stop step) :=
  (h.pair (hStart.pair (hStop.pair hStep))).apply
    (f := fun x => x.1.slice x.2.1 x.2.2.1 x.2.2.2)
    fun ρ _ x => Value.slice_rename ρ x.1 x.2.1 x.2.2.1 x.2.2.2

theorem access (h : reach.Inside a) (name : String) : reach.Inside (a.access name) :=
  h.apply (f := fun x => x.access name) fun ρ _ x => Value.access_rename ρ x name

theorem ofList {values : List Value} (h : reach.Inside values) :
    reach.Inside (Value.ofList values) :=
  h.apply fun ρ _ values => (Value.rename_ofList ρ values).symm

theorem ofEntries {entries : Entries Value} (h : reach.Inside entries) :
    reach.Inside (Value.ofEntries entries) :=
  h.apply fun ρ _ entries => (Value.rename_ofEntries ρ entries).symm

theorem ofRendering {out : Rendering Value} (h : reach.Inside out) :
    reach.Inside (Value.ofRendering out) :=
  h.apply fun ρ _ out => (Value.rename_ofRendering ρ out).symm

theorem fold {out : Rendering Value} (h : reach.Inside out) : reach.Inside out.fold :=
  h.apply fun ρ _ out => Rendering.fold_rename ρ out

theorem push {out : Rendering Value} (h : reach.Inside out) (text : String) :
    reach.Inside (out.push text) :=
  h.apply (f := fun out => out.push text) fun ρ _ out => Rendering.push_rename ρ out text

theorem setValue {out : Rendering Value} (h : reach.Inside out) (name : String)
    (hValue : reach.Inside a) : reach.Inside (out.insert name a) :=
  (h.pair hValue).apply (f := fun x => Rendering.insert x.1 name x.2)
    fun ρ _ x => Value.insert_rename ρ x.1 name x.2

theorem find? {entries : Entries Value} (h : reach.Inside entries) (name : String) :
    reach.Inside (Entries.find? name entries) :=
  h.apply fun ρ _ entries => Entries.find?_rename ρ name entries

theorem insert {entries : Entries Value} (h : reach.Inside entries) (name : String)
    (hValue : reach.Inside a) : reach.Inside (Entries.insert name a entries) :=
  (h.pair hValue).apply (f := fun x => Entries.insert name x.2 x.1)
    fun ρ _ x => Entries.insert_rename ρ name x.2 x.1

theorem positional (h : reach.Inside arguments) : reach.Inside arguments.positional :=
  congrArg Arguments.positional h

theorem argument (h : reach.Inside arguments) (place : Nat) :
    reach.Inside (Stencil.argument arguments place) :=
  h.apply (f := fun x => Stencil.argument x place) fun ρ _ x => argument_rename ρ x place

theorem take (h : reach.Inside arguments) (name : String) : reach.Inside (arguments.take name) :=
  h.apply (f := fun x => x.take name) fun ρ _ x => Arguments.take_rename ρ x name

theorem bindParameters (function : String) (parameters : List Parameter)
    {defaults : List (Option Value)} (h : reach.Inside defaults)
    (hArguments : reach.Inside arguments) :
    reach.Inside (Stencil.bindParameters function parameters defaults arguments) :=
  (h.pair hArguments).apply (f := fun x => Stencil.bindParameters function parameters x.1 x.2)
    fun ρ _ x => bindParameters_rename ρ function parameters x.1 x.2

theorem callMethod (h : reach.Inside a) (name : String) (hArguments : reach.Inside arguments) :
    reach.Inside (Stencil.callMethod a name arguments) :=
  (h.pair hArguments).apply (f := fun x => Stencil.callMethod x.1 name x.2)
    fun _ hρ x => callMethod_rename hρ.mark x.1 name x.2

end Operations

/-! ## What is inside -/

theorem receiver {receiver : Value} {name : String} {mark : Mark}
    (h : reach.Inside (Value.method receiver name mark)) : reach.Inside receiver :=
  (Value.method.inj h).1

theorem closure {closure : Closure Value} {mark : Mark}
    (h : reach.Inside (Value.function closure mark)) :
    reach.Admits closure.body closure.frame ∧ reach.Inside closure.defaults := by
  have hSame : Value.rename _ _ = Value.rename _ _ := h
  rw [Value.rename_function, Value.rename_function] at hSame
  have hClosure := (Value.function.inj hSame).1
  exact ⟨frame_numbers_eq_iff.1 (congrArg (fun c => c.frame) hClosure),
    congrArg (fun c : Closure Value => c.defaults) hClosure⟩

theorem ofClosure {closure : Closure Value} (hAdmits : reach.Admits closure.body closure.frame)
    (hDefaults : reach.Inside closure.defaults) (mark : Mark) :
    reach.Inside (Value.function closure mark) := by
  show Value.rename _ _ = Value.rename _ _
  rw [Value.rename_function, Value.rename_function, Closure.rename, Closure.rename,
    frame_numbers_eq_iff.2 hAdmits]
  exact congrArg (fun defaults => Value.function ⟨_, _, _, _, _, defaults, _⟩ _) hDefaults

theorem template {content : Template Value} (h : reach.Inside content) :
    reach.Admits content.program.body content.frame ∧ reach.Inside content.defaults :=
  ⟨frame_numbers_eq_iff.1 (congrArg (fun t => t.frame) h),
    congrArg (fun t : Template Value => t.defaults) h⟩

theorem ofTemplate {content : Template Value}
    (hAdmits : reach.Admits content.program.body content.frame)
    (hDefaults : reach.Inside content.defaults) : reach.Inside content := by
  show Template.rename _ _ = Template.rename _ _
  rw [Template.rename, Template.rename, frame_numbers_eq_iff.2 hAdmits]
  exact congrArg (Template.mk _ _ · _ _) hDefaults

/-- A library of the reach, with a layout from a library of the reach. -/
theorem renderer {content : Renderer Value} (h : reach.Inside content) :
    reach.Serves content.library.root content.library.cache ∧
      reach.Inside content.library.globals ∧
      ∀ layout ∈ content.layout, reach.Inside (Renderer.ofLayout layout) := by
  have hCache : (reach.numbers 0).memory content.library Option.none =
      (reach.numbers 1).memory content.library Option.none :=
    congrArg (fun r : Renderer Value => r.library.cache) h
  refine ⟨(memory_numbers_eq_iff rfl rfl _ _).1 hCache,
    congrArg (fun r : Renderer Value => r.library.globals) h, fun layout hLayout => ?_⟩
  have hSame : content.layout.map _ = content.layout.map _ := congrArg (fun r => r.layout) h
  rw [Option.mem_def.1 hLayout] at hSame
  exact congrArg (fun l : Layout Value => (⟨l.library, Option.none⟩ : Renderer Value))
    (Option.some.inj hSame)

/-- The library for another directory of the reach. -/
theorem descend {content : Renderer Value} (h : reach.Inside content) {root : String}
    {cache : Option Nat} (hServes : reach.Serves root cache) :
    reach.Inside { content with library := { content.library with root, cache } } := by
  have hLayout : content.layout.map _ = content.layout.map _ := congrArg (fun r => r.layout) h
  have hGlobals : Entries.rename _ _ = Entries.rename _ _ := h.renderer.2.1
  show Renderer.rename _ _ = Renderer.rename _ _
  simp only [Renderer.rename, Library.rename]
  rw [hLayout]
  exact congrArg (Renderer.mk · _)
    (renameWith_eq { content.library with root, cache } hServes hGlobals _ _)

theorem ofRenderer {content : Renderer Value} (h : reach.Inside content) (mark : Mark) :
    reach.Inside (Value.renderer content mark) := by
  show Value.rename _ _ = Value.rename _ _
  rw [Value.rename_renderer, Value.rename_renderer]
  exact congrArg (Value.renderer · _) h

theorem ofPage {content : Renderer Value} (h : reach.Inside content) {leaf : Template Value}
    (hLeaf : reach.Inside leaf) (mark : Mark) : reach.Inside (Value.page content leaf mark) := by
  show Value.rename _ _ = Value.rename _ _
  rw [Value.rename_page, Value.rename_page]
  exact congrArg₂ (Value.page · · _) h hLeaf

theorem exposed {content : Renderer Value} (h : reach.Inside content) :
    reach.Inside content.exposed := by
  unfold Renderer.exposed
  cases content.library.exposedAs with
  | none => exact nil
  | some name =>
      have hName : reach.Inside name := rfl
      exact (hName.pair (h.ofRenderer Option.none)).cons nil

end Reach.Inside

end Stencil
