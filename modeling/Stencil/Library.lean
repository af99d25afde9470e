import Stencil.Template

/-!
# Libraries of templates

A library finds templates by name in a directory. The name `users/list` stands for the first file
whose path goes on from there with a dot, or for the file of just that path; the name of a directory
leads to the library of that directory. A name must lead down from the root: an empty name, an
absolute one, and one that goes up are refused before any file is looked at.

A renderer is a library with a layout, the name of a template that the others are put into. The
layout belongs to a library of its own, which is the library as it was when the layout was chosen:
what is configured later does not reach it, but a memory that is shared stays shared.

## Main results

* `checkName_eq_ok_iff`: the names that are allowed.
-/

namespace Stencil

/-! ## Names -/

/-- Why a component may not stand in a name, if it may not. -/
def Path.Component.refusal? (name : String) : Path.Component → Option LookupCause
  | .root => some (.absoluteName name)
  | .parent => some (.parentName name)
  | .here => none
  | .name _ => none

/-- Refuses a name that does not lead down. The first component that is wrong decides. -/
def checkName (name : String) : Except Failure Unit :=
  if name = "" then .error (.lookup .emptyName)
  else match (Path.components name).findSome? (·.refusal? name) with
    | some cause => .error (.lookup cause)
    | none => .ok ()

theorem checkName_eq_ok_iff {name : String} :
    checkName name = .ok () ↔
      name ≠ "" ∧ ∀ c ∈ Path.components name, c ≠ .root ∧ c ≠ .parent := by
  have hRefusal (c : Path.Component) : c.refusal? name = none ↔ c ≠ .root ∧ c ≠ .parent := by
    cases c <;> simp [Path.Component.refusal?]
  unfold checkName
  split
  · simp_all
  · rename_i hName
    simp only [← hRefusal, ← List.findSome?_eq_none_iff, ne_eq, hName, not_false_eq_true,
      true_and]
    split <;> simp_all

/-! ## Looking names up -/

namespace Renderer

/-- What a name leads to, looked up in the files. -/
def load (services : Services) (renderer : Renderer Value) (name : String) : Run Resolved := do
  let library := renderer.library
  checkName name
  let path := Path.join library.root name
  let files ← Run.files
  if files.isDirectory path then
    let cache ← library.cache.mapM fun _ => Run.newCache
    return .directory { renderer with library := { library with root := path, cache } }
  else
    match files.find? path with
    | none => Run.fail (.lookup (.notFound name library.root))
    | some file => do
        let text ← files.readText file
        let fileName := (Path.relativeTo library.root file).map fun c =>
          if c = '\\' then '/' else c
        let template ← Template.compile services text fileName library.globals library.escape
        Run.count library.counter
        return .template template

/-- What a name leads to. With a memory, the first answer is the answer from then on. -/
def resolve (services : Services) (renderer : Renderer Value) (name : String) : Run Resolved := do
  match renderer.library.cache with
  | none => renderer.load services name
  | some cache =>
      match ← Run.remembered? cache name with
      | some resolved => return resolved
      | none => do
          let resolved ← renderer.load services name
          Run.remember cache name resolved

/-- The template that a name leads to. -/
def template (services : Services) (renderer : Renderer Value) (name : String) :
    Run (Template Value) := do
  match ← renderer.resolve services name with
  | .template content => return content
  | .directory _ => Run.fail (.lookup (.directory name))

/-! ## Rendering -/

/-- The renderer under the name that templates can use it by, if there is one. -/
def exposed (renderer : Renderer Value) : List (String × Value) :=
  match renderer.library.exposedAs with
  | some name => [(name, .renderer renderer none)]
  | none => []

/-- The renderer of a layout, which has no layout itself. -/
def ofLayout (layout : Layout Value) : Renderer Value := ⟨layout.library, none⟩

/-- Runs a template of the library and puts what it renders into the layout. The first services are
those for what happens inside a run, the others those for finding the layout. -/
def invoke (inner : Option Services) (services : Services) (renderer : Renderer Value)
    (leaf : Template Value) (arguments : Arguments) : Run (Rendering Value) := do
  let content ← leaf.run inner renderer.exposed arguments
  match renderer.layout with
  | none => return content
  | some layout => do
      let outer := ofLayout layout
      let page ← outer.template services layout.name
      page.run inner outer.exposed (.ofList [.ofRendering content])

/-! ## Making and configuring -/

/-- A renderer for a directory, with a memory and nothing else. -/
def new (root : String) : Run (Renderer Value) := do
  let cache ← Run.newCache
  let counter ← Run.newCounter
  return ⟨⟨root, [], none, some cache, none, counter⟩, none⟩

/-- The renderer with a new memory, or with none. -/
def withCache (renderer : Renderer Value) (enabled : Bool) : Run (Renderer Value) := do
  let cache ← if enabled then some <$> Run.newCache else pure none
  return { renderer with library := { renderer.library with cache } }

/-- The renderer with the layout of this name. -/
def withLayout (renderer : Renderer Value) (name : String) : Renderer Value :=
  { renderer with layout := some ⟨name, renderer.library⟩ }

/-- The renderer with a filter that is used whatever the file names are. -/
def withEscape (renderer : Renderer Value) (escape : Escape) : Renderer Value :=
  { renderer with library := { renderer.library with escape := some escape } }

/-- The renderer with one more name that all templates know. -/
def withGlobal (renderer : Renderer Value) (name : String) (value : Value) :
    Run (Renderer Value) := do
  let value ← Run.settle value
  let globals := Entries.insert name value renderer.library.globals
  return { renderer with library := { renderer.library with globals } }

/-- The renderer that its templates can use by this name. -/
def exposeAs (renderer : Renderer Value) (name : String) : Renderer Value :=
  { renderer with library := { renderer.library with exposedAs := some name } }

/-- How many templates were compiled for this renderer and those that came from it. -/
def compilations (renderer : Renderer Value) : Run Nat := Run.counted renderer.library.counter

end Renderer

end Stencil
