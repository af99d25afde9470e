import Stencil.Calling
import Stencil.Notation.Toml
import Stencil.Value.OfJson

/-!
# Configurations

How a library of templates is set up. A configuration is read from a TOML text, in which all entries
may be missing but none may be unknown. The directory of the templates is chosen among what a caller
gives, what the environment names, and what the configuration says, in this order.

## Main results

* `resolveRoot_eq_ok`: a root that is chosen is a directory.
-/

namespace Stencil

/-- How a library of templates is set up. -/
structure Config where
  /-- The directory of the templates. -/
  root : Option String := none
  /-- Does the library remember what names led to? -/
  cache : Bool := true
  /-- The name of the layout. -/
  layout : Option String := none
  /-- The filter that is used whatever the file names are. -/
  escape : Option Escape := none
  /-- The name by which templates can use the library. -/
  exposedAs : Option String := none
  /-- More names that all templates know. -/
  globals : List (String × Json) := []

namespace Config

/-! ## Reading -/

/-- The filter with this name. -/
def escapeOf? : String → Option Escape
  | "html" => some .html
  | "plain" => some .plain
  | "none" => some .plain
  | _ => none

/-- The filter that a value names: by a text, or by the only entry of a table, which then holds
nothing. -/
def readEscape? : Json → Option Escape
  | .string word => escapeOf? word
  | .object [(word, .object [])] => escapeOf? word
  | .object [(word, .array [])] => escapeOf? word
  | _ => none

/-- Sets what an entry of a document says. -/
def set? (config : Config) (name : String) (content : Json) : Option Config :=
  match name, content with
  | "root", .string path => some { config with root := some path }
  | "cache", .bool enabled => some { config with cache := enabled }
  | "base", .string layout => some { config with layout := some layout }
  | "escape", content =>
      (readEscape? content).map fun escape => { config with escape := some escape }
  | "expose_as", .string name => some { config with exposedAs := some name }
  | "globals", .object globals => some { config with globals }
  | _, _ => none

/-- The configuration that a text describes. -/
def read (text : String) : Except Failure Config :=
  let config := (Toml.read? text.toList).bind fun entries =>
    entries.foldlM (fun (config : Config) (name, content) => config.set? name content) {}
  match config with
  | some config => .ok config
  | none => .error .toml

/-- The configuration in a file. A root that is not absolute is one below the directory of the
file. -/
def load (files : Files) (path : String) : Except Failure Config := do
  let text ← files.readText path
  let config ← read text
  let directory := (Path.parent? path).getD ""
  return { config with root := config.root.map (Path.join directory) }

/-! ## The root -/

/-- The directory of the templates. An empty name in the environment counts as none. -/
def resolveRoot (files : Files) (config : Config) (explicit environment : Option String) :
    Except Failure String :=
  match explicit <|> environment.filter (· ≠ "") <|> config.root with
  | none => .error (.config .noRoot)
  | some root =>
      if files.isDirectory root then .ok root else .error (.config (.rootNotDirectory root))

/-- A root that is chosen is a directory. -/
theorem resolveRoot_eq_ok {files : Files} {config : Config} {explicit environment : Option String}
    {root : String} (h : config.resolveRoot files explicit environment = .ok root) :
    files.isDirectory root = true := by
  unfold resolveRoot at h
  split at h
  · cases h
  · split at h
    · rename_i hDirectory
      cases h
      exact hDirectory
    · cases h

/-! ## The library -/

/-- Adds names that all templates know. -/
def addGlobals (renderer : Renderer Value) : List (String × Json) → Run (Renderer Value)
  | [] => return renderer
  | (name, content) :: rest => do
      let renderer ← renderer.withGlobal name (.ofJson content)
      addGlobals renderer rest

/-- The library in a directory, set up as the configuration says. The layout comes last, so that it
is set up in the same way. -/
def renderer (config : Config) (root : String) : Run (Renderer Value) := do
  let renderer ← Renderer.new root
  let renderer ← renderer.withCache config.cache
  let library := { renderer.library with escape := config.escape, exposedAs := config.exposedAs }
  let renderer ← addGlobals { renderer with library } config.globals
  match config.layout with
  | some name => return renderer.withLayout name
  | none => return renderer

end Config

end Stencil
