import Stencil.Calling
import Stencil.Notation.Yaml
import Stencil.Value.OfJson

/-!
# Publishing

Templates are rendered into files. Parameters may come from a document that serves several
templates, so of the parameters that are given a template gets those that it declares, and the
others are left out. Nothing is written unless the rendering succeeds.

## Main results

* `mem_declaredIn_iff`: which parameters a template gets.
* `publish_bytes?_other`: publishing changes no other file.
-/

namespace Stencil

/-! ## Parameters -/

/-- The parameters that a template declares, in the order in which they are given. -/
def declaredIn (template : Template Value) (given : List (String × Value)) :
    List (String × Value) :=
  given.filter fun (name, _) => template.program.parameters.any (·.name == name)

theorem mem_declaredIn_iff {template : Template Value} {given : List (String × Value)}
    {entry : String × Value} :
    entry ∈ declaredIn template given ↔
      entry ∈ given ∧ ∃ p ∈ template.program.parameters, p.name = entry.1 := by
  simp [declaredIn]

/-- The entries of a document that must be an object. -/
def entriesOf? : Json → Option (List (String × Json))
  | .object entries => some entries
  | _ => none

/-- The parameters in a file: a JSON text when the name of the file says so, and a YAML text
otherwise. -/
def loadParameters (files : Files) (path : String) : Except Failure (List (String × Value)) := do
  let text := (← files.readText path).toList
  let (document, failure) : Option Json × Failure :=
    if Path.extension? path = some "json" then (Json.read? text, .json)
    else (Yaml.read? text, .yaml)
  match document.bind entriesOf? with
  | some entries => return Value.ofNamed entries
  | none => .error failure

/-! ## Rendering -/

namespace Renderer

/-- Renders a template by name. -/
def render (renderer : Renderer Value) (name : String) (parameters : List (String × Value)) :
    Run (Rendering Value) := do
  let leaf ← renderer.template .standard name
  renderer.invoke Services.inner .standard leaf (.ofEntries parameters)

/-- The parameters that the template of this name declares. -/
def declared (renderer : Renderer Value) (name : String) (given : List (String × Value)) :
    Run (List (String × Value)) := do
  return declaredIn (← renderer.template .standard name) given

/-- Renders a template with the parameters that it declares. -/
def renderDeclared (renderer : Renderer Value) (name : String) (given : List (String × Value)) :
    Run (Rendering Value) := do
  renderer.render name (← renderer.declared name given)

end Renderer

/-! ## Writing -/

/-- Makes the directories above a path. -/
def Files.makeAbove (files : Files) (path : String) : Except Failure Files :=
  match Path.parent? path with
  | some parent => if parent = "" then .ok files else files.makeDirectories parent
  | none => .ok files

/-- Makes the directories above a path and writes a text there. Directories that were made stay even
if the text cannot be written. -/
def Files.publish (files : Files) (path text : String) : Files × Except Failure Unit :=
  match files.makeAbove path with
  | .error cause => (files, .error cause)
  | .ok made =>
      match made.writeText path text with
      | .error cause => (made, .error cause)
      | .ok written => (written, .ok ())

/-- A template that is to be rendered into a file. -/
structure Request where
  name : String
  parameters : List (String × Value)
  output : String

/-- What a request leaves behind. -/
structure Publication where
  files : Files
  store : Store
  result : Except Stop (Rendering Value)

namespace Request

/-- Refuses a request that names no template or no file. -/
def check (request : Request) : Except Failure Unit :=
  if Text.allBlank request.name.toList then .error (.config .emptyName)
  else if request.output = "" then .error (.config .emptyOutput)
  else .ok ()

/-- Renders a template of a library into a file. The library is made first. -/
def publish (request : Request) (library : Run (Renderer Value)) (setting : Setting)
    (store : Store) : Publication :=
  let rendering : Run (Rendering Value) := do
    let renderer ← library
    request.check
    renderer.renderDeclared request.name request.parameters
  match rendering.perform setting store with
  | (.error cause, store) => ⟨setting.files, store, .error cause⟩
  | (.ok content, store) =>
      match setting.files.publish request.output content.text with
      | (files, .ok ()) => ⟨files, store, .ok content⟩
      | (files, .error cause) => ⟨files, store, .error (.failure cause)⟩

end Request

/-! ## What publishing keeps -/

theorem bytes?_addDirectories (files : Files) (directory location : Location) :
    (files.addDirectories directory).bytes? location = files.bytes? location := rfl

theorem bytes?_of_makeDirectories_go {files made : Files} {location : Location}
    {segments : List String} (h : Files.makeDirectories.go files location segments = .ok made)
    (other : Location) : made.bytes? other = files.bytes? other := by
  induction segments generalizing files location with
  | nil =>
      cases h
      rfl
  | cons segment rest ih =>
      simp only [Files.makeDirectories.go] at h
      split at h
      · exact ih h
      · split at h
        · exact ih h
        · split at h
          · cases h
          · rw [ih h, bytes?_addDirectories]

theorem walk_put (files : Files) (place : Location) (bytes : ByteArray) (location : Location)
    (segments : List String) :
    (files.put place bytes).walk location segments = files.walk location segments := by
  induction segments generalizing location with
  | nil => rfl
  | cons segment rest ih =>
      simp only [Files.walk, ih]
      rfl

theorem locate?_put (files : Files) (place : Location) (bytes : ByteArray) (path : String) :
    (files.put place bytes).locate? path = files.locate? path := by
  simp only [Files.locate?, walk_put]
  rfl

theorem bytes?_of_writeText {files after : Files} {path text : String}
    (h : files.writeText path text = .ok after) {other : Location}
    (hOther : after.locate? path ≠ some other) : after.bytes? other = files.bytes? other := by
  unfold Files.writeText Files.write at h
  split at h
  · rename_i location hLocation
    split at h
    · cases h
    · cases h
      rw [locate?_put, hLocation] at hOther
      exact Files.bytes?_put_other files (fun hEq => hOther (by rw [hEq])) _
  · cases h

theorem bytes?_of_makeAbove {files made : Files} {path : String}
    (h : files.makeAbove path = .ok made) (other : Location) :
    made.bytes? other = files.bytes? other := by
  unfold Files.makeAbove at h
  split at h
  · split at h
    · cases h
      rfl
    · exact bytes?_of_makeDirectories_go h other
  · cases h
    rfl

/-- Publishing changes no file but the one that the path leads to. -/
theorem publish_bytes?_other {files : Files} {path text : String} {other : Location}
    (hOther : (files.publish path text).1.locate? path ≠ some other) :
    (files.publish path text).1.bytes? other = files.bytes? other := by
  revert hOther
  unfold Files.publish
  split
  · exact fun _ => rfl
  · rename_i made hMade
    have hKept := bytes?_of_makeAbove hMade other
    split
    · exact fun _ => hKept
    · rename_i after hAfter
      exact fun hOther => (bytes?_of_writeText hAfter hOther).trans hKept

end Stencil
