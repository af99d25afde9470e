import Stencil.Command
import Stencil.Config
import Stencil.Publishing

/-!
# Outcomes of commands

Carries commands out. A command leaves files behind, prints a text, and may end with a complaint. To
render takes four steps, and the first one that fails ends the command: the configuration is read,
the root is chosen, the parameters are collected, and the template is rendered. To check, every file
is compiled, and those that fail are counted.

## Main results

* `paths_checkAll`: a check has one result a file, as long as all files can be read.
* `complaint_runCheck_eq_none_iff`: a check succeeds when all files can be read and compile.
-/

namespace Stencil

/-! ## Complaints -/

/-- Why a command does not succeed. -/
inductive Complaint where
  | failure (cause : Failure)
  /-- The configuration in this file cannot be used. -/
  | config (path : String)
  /-- The parameters in this file cannot be used. -/
  | parameterFile (path : String)
  /-- This parameter has no equals sign. -/
  | pair (text : String)
  /-- The template of this name cannot be rendered. -/
  | template (name : String)
  | unreadable (path : String)
  /-- So many templates of all do not compile. -/
  | uncompiled (count total : Nat)
  deriving DecidableEq, Repr

/-- The wording of a complaint. -/
def Complaint.message : Complaint → String
  | failure cause => cause.message
  | config path => "Failed to load config " ++ path
  | parameterFile path => "Failed to load params file " ++ path
  | pair text => "Invalid --param " ++ quoted text ++ ", expected KEY=VALUE"
  | template name => "Failed to render template " ++ quoted name
  | unreadable path => "Failed to read " ++ path
  | uncompiled count total =>
      toString count ++ " of " ++ toString total ++ " templates failed to compile"

/-- What a command leaves behind, what it prints, and why it does not succeed, if it does not. -/
structure Outcome where
  files : Files
  output : String
  complaint : Option Complaint

/-- The code that the program ends with. -/
def Outcome.code (outcome : Outcome) : Nat := if outcome.complaint.isSome then 1 else 0

/-- The code that the program ends with when its arguments give no command. -/
def usageCode : Nat := 2

/-- The name and the version of the program. -/
def versionText : String := "sigil 0.1.0\n"

/-- How the program is used. -/
def usageText : String :=
  "usage: sigil render NAME [--root DIR] [--param KEY=VALUE] [--params FILE] [--output FILE]\n" ++
  "                    [--base NAME] [--no-cache] [--config FILE]\n" ++
  "       sigil check FILE...\n"

namespace Command

/-! ## Rendering -/

/-- The parameter that a text around an equals sign gives. The value is a JSON text, or else stands
for itself. -/
def readPair (text : String) : Except Complaint (String × Value) :=
  match Text.cut ['='] text.toList with
  | none => .error (.pair text)
  | some (name, value) =>
      let value := match Json.read? value with
        | some document => Value.ofJson document
        | none => .ofChars value
      .ok (String.ofList (Text.trim name), value)

/-- The parameters from a file and from pairs. The pairs come last and win. -/
def collect (files : Files) (path : Option String) (pairs : List String) :
    Except Complaint (List (String × Value)) := do
  let given ← match path with
    | some path => (loadParameters files path).mapError fun _ => .parameterFile path
    | none => .ok []
  let more ← pairs.mapM readPair
  return Entries.insertAll given more

/-- The configuration from a file, changed by the options. -/
def configOf (files : Files) (options : RenderOptions) : Except Complaint Config := do
  let config : Config ← match options.config with
    | some path => (Config.load files path).mapError fun _ => .config path
    | none => .ok {}
  return { config with
    layout := options.layout <|> config.layout
    cache := config.cache && !options.uncached }

/-- Renders a template. Without a file for it, the text is printed. -/
def runRender (environment : Environment) (setting : Setting) (name : String)
    (options : RenderOptions) : Outcome :=
  let files := setting.files
  let prepared : Except Complaint (Run (Renderer Value) × List (String × Value)) := do
    let config ← configOf files options
    let root ← (config.resolveRoot files options.root environment.root).mapError .failure
    let parameters ← collect files options.parameterFile options.pairs
    return (config.renderer root, parameters)
  match prepared with
  | .error complaint => ⟨files, "", some complaint⟩
  | .ok (library, parameters) =>
      match options.output with
      | some output =>
          let done := Request.publish ⟨name, parameters, output⟩ library setting .initial
          match done.result with
          | .ok _ => ⟨done.files, "", none⟩
          | .error _ => ⟨done.files, "", some (.template name)⟩
      | none =>
          let rendering : Run (Rendering Value) := do
            (← library).renderDeclared name parameters
          match rendering.perform setting .initial with
          | (.ok content, _) => ⟨files, content.text, none⟩
          | (.error _, _) => ⟨files, "", some (.template name)⟩

/-! ## Checking -/

/-- Compiles a text: the number of its parameters, or why it does not compile. -/
def checkText (setting : Setting) (path text : String) : Except Stop Nat :=
  (·.program.parameters.length) <$>
    ((Template.compile .standard text path [] none).perform setting .initial).1

/-- Is this the result of a template that does not compile? -/
def failed (result : String × Except Stop Nat) : Bool :=
  match result.2 with
  | .ok _ => false
  | .error _ => true

/-- The line about a template that was checked. -/
def reportLine : String × Except Stop Nat → String
  | (path, .ok count) => "ok: " ++ path ++ " (" ++ toString count ++ " params)\n"
  | (_, .error cause) => "error: " ++ cause.message ++ "\n"

/-- Checks files up to the first one that cannot be read: the results in order, and the path of that
file. -/
def checkAll (setting : Setting) : List String → List (String × Except Stop Nat) × Option String
  | [] => ([], none)
  | path :: rest =>
      match setting.files.readText path with
      | .error _ => ([], some path)
      | .ok text =>
          let (results, unread) := checkAll setting rest
          ((path, checkText setting path text) :: results, unread)

/-- Compiles the templates in files and prints a line for each. -/
def runCheck (setting : Setting) (paths : List String) : Outcome :=
  let (results, unread) := checkAll setting paths
  let count := results.countP failed
  let complaint := match unread with
    | some path => some (.unreadable path)
    | none => if count = 0 then none else some (.uncompiled count paths.length)
  ⟨setting.files, String.join (results.map reportLine), complaint⟩

/-! ## Commands -/

/-- Carries a command out. -/
def run (environment : Environment) (setting : Setting) : Command → Outcome
  | .render name options => runRender environment setting name options
  | .check paths => runCheck setting paths
  | .version => ⟨setting.files, versionText, none⟩
  | .help => ⟨setting.files, usageText, none⟩

/-- When all files can be read, a check has a result for each of them. -/
theorem paths_checkAll {setting : Setting} {paths : List String}
    (h : (checkAll setting paths).2 = none) :
    (checkAll setting paths).1.map Prod.fst = paths := by
  induction paths with
  | nil => rfl
  | cons path rest ih =>
      unfold checkAll at h ⊢
      split at h
      · cases h
      · simp_all

/-- A check succeeds when every file can be read and compiles, and only then. -/
theorem complaint_runCheck_eq_none_iff {setting : Setting} {paths : List String} :
    (runCheck setting paths).complaint = none ↔
      (checkAll setting paths).2 = none ∧ ∀ r ∈ (checkAll setting paths).1, failed r = false := by
  unfold runCheck
  cases hUnread : (checkAll setting paths).2 with
  | some path => simp [hUnread]
  | none => simp [hUnread, List.countP_eq_zero]

end Command

end Stencil
