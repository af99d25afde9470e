import Stencil.Text.Search

/-!
# Commands

What the command line may ask for: to render a template, or to check that templates compile. The
arguments are words and options. An option starts with two hyphens; its value follows an equals sign
or is the next argument, which must not look like an option. After two hyphens alone all arguments
are words. An option that is not repeatable may be given once, and no path may be empty. Who asks
for help gets it, whatever follows.

## Main results

* `partsOf?_map_word`: arguments without hyphens are words.
-/

namespace Stencil

/-! ## Parts of a command line -/

/-- A part of a command line. -/
inductive Part where
  | word (text : String)
  /-- An option with a value. -/
  | option (name value : String)
  /-- An option without a value. -/
  | flag (name : String)
  deriving DecidableEq, Repr

/-- The part that asks for help. Nothing follows it. -/
def Part.help : Part := .flag "help"

/-- Does an argument consist of a hyphen, this letter, and perhaps more? -/
def hasLetter (letter : Char) (argument : String) : Bool :=
  ['-', letter].isPrefixOf argument.toList

/-- Does an argument look like an option? A hyphen alone does not. -/
def looksLikeOption (argument : String) : Bool :=
  match argument.toList with
  | '-' :: _ :: _ => true
  | _ => false

/-- The name of an option and the value that is attached to it, when the argument is an option. -/
def splitOption? (argument : String) : Option (String × Option String) :=
  match argument.toList with
  | '-' :: '-' :: body =>
      match Text.cut ['='] body with
      | some (name, value) => some (String.ofList name, some (String.ofList value))
      | none => some (String.ofList body, none)
  | _ => none

/-- The parts of a command line, given the options with values and those without. -/
def partsOf? (valued flags : List String) : List String → Option (List Part)
  | [] => some []
  | argument :: rest =>
      if argument = "--" then some (rest.map .word)
      else if hasLetter 'h' argument || argument = "--help" then some [.help]
      else match splitOption? argument with
        | some (name, attached) =>
            if valued.contains name then
              match attached, rest with
              | some value, rest => (partsOf? valued flags rest).map (.option name value :: ·)
              | none, value :: rest =>
                  if looksLikeOption value then none
                  else (partsOf? valued flags rest).map (.option name value :: ·)
              | none, [] => none
            else if flags.contains name && attached.isNone then
              (partsOf? valued flags rest).map (.flag name :: ·)
            else none
        | none =>
            if looksLikeOption argument then none
            else (partsOf? valued flags rest).map (.word argument :: ·)

/-- Arguments that do not start with hyphens are words. -/
theorem partsOf?_map_word (valued flags : List String) {arguments : List String}
    (h : ∀ a ∈ arguments, a.toList.head? ≠ some '-') :
    partsOf? valued flags arguments = some (arguments.map .word) := by
  induction arguments with
  | nil => rfl
  | cons argument rest ih =>
      have hHead := h argument (List.mem_cons_self ..)
      have hDashes : argument ≠ "--" := fun hEq => hHead (by rw [hEq]; rfl)
      have hLong : argument ≠ "--help" := fun hEq => hHead (by rw [hEq]; rfl)
      have hShort : hasLetter 'h' argument = false := by
        unfold hasLetter
        cases hList : argument.toList with
        | nil => rfl
        | cons c rest =>
            have hFirst : c ≠ '-' := fun hEq => hHead (by rw [hList, hEq]; rfl)
            simp [List.isPrefixOf, Ne.symm hFirst]
      have hSplit : splitOption? argument = none := by
        unfold splitOption?
        split
        · simp_all
        · rfl
      have hLooks : looksLikeOption argument = false := by
        unfold looksLikeOption
        split
        · simp_all
        · rfl
      have hRest := ih fun a ha => h a (List.mem_cons_of_mem _ ha)
      unfold partsOf?
      simp [hDashes, hLong, hShort, hSplit, hLooks, hRest]

/-! ## Commands -/

/-- The names of the environment that commands know. -/
structure Environment where
  /-- The directory of the templates. -/
  root : Option String := none
  /-- The file with the configuration. -/
  config : Option String := none

/-- How a template is to be rendered. -/
structure RenderOptions where
  root : Option String := none
  /-- Parameters, each a name and a value around an equals sign. -/
  pairs : List String := []
  /-- A file with more parameters. -/
  parameterFile : Option String := none
  /-- The file to write. -/
  output : Option String := none
  layout : Option String := none
  /-- Is nothing to be remembered? -/
  uncached : Bool := false
  config : Option String := none
  deriving DecidableEq, Repr

/-- What the command line asks for. -/
inductive Command where
  | render (name : String) (options : RenderOptions)
  | check (paths : List String)
  | version
  | help
  deriving DecidableEq, Repr

namespace Command

/-- Sets an option that may be given once. -/
def setOnce (old : Option String) (value : String) : Option (Option String) :=
  if old.isNone then some (some value) else none

/-- Sets an option that is a path and may be given once. -/
def setPath (old : Option String) (path : String) : Option (Option String) :=
  if path = "" then none else setOnce old path

/-- The name of a template and the options, if they are given, after one more part. -/
def addPart (state : Option String × RenderOptions) (part : Part) :
    Option (Option String × RenderOptions) := do
  let (name, options) := state
  match part with
  | .word text => return (← setOnce name text, options)
  | .option "root" path => return (name, { options with root := ← setPath options.root path })
  | .option "param" pair => return (name, { options with pairs := options.pairs ++ [pair] })
  | .option "params" path =>
      return (name, { options with parameterFile := ← setPath options.parameterFile path })
  | .option "output" path =>
      return (name, { options with output := ← setPath options.output path })
  | .option "base" layout =>
      return (name, { options with layout := ← setOnce options.layout layout })
  | .option "config" path =>
      return (name, { options with config := ← setPath options.config path })
  | .flag "no-cache" =>
      if options.uncached then none else return (name, { options with uncached := true })
  | _ => none

/-- The command to render that these arguments give. The environment may name the configuration when
no option does. -/
def readRender? (environment : Environment) (arguments : List String) : Option Command := do
  let valued := ["root", "param", "params", "output", "base", "config"]
  let parts ← partsOf? valued ["no-cache"] arguments
  let (name, options) ← (parts.erase .help).foldlM addPart (none, {})
  if parts.contains .help then return .help
  let name ← name
  let options ← match options.config, environment.config with
    | none, some path => (setPath none path).map fun config => { options with config }
    | _, _ => some options
  return .render name options

/-- The command to check that these arguments give. -/
def readCheck? (arguments : List String) : Option Command := do
  let parts ← partsOf? [] [] arguments
  let paths ← (parts.erase .help).mapM fun
    | .word path => if path = "" then none else some path
    | _ => none
  if parts.contains .help then return .help
  if paths.isEmpty then none else return .check paths

/-- The command that the arguments of the program give. -/
def read? (environment : Environment) : List String → Option Command
  | [] => none
  | first :: rest =>
      if first = "render" then readRender? environment rest
      else if first = "check" then readCheck? rest
      else if first = "help" then
        if rest.length ≤ 1 && rest.all ["render", "check", "help"].contains then some .help
        else none
      else if first = "--version" || hasLetter 'V' first then some .version
      else if first = "--help" || hasLetter 'h' first then some .help
      else none

end Command

end Stencil
