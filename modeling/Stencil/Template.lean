import Stencil.Binding
import Stencil.Execution
import Stencil.Program

/-!
# Templates

A text becomes a template in three steps. Its line ends are unified first, so that every line ends
with the same character. The text is then compiled to a program. Last, the globals are defined in a
frame of their own, around which every run of the template opens its frame, and the defaults of the
parameters are evaluated there once.
-/

namespace Stencil

/-! ## Line ends -/

/-- The text with line feeds alone at the ends of its lines. -/
def unifyLineEnds : List Char → List Char
  | '\r' :: '\n' :: rest => '\n' :: unifyLineEnds rest
  | '\r' :: rest => '\n' :: unifyLineEnds rest
  | c :: rest => c :: unifyLineEnds rest
  | [] => []

/-- A text without carriage returns is left as it is. -/
theorem unifyLineEnds_of_notMem {text : List Char} (h : '\r' ∉ text) :
    unifyLineEnds text = text := by
  fun_induction unifyLineEnds text with
  | case1 rest ih => exact absurd (List.mem_cons_self ..) h
  | case2 rest hNot ih => exact absurd (List.mem_cons_self ..) h
  | case3 c rest hReturnLine hReturn ih =>
      rw [ih fun hMem => h (List.mem_cons_of_mem _ hMem)]
  | case4 => rfl

/-- The text with a line feed at its end. -/
def endLine (text : List Char) : List Char :=
  if text.getLast? = some '\n' then text else text ++ ['\n']

/-- The text with a doubled dollar in place of one that a backslash stands before. -/
def doubleEscaped : List Char → List Char
  | '\\' :: '$' :: rest => '$' :: '$' :: doubleEscaped rest
  | c :: rest => c :: doubleEscaped rest
  | [] => []

/-- A text without escaped dollars is left as it is. -/
theorem doubleEscaped_of_not_infix {text : List Char} (h : ¬ ['\\', '$'] <:+: text) :
    doubleEscaped text = text := by
  fun_induction doubleEscaped text with
  | case1 rest ih => exact absurd ⟨[], rest, rfl⟩ h
  | case2 c rest hNot ih =>
      have hRest : rest <:+: c :: rest := (List.suffix_cons c rest).isInfix
      rw [ih fun hInfix => h (hInfix.trans hRest)]
  | case3 => rfl

/-- The text as the compiler wants it: without a mark of the byte order before it, with unified line
ends, and with no dollar that is escaped by a backslash. -/
def normalizeText (text : List Char) : List Char :=
  let text := match text with
    | '\uFEFF' :: rest => rest
    | text => text
  doubleEscaped (endLine (unifyLineEnds text))

/-! ## Compiling -/

/-- Compiles a text. The name stands in messages, and where no filter is chosen the filter follows
from it. -/
def Template.compile (services : Services) (text name : String) (globals : List (String × Value))
    (escape : Option Escape) : Run (Template Value) := do
  let program ← match Program.read (normalizeText text.toList) with
    | .ok program => pure program
    | .error fault => Run.fail (.malformed name fault)
  let frame ← Run.openFrame Store.builtinFrame
  Run.defineAll frame globals
  let escape := escape.getD (.ofName name)
  let defaults ← evaluateDefaults services ⟨frame, [], escape⟩ .empty program.parameters
  return ⟨name, program, defaults, escape, frame⟩

/-! ## Running -/

/-- Runs a template on arguments. The names in `extras` are known to it, too, unless parameters have
the same names. The services are those for what happens inside the run; when there are none, too
many calls are inside one another already. -/
def Template.run (inner : Option Services) (template : Template Value)
    (extras : List (String × Value)) (arguments : Arguments) : Run (Rendering Value) :=
  match inner with
  | none => Run.fault (.value .callDepth)
  | some services => do
      let bound ← bindParameters template.name template.program.parameters template.defaults
        arguments
      let frame ← Run.openFrame template.frame
      Run.defineAll frame extras
      Run.defineAll frame bound
      let (_, out) ← executeAll services ⟨frame, [], template.escape⟩ .empty
        template.program.body
      return out.fold

/-- Calls a function on arguments. A definition of a template gives what it renders unless it
returns a value. -/
def Closure.run (inner : Option Services) (closure : Closure Value) (arguments : Arguments) :
    Run Value :=
  match inner with
  | none => Run.fault (.value .callDepth)
  | some services => do
      let bound ← bindParameters closure.name closure.parameters closure.defaults arguments
      let frame ← Run.openFrame closure.frame
      Run.defineAll frame bound
      let (flow, out) ← executeAll services ⟨frame, [], closure.escape⟩ .empty closure.body
      match flow, closure.kind with
      | .returned (some value), _ => return value
      | _, .template => return .ofRendering out
      | _, .procedure => return .none

end Stencil
