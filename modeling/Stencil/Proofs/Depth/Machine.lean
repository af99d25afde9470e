import Stencil.Calling

/-!
# A machine that counts calls

The services of a run form a tower, and how many calls are inside one another is told by the level
of the tower that a body is executed with. Here is the same program on a machine that keeps a count
instead: a call adds one when it begins and takes it away when it ends, however it ends, and a call
that begins when the count is at its limit is refused. Nothing but the count tells how deep a call
is. The machine also writes down which bodies it enters.

Calls call themselves on this machine, so its definition needs a bound on how often that may go on.
It is a bound of the definition and not one of the machine: where it is reached, the run is
unfinished.

## Main definitions

* `Counted.inCall`: what a call does to the count.
* `Callees.within`: calling values and asking for attributes on the machine.
* `Counted.render`: rendering a template of a library on the machine.
-/

namespace Stencil

/-! ## The machine -/

/-- What steps share: the store, how many calls are inside one another now, how many there were at
most so far, and the bodies that were entered, the latest one first. -/
structure Depths where
  store : Store
  depth : Nat
  deepest : Nat
  entered : List (List Instr)

/-- A step that reads the files and changes the machine. -/
abbrev Counted := ReaderT Setting (EStateM Stop Depths)

namespace Depths

/-- The machine after a run during which so many calls were inside one another at most and these
bodies were entered. The count is as it was. -/
def after {α : Type} (machine : Depths) (deepest : Nat) (fresh : List (List Instr)) :
    EStateM.Result Stop Store α → EStateM.Result Stop Depths α
  | .ok value store => .ok value ⟨store, machine.depth, deepest, fresh ++ machine.entered⟩
  | .error stop store => .error stop ⟨store, machine.depth, deepest, fresh ++ machine.entered⟩

end Depths

/-- Calling values and asking them for attributes, on the machine. -/
structure Callees where
  call : Value → Arguments → Counted Value
  access : Value → String → Counted Value

namespace Counted

variable {α : Type}

/-- A run that calls nothing. -/
def ofRun (run : Run α) : Counted α := fun setting machine =>
  machine.after machine.deepest [] (run setting machine.store)

instance : MonadLift Run Counted := ⟨ofRun⟩

/-- Enters a body in a call. The call counts as long as it goes on, however it ends. -/
def inCall (body : List Instr) (action : Counted α) : Counted α := fun setting machine =>
  if callLimit ≤ machine.depth then .error (.failure (.evaluation (.value .callDepth))) machine
  else
    let depth := machine.depth + 1
    let inside := ⟨machine.store, depth, max machine.deepest depth, body :: machine.entered⟩
    match action setting inside with
    | .ok value after => .ok value { after with depth := after.depth - 1 }
    | .error stop after => .error stop { after with depth := after.depth - 1 }

/-! ## Expressions -/

/-- The item of a value under a key. A library is asked for the template of that name. -/
def item (callees : Callees) (value key : Value) : Counted Value :=
  match value with
  | .renderer _ _ => do
      let name ← ofRun (key.wantString "template name")
      callees.access value name
  | value => ofRun (Run.ofEvaluation (value.index key))

section Expressions

variable (callees : Callees) (scene : Scene) (out : Rendering Value)

mutual

/-- Evaluates an expression. -/
def evaluate : Expr → Counted Value
  | .literal constant => ofRun (Run.settle constant.value)
  | .name identifier => ofRun (scene.lookup out identifier)
  | .list items => do
      let values ← evaluateAll items
      ofRun (Run.settle (.ofList values))
  | .tuple items => do
      let values ← evaluateAll items
      ofRun (Run.settle (.ofList values))
  | .dict entries => do
      let values ← evaluateEntries [] entries
      ofRun (Run.settle (.ofEntries values))
  | .attribute value field => do
      let value ← evaluate value
      let found ← callees.access value field
      ofRun (Run.settle found)
  | .index value key => do
      let value ← evaluate value
      let key ← evaluate key
      let found ← item callees value key
      ofRun (Run.settle found)
  | .slice value start stop step => do
      let value ← evaluate value
      let start ← evaluateOptional start
      let stop ← evaluateOptional stop
      let step ← evaluateOptional step
      let part ← ofRun (value.slice start stop step)
      ofRun (Run.settle part)
  | .call function arguments named => do
      let function ← evaluate function
      let positional ← evaluateAll arguments
      let named ← evaluateNamed [] named
      let result ← callees.call function ⟨positional, named⟩
      ofRun (Run.settle result)
  | .unary op operand => do
      let operand ← evaluate operand
      let result ← ofRun (op.apply operand)
      ofRun (Run.settle result)
  | .binary op left right => do
      let left ← evaluate left
      let right ← evaluate right
      let result ← ofRun (op.apply left right)
      ofRun (Run.settle result)
  | .compare left links => do
      let left ← evaluate left
      let holds ← evaluateLinks left links
      return .bool holds
  | .and left right => do
      let left ← evaluate left
      if left.truthy then evaluate right else return left
  | .or left right => do
      let left ← evaluate left
      if left.truthy then return left else evaluate right
  | .conditional test body otherwise => do
      let test ← evaluate test
      if test.truthy then evaluate body else evaluate otherwise

/-- Evaluates expressions one after another. -/
def evaluateAll : List Expr → Counted (List Value)
  | [] => return []
  | expr :: rest => do
      let value ← evaluate expr
      let values ← evaluateAll rest
      return value :: values

/-- Evaluates the entries of a dictionary, each name before its value. -/
def evaluateEntries (done : Entries Value) : List (Expr × Expr) → Counted (Entries Value)
  | [] => return done
  | (key, expr) :: rest => do
      let key ← evaluate key
      let value ← evaluate expr
      evaluateEntries (done.insert key.text value) rest

/-- Evaluates named arguments. -/
def evaluateNamed (done : Entries Value) : List (String × Expr) → Counted (Entries Value)
  | [] => return done
  | (label, expr) :: rest => do
      let value ← evaluate expr
      evaluateNamed (done.insert label value) rest

/-- Evaluates an expression that may be absent. -/
def evaluateOptional : Option Expr → Counted (Option Value)
  | none => return none
  | some expr => do
      let value ← evaluate expr
      return some value

/-- Does each comparison of a chain hold? Operands after one that does not are not evaluated. -/
def evaluateLinks (left : Value) : List (CompareOp × Expr) → Counted Bool
  | [] => return true
  | (op, expr) :: rest => do
      let right ← evaluate expr
      let holds ← ofRun (op.apply left right)
      if holds then evaluateLinks right rest else return false

end

/-- The values of the defaults of parameters, in order. -/
def evaluateDefaults : List Parameter → Counted (List (Option Value))
  | [] => return []
  | parameter :: rest => do
      let value ← parameter.default.mapM (evaluate callees scene out)
      let values ← evaluateDefaults rest
      return value :: values

/-- Executes a statement. -/
def executeStatement : Statement → Counted Unit
  | .assign targets value => do
      let value ← evaluate callees scene out value
      ofRun (assignAll scene.frame value targets)
  | .augmented name op value => do
      let current ← ofRun (scene.lookup out name)
      let operand ← evaluate callees scene out value
      let result ← ofRun (op.apply current operand)
      ofRun (Run.define scene.frame name result)
  | .expression value => do
      let _ ← evaluate callees scene out value
      return ()

end Expressions

/-! ## Instructions -/

/-- Makes a pass for each item. The position of a tracked loop advances with every pass. -/
def forEach (tracked : Bool) (pass : Loops → Value → Rendering Value → Counted Progress)
    (loops : Loops) (out : Rendering Value) : List Value → Counted Progress
  | [] => return (.normal, out)
  | item :: rest => do
      let loops := if tracked then loops.advance else loops
      let (flow, out) ← pass loops item out
      if flow.goesOn then forEach tracked pass loops out rest else return (flow, out)

/-- Makes passes while a test holds, at most so many. -/
def whileHolds (test : Rendering Value → Counted Bool)
    (pass : Rendering Value → Counted Progress) : Nat → Rendering Value → Counted Progress
  | 0, out => do
      let holds ← test out
      if holds then throw .unfinished else return (.normal, out)
  | passes + 1, out => do
      let holds ← test out
      if holds then
        let (flow, out) ← pass out
        if flow.goesOn then whileHolds test pass passes out else return (flow, out)
      else return (.normal, out)

section Instructions

variable (callees : Callees)

mutual

/-- Executes an instruction. -/
def execute (scene : Scene) (out : Rendering Value) : Instr → Counted Progress
  | .text content => return (.normal, out.push content)
  | .emit value escape => do
      let value ← evaluate callees scene out value
      return (.normal, scene.emit out value escape)
  | .execute statement => do
      executeStatement callees scene out statement
      return (.normal, out)
  | .branch branches otherwise => do
      match ← executeBranches scene out branches with
      | some progress => return progress
      | none => executeOptional scene out otherwise
  | .forLoop target items body otherwise tracked => do
      let source ← evaluate callees scene out items
      let items ← ofRun source.items
      let loops := if tracked then scene.loops.enter items.length else scene.loops
      let pass := fun (loops : Loops) (item : Value) (out : Rendering Value) => do
        ofRun (assign scene.frame item target)
        executeAll { scene with loops } out body
      let (flow, out) ← forEach tracked pass loops out items
      match flow with
      | .normal => executeOptional scene out otherwise
      | .returned value => return (.returned value, out)
      | _ => return (.normal, out)
  | .whileLoop test body otherwise => do
      let holds := fun out => Value.truthy <$> evaluate callees scene out test
      let passes := (← read).passes
      let (flow, out) ← whileHolds holds (fun out => executeAll scene out body) passes out
      match flow with
      | .normal => executeOptional scene out otherwise
      | .returned value => return (.returned value, out)
      | _ => return (.normal, out)
  | .define kind name parameters body => do
      let defaults ← evaluateDefaults callees scene out parameters
      ofRun (Run.defineAsIs scene.frame name
        (.function ⟨kind, name, parameters, body, scene.frame, defaults, scene.escape⟩ none))
      return (.normal, out)
  | .setVar name value => do
      let value ← evaluate callees scene out value
      return (.normal, out.insert name value)
  | .setFragment name body => do
      let (flow, fragment) ← executeAll scene .empty body
      match flow with
      | .returned value => return (.returned value, out)
      | _ => do
          let text ← ofRun (Run.settle (.ofString fragment.text))
          return (.normal, out.insert name text)
  | .breakLoop => return (.broke, out)
  | .continueLoop => return (.continued, out)
  | .returnValue value => do
      let value ← value.mapM (evaluate callees scene out)
      return (.returned value, out)

/-- Executes instructions in order, up to the first one that changes the flow. -/
def executeAll (scene : Scene) (out : Rendering Value) : List Instr → Counted Progress
  | [] => return (.normal, out)
  | instr :: rest => do
      let (flow, out) ← execute scene out instr
      match flow with
      | .normal => executeAll scene out rest
      | flow => return (flow, out)

/-- Executes instructions that may be absent. -/
def executeOptional (scene : Scene) (out : Rendering Value) :
    Option (List Instr) → Counted Progress
  | none => return (.normal, out)
  | some body => executeAll scene out body

/-- Executes the body of the first branch whose test holds, if there is one. -/
def executeBranches (scene : Scene) (out : Rendering Value) :
    List (Expr × List Instr) → Counted (Option Progress)
  | [] => return none
  | (test, body) :: rest => do
      let test ← evaluate callees scene out test
      if test.truthy then some <$> executeAll scene out body
      else executeBranches scene out rest

end

end Instructions

/-! ## Templates and functions -/

/-- Runs a template on arguments, which is a call. Inside it, values are called by `inner`, if the
bound of the definition allows that. -/
def runTemplate (inner : Option Callees) (template : Template Value)
    (extras : List (String × Value)) (arguments : Arguments) : Counted (Rendering Value) :=
  inCall template.program.body <| match inner with
    | none => throw .unfinished
    | some callees => do
        let bound ← ofRun (bindParameters template.name template.program.parameters
          template.defaults arguments)
        let frame ← ofRun (Run.openFrame template.frame)
        ofRun (Run.defineAll frame extras)
        ofRun (Run.defineAll frame bound)
        let (_, out) ← executeAll callees ⟨frame, [], template.escape⟩ .empty
          template.program.body
        return out.fold

/-- Calls a function on arguments. -/
def runClosure (inner : Option Callees) (closure : Closure Value) (arguments : Arguments) :
    Counted Value :=
  inCall closure.body <| match inner with
    | none => throw .unfinished
    | some callees => do
        let bound ← ofRun (bindParameters closure.name closure.parameters closure.defaults
          arguments)
        let frame ← ofRun (Run.openFrame closure.frame)
        ofRun (Run.defineAll frame bound)
        let (flow, out) ← executeAll callees ⟨frame, [], closure.escape⟩ .empty closure.body
        match flow, closure.kind with
        | .returned (some value), _ => return value
        | _, .template => return .ofRendering out
        | _, .procedure => return .none

/-- Makes a template of a program: its globals are defined in a frame of their own, and the defaults
of its parameters are evaluated there. -/
def prepare (callees : Callees) (name : String) (program : Program)
    (globals : List (String × Value)) (escape : Escape) : Counted (Template Value) := do
  let frame ← ofRun (Run.openFrame Store.builtinFrame)
  ofRun (Run.defineAll frame globals)
  let defaults ← evaluateDefaults callees ⟨frame, [], escape⟩ .empty program.parameters
  return ⟨name, program, defaults, escape, frame⟩

/-- Compiles a text. -/
def compile (callees : Callees) (text name : String) (globals : List (String × Value))
    (escape : Option Escape) : Counted (Template Value) :=
  match Program.read (normalizeText text.toList) with
  | .ok program => prepare callees name program globals (escape.getD (.ofName name))
  | .error fault => ofRun (Run.fail (.malformed name fault))

/-! ## Libraries -/

/-- What a name of a library leads to, looked up in the files. -/
def load (callees : Callees) (renderer : Renderer Value) (name : String) : Counted Resolved := do
  let library := renderer.library
  ofRun (checkName name)
  let path := Path.join library.root name
  let files ← ofRun Run.files
  if files.isDirectory path then
    let cache ← ofRun (library.cache.mapM fun _ => Run.newCache)
    return .directory { renderer with library := { library with root := path, cache } }
  else
    match files.find? path with
    | none => ofRun (Run.fail (.lookup (.notFound name library.root)))
    | some file => do
        let text ← ofRun (files.readText file)
        let fileName := (Path.relativeTo library.root file).map fun c =>
          if c = '\\' then '/' else c
        let template ← compile callees text fileName library.globals library.escape
        ofRun (Run.count library.counter)
        return .template template

/-- What a name of a library leads to. -/
def resolve (callees : Callees) (renderer : Renderer Value) (name : String) :
    Counted Resolved := do
  match renderer.library.cache with
  | none => load callees renderer name
  | some cache =>
      match ← ofRun (Run.remembered? cache name) with
      | some resolved => return resolved
      | none => do
          let resolved ← load callees renderer name
          ofRun (Run.remember cache name resolved)

/-- The template that a name of a library leads to. -/
def findTemplate (callees : Callees) (renderer : Renderer Value) (name : String) :
    Counted (Template Value) := do
  match ← resolve callees renderer name with
  | .template content => return content
  | .directory _ => ofRun (Run.fail (.lookup (.directory name)))

/-- Runs a template of a library and puts what it renders into the layout. -/
def invoke (inner : Option Callees) (callees : Callees) (renderer : Renderer Value)
    (leaf : Template Value) (arguments : Arguments) : Counted (Rendering Value) := do
  let content ← runTemplate inner leaf renderer.exposed arguments
  match renderer.layout with
  | none => return content
  | some layout => do
      let outer := Renderer.ofLayout layout
      let page ← findTemplate callees outer layout.name
      runTemplate inner page outer.exposed (.ofList [.ofRendering content])

/-- Renders a template of a library by its name. -/
def render (callees : Callees) (renderer : Renderer Value) (name : String)
    (parameters : List (String × Value)) : Counted (Rendering Value) := do
  let leaf ← findTemplate callees renderer name
  invoke (some callees) callees renderer leaf (.ofEntries parameters)

/-! ## Calls -/

/-- The attribute of a value. That of a library is what the name leads to. -/
def accessWith (loader : Callees) (value : Value) (name : String) : Counted Value :=
  match value with
  | .renderer content _ => do
      match ← resolve loader content name with
      | .template leaf => return .page content leaf none
      | .directory child => return .renderer child none
  | value => ofRun (Run.ofEvaluation (value.access name))

/-- Calls a value. How a built-in function calls others, and how attributes are found, is given. -/
def callWith (inner : Option Callees) (access : Value → String → Counted Value)
    (callback : Value → Value → Counted Value) (loader : Callees) (value : Value)
    (arguments : Arguments) : Counted Value :=
  match value with
  | .builtin name _ => Builtin.apply callback name arguments
  | .method (.string text _) "format" _ => Format.brace access text.toList arguments
  | .method receiver name _ => ofRun (Run.ofEvaluation (callMethod receiver name arguments))
  | .function closure _ => runClosure inner closure arguments
  | .template content _ => Value.ofRendering <$> runTemplate inner content [] arguments
  | .page content leaf _ => Value.ofRendering <$> invoke inner loader content leaf arguments
  | value => ofRun (Run.fault (.notCallable value.typeName))

/-- Calls a value for an item, inside a built-in function. -/
def callForItem (inner : Option Callees) (access : Value → String → Counted Value)
    (loader : Callees) (value item : Value) : Counted Value :=
  callWith inner access (fun function _ => ofRun (Run.fault (.notCallable function.typeName)))
    loader value (.ofList [item])

end Counted

namespace Callees

/-- Breaks off when a value is called or an attribute is asked for. -/
def spent : Callees where
  access _ _ := Counted.ofRun (Run.fault (.broken .nesting))
  call _ _ := Counted.ofRun (Run.fault (.broken .nesting))

/-- Calling values and asking for attributes: with what happens inside calls, and while a template
is compiled. -/
def assemble (inner : Option Callees) (loader : Callees) : Callees :=
  let access := Counted.accessWith loader
  { access,
    call := Counted.callWith inner access (Counted.callForItem inner access loader) loader }

/-- The same with so many templates that may be compiled inside one another. -/
def above (inner : Option Callees) : Nat → Callees
  | 0 => assemble inner spent
  | loads + 1 => assemble inner (above inner loads)

/-- The same with as many of them as the setting says. -/
def onTop (inner : Option Callees) : Callees where
  access value name := do (above inner (← read).passes).access value name
  call value arguments := do (above inner (← read).passes).call value arguments

/-- Calling values and asking for attributes, where the definition goes on for so many calls inside
one another. -/
def within : Nat → Callees
  | 0 => onTop none
  | bound + 1 => onTop (some (within bound))

end Callees

end Stencil
