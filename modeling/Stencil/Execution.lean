import Stencil.Evaluation

/-!
# Executing instructions

Instructions render text, set variables, and steer the flow. A list of instructions is executed in
order until one of them changes the flow: a directive leaves the pass of a loop or the loop, or
returns a value. The innermost loop takes note of the first two; a returned value passes through all
loops to the call.

Execution follows the structure of the instructions. A loop over items ends with its items. A loop
that tests a condition makes as many passes as the setting allows and stops unfinished when it needs
more, so that every execution comes to an end.

## Main results

* `executeAll_nil`, `executeAll_cons`: a list is executed in order, up to the first change of flow.
-/

namespace Stencil

/-- How execution goes on. -/
inductive Flow where
  /-- To the next instruction. -/
  | normal
  /-- Out of the innermost loop. -/
  | broke
  /-- To the next pass of the innermost loop. -/
  | continued
  /-- Out of the call, with the value that was given. -/
  | returned (value : Option Value)

/-- Does a loop whose body ended this way make the next pass? -/
def Flow.goesOn : Flow → Bool
  | normal => true
  | continued => true
  | _ => false

/-- How execution goes on, and what is rendered up to there. -/
abbrev Progress := Flow × Rendering Value

/-! ## Assignment -/

mutual

/-- Assigns a value to a target. -/
def assign (frame : FrameId) (value : Value) : Target → Run Unit
  | .name name => Run.define frame name value
  | .tuple targets => do
      let items ← value.items
      if targets.length < items.length then
        Run.fault (.value (.tooManyItems targets.length))
      else if items.length < targets.length then
        Run.fault (.value (.tooFewItems targets.length items.length))
      else assignEach frame items targets

/-- Assigns values to targets, one to each. -/
def assignEach (frame : FrameId) (values : List Value) : List Target → Run Unit
  | [] => return ()
  | target :: rest => do
      match values with
      | value :: values => do
          assign frame value target
          assignEach frame values rest
      | [] => return ()

end

/-- Assigns one value to several targets. -/
def assignAll (frame : FrameId) (value : Value) : List Target → Run Unit
  | [] => return ()
  | target :: rest => do
      assign frame value target
      assignAll frame value rest

/-- Executes a statement. -/
def Statement.execute (services : Services) (scene : Scene) (out : Rendering Value) :
    Statement → Run Unit
  | assign targets value => do
      let value ← value.evaluate services scene out
      assignAll scene.frame value targets
  | augmented name op value => do
      let current ← scene.lookup out name
      let operand ← value.evaluate services scene out
      let result ← op.apply current operand
      Run.define scene.frame name result
  | expression value => do
      let _ ← value.evaluate services scene out
      return ()

/-! ## Output -/

/-- Appends the text of a value. The absent value has none. -/
def Scene.emit (scene : Scene) (out : Rendering Value) (value : Value) (escape : Bool) :
    Rendering Value :=
  if value.isNone then out
  else if escape then out.push (scene.escape.apply value.text)
  else out.push value.text

/-! ## Loops -/

/-- Makes a pass for each item. The position of a tracked loop advances with every pass. -/
def forEach (tracked : Bool) (pass : Loops → Value → Rendering Value → Run Progress)
    (loops : Loops) (out : Rendering Value) : List Value → Run Progress
  | [] => return (.normal, out)
  | item :: rest => do
      let loops := if tracked then loops.advance else loops
      let (flow, out) ← pass loops item out
      if flow.goesOn then forEach tracked pass loops out rest else return (flow, out)

/-- Makes passes while a test holds, at most so many. -/
def whileHolds (test : Rendering Value → Run Bool) (pass : Rendering Value → Run Progress) :
    Nat → Rendering Value → Run Progress
  | 0, out => do
      let holds ← test out
      if holds then throw .unfinished else return (.normal, out)
  | passes + 1, out => do
      let holds ← test out
      if holds then
        let (flow, out) ← pass out
        if flow.goesOn then whileHolds test pass passes out else return (flow, out)
      else return (.normal, out)

/-! ## Instructions -/

section Instructions

variable (services : Services)

/-- The value of a definition, with the defaults of its parameters. -/
def closureOf (scene : Scene) (out : Rendering Value) (kind : DefinitionKind) (name : String)
    (parameters : List Parameter) (body : List Instr) : Run Value := do
  let defaults ← evaluateDefaults services scene out parameters
  return .function ⟨kind, name, parameters, body, scene.frame, defaults, scene.escape⟩ none

mutual

/-- Executes an instruction. -/
def execute (scene : Scene) (out : Rendering Value) : Instr → Run Progress
  | .text content => return (.normal, out.push content)
  | .emit value escape => do
      let value ← value.evaluate services scene out
      return (.normal, scene.emit out value escape)
  | .execute statement => do
      statement.execute services scene out
      return (.normal, out)
  | .branch branches otherwise => do
      match ← executeBranches scene out branches with
      | some progress => return progress
      | none => executeOptional scene out otherwise
  | .forLoop target items body otherwise tracked => do
      let source ← items.evaluate services scene out
      let items ← source.items
      let loops := if tracked then scene.loops.enter items.length else scene.loops
      let pass := fun (loops : Loops) (item : Value) (out : Rendering Value) => do
        assign scene.frame item target
        executeAll { scene with loops } out body
      let (flow, out) ← forEach tracked pass loops out items
      match flow with
      | .normal => executeOptional scene out otherwise
      | .returned value => return (.returned value, out)
      | _ => return (.normal, out)
  | .whileLoop test body otherwise => do
      let holds := fun out => Value.truthy <$> test.evaluate services scene out
      let passes := (← read).passes
      let (flow, out) ← whileHolds holds (fun out => executeAll scene out body) passes out
      match flow with
      | .normal => executeOptional scene out otherwise
      | .returned value => return (.returned value, out)
      | _ => return (.normal, out)
  | .define kind name parameters body => do
      let closure ← closureOf services scene out kind name parameters body
      Run.defineAsIs scene.frame name closure
      return (.normal, out)
  | .setVar name value => do
      let value ← value.evaluate services scene out
      return (.normal, out.insert name value)
  | .setFragment name body => do
      let (flow, fragment) ← executeAll scene .empty body
      match flow with
      | .returned value => return (.returned value, out)
      | _ => do
          let text ← Run.settle (.ofString fragment.text)
          return (.normal, out.insert name text)
  | .breakLoop => return (.broke, out)
  | .continueLoop => return (.continued, out)
  | .returnValue value => do
      let value ← value.mapM (Expr.evaluate services scene out)
      return (.returned value, out)

/-- Executes instructions in order, up to the first one that changes the flow. -/
def executeAll (scene : Scene) (out : Rendering Value) : List Instr → Run Progress
  | [] => return (.normal, out)
  | instr :: rest => do
      let (flow, out) ← execute scene out instr
      match flow with
      | .normal => executeAll scene out rest
      | flow => return (flow, out)

/-- Executes instructions that may be absent. -/
def executeOptional (scene : Scene) (out : Rendering Value) :
    Option (List Instr) → Run Progress
  | none => return (.normal, out)
  | some body => executeAll scene out body

/-- Executes the body of the first branch whose test holds, if there is one. -/
def executeBranches (scene : Scene) (out : Rendering Value) :
    List (Expr × List Instr) → Run (Option Progress)
  | [] => return none
  | (test, body) :: rest => do
      let test ← test.evaluate services scene out
      if test.truthy then some <$> executeAll scene out body
      else executeBranches scene out rest

end

theorem executeAll_nil (scene : Scene) (out : Rendering Value) :
    executeAll services scene out [] = return (.normal, out) := rfl

theorem executeAll_cons (scene : Scene) (out : Rendering Value) (instr : Instr)
    (rest : List Instr) :
    executeAll services scene out (instr :: rest) = (do
      let (flow, out) ← execute services scene out instr
      match flow with
      | .normal => executeAll services scene out rest
      | flow => return (flow, out)) := rfl

end Instructions

end Stencil
