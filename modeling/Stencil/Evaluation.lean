import Stencil.Store

/-!
# Evaluating expressions

An expression is evaluated inside a scene: a frame of variables, the loops that are open, and what
is rendered so far. Evaluation goes from left to right and down the tree of the expression; it is
structural, so it always comes to an end by itself. Calling a value and asking a value for an
attribute may lead out of the expression, into other functions and templates. These two services are
given to the evaluator.

Every value that evaluation gives has its mark, so that a value that is stored and looked up twice
is one value, and two evaluations of a list are two lists.
-/

namespace Stencil

/-- What an expression needs from beyond itself. -/
structure Services where
  call : Value → Arguments → Run Value
  access : Value → String → Run Value

/-- Where an expression or an instruction stands. -/
structure Scene where
  /-- The frame of the variables. -/
  frame : FrameId
  /-- The open loops. -/
  loops : Loops
  /-- The filter for output. -/
  escape : Escape

/-- The value of a constant. -/
def Literal.value : Literal → Value
  | none => .none
  | bool b => .bool b
  | int i => .int i
  | float x => .float x
  | string text => .ofString text

/-- The position of the innermost loop, from which those of the others can be reached. -/
def Loops.value? : Loops → Option Value
  | [] => none
  | innermost :: outer => some (.loop ⟨innermost, none⟩ (outer.map (⟨·, none⟩)))

namespace Scene

/-- The value of a name. A variable comes first; without one, `loop` is the position of the
innermost loop and `result` is what is rendered so far. -/
def lookup (scene : Scene) (out : Rendering Value) (name : String) : Run Value := do
  match ← Run.lookup? scene.frame name with
  | some value => Run.settle value
  | none =>
      match name with
      | "loop" =>
          match scene.loops.value? with
          | some value => Run.settle value
          | none => Run.fault (.undefinedName name)
      | "result" => Run.settle (.ofRendering out)
      | _ => Run.fault (.undefinedName name)

end Scene

/-- The item of a value under a key. A library is asked for the template of that name. -/
def Services.item (services : Services) (value key : Value) : Run Value :=
  match value with
  | .renderer _ _ => do
      let name ← key.wantString "template name"
      services.access value name
  | value => Run.ofEvaluation (value.index key)

namespace Expr

variable (services : Services) (scene : Scene) (out : Rendering Value)

mutual

/-- Evaluates an expression. -/
def evaluate : Expr → Run Value
  | .literal constant => Run.settle constant.value
  | .name identifier => scene.lookup out identifier
  | .list items => do
      let values ← evaluateAll items
      Run.settle (.ofList values)
  | .tuple items => do
      let values ← evaluateAll items
      Run.settle (.ofList values)
  | .dict entries => do
      let values ← evaluateEntries [] entries
      Run.settle (.ofEntries values)
  | .attribute value field => do
      let value ← evaluate value
      let found ← services.access value field
      Run.settle found
  | .index value key => do
      let value ← evaluate value
      let key ← evaluate key
      let found ← services.item value key
      Run.settle found
  | .slice value start stop step => do
      let value ← evaluate value
      let start ← evaluateOptional start
      let stop ← evaluateOptional stop
      let step ← evaluateOptional step
      let part ← value.slice start stop step
      Run.settle part
  | .call function arguments named => do
      let function ← evaluate function
      let positional ← evaluateAll arguments
      let named ← evaluateNamed [] named
      let result ← services.call function ⟨positional, named⟩
      Run.settle result
  | .unary op operand => do
      let operand ← evaluate operand
      let result ← op.apply operand
      Run.settle result
  | .binary op left right => do
      let left ← evaluate left
      let right ← evaluate right
      let result ← op.apply left right
      Run.settle result
  | .compare left links => do
      let left ← evaluate left
      let holds ← evaluateLinks left links
      return .bool holds
  | .and left right => do
      let left ← evaluate left
      if left.truthy then evaluate right else return left
  | .or left right => do
      let left ← evaluate left
      if left.truthy then return left else evaluate right
  | .conditional test body otherwise => do
      let test ← evaluate test
      if test.truthy then evaluate body else evaluate otherwise

/-- Evaluates expressions one after another. -/
def evaluateAll : List Expr → Run (List Value)
  | [] => return []
  | expr :: rest => do
      let value ← evaluate expr
      let values ← evaluateAll rest
      return value :: values

/-- Evaluates the entries of a dictionary, each name before its value. -/
def evaluateEntries (done : Entries Value) : List (Expr × Expr) → Run (Entries Value)
  | [] => return done
  | (key, expr) :: rest => do
      let key ← evaluate key
      let value ← evaluate expr
      evaluateEntries (done.insert key.text value) rest

/-- Evaluates named arguments. -/
def evaluateNamed (done : Entries Value) : List (String × Expr) → Run (Entries Value)
  | [] => return done
  | (label, expr) :: rest => do
      let value ← evaluate expr
      evaluateNamed (done.insert label value) rest

/-- Evaluates an expression that may be absent. -/
def evaluateOptional : Option Expr → Run (Option Value)
  | none => return none
  | some expr => do
      let value ← evaluate expr
      return some value

/-- Does each comparison of a chain hold? Operands after one that does not are not evaluated. -/
def evaluateLinks (left : Value) : List (CompareOp × Expr) → Run Bool
  | [] => return true
  | (op, expr) :: rest => do
      let right ← evaluate expr
      let holds ← op.apply left right
      if holds then evaluateLinks right rest else return false

end

end Expr

/-- The values of the defaults of parameters, in order. -/
def evaluateDefaults (services : Services) (scene : Scene) (out : Rendering Value) :
    List Parameter → Run (List (Option Value))
  | [] => return []
  | parameter :: rest => do
      let value ← parameter.default.mapM (Expr.evaluate services scene out)
      let values ← evaluateDefaults services scene out rest
      return value :: values

end Stencil
