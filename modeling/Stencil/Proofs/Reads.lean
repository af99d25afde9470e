import Stencil.Instr

/-!
# The names that code reads

The names whose values code asks for: those that stand in expressions, and the name on the left of
an assignment that also computes. A name that is only given a value, as a target, a parameter or a
definition, is not read, and neither are attributes and the names of arguments.

The names are those of the whole code, also of bodies of functions that are defined in it, and of
parts that are never executed.
-/

namespace Stencil

namespace Expr

mutual

/-- The names that an expression reads. -/
def reads : Expr → List String
  | .literal _ => []
  | .name identifier => [identifier]
  | .list items => allReads items
  | .tuple items => allReads items
  | .dict entries => entryReads entries
  | .attribute value _ => value.reads
  | .index value key => value.reads ++ key.reads
  | .slice value start stop step =>
      value.reads ++ (optionalReads start ++ (optionalReads stop ++ optionalReads step))
  | .call function arguments named =>
      function.reads ++ (allReads arguments ++ namedReads named)
  | .unary _ operand => operand.reads
  | .binary _ left right => left.reads ++ right.reads
  | .compare left links => left.reads ++ linkReads links
  | .and left right => left.reads ++ right.reads
  | .or left right => left.reads ++ right.reads
  | .conditional test body otherwise => test.reads ++ (body.reads ++ otherwise.reads)

/-- The names that expressions read. -/
def allReads : List Expr → List String
  | [] => []
  | expr :: rest => expr.reads ++ allReads rest

/-- The names that keys and values read. -/
def entryReads : List (Expr × Expr) → List String
  | [] => []
  | (key, value) :: rest => key.reads ++ (value.reads ++ entryReads rest)

/-- The names that named arguments read. -/
def namedReads : List (String × Expr) → List String
  | [] => []
  | (_, value) :: rest => value.reads ++ namedReads rest

/-- The names that an expression reads which may be absent. -/
def optionalReads : Option Expr → List String
  | none => []
  | some expr => expr.reads

/-- The names that the links of a chain read. -/
def linkReads : List (CompareOp × Expr) → List String
  | [] => []
  | (_, expr) :: rest => expr.reads ++ linkReads rest

end

end Expr

/-- The names that the defaults of parameters read. -/
def defaultReads : List Parameter → List String
  | [] => []
  | parameter :: rest => Expr.optionalReads parameter.default ++ defaultReads rest

/-- The names that a statement reads. -/
def Statement.reads : Statement → List String
  | .assign _ value => value.reads
  | .augmented name _ value => name :: value.reads
  | .expression value => value.reads

namespace Instr

mutual

/-- The names that an instruction reads. -/
def reads : Instr → List String
  | .text _ => []
  | .emit value _ => value.reads
  | .execute statement => statement.reads
  | .branch branches otherwise => branchReads branches ++ optionalReads otherwise
  | .forLoop _ items body otherwise _ =>
      items.reads ++ (allReads body ++ optionalReads otherwise)
  | .whileLoop test body otherwise => test.reads ++ (allReads body ++ optionalReads otherwise)
  | .define _ _ parameters body => defaultReads parameters ++ allReads body
  | .setVar _ value => value.reads
  | .setFragment _ body => allReads body
  | .breakLoop => []
  | .continueLoop => []
  | .returnValue value => Expr.optionalReads value

/-- The names that instructions read. -/
def allReads : List Instr → List String
  | [] => []
  | instr :: rest => instr.reads ++ allReads rest

/-- The names that instructions read which may be absent. -/
def optionalReads : Option (List Instr) → List String
  | none => []
  | some body => allReads body

/-- The names that branches read, in their tests and in their bodies. -/
def branchReads : List (Expr × List Instr) → List String
  | [] => []
  | (test, body) :: rest => test.reads ++ (allReads body ++ branchReads rest)

end

end Instr

/-- The names that a program reads, in the defaults of its parameters and in its body. -/
def Program.reads (program : Program) : List String :=
  defaultReads program.parameters ++ Instr.allReads program.body

end Stencil
