import Stencil.Instr

/-!
# Code that asks for identity

The operators `is` and `is not` tell whether two values are one. For objects that is the same as
being equal; for texts and lists it shows which value was made when. Code that does not ask this
question cannot tell a text from another one with the same characters. A comparison with a constant
that has no mark does not count, since the mark of the other operand does not matter for it.

## Main results

* `Instr.testsIdentity`, `Expr.testsIdentity`: does the code ask for identity?
-/

namespace Stencil

/-- Is the expression a constant whose value has no mark? -/
def Expr.isScalar : Expr → Bool
  | .literal (.string _) => false
  | .literal _ => true
  | _ => false

/-- Does the comparison ask whether two values are one? -/
def CompareOp.isIdentity : CompareOp → Bool
  | .same => true
  | .notSame => true
  | _ => false

namespace Expr

mutual

/-- Does the code ask whether two values are one, other than a constant without a mark? -/
def testsIdentity : Expr → Bool
  | .literal _ => false
  | .name _ => false
  | .list items => anyTestsIdentity items
  | .tuple items => anyTestsIdentity items
  | .dict entries => entriesTestIdentity entries
  | .attribute value _ => value.testsIdentity
  | .index value key => value.testsIdentity || key.testsIdentity
  | .slice value start stop step =>
      value.testsIdentity || optionTestsIdentity start || optionTestsIdentity stop ||
        optionTestsIdentity step
  | .call function arguments named =>
      function.testsIdentity || anyTestsIdentity arguments || namedTestIdentity named
  | .unary _ operand => operand.testsIdentity
  | .binary _ left right => left.testsIdentity || right.testsIdentity
  | .compare left links => left.testsIdentity || linksTestIdentity links
  | .and left right => left.testsIdentity || right.testsIdentity
  | .or left right => left.testsIdentity || right.testsIdentity
  | .conditional test body otherwise =>
      test.testsIdentity || body.testsIdentity || otherwise.testsIdentity

/-- Does one of the expressions ask for identity? -/
def anyTestsIdentity : List Expr → Bool
  | [] => false
  | expr :: rest => expr.testsIdentity || anyTestsIdentity rest

/-- Does a key or a value ask for identity? -/
def entriesTestIdentity : List (Expr × Expr) → Bool
  | [] => false
  | (key, value) :: rest => key.testsIdentity || value.testsIdentity || entriesTestIdentity rest

/-- Does a named argument ask for identity? -/
def namedTestIdentity : List (String × Expr) → Bool
  | [] => false
  | (_, value) :: rest => value.testsIdentity || namedTestIdentity rest

/-- Does an expression that may be absent ask for identity? -/
def optionTestsIdentity : Option Expr → Bool
  | none => false
  | some expr => expr.testsIdentity

/-- Does a link of a chain ask for identity, or an operand of it? -/
def linksTestIdentity : List (CompareOp × Expr) → Bool
  | [] => false
  | (op, expr) :: rest =>
      (op.isIdentity && !expr.isScalar) || expr.testsIdentity || linksTestIdentity rest

end

end Expr

/-- Does a default ask for identity? -/
def Parameter.testsIdentity (parameter : Parameter) : Bool :=
  Expr.optionTestsIdentity parameter.default

/-- Does the statement ask for identity? -/
def Statement.testsIdentity : Statement → Bool
  | .assign _ value => value.testsIdentity
  | .augmented _ _ value => value.testsIdentity
  | .expression value => value.testsIdentity

namespace Instr

mutual

/-- Does the instruction ask for identity? -/
def testsIdentity : Instr → Bool
  | .text _ => false
  | .emit value _ => value.testsIdentity
  | .execute statement => statement.testsIdentity
  | .branch branches otherwise => branchesTestIdentity branches || optionTestsIdentity otherwise
  | .forLoop _ items body otherwise _ =>
      items.testsIdentity || anyTestsIdentity body || optionTestsIdentity otherwise
  | .whileLoop test body otherwise =>
      test.testsIdentity || anyTestsIdentity body || optionTestsIdentity otherwise
  | .define _ _ parameters body =>
      parameters.any Parameter.testsIdentity || anyTestsIdentity body
  | .setVar _ value => value.testsIdentity
  | .setFragment _ body => anyTestsIdentity body
  | .breakLoop => false
  | .continueLoop => false
  | .returnValue value => Expr.optionTestsIdentity value

/-- Does one of the instructions ask for identity? -/
def anyTestsIdentity : List Instr → Bool
  | [] => false
  | instr :: rest => instr.testsIdentity || anyTestsIdentity rest

/-- Do instructions that may be absent ask for identity? -/
def optionTestsIdentity : Option (List Instr) → Bool
  | none => false
  | some body => anyTestsIdentity body

/-- Does a test or the body of a branch ask for identity? -/
def branchesTestIdentity : List (Expr × List Instr) → Bool
  | [] => false
  | (test, body) :: rest =>
      test.testsIdentity || anyTestsIdentity body || branchesTestIdentity rest

end

end Instr

/-- Does the program ask for identity? -/
def Program.testsIdentity (program : Program) : Bool :=
  program.parameters.any Parameter.testsIdentity || Instr.anyTestsIdentity program.body

end Stencil
