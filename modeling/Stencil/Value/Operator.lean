import Stencil.Format.Percent
import Stencil.Value.Arithmetic
import Stencil.Value.Sequence

/-!
# Operators

The operators between two values. Two numbers are computed with; strings and lists can be put
together and repeated, and a string in front of a percent sign is a format.
-/

namespace Stencil

/-- The value of an operator between two values. -/
def BinaryOp.apply (op : BinaryOp) (left right : Value) : Except Fault Value :=
  match left.numeric?, right.numeric? with
  | some a, some b => computeNumbers op a b
  | _, _ =>
      match op, left, right with
      | .add, .string a _, .string b _ => .ok (.ofString (a ++ b))
      | .add, .list a _, .list b _ => .ok (.ofArray (a ++ b))
      | .multiply, left, right => multiplySequence left right
      | .modulo, .string format _, values => .ofChars <$> Format.percent format.toList values
      | op, left, right => .error (unsupported op left right)

/-- Does a comparison hold? -/
def CompareOp.apply (op : CompareOp) (left right : Value) : Except Fault Bool :=
  match op with
  | .equal => .ok (left.equals right)
  | .notEqual => .ok !left.equals right
  | .less => (·.isLT) <$> left.orderFor op.symbol right
  | .lessEqual => (·.isLE) <$> left.orderFor op.symbol right
  | .greater => (·.isGT) <$> left.orderFor op.symbol right
  | .greaterEqual => (·.isGE) <$> left.orderFor op.symbol right
  | .isIn => right.contains left
  | .notIn => (!·) <$> right.contains left
  | .same => .ok (left.same right)
  | .notSame => .ok !left.same right

end Stencil
