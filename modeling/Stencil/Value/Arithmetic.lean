import Stencil.Number.Binary
import Stencil.Number.Integer
import Stencil.Value.Compare

/-!
# Arithmetic

Sums, products and the other operations on numbers, and their meaning for strings and lists. Two
integers give an integer that is exact, or a fault when it has no 64 bits; only a true quotient and
a negative power give a float. A quotient is rounded down, and a remainder has the sign of the
divisor. With a float among the operands the result is a float.

## Main results

* `addInt_eq`, `powerInt_eq`: an integer result is the exact one.
-/

namespace Stencil

open Stencil.Number

/-- The integer of 64 bits, or a fault. -/
def fitInt (n : Int) : Except Fault Int64 :=
  match exactInt64? n with
  | some i => .ok i
  | none => .error .overflow

/-- The power of an integer. It has no 64 bits when a base beyond one is multiplied with itself so
often, nor when the exponent has more than 32 bits. -/
def power? (base : Int) (exponent : Nat) : Option Int64 :=
  if 2 * int32Bound ≤ exponent then none
  else if base.natAbs ≤ 1 then
    exactInt64? (if exponent = 0 then 1 else if exponent % 2 = 1 then base else base * base)
  else if exponent < 64 then exactInt64? (base.pow exponent)
  else none

/-- The quotient of two integers, rounded down. Rounded towards zero it is one too large where the
division leaves something and the signs differ. Only the lowest integer divided by minus one has no
64 bits. -/
def floorQuotient (a b : Int64) : Except Fault Int64 := do
  let quotient ← fitInt (a.toInt.tdiv b.toInt)
  return if a % b != 0 && (a < 0) != (b < 0) then quotient - 1 else quotient

/-- What a quotient that is rounded down leaves. What is left when it is rounded towards zero has
the sign of `a`. -/
def floorModulo (a b : Int64) : Int64 :=
  let left := a % b
  if left != 0 && (left < 0) != (b < 0) then left + b else left

/-- An operation on two integers. -/
def computeInts (op : BinaryOp) (a b : Int64) : Except Fault Value :=
  match op with
  | .add => .int <$> fitInt (a.toInt + b.toInt)
  | .subtract => .int <$> fitInt (a.toInt - b.toInt)
  | .multiply => .int <$> fitInt (a.toInt * b.toInt)
  | .divide => if b = 0 then .error .zeroDivision else .ok (.float (a.toFloat / b.toFloat))
  | .floorDivide =>
      if b = 0 then .error .zeroDivision else .int <$> floorQuotient a b
  | .modulo => if b = 0 then .error .zeroDivision else .ok (.int (floorModulo a b))
  | .power =>
      if b < 0 then .ok (.float (a.toFloat.pow b.toFloat))
      else match power? a.toInt b.toInt.toNat with
        | some i => .ok (.int i)
        | none => .error .overflow

/-- What is left of `a` after whole multiples of `b` are taken off, with the sign of `b`. -/
def floorRemainder (a b : Float) : Float :=
  let left := remainder a b
  if left != 0 && (left < 0) != (b < 0) then left + b else left

/-- An operation on two floats. -/
def computeFloats (op : BinaryOp) (a b : Float) : Except Fault Float :=
  match op with
  | .add => .ok (a + b)
  | .subtract => .ok (a - b)
  | .multiply => .ok (a * b)
  | .divide => if b == 0 then .error .zeroDivision else .ok (a / b)
  | .floorDivide => if b == 0 then .error .zeroDivision else .ok (a / b).floor
  | .modulo => if b == 0 then .error .zeroDivision else .ok (floorRemainder a b)
  | .power => .ok (a.pow b)

/-- An operation on two numbers. -/
def computeNumbers (op : BinaryOp) : Numeric → Numeric → Except Fault Value
  | .int a, .int b => computeInts op a b
  | a, b => .float <$> computeFloats op a.toFloat b.toFloat

/-- The exact sum, or a fault. -/
theorem addInt_eq (a b c : Int64) :
    computeInts .add a b = .ok (.int c) ↔ c.toInt = a.toInt + b.toInt := by
  rw [← exactInt64?_eq_some_iff]
  unfold computeInts fitInt
  cases exactInt64? (a.toInt + b.toInt) <;> simp [Functor.map, Except.map]

theorem powerInt_eq {base : Int} {exponent : Nat} (h : exponent < 64) (hBase : 1 < base.natAbs) :
    power? base exponent = exactInt64? (base.pow exponent) := by
  have h1 : ¬ 2 * int32Bound ≤ exponent := by simp only [int32Bound]; omega
  have h2 : ¬ base.natAbs ≤ 1 := by omega
  rw [power?, if_neg h1, if_neg h2, if_pos h]

/-! ## Repetition -/

/-- How often a sequence is repeated for a number: a negative one counts as zero. -/
def repetitions (n : Int64) : Nat := n.toInt.toNat

/-- Refuses a size beyond the limit. -/
def checkSize (size : Nat) (what : String) : Except Fault Unit :=
  if size ≤ sizeLimit then .ok () else .error (.value (.tooLarge what))

/-- The text so many times over, after `done`. -/
def repeatAfter (text : String) : Nat → String → String
  | 0, done => done
  | times + 1, done => repeatAfter text times (done ++ text)

/-- A text repeated. Its size is counted in bytes. -/
def repeatText (text : String) (n : Int64) : Except Fault Value := do
  let times := repetitions n
  checkSize (text.utf8ByteSize * times) "repeated string"
  return .ofString (if text.isEmpty then "" else repeatAfter text times "")

/-- A list repeated. -/
def repeatItems (items : Array Value) (n : Int64) : Except Fault Value := do
  let times := repetitions n
  checkSize (items.size * times) "repeated sequence"
  return .ofArray (if items.isEmpty then #[] else (Array.replicate times items).flatten)

/-- The fault of an operator that does not take these operands. -/
def unsupported (op : BinaryOp) (left right : Value) : Fault :=
  .type (.operands op.symbol left.typeName right.typeName)

/-- A product one of whose factors is no number: a sequence is repeated. -/
def multiplySequence (left right : Value) : Except Fault Value :=
  match left, right.asInt?, right, left.asInt? with
  | .string text _, some n, _, _ => repeatText text n
  | _, _, .string text _, some n => repeatText text n
  | .list items _, some n, _, _ => repeatItems items n
  | _, _, .list items _, some n => repeatItems items n
  | _, _, _, _ => .error (unsupported .multiply left right)

/-- The value of an operator with one operand. -/
def UnaryOp.apply (op : UnaryOp) (operand : Value) : Except Fault Value :=
  match op, operand.numeric? with
  | .not, _ => .ok (.bool !operand.truthy)
  | .negative, some (.int i) => .int <$> fitInt (-i.toInt)
  | .negative, some (.float x) => .ok (.float (-x))
  | .positive, some (.int i) => .ok (.int i)
  | .positive, some (.float x) => .ok (.float x)
  | .negative, none => .error (.type (.operand "-" operand.typeName))
  | .positive, none => .error (.type (.operand "+" operand.typeName))

end Stencil
