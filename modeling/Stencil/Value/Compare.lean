import Stencil.Value.Text

/-!
# Comparing values

Three relations: equality, order and sameness. Numbers are compared by value whatever their type.
Equality looks into lists, dictionaries and renderings; objects are equal to themselves only. An
order is defined between two numbers, two strings, and two lists whose items have an order up to the
first difference. Two values are the same when they are one value, told by its mark.

## Main results

* `equalItems_eq`: lists are equal when their items are, one by one.
-/

namespace Stencil

/-- A number of either kind. -/
inductive Numeric where
  | int (value : Int64)
  | float (value : Float)

namespace Numeric

/-- The number as a float. -/
def toFloat : Numeric → Float
  | int i => i.toFloat
  | float x => x

/-- Have the numbers the same value? An integer is compared with a float as a float. -/
def equals : Numeric → Numeric → Bool
  | int a, int b => a == b
  | a, b => a.toFloat == b.toFloat

/-- The order of two floats; none when one of them is no number. -/
def orderOfFloats (a b : Float) : Option Ordering :=
  if a < b then some .lt else if a == b then some .eq else if b < a then some .gt else none

/-- The order of two numbers. -/
def order : Numeric → Numeric → Option Ordering
  | int a, int b => some (compare a.toInt b.toInt)
  | a, b => orderOfFloats a.toFloat b.toFloat

end Numeric

namespace Value

/-- The number that a value is, a truth value being one or zero. -/
def numeric? : Value → Option Numeric
  | float x => some (.float x)
  | value => value.asInt?.map .int

/-- Is the value this number? -/
def equalsNumber (number : Numeric) (value : Value) : Bool :=
  value.numeric?.any number.equals

mutual

/-- Are two values equal? -/
def equals : Value → Value → Bool
  | none, right => right.isNone
  | bool b, right => right.equalsNumber (.int (if b then 1 else 0))
  | int i, right => right.equalsNumber (.int i)
  | float x, right => right.equalsNumber (.float x)
  | string a _, right =>
      match right with
      | string b _ => a == b
      | _ => false
  | list ⟨a⟩ _, right =>
      match right with
      | list ⟨b⟩ _ => equalItems a b
      | _ => false
  | dict a _, right =>
      match right with
      | dict b _ => a.length == b.length && equalEntries b a
      | _ => false
  | rendering ⟨body, pending, attributes⟩ _, right =>
      match right with
      | rendering other _ =>
          body.getD "" ++ pending == other.text &&
            (attributes.length == other.attributes.length &&
              equalEntries other.attributes attributes)
      | _ => false
  | left, right => right.isObject && Mark.same left.mark? right.mark?

/-- Are two lists equal, item by item? -/
def equalItems : List Value → List Value → Bool
  | [], right => right.isEmpty
  | a :: left, right =>
      match right with
      | b :: right => equals a b && equalItems left right
      | [] => false

/-- Has `right` an equal value under each name? -/
def equalEntries (right : List (String × Value)) : List (String × Value) → Bool
  | [] => true
  | (name, value) :: left =>
      (match Entries.find? name right with
        | some other => equals value other
        | Option.none => false) && equalEntries right left

end

theorem equalItems_eq (left right : List Value) :
    equalItems left right =
      (left.length == right.length && (left.zip right).all fun pair => equals pair.1 pair.2) := by
  induction left generalizing right with
  | nil => cases right <;> simp [equalItems]
  | cons a left ih =>
      cases right with
      | nil => simp [equalItems]
      | cons b right => simp [equalItems, ih, Bool.and_left_comm]

mutual

/-- The order of two values, when they have one. -/
def order? : Value → Value → Option Ordering
  | string a _, right =>
      match right with
      | string b _ => some (if a < b then .lt else if a = b then .eq else .gt)
      | _ => Option.none
  | list ⟨a⟩ _, right =>
      match right with
      | list ⟨b⟩ _ => orderItems? a b
      | _ => Option.none
  | left, right =>
      match left.numeric?, right.numeric? with
      | some a, some b => a.order b
      | _, _ => Option.none

/-- The order of two lists: that of the first items that differ, or of the lengths. -/
def orderItems? : List Value → List Value → Option Ordering
  | [], right => some (if right.isEmpty then .eq else .lt)
  | a :: left, right =>
      match right with
      | [] => some .gt
      | b :: right =>
          match order? a b with
          | some .eq => orderItems? left right
          | other => other

end

/-- The order of two values that an operator asks for, or the fault that they have none. -/
def orderFor (left : Value) (symbol : String) (right : Value) : Except Fault Ordering :=
  match left.order? right with
  | some order => .ok order
  | Option.none => .error (.type (.noOrder symbol left.typeName right.typeName))

/-- Are two values one and the same? A float is the same as no value. -/
def same : Value → Value → Bool
  | none, right => right.isNone
  | bool a, right =>
      match right with
      | bool b => a == b
      | _ => false
  | int a, right =>
      match right with
      | int b => a == b
      | _ => false
  | float _, _ => false
  | left, right => Mark.same left.mark? right.mark?

end Value

end Stencil
