import Stencil.Sorting.Run

/-!
# Stable sorting

Sorting by a test that may fail. The test says whether a value goes before another one, and where
it fails, two values have no order. A value that goes neither before nor behind another one keeps
its place to the left or the right of it. The first failure of the test is the answer, so the order
in which the values are compared can be seen: up to twenty values are sorted by insertion, up to
two blocks by blocks, and more by runs and by parting. Where blocks are merged, a test that
contradicts itself may be found out.

A list is parted round one of its values, the pivot: the values that go before it, and the others,
each part in the order it had. The parts are sorted in their turn. A pivot that nothing goes
before is taken out together with its equals. After too many bad pivots the rest is sorted by
blocks. The pivot is the median of three values, each of which is such a median itself in a long
list.
-/

namespace Stencil.Sorting

variable {ε α : Type}

/-! ## Pivots -/

/-- The test on the values at two positions. -/
def lessAt (less : Less ε α) (values : Array α) (i j : Nat) : Except ε Bool :=
  match values[i]?, values[j]? with
  | some x, some y => less x y
  | _, _ => .ok false

/-- The one of three positions that holds the middle value. -/
def median (less : Less ε α) (values : Array α) (i j k : Nat) : Except ε Nat := do
  let beforeSecond ← lessAt less values i j
  let beforeThird ← lessAt less values i k
  if beforeSecond != beforeThird then return i
  return if (← lessAt less values j k) == beforeSecond then j else k

/-- The position of the middle value of three stretches of a length. -/
def medianOf (less : Less ε α) (values : Array α) (i j k length : Nat) : Except ε Nat :=
  if length < 8 then median less values i j k
  else do
    let eighth := length / 8
    let i ← medianOf less values i (i + eighth * 4) (i + eighth * 7) eighth
    let j ← medianOf less values j (j + eighth * 4) (j + eighth * 7) eighth
    let k ← medianOf less values k (k + eighth * 4) (k + eighth * 7) eighth
    median less values i j k
termination_by length
decreasing_by all_goals omega

/-- The position of the pivot. -/
def pivotOf (less : Less ε α) (values : Array α) : Except ε Nat :=
  let eighth := values.size / 8
  if values.size < 64 then median less values 0 (eighth * 4) (eighth * 7)
  else medianOf less values 0 (eighth * 4) (eighth * 7) eighth

/-! ## Parting -/

/-- Parts a list by a test: those that pass, and those that do not. The value at the given position
is not tested; it goes where the last argument says. -/
def partAt (test : α → Except ε Bool) (passes : Bool) (left right : List α) :
    Nat → List α → Except ε (List α × List α)
  | _, [] => .ok (left.reverse, right.reverse)
  | 0, x :: rest =>
      if passes then partRest (x :: left) right rest else partRest left (x :: right) rest
  | position + 1, x :: rest =>
      match test x with
      | .error fault => .error fault
      | .ok true => partAt test passes (x :: left) right position rest
      | .ok false => partAt test passes left (x :: right) position rest
where
  /-- Parts the values after that position. -/
  partRest (left right : List α) : List α → Except ε (List α × List α)
    | [] => .ok (left.reverse, right.reverse)
    | x :: rest =>
        match test x with
        | .error fault => .error fault
        | .ok true => partRest (x :: left) right rest
        | .ok false => partRest left (x :: right) rest

/-- Does the test say that the first value does not go before the second? -/
def notLess (less : Less ε α) (x y : α) : Except ε Bool := (!·) <$> less x y

/-- Parts a list round a pivot as long as the pivots last. The pivot to the left of the list, if
there is one, goes before no value less than itself; a new pivot that it does not go before is its
equal. -/
def sortByPivots [Contradictable ε] (less : Less ε α) : Nat → Option α → List α → Except ε (List α)
  | pivots, before, values =>
      if values.length ≤ blockLimit then sortBlock less values
      else match pivots with
        | 0 => sortByBlocks less values
        | pivots + 1 => do
            let items := values.toArray
            let position ← pivotOf less items
            let some pivot := items[position]? | return values
            let isEqual ← match before with
              | some before => notLess less before pivot
              | none => pure false
            let (left, right) ←
              if isEqual then pure ([], []) else partAt (less · pivot) false [] [] position values
            if left.isEmpty then
              let (equal, right) ← partAt (notLess less pivot) true [] [] position values
              return equal ++ (← sortByPivots less pivots none right)
            else
              let right ← sortByPivots less pivots (some pivot) right
              let left ← sortByPivots less pivots before left
              return left ++ right

/-- Sorts a list by parting, with twice as many pivots as halvings. -/
def sortByParting [Contradictable ε] (less : Less ε α) (values : List α) : Except ε (List α) :=
  sortByPivots less (2 * Nat.log2 values.length) none values

/-! ## Sorting -/

/-- How many values are sorted by insertion at most. -/
def insertionLimit : Nat := 20

/-- Sorts values, or gives the first failure of the test. -/
def sort [Contradictable ε] (less : Less ε α) (values : List α) : Except ε (List α) :=
  if values.length ≤ insertionLimit then List.reverse <$> insertAll less [] values
  else if values.length ≤ 2 * blockLimit then sortByBlocks less values
  else Cutting.sort ⟨values.length, false, sortByParting less⟩ less values

end Stencil.Sorting
