/-!
# Sorting a block

Values are sorted by a test that says which of two values goes before the other, or fails because
they have no order; the first failure ends the sorting.

A few values are sorted by insertion: they are put, one after another, behind the last value that
they do not go before. Two sorted lists are merged. Of two values neither of which goes before the
other, the one of the left list comes first. The merging starts at the end where the shorter list
lies: at the front when the left list is not longer, else at the back. Halves of one list are merged
from both ends at once, so that the two ends meet in the middle.

A block is sorted in halves: the first four values of each half by five comparisons, the others by
insertion, and the halves are merged from both ends. When the two ends do not meet, because the test
has contradicted itself, the sorting breaks off.
-/

namespace Stencil.Sorting

/-! ## Insertion -/

/-- Says whether a value goes before another one, or why the two have no order. -/
abbrev Less (ε α : Type) := α → α → Except ε Bool

/-- Failures with one among them for a test that contradicts itself. -/
class Contradictable (ε : Type) where
  contradiction : ε

variable {ε α : Type}

/-- Inserts a value into sorted values that came earlier, the last of them first. -/
def insert (less : Less ε α) (x : α) : List α → Except ε (List α)
  | [] => .ok [x]
  | y :: rest =>
      match less x y with
      | .error fault => .error fault
      | .ok true => (y :: ·) <$> insert less x rest
      | .ok false => .ok (x :: y :: rest)

/-- Inserts values one after another into sorted values, the last of them first. -/
def insertAll (less : Less ε α) (done : List α) : List α → Except ε (List α)
  | [] => .ok done
  | x :: rest =>
      match insert less x done with
      | .error fault => .error fault
      | .ok done => insertAll less done rest

/-! ## Merging sorted values -/

/-- Merges from the front, behind values that are merged already, the last of them first. -/
def mergeFront (less : Less ε α) (done : List α) : List α → List α → Except ε (List α)
  | [], right => .ok (done.reverseAux right)
  | left, [] => .ok (done.reverseAux left)
  | x :: left, y :: right =>
      match less y x with
      | .error fault => .error fault
      | .ok true => mergeFront less (y :: done) (x :: left) right
      | .ok false => mergeFront less (x :: done) left (y :: right)
termination_by left right => left.length + right.length
decreasing_by all_goals simp only [List.length_cons]; omega

/-- Merges lists that are given from their ends, in front of values that are merged already. -/
def mergeBack (less : Less ε α) (done : List α) : List α → List α → Except ε (List α)
  | [], right => .ok (right.reverseAux done)
  | left, [] => .ok (left.reverseAux done)
  | x :: left, y :: right =>
      match less y x with
      | .error fault => .error fault
      | .ok true => mergeBack less (x :: done) left (y :: right)
      | .ok false => mergeBack less (y :: done) (x :: left) right
termination_by left right => left.length + right.length
decreasing_by all_goals simp only [List.length_cons]; omega

/-- Merges two sorted lists. -/
def merge (less : Less ε α) (left right : List α) : Except ε (List α) :=
  if left.length ≤ right.length then mergeFront less [] left right
  else mergeBack less [] left.reverse right.reverse

/-- A merge from both ends: what each end still has before it, and what it has put down. The right
end reads the lists from their ends. -/
structure Ends (α : Type) where
  left : List α
  right : List α
  leftBack : List α
  rightBack : List α
  front : List α
  back : List α

namespace Ends

/-- The ends before the first step. -/
def start (left right : List α) : Ends α := ⟨left, right, left.reverse, right.reverse, [], []⟩

/-- Puts the value down that comes first. -/
def stepFront (less : Less ε α) (ends : Ends α) : Except ε (Ends α) :=
  match ends.left, ends.right with
  | x :: left, y :: right => do
      if ← less y x then return { ends with right, front := y :: ends.front }
      else return { ends with left, front := x :: ends.front }
  | _, _ => .ok ends

/-- Puts the value down that comes last. -/
def stepBack (less : Less ε α) (ends : Ends α) : Except ε (Ends α) :=
  match ends.leftBack, ends.rightBack with
  | x :: leftBack, y :: rightBack => do
      if ← less y x then return { ends with leftBack, back := x :: ends.back }
      else return { ends with rightBack, back := y :: ends.back }
  | _, _ => .ok ends

/-- Takes a number of steps at each end, in turn. -/
def steps (less : Less ε α) (ends : Ends α) : Nat → Except ε (Ends α)
  | 0 => .ok ends
  | count + 1 => do
      let ends ← ends.stepFront less
      let ends ← ends.stepBack less
      steps less ends count

/-- The value in the middle, which neither end has reached. -/
def middle (total : Nat) (ends : Ends α) : List α :=
  if total % 2 = 0 then []
  else if total / 2 < ends.left.length + ends.leftBack.length then ends.left.take 1
  else ends.right.take 1

/-- Have the ends met, with each value of the left list, but for one in the middle, put down at one
end? Then this holds of the right list, too. -/
abbrev Meet (half total : Nat) (ends : Ends α) : Prop :=
  half ≤ ends.left.length + ends.leftBack.length ∧
    ends.left.length + ends.leftBack.length ≤ half + total % 2

/-- The merged values. -/
def toList (total : Nat) (ends : Ends α) : List α :=
  ends.front.reverseAux (ends.middle total ++ ends.back)

end Ends

/-- Merges the sorted halves of one list, of which the right one may be longer by one. -/
def mergeInward [Contradictable ε] (less : Less ε α) (left right : List α) : Except ε (List α) := do
  let ends ← (Ends.start left right).steps less left.length
  let total := left.length + right.length
  if ends.Meet left.length total then return ends.toList total
  else .error Contradictable.contradiction

/-! ## Blocks -/

/-- How many values are sorted as one block at most. -/
def blockLimit : Nat := 32

/-- Two values in order. -/
def sortTwo (less : Less ε α) (x y : α) : Except ε (α × α) :=
  (if · then (y, x) else (x, y)) <$> less y x

/-- Four values in order. The lesser of the pairs' firsts and the greater of their lasts are at the
ends; the other two are compared last. -/
def sortFour (less : Less ε α) (x y z w : α) : Except ε (List α) := do
  let (a, b) ← sortTwo less x y
  let (c, d) ← sortTwo less z w
  let rightFirst ← less c a
  let leftLast ← less d b
  let least := if rightFirst then c else a
  let greatest := if leftLast then b else d
  let left := if rightFirst then a else if leftLast then c else b
  let right := if leftLast then d else if rightFirst then b else c
  let (low, high) ← sortTwo less left right
  return [least, low, high, greatest]

/-- Sorts the first four values, and leaves fewer than four to the insertion. -/
def sortStart (less : Less ε α) : List α → Except ε (List α × List α)
  | x :: y :: z :: w :: rest => (·, rest) <$> sortFour less x y z w
  | values => .ok ([], values)

/-- The two halves, each with the part of it that is sorted already. Halves of fewer than four
values have no such part. -/
def sortStarts (less : Less ε α) (left right : List α) :
    Except ε ((List α × List α) × (List α × List α)) := do
  if left.length < 4 then return (([], left), ([], right))
  return (← sortStart less left, ← sortStart less right)

/-- Sorts a block. -/
def sortBlock [Contradictable ε] (less : Less ε α) (values : List α) : Except ε (List α) := do
  if values.length < 2 then return values
  let half := values.length / 2
  let (left, right) ← sortStarts less (values.take half) (values.drop half)
  let leftDone ← insertAll less left.1.reverse left.2
  let rightDone ← insertAll less right.1.reverse right.2
  mergeInward less leftDone.reverse rightDone.reverse

end Stencil.Sorting
