import Stencil.Sorting
import Stencil.Value.Compare

/-!
# Sorting by rank

Putting values in the order of their ranks. Values of equal rank keep the order they came in, also
when the order is turned round. Two ranks without an order are a clash, and the first clash that the
sorting meets is reported when it is done: until then it goes on as if neither of the two ranks went
before the other. Such an order, like one of ranks that are rounded, may contradict itself, and a
sorting that comes upon that breaks off.
-/

namespace Stencil

instance : Sorting.Contradictable Fault := ⟨.broken .order⟩

/-- A value and the rank it is sorted by. -/
structure Ranked where
  rank : Value
  item : Value

namespace Ranked

/-- Goes `x` before `y`? -/
def before (reverse : Bool) (x y : Ranked) : Except Fault Bool :=
  (· == if reverse then .gt else .lt) <$> x.rank.orderFor "<" y.rank

/-- What the sorting is told. Where there is no order, neither of two values goes before the other.
-/
def told (reverse : Bool) (x y : Ranked) : Except Fault Bool :=
  .ok ((before reverse x y).toOption.getD false)

/-- The values in the order of their ranks, or the reverse order. After a clash the sorting goes on,
and it may still break off. -/
def sort (reverse : Bool) (values : List Ranked) : Except Fault (List Ranked) :=
  match Sorting.sort (before reverse) values with
  | .ok sorted => .ok sorted
  | .error clash => do
      let _ ← Sorting.sort (told reverse) values
      .error clash

end Ranked

end Stencil
