import Stencil.Sorting.Block

/-!
# Runs

A list is cut into runs. Values that rise, or that strictly fall, for long enough are a run of
their own, and the falling ones are turned round. Elsewhere a run is a block that is sorted at once,
or a stretch that is left unsorted for the time being.

Neighbouring runs are joined in the order that a nearly optimal merge tree asks for: each place
between two runs has a depth in the tree, and a run is joined with the one before it as soon as the
place between them lies deeper than the next one. Unsorted neighbours become one unsorted run.
-/

namespace Stencil.Sorting

variable {ε α : Type}

/-- A stretch of the list. -/
structure Run (α : Type) where
  values : List α
  isSorted : Bool

/-- How a list is cut and joined: its length, the length that is worth a run, whether stretches
are sorted at once, and how an unsorted run is sorted. -/
structure Cutting (ε α : Type) where
  total : Nat
  eager : Bool
  sortRun : List α → Except ε (List α)

/-- The first values that go on rising, or go on falling, with the last of them first. -/
def monotone (less : Less ε α) (falling : Bool) (last : α) (done : List α) :
    List α → Except ε (List α)
  | [] => .ok (last :: done)
  | x :: rest => do
      if (← less x last) == falling then monotone less falling x (last :: done) rest
      else return last :: done

/-- The longest rising or strictly falling start of a list, in rising order. -/
def naturalRun (less : Less ε α) : List α → Except ε (List α)
  | x :: y :: rest => do
      let falling ← less y x
      let run ← monotone less falling y [x] rest
      return if falling then run else run.reverse
  | values => .ok values

/-- A root of a number, nearly: one step from a power of two. -/
def nearRoot (n : Nat) : Nat :=
  let shift := (1 + Nat.log2 n) / 2
  ((1 <<< shift) + (n >>> shift)) / 2

namespace Cutting

variable (cutting : Cutting ε α)

/-- The least length at which rising or falling values are a run of their own: half of a short
list, at most 64, and about the root of a long one. -/
def worthwhile : Nat :=
  if cutting.total ≤ 64 * 64 then min (cutting.total - cutting.total / 2) 64
  else nearRoot cutting.total

/-- How many values may stay unsorted together. -/
def room : Nat := max (cutting.total - cutting.total / 2) (min cutting.total 166666)

/-- The depth of the place between two neighbouring runs, which begin and end at the given
positions: the number of equal leading bits of the scaled midpoints of the runs. -/
def depth (first second stop : Nat) : Nat :=
  let scale := (4611686018427387904 + cutting.total - 1) / cutting.total
  let differing := Nat.xor (scale * (first + second)) (scale * (second + stop))
  if differing = 0 then 64 else 63 - Nat.log2 differing

/-- The run at the start of the values. -/
def firstRun [Contradictable ε] (less : Less ε α) (values : List α) (count : Nat) :
    Except ε (Run α) := do
  let natural ← if cutting.worthwhile ≤ count then naturalRun less values else pure []
  if cutting.worthwhile ≤ natural.length && !natural.isEmpty then return ⟨natural, true⟩
  if cutting.eager then return ⟨← sortBlock less (values.take blockLimit), true⟩
  return ⟨values.take cutting.worthwhile, false⟩

/-- The values of a run in order. -/
def sorted (run : Run α) : Except ε (List α) :=
  if run.isSorted then .ok run.values else cutting.sortRun run.values

/-- Joins two neighbouring runs. -/
def join (less : Less ε α) (left right : Run α) : Except ε (Run α) := do
  if left.isSorted || right.isSorted ||
      cutting.room < left.values.length + right.values.length then
    let leftValues ← cutting.sorted left
    let rightValues ← cutting.sorted right
    return ⟨← merge less leftValues rightValues, true⟩
  return ⟨left.values ++ right.values, false⟩

/-- Joins a run with the waiting runs before it, as far as the places between them lie at least at
the given depth. -/
def settle (less : Less ε α) (depth : Nat) (run : Run α) :
    List (Run α × Nat) → Except ε (Run α × List (Run α × Nat))
  | [] => .ok (run, [])
  | waiting :: rest => do
      if waiting.2 < depth then return (run, waiting :: rest)
      settle less depth (← cutting.join less waiting.1 run) rest

/-- Cuts the values that are left into runs and joins them all with the last run and the waiting
ones before it. -/
def joinAll [Contradictable ε] (less : Less ε α) (waiting : List (Run α × Nat)) (last : Run α)
    (position : Nat) :
    List α → Except ε (Run α)
  | [] => Prod.fst <$> cutting.settle less 0 last waiting
  | x :: rest => do
      let next ← cutting.firstRun less (x :: rest) (cutting.total - position)
      let stop := position + next.values.length
      let depth := cutting.depth (position - last.values.length) position stop
      let (last, waiting) ← cutting.settle less depth last waiting
      joinAll less ((last, depth) :: waiting) next stop (rest.drop (next.values.length - 1))
termination_by values => values.length
decreasing_by simp only [List.length_cons, List.length_drop]; omega

/-- Sorts a list by its runs. -/
def sort [Contradictable ε] (less : Less ε α) (values : List α) : Except ε (List α) := do
  let first ← cutting.firstRun less values cutting.total
  let stop := first.values.length
  cutting.sorted (← cutting.joinAll less [] first stop (values.drop stop))

end Cutting

/-- Sorts a list by blocks, which are joined in pairs. -/
def sortByBlocks [Contradictable ε] (less : Less ε α) (values : List α) : Except ε (List α) :=
  Cutting.sort ⟨values.length, true, sortBlock less⟩ less values

end Stencil.Sorting
