import Stencil.Proofs.Arithmetic
import Stencil.Value.Sequence

/-!
# Ranges

A progression starts somewhere and goes on by a step, up or down, as long as its terms come before a
stop. Which terms these are is told by `Precedes` alone, over all integers. The number of terms is
computed from the distance to the stop and the length of a step, by one division.

A range is the list of the integers from a start on, by a step, before a stop. Two integers of 64
bits may be further apart than 64 bits can tell, so the distance is brought into 64 bits before the
terms are counted. Up to there the count is the right one. From there on a range of long steps ends
too soon: its terms are the first ones of the right list, and some of the last ones are missing,
without a fault. No range has a term too many, and no step on the way to a term overflows.

## Main results

* `lt_stepsWithin_iff`: how many steps of one length fit into a distance.
* `endsBefore_upTo`: the computed progression has the terms before its stop, and no others.
* `eq_of_endsBefore`: there is one progression with these terms.
* `rangeCount_of_near`: the terms are counted right where the distance has 64 bits.
* `rangeCount_le`, `rangeSteps_fit`: never too many, and all of them have 64 bits.
* `isRange_iff`: which ranges are right.
* `far_range_stops_short`: one that is not.
-/

namespace Stencil

open Stencil.Number

/-! ## Terms before a stop -/

/-- Does the term come before the stop, going by this step? -/
def Precedes (step stop term : Int) : Prop := if 0 < step then term < stop else stop < term

/-- How far it is to the stop, going by this step. -/
def distanceTo (start stop step : Int) : Int := if 0 < step then stop - start else start - stop

/-- How many terms a distance has room for, when each is so far from the one before it. -/
def stepsWithin (distance length : Int) : Nat :=
  if distance ≤ 0 then 0 else ((distance - 1) / length).toNat + 1

/-- A term has room when the steps up to it do not use up the distance. -/
theorem lt_stepsWithin_iff {distance length : Int} (hLength : 0 < length) (i : Nat) :
    i < stepsWithin distance length ↔ i * length < distance := by
  unfold stepsWithin
  by_cases hNone : distance ≤ 0
  · rw [if_pos hNone]
    have hSteps : 0 ≤ (i : Int) * length :=
      Int.mul_nonneg (Int.natCast_nonneg i) (Int.le_of_lt hLength)
    omega
  · rw [if_neg hNone]
    have hQuotient : 0 ≤ (distance - 1) / length :=
      Int.ediv_nonneg (by omega) (Int.le_of_lt hLength)
    have hFits : (i : Int) ≤ (distance - 1) / length ↔ i * length ≤ distance - 1 :=
      Int.le_ediv_iff_mul_le hLength
    omega

/-- The steps up to a term use up less than the distance exactly when the term precedes the stop. -/
theorem mul_lt_distanceTo_iff {start stop step : Int} (i : Nat) :
    i * (step.natAbs : Int) < distanceTo start stop step ↔
      Precedes step stop (start + i * step) := by
  unfold distanceTo Precedes
  by_cases hUp : 0 < step
  · have hLength : (step.natAbs : Int) = step := by omega
    rw [if_pos hUp, if_pos hUp, hLength]
    omega
  · have hLength : (step.natAbs : Int) = -step := by omega
    rw [if_neg hUp, if_neg hUp, hLength, Int.mul_neg]
    omega

namespace Progression

/-- The term with this number. -/
def term (p : Progression) (i : Nat) : Int := p.start + i * p.step

/-- The terms in order. -/
def terms (p : Progression) : List Int := (List.range p.count).map p.term

/-- The progression has the terms that come before the stop, and no others. -/
def EndsBefore (p : Progression) (stop : Int) : Prop :=
  ∀ i : Nat, i < p.count ↔ Precedes p.step stop (p.term i)

variable {start stop step : Int}

theorem count_upTo (start stop step : Int) :
    (upTo start stop step).count = stepsWithin (distanceTo start stop step) step.natAbs := by
  unfold upTo stepsWithin distanceTo
  by_cases hUp : 0 < step
  · have hLength : (step.natAbs : Int) = step := by omega
    simp only [if_pos hUp, hLength]
    by_cases hNone : stop ≤ start
    · rw [if_neg (by omega), if_pos (by omega)]
    · rw [if_pos (by omega), if_neg (by omega)]
  · have hLength : (step.natAbs : Int) = -step := by omega
    simp only [if_neg hUp, hLength]
    by_cases hNone : start ≤ stop
    · rw [if_neg (by omega), if_pos (by omega)]
    · rw [if_pos (by omega), if_neg (by omega)]

/-- The computed progression has the terms before its stop, and no others. -/
theorem endsBefore_upTo (hStep : step ≠ 0) : (upTo start stop step).EndsBefore stop := by
  intro i
  rw [count_upTo, lt_stepsWithin_iff (by omega)]
  exact mul_lt_distanceTo_iff i

/-- Where to start, how to go on and where to stop leave no choice. -/
theorem eq_of_endsBefore {p q : Progression} (hStart : p.start = q.start)
    (hStep : p.step = q.step) (hp : p.EndsBefore stop) (hq : q.EndsBefore stop) : p = q := by
  have hTerm (i : Nat) : p.term i = q.term i := by rw [term, term, hStart, hStep]
  have hCount (i : Nat) : i < p.count ↔ i < q.count := by
    rw [hp i, hq i, hTerm, hStep]
  have hNone := hCount p.count
  have hLast := hCount q.count
  obtain ⟨start, step, count⟩ := p
  obtain ⟨start', step', count'⟩ := q
  simp only at hStart hStep hNone hLast
  have hSame : count = count' := by omega
  rw [hStart, hStep, hSame]

@[simp] theorem length_terms (p : Progression) : p.terms.length = p.count := by
  rw [terms, List.length_map, List.length_range]

end Progression

/-! ## Counting the terms -/

/-- The outcome is the list of these terms, or a fault when there are more than a list may have. -/
structure IsRange (outcome : Except Fault Value) (terms : Progression) : Prop where
  listed : terms.count ≤ rangeLimit → ∃ numbers : List Int64,
    numbers.map Int64.toInt = terms.terms ∧ outcome = .ok (.ofList (numbers.map .int))
  refused : rangeLimit < terms.count → ∃ cause, outcome = .error (.value cause)

section Counting

variable {start stop step : Int}

theorem rangeCount_eq (start stop step : Int) : Builtin.rangeCount start stop step =
    stepsWithin (saturate (distanceTo start stop step)) (saturate step.natAbs) := rfl

theorem saturate_of_fits {n : Int} (h : FitsInt64 n) : saturate n = n := by
  obtain ⟨hLow, hHigh⟩ := h
  rw [saturate]
  omega

/-- A step of 64 bits has at least the length that is divided by. They differ for the lowest step
alone, and then there is room for one term. -/
theorem saturate_natAbs (hStep : FitsInt64 step) :
    saturate step.natAbs = step.natAbs ∨
      (step.natAbs : Int) = int64Bound ∧ saturate step.natAbs = int64Bound - 1 := by
  obtain ⟨hLow, hHigh⟩ := hStep
  simp only [saturate, int64Bound] at *
  omega

theorem saturate_natAbs_pos (hNonzero : step ≠ 0) : 0 < saturate step.natAbs := by
  simp only [saturate, int64Bound]
  omega

/-- So many of the longest steps take up more than 64 bits can tell, unless there is none. -/
theorem longest_steps_iff (i : Nat) {distance : Int} (hDistance : 0 < distance)
    (hNear : distance < int64Bound) :
    i * (int64Bound - 1 : Int) < distance ↔ i * (int64Bound : Int) < distance := by
  simp only [int64Bound] at *
  omega

/-- Where the distance has 64 bits, the terms are counted right. -/
theorem rangeCount_of_near (hStep : FitsInt64 step) (hNonzero : step ≠ 0)
    (hNear : distanceTo start stop step < int64Bound) :
    Builtin.rangeCount start stop step = (Progression.upTo start stop step).count := by
  rw [rangeCount_eq, Progression.count_upTo]
  by_cases hNone : distanceTo start stop step ≤ 0
  · have hSaturated : saturate (distanceTo start stop step) ≤ 0 := by
      simp only [saturate, int64Bound]
      omega
    rw [stepsWithin, stepsWithin, if_pos hNone, if_pos hSaturated]
  have hFits : FitsInt64 (distanceTo start stop step) := by
    simp only [FitsInt64, int64Bound] at hNear ⊢
    omega
  rw [saturate_of_fits hFits]
  have hRoom (i : Nat) :
      i < stepsWithin (distanceTo start stop step) (saturate step.natAbs) ↔
        i < stepsWithin (distanceTo start stop step) step.natAbs := by
    rw [lt_stepsWithin_iff (saturate_natAbs_pos hNonzero), lt_stepsWithin_iff (by omega)]
    rcases saturate_natAbs hStep with hSame | ⟨hLongest, hSaturated⟩
    · rw [hSame]
    · rw [hSaturated, hLongest]
      exact longest_steps_iff i (by omega) hNear
  exact Nat.le_antisymm (Nat.le_of_not_lt fun h => Nat.lt_irrefl _ ((hRoom _).1 h))
    (Nat.le_of_not_lt fun h => Nat.lt_irrefl _ ((hRoom _).2 h))

/-- The steps up to a term that is counted use up less than the distance, and less than 64 bits can
tell. -/
theorem steps_lt (hStep : FitsInt64 step) (hNonzero : step ≠ 0) {i : Nat}
    (h : i < Builtin.rangeCount start stop step) :
    i * (step.natAbs : Int) < distanceTo start stop step ∧
      i * (step.natAbs : Int) < int64Bound - 1 := by
  rw [rangeCount_eq, lt_stepsWithin_iff (saturate_natAbs_pos hNonzero)] at h
  have hNonnegative : 0 ≤ i * (step.natAbs : Int) := by positivity
  rcases saturate_natAbs hStep with hSame | ⟨hLongest, hSaturated⟩
  · rw [hSame] at h
    simp only [saturate, int64Bound] at h ⊢
    omega
  · rw [hSaturated] at h
    rw [hLongest] at hNonnegative ⊢
    simp only [saturate, int64Bound] at h hNonnegative ⊢
    omega

/-- No range has a term too many. -/
theorem rangeCount_le (hStep : FitsInt64 step) (hNonzero : step ≠ 0) :
    Builtin.rangeCount start stop step ≤ (Progression.upTo start stop step).count := by
  rw [Progression.count_upTo]
  apply Nat.le_of_not_lt
  intro hMore
  have hLast := (lt_stepsWithin_iff (by omega) _).2 (steps_lt hStep hNonzero hMore).1
  omega

/-- No step on the way to a term overflows. -/
theorem rangeSteps_fit (hStart : FitsInt64 start) (hStop : FitsInt64 stop) (hStep : FitsInt64 step)
    (hNonzero : step ≠ 0) {i : Nat} (h : i < Builtin.rangeCount start stop step) :
    FitsInt64 (i * step) ∧ FitsInt64 (start + i * step) := by
  obtain ⟨hDistance, hBound⟩ := steps_lt hStep hNonzero h
  obtain ⟨hStartLow, hStartHigh⟩ := hStart
  obtain ⟨hStopLow, hStopHigh⟩ := hStop
  have hNonnegative : 0 ≤ i * (step.natAbs : Int) := by positivity
  unfold distanceTo at hDistance
  rw [FitsInt64, FitsInt64]
  by_cases hUp : 0 < step
  · have hLength : (step.natAbs : Int) = step := by omega
    rw [if_pos hUp] at hDistance
    rw [hLength] at hDistance hBound hNonnegative
    omega
  · have hLength : (step.natAbs : Int) = -step := by omega
    rw [if_neg hUp] at hDistance
    rw [hLength, Int.mul_neg] at hDistance hBound hNonnegative
    omega

end Counting

/-! ## The function -/

section Values

variable {first last stride : Value} {start stop step : Int64}
  (hFirst : first.asInt? = some start) (hLast : last.asInt? = some stop)
  (hStride : stride.asInt? = some step)

include hFirst hLast hStride in
/-- What the function gives for three integers of which the last one is not zero. -/
theorem compute_range (hNonzero : step.toInt ≠ 0) :
    Builtin.compute "range" (.ofList [first, last, stride]) =
      let count := Builtin.rangeCount start.toInt stop.toInt step.toInt
      if rangeLimit < count then .error (.value (.rangeTooLong count))
      else .ok (.ofList ((List.range count).map fun (i : Nat) =>
        .int (Int64.ofInt (start.toInt + i * step.toInt)))) := by
  have hCheck : (Arguments.ofList [first, last, stride]).check "range" 1 (some 3) = .ok () := rfl
  have hBounds : (Arguments.ofList [first, last, stride]).positional.mapM
      (fun value => Int64.toInt <$> value.wantInt "range() argument") =
      .ok [start.toInt, stop.toInt, step.toInt] := by
    simp only [Arguments.ofList, List.mapM_cons, List.mapM_nil, wantInt_of_asInt? hFirst,
      wantInt_of_asInt? hLast, wantInt_of_asInt? hStride]
    rfl
  rw [Builtin.compute]
  simp only [Builtin.range, hCheck, hBounds, bind, Except.bind, if_neg hNonzero]
  split
  · rfl
  · rfl

include hFirst hLast hStride in
/-- A range is right when its terms are counted right, or are too many however they are counted. -/
theorem isRange_iff {terms : Progression} (hStart : terms.start = start.toInt)
    (hStep : terms.step = step.toInt) (hTerms : terms.EndsBefore stop.toInt)
    (hNonzero : step.toInt ≠ 0) :
    IsRange (Builtin.compute "range" (.ofList [first, last, stride])) terms ↔
      Builtin.rangeCount start.toInt stop.toInt step.toInt = terms.count ∨
        rangeLimit < Builtin.rangeCount start.toInt stop.toInt step.toInt := by
  have hFits := fitsInt64_toInt step
  have hSame : terms = .upTo start.toInt stop.toInt step.toInt :=
    Progression.eq_of_endsBefore hStart hStep hTerms (Progression.endsBefore_upTo hNonzero)
  have hMost : Builtin.rangeCount start.toInt stop.toInt step.toInt ≤ terms.count := by
    rw [hSame]
    exact rangeCount_le hFits hNonzero
  rw [compute_range hFirst hLast hStride hNonzero]
  by_cases hLong : rangeLimit < Builtin.rangeCount start.toInt stop.toInt step.toInt
  · simp only [if_pos hLong]
    refine iff_of_true ⟨fun hFew => ?_, fun _ => ⟨_, rfl⟩⟩ (Or.inr hLong)
    omega
  simp only [if_neg hLong]
  constructor
  · intro h
    left
    by_cases hFew : terms.count ≤ rangeLimit
    · obtain ⟨numbers, hNumbers, hOutcome⟩ := h.listed hFew
      have hLength := congrArg List.length hNumbers
      have hItems := congrArg Array.size (Value.list.inj (Except.ok.inj hOutcome)).1
      simp only [List.length_map, Progression.length_terms, List.size_toArray,
        List.length_range] at hLength hItems
      omega
    · obtain ⟨cause, hOutcome⟩ := h.refused (Nat.lt_of_not_le hFew)
      cases hOutcome
  · intro h
    have hCount : Builtin.rangeCount start.toInt stop.toInt step.toInt = terms.count := by omega
    constructor
    · intro _
      refine ⟨(List.range terms.count).map fun i => Int64.ofInt (terms.term i), ?_, ?_⟩
      · rw [Progression.terms, List.map_map]
        refine List.map_congr_left fun i hi => ?_
        rw [List.mem_range, ← hCount] at hi
        have hTerm := (rangeSteps_fit (fitsInt64_toInt start) (fitsInt64_toInt stop) hFits
          hNonzero hi).2
        rw [← hStart, ← hStep] at hTerm
        exact toInt_ofInt_of_fits hTerm.1 hTerm.2
      · rw [hCount, List.map_map, ← hStart, ← hStep]
        rfl
    · intro hMany
      omega

include hFirst hLast hStride in
/-- A range is right where the distance has 64 bits. -/
theorem isRange_of_near (hNonzero : step.toInt ≠ 0)
    (hNear : distanceTo start.toInt stop.toInt step.toInt < int64Bound) :
    IsRange (Builtin.compute "range" (.ofList [first, last, stride]))
      (.upTo start.toInt stop.toInt step.toInt) := by
  have hCount := rangeCount_of_near (fitsInt64_toInt step) hNonzero hNear
  apply (isRange_iff hFirst hLast hStride ?_ ?_ ?_ hNonzero).2 (Or.inl hCount)
  · rfl
  · rfl
  · exact Progression.endsBefore_upTo hNonzero

end Values

/-- From the lowest integer to the highest one there are four terms, but the range has two. -/
theorem far_range_stops_short :
    Progression.terms (.upTo Int64.minValue.toInt Int64.maxValue.toInt 0x4000000000000000) =
      [-0x8000000000000000, -0x4000000000000000, 0, 0x4000000000000000] ∧
    Builtin.compute "range" (.ofList [.int Int64.minValue, .int Int64.maxValue,
        .int 0x4000000000000000]) =
      .ok (.ofList [.int Int64.minValue, .int (-0x4000000000000000)]) ∧
    ¬ IsRange (Builtin.compute "range" (.ofList [.int Int64.minValue, .int Int64.maxValue,
        .int 0x4000000000000000]))
      (.upTo Int64.minValue.toInt Int64.maxValue.toInt 0x4000000000000000) := by
  have hNonzero : (0x4000000000000000 : Int64).toInt ≠ 0 := by decide
  refine ⟨by decide, rfl, ?_⟩
  intro h
  have hCounts := (isRange_iff rfl rfl rfl ?_ ?_ ?_ hNonzero).1 h
  · revert hCounts
    decide
  · rfl
  · rfl
  · exact Progression.endsBefore_upTo (by decide)

end Stencil
