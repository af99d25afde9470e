import Stencil.Proofs.Renaming.Sorting
import Stencil.Proofs.Sorting.Blocks

/-!
# Joining runs arranges

A run stands for a stretch of the list: the stretch arranged, or as it is. Rising values are
arranged as they are, and strictly falling ones when they are turned round, since no two of them are
tied. Neighbouring runs are joined into a run that stands for both stretches. Which of them are
joined first makes no difference: the waiting runs and the last one always stand for all that was
read so far, and each new run stands for at least one value, so nothing is left out.

## Main results

* `naturalRun_gives`: the first rising or falling values of a list, arranged.
* `Cutting.joinAll_gives`: all runs together stand for the list.
* `sortByBlocks_gives`: sorting by blocks arranges.
-/

namespace Stencil.Sorting

variable {ε α : Type} {lt : α → α → Bool} (hlt : IsWeakOrder lt)

/-! ## Natural runs -/

include hlt in
/-- Strictly falling values are arranged when they are turned round. -/
theorem Arranges.of_falling {values : List α} (h : values.Pairwise fun x y => lt y x = true) :
    Arranges lt values values.reverse := by
  induction values with
  | nil => exact .of_ordered .nil
  | cons x rest ih =>
      rw [List.pairwise_cons] at h
      have hOne : Arranges lt [x] [x] := .of_ordered (List.pairwise_singleton _ x)
      have hAppend := (ih h.2).append hlt hOne fun y hy z hz => by
        rw [List.mem_singleton.1 hz]
        exact hlt.asymm (h.1 y hy)
      rw [List.reverse_cons]
      have hSwap : SameTies lt ([x] ++ rest) (rest ++ [x]) :=
        .swap hlt fun y hy z hz => by
          rw [List.mem_singleton.1 hz]
          exact h.1 y hy
      exact hAppend.of_sameTies hSwap

/-- The values go on rising, or go on falling strictly. -/
abbrev IsMonotone (lt : α → α → Bool) (falling : Bool) (values : List α) : Prop :=
  values.Pairwise fun x y => lt y x = falling

include hlt in
/-- The next value goes on as the last one did, so it goes on from all of them. -/
theorem IsMonotone.push {falling : Bool} {values : List α} {last x : α}
    (h : IsMonotone lt falling (values ++ [last])) (hNext : lt x last = falling) :
    IsMonotone lt falling (values ++ [last] ++ [x]) := by
  refine List.pairwise_append.2 ⟨h, List.pairwise_singleton _ x, ?_⟩
  intro y hy z hz
  rw [List.mem_singleton.1 hz]
  rcases List.mem_append.1 hy with hy | hy
  · have hLast := (List.pairwise_append.1 h).2.2 y hy last (List.mem_singleton_self last)
    cases falling with
    | false => exact hlt.trans hLast hNext
    | true => exact hlt.lt_of_lt_of_le hNext (hlt.asymm hLast)
  · rw [List.mem_singleton.1 hy]
    exact hNext

theorem monotone_cons (falling : Bool) (last x : α) (done rest : List α) :
    monotone (answers (ε := ε) lt) falling last done (x :: rest) =
      if lt x last = falling then monotone (answers lt) falling x (last :: done) rest
      else .ok (last :: done) := by
  rw [monotone]
  show (if (lt x last == falling) = true then _ else _) = _
  by_cases hNext : lt x last = falling
  · rw [if_pos hNext, if_pos (beq_iff_eq.2 hNext)]
  · rw [if_neg hNext, if_neg (fun h => hNext (beq_iff_eq.1 h))]
    rfl

include hlt in
/-- The values that go on as the first ones do, the last of them first, and those that are left. -/
theorem monotone_gives (falling : Bool) (last : α) (done rest : List α)
    (h : IsMonotone lt falling (done.reverse ++ [last])) :
    Gives (monotone (answers (ε := ε) lt) falling last done rest) fun run =>
      IsMonotone lt falling run.reverse ∧
        ∃ left, done.reverse ++ last :: rest = run.reverse ++ left := by
  induction rest generalizing last done with
  | nil => exact .ok ⟨by simpa using h, [], by simp⟩
  | cons x rest ih =>
      rw [monotone_cons]
      by_cases hNext : lt x last = falling
      · rw [if_pos hNext]
        have hPush := h.push hlt hNext
        have hStep := ih x (last :: done) (by simpa using hPush)
        refine hStep.mono ?_
        rintro run ⟨hRun, left, hLeft⟩
        exact ⟨hRun, left, by simpa using hLeft⟩
      · rw [if_neg hNext]
        exact .ok ⟨by simpa using h, x :: rest, by simp⟩

include hlt in
/-- The natural run arranges the values at the start of the list. -/
theorem naturalRun_gives (values : List α) :
    Gives (naturalRun (answers (ε := ε) lt) values) fun run =>
      ∃ first left, values = first ++ left ∧ Arranges lt first run := by
  rcases values with _ | ⟨x, _ | ⟨y, rest⟩⟩
  · exact .ok ⟨[], [], rfl, .of_ordered .nil⟩
  · exact .ok ⟨[x], [], rfl, .of_ordered (List.pairwise_singleton _ x)⟩
  · have hStart : IsMonotone lt (lt y x) ([x].reverse ++ [y]) := by simp
    refine (monotone_gives (ε := ε) hlt (lt y x) y [x] rest hStart).bind ?_
    rintro run ⟨hRun, left, hLeft⟩
    refine .ok ⟨run.reverse, left, hLeft, ?_⟩
    by_cases hFalling : lt y x = true
    · rw [hFalling] at hRun
      have hTurned := Arranges.of_falling hlt hRun
      rw [List.reverse_reverse] at hTurned
      simpa [hFalling] using hTurned
    · rw [Bool.not_eq_true] at hFalling
      rw [hFalling] at hRun
      simpa [hFalling] using Arranges.of_ordered hRun

/-! ## Runs and stretches -/

/-- The run is the stretch, arranged if the run says so. -/
structure Run.StandsFor (lt : α → α → Bool) (run : Run α) (stretch : List α) : Prop where
  arranges : run.isSorted = true → Arranges lt stretch run.values
  same : run.isSorted = false → run.values = stretch

include hlt in
theorem Run.StandsFor.length_eq {run : Run α} {stretch : List α} (h : run.StandsFor lt stretch) :
    run.values.length = stretch.length := by
  by_cases hSorted : run.isSorted = true
  · exact (h.arranges hSorted).length_eq hlt
  · rw [Bool.not_eq_true] at hSorted
    rw [h.same hSorted]

theorem Run.StandsFor.of_arranges {stretch values : List α} (h : Arranges lt stretch values) :
    Run.StandsFor lt ⟨values, true⟩ stretch := ⟨fun _ => h, nofun⟩

theorem Run.StandsFor.unsorted (values : List α) : Run.StandsFor lt ⟨values, false⟩ values :=
  ⟨nofun, fun _ => rfl⟩

/-- The waiting runs, the last one first, stand for stretches that make up what was read. -/
def Stand (lt : α → α → Bool) : List (Run α × Nat) → List α → Prop
  | [], read => read = []
  | waiting :: rest, read =>
      ∃ before stretch, read = before ++ stretch ∧ waiting.1.StandsFor lt stretch ∧
        Stand lt rest before

namespace Cutting

variable {cutting : Cutting ε α}

theorem worthwhile_pos (h : 0 < cutting.total) : 0 < cutting.worthwhile := by
  unfold worthwhile
  by_cases hShort : cutting.total ≤ 64 * 64
  · rw [if_pos hShort]
    omega
  · rw [if_neg hShort, nearRoot]
    have hLog : 1 ≤ Nat.log2 cutting.total := (Nat.le_log2 (by omega)).2 (by omega)
    have hPower : 2 ^ 1 ≤ 2 ^ ((1 + Nat.log2 cutting.total) / 2) :=
      Nat.pow_le_pow_right (by decide) (by omega)
    simp only [Nat.one_shiftLeft]
    exact Nat.div_pos (Nat.le_trans hPower (Nat.le_add_right ..)) (by decide)

include hlt

/-- The first run stands for values at the start of the list, at least for one. -/
theorem runFor_gives [Contradictable ε] (hTotal : 0 < cutting.total) {values natural : List α}
    (hSome : values ≠ [])
    (hNatural : ∃ first left, values = first ++ left ∧ Arranges lt first natural) :
    Gives (cutting.runFor (answers lt) values natural) fun run =>
      ∃ first left, values = first ++ left ∧ first ≠ [] ∧ run.StandsFor lt first := by
  have hNonempty {count : Nat} (hCount : 0 < count) : values.take count ≠ [] := by
    rw [Ne, List.take_eq_nil_iff, not_or]
    exact ⟨by omega, hSome⟩
  unfold runFor
  by_cases hLong : (cutting.worthwhile ≤ natural.length && !natural.isEmpty) = true
  · rw [if_pos hLong]
    obtain ⟨first, left, hValues, hFirst⟩ := hNatural
    refine .ok ⟨first, left, hValues, ?_, .of_arranges hFirst⟩
    rintro rfl
    have hLength := hFirst.length_eq hlt
    rw [List.eq_nil_of_length_eq_zero hLength] at hLong
    simp at hLong
  rw [if_neg hLong]
  by_cases hEager : cutting.eager = true
  · rw [if_pos hEager]
    refine (sortBlock_gives hlt _).map ?_
    intro run hRun
    exact ⟨_, values.drop blockLimit, (List.take_append_drop ..).symm, hNonempty (by decide),
      .of_arranges hRun⟩
  · rw [if_neg hEager]
    exact .ok ⟨_, values.drop cutting.worthwhile, (List.take_append_drop ..).symm,
      hNonempty (worthwhile_pos hTotal), .unsorted _⟩

theorem firstRun_gives [Contradictable ε] (hTotal : 0 < cutting.total) {values : List α}
    (hSome : values ≠ [])
    (count : Nat) :
    Gives (cutting.firstRun (answers lt) values count) fun run =>
      ∃ first left, values = first ++ left ∧ first ≠ [] ∧ run.StandsFor lt first := by
  rw [firstRun_eq]
  have hNatural : Gives (if cutting.worthwhile ≤ count then naturalRun (answers (ε := ε) lt) values
      else pure []) fun run => ∃ first left, values = first ++ left ∧ Arranges lt first run := by
    by_cases hCount : cutting.worthwhile ≤ count
    · rw [if_pos hCount]
      exact naturalRun_gives hlt values
    · rw [if_neg hCount]
      exact .ok ⟨[], values, rfl, .of_ordered .nil⟩
  exact hNatural.bind fun natural hNatural => runFor_gives hlt hTotal hSome hNatural

variable (hSort : ∀ values, Gives (cutting.sortRun values) (Arranges lt values))

include hSort

omit hlt in
theorem sorted_gives {run : Run α} {stretch : List α} (h : run.StandsFor lt stretch) :
    Gives (cutting.sorted run) (Arranges lt stretch) := by
  unfold sorted
  by_cases hSorted : run.isSorted = true
  · rw [if_pos hSorted]
    exact .ok (h.arranges hSorted)
  · rw [if_neg hSorted]
    rw [Bool.not_eq_true] at hSorted
    rw [h.same hSorted]
    exact hSort stretch

/-- Two neighbouring runs become one that stands for both stretches. -/
theorem join_gives {left right : Run α} {first second : List α} (hLeft : left.StandsFor lt first)
    (hRight : right.StandsFor lt second) :
    Gives (cutting.join (answers lt) left right) fun run =>
      run.StandsFor lt (first ++ second) := by
  unfold join
  by_cases hNow : (left.isSorted || right.isSorted ||
      decide (cutting.room < left.values.length + right.values.length)) = true
  · rw [if_pos hNow]
    refine (sorted_gives hSort hLeft).bind ?_
    intro leftValues hLeftValues
    refine (sorted_gives hSort hRight).bind ?_
    intro rightValues hRightValues
    refine (merge_gives hlt hLeftValues.ordered hRightValues.ordered).bind ?_
    intro merged hMerged
    exact .ok (.of_arranges (hMerged.of_sameTies (hLeftValues.ties.append hRightValues.ties)))
  · rw [if_neg hNow]
    simp only [Bool.or_eq_true, not_or, Bool.not_eq_true] at hNow
    rw [hLeft.same hNow.1.1, hRight.same hNow.1.2]
    exact .ok (.unsorted _)

/-- The last run takes waiting runs in; all of them together stand for the same values. -/
theorem settle_gives (depth : Nat) {run : Run α} {waiting : List (Run α × Nat)}
    {before stretch : List α} (hWaiting : Stand lt waiting before)
    (hRun : run.StandsFor lt stretch) :
    Gives (cutting.settle (answers lt) depth run waiting) fun settled =>
      ∃ before' stretch', before ++ stretch = before' ++ stretch' ∧
        settled.1.StandsFor lt stretch' ∧ Stand lt settled.2 before' ∧
        (depth = 0 → settled.2 = []) := by
  induction waiting generalizing run before stretch with
  | nil => exact .ok ⟨before, stretch, rfl, hRun, hWaiting, fun _ => rfl⟩
  | cons last rest ih =>
      rw [settle]
      by_cases hDepth : last.2 < depth
      · rw [if_pos hDepth]
        exact .ok ⟨before, stretch, rfl, hRun, hWaiting, fun h => by omega⟩
      · rw [if_neg hDepth]
        obtain ⟨earlier, own, rfl, hLast, hRest⟩ := hWaiting
        refine (join_gives hlt hSort hLast hRun).bind ?_
        intro joined hJoined
        have hSettled := ih hRest hJoined
        rwa [← List.append_assoc] at hSettled

/-- All runs together stand for the list. -/
theorem joinAll_gives [Contradictable ε] (hTotal : 0 < cutting.total) (waiting : List (Run α × Nat))
    (last : Run α)
    (position : Nat) (values : List α) {before stretch : List α}
    (hWaiting : Stand lt waiting before) (hLast : last.StandsFor lt stretch) :
    Gives (cutting.joinAll (answers lt) waiting last position values) fun run =>
      run.StandsFor lt (before ++ stretch ++ values) := by
  fun_induction joinAll cutting (answers lt) waiting last position values
    generalizing before stretch with
  | case1 waiting last position =>
      refine (settle_gives hlt hSort 0 hWaiting hLast).map ?_
      rintro settled ⟨before', stretch', hSame, hRun, hRest, hNone⟩
      rw [hNone rfl] at hRest
      have hBefore : before' = [] := hRest
      rw [hBefore, List.nil_append] at hSame
      rwa [List.append_nil, hSame]
  | case2 waiting last position x rest ih =>
      refine (firstRun_gives hlt hTotal (List.cons_ne_nil x rest) _).bind ?_
      rintro next ⟨first, left, hValues, hFirst, hNext⟩
      refine (settle_gives hlt hSort _ hWaiting hLast).bind ?_
      rintro ⟨last', waiting'⟩ ⟨before', stretch', hSame, hLast', hWaiting', _⟩
      have hStep := ih next last' waiting' ⟨before', stretch', rfl, hLast', hWaiting'⟩ hNext
      have hLength := hNext.length_eq hlt
      have hDrop : rest.drop (next.values.length - 1) = left := by
        have hRest : (x :: rest).drop first.length = left := by
          rw [hValues, List.drop_left]
        have hPos := List.length_pos_iff.2 hFirst
        rw [← hRest, hLength]
        conv => rhs; rw [← Nat.sub_add_cancel hPos, List.drop_succ_cons]
      refine hStep.mono ?_
      intro run hRun
      rwa [hDrop, ← hSame, List.append_assoc (before ++ stretch), ← hValues] at hRun

/-- Sorting by runs arranges. -/
theorem sort_gives [Contradictable ε] {values : List α} (hTotal : cutting.total = values.length)
    (hSome : values ≠ []) :
    Gives (cutting.sort (answers lt) values) (Arranges lt values) := by
  have hPos : 0 < cutting.total := by
    rw [hTotal]
    exact List.length_pos_iff.2 hSome
  refine (firstRun_gives hlt hPos hSome _).bind ?_
  rintro run ⟨first, left, hValues, _, hRun⟩
  have hDrop : values.drop run.values.length = left := by
    rw [hRun.length_eq hlt, hValues, List.drop_left]
  have hJoin := joinAll_gives hlt hSort hPos [] run run.values.length left rfl hRun
  rw [← hDrop] at hJoin
  refine hJoin.bind ?_
  intro whole hWhole
  rw [hDrop, List.nil_append, ← hValues] at hWhole
  exact sorted_gives hSort hWhole

end Cutting

include hlt in
/-- Sorting by blocks arranges. -/
theorem sortByBlocks_gives [Contradictable ε] {values : List α} (hSome : values ≠ []) :
    Gives (sortByBlocks (answers (ε := ε) lt) values) (Arranges lt values) :=
  Cutting.sort_gives hlt (fun stretch => sortBlock_gives hlt stretch) rfl hSome

end Stencil.Sorting
