import Stencil.Proofs.Sorting.Runs

/-!
# Sorting by parting arranges

Parting by a test that holds of the lower values alone lets those pass the others, and ties are kept
because no value that passes is tied with one that does not. A pivot with nothing before it is taken
out with its equals. That is known without parting where the pivot is not behind the pivot to the
left of the list: all values there are at least that one. So the pivot to the left is a lower bound,
which each of the two parts keeps.

Every list is sorted in one of three ways, so sorting arranges every list.

## Main results

* `SameTies.filter`: a list is parted without changing ties.
* `pivotOf_gives`: the pivot is one of the values.
* `sort_gives`: sorting arranges, when the test always has an answer.
* `sort_arranges`: the same for a test that need only answer about the values of the list.
-/

namespace Stencil.Sorting

variable {ε α : Type} {lt : α → α → Bool} (hlt : IsWeakOrder lt)

/-! ## Parting -/

theorem partRest_eq (test : α → Bool) (left right values : List α) :
    partAt.partRest (ε := ε) (fun x => .ok (test x)) left right values =
      .ok (left.reverse ++ values.filter test, right.reverse ++ values.filter (!test ·)) := by
  induction values generalizing left right with
  | nil => simp [partAt.partRest]
  | cons x rest ih =>
      rw [partAt.partRest]
      by_cases hTest : test x = true
      · simp [hTest, ih]
      · rw [Bool.not_eq_true] at hTest
        simp [hTest, ih]

/-- The value that is not tested goes where the test would send it. -/
theorem partAt_eq (test : α → Bool) {passes : Bool} (left right : List α) {position : Nat}
    {values : List α} (h : ∀ x, values[position]? = some x → test x = passes) :
    partAt (ε := ε) (fun x => .ok (test x)) passes left right position values =
      .ok (left.reverse ++ values.filter test, right.reverse ++ values.filter (!test ·)) := by
  induction values generalizing left right position with
  | nil => cases position <;> simp [partAt]
  | cons x rest ih =>
      cases position with
      | zero =>
          have hTest := h x rfl
          rw [partAt]
          cases passes with
          | true => simp [hTest, partRest_eq]
          | false => simp [hTest, partRest_eq]
      | succ position =>
          have hNext : ∀ y, rest[position]? = some y → test y = passes := h
          have hRest := fun left right => ih left right hNext
          rw [partAt]
          by_cases hTest : test x = true
          · simp [hTest, hRest]
          · rw [Bool.not_eq_true] at hTest
            simp [hTest, hRest]

include hlt in
/-- Values that pass a test go in front of the others, when each goes before all of those. -/
theorem SameTies.filter {test : α → Bool} {values : List α}
    (h : ∀ x ∈ values, test x = true → ∀ y ∈ values, test y = false → lt x y = true) :
    SameTies lt values (values.filter test ++ values.filter (!test ·)) := by
  induction values with
  | nil => exact .refl []
  | cons x rest ih =>
      have hRest : SameTies lt rest (rest.filter test ++ rest.filter (!test ·)) :=
        ih fun y hy hTest z hz => h y (List.mem_cons_of_mem x hy) hTest z
          (List.mem_cons_of_mem x hz)
      by_cases hTest : test x = true
      · simpa [hTest] using hRest.cons x
      · rw [Bool.not_eq_true] at hTest
        have hPass : SameTies lt ([x] ++ rest.filter test) (rest.filter test ++ [x]) :=
          .swap hlt fun y hy z hz => by
            rw [List.mem_filter] at hy
            rw [List.mem_singleton.1 hz]
            exact h y (List.mem_cons_of_mem x hy.1) hy.2 x (List.mem_cons_self ..) hTest
        have hAll := (hRest.cons x).trans (hPass.append (.refl (rest.filter (!test ·))))
        simpa [hTest] using hAll

/-! ## Pivots -/

section Pivots

variable {values : Array α}

theorem lessAt_gives (lt : α → α → Bool) (values : Array α) (i j : Nat) :
    Gives (lessAt (answers (ε := ε) lt) values i j) fun _ => True := by
  unfold lessAt
  split
  · exact .ok trivial
  · exact .ok trivial

/-- The median is one of three positions. -/
theorem median_gives (lt : α → α → Bool) {property : Nat → Prop} {i j k : Nat} (hi : property i)
    (hj : property j) (hk : property k) :
    Gives (median (answers (ε := ε) lt) values i j k) property := by
  refine (lessAt_gives lt values i j).bind ?_
  intro beforeSecond _
  refine (lessAt_gives lt values i k).bind ?_
  intro beforeThird _
  by_cases hDiffer : (beforeSecond != beforeThird) = true
  · simp only [hDiffer]
    exact .ok hi
  · simp only [hDiffer]
    refine (lessAt_gives lt values j k).bind ?_
    intro answer _
    by_cases hSame : (answer == beforeSecond) = true
    · simp only [hSame]
      exact .ok hj
    · simp only [hSame]
      exact .ok hk

/-- A median of medians lies in one of the three stretches. -/
theorem medianOf_gives (lt : α → α → Bool) {i j k length : Nat} (hSome : 0 < length)
    (hi : i + length ≤ values.size) (hj : j + length ≤ values.size)
    (hk : k + length ≤ values.size) :
    Gives (medianOf (answers (ε := ε) lt) values i j k length) (· < values.size) := by
  fun_induction medianOf (answers (ε := ε) lt) values i j k length with
  | case1 i j k length hShort =>
      exact median_gives lt (by omega) (by omega) (by omega)
  | case2 i j k length hLong eighth ih1 ih2 ih3 =>
      refine (ih1 (by omega) (by omega) (by omega) (by omega)).bind ?_
      intro first hFirst
      refine (ih2 (by omega) (by omega) (by omega) (by omega)).bind ?_
      intro second hSecond
      refine (ih3 (by omega) (by omega) (by omega) (by omega)).bind ?_
      intro third hThird
      exact median_gives lt hFirst hSecond hThird

/-- The pivot of a long list is one of its values. -/
theorem pivotOf_gives (lt : α → α → Bool) (hLong : 8 ≤ values.size) :
    Gives (pivotOf (answers (ε := ε) lt) values) (· < values.size) := by
  unfold pivotOf
  by_cases hFew : values.size < 64
  · rw [if_pos hFew]
    exact median_gives lt (by omega) (by omega) (by omega)
  · rw [if_neg hFew]
    exact medianOf_gives lt (by omega) (by omega) (by omega) (by omega)

end Pivots

/-! ## Rounds -/

/-- The pivot to the left goes before no value less than itself. -/
abbrev IsBound (lt : α → α → Bool) (before : Option α) (values : List α) : Prop :=
  ∀ bound ∈ before, ∀ x ∈ values, MayPrecede lt bound x

section Round

variable {sortRest : Option α → List α → Except ε (List α)}
  (hRest : ∀ before values, IsBound lt before values →
    Gives (sortRest before values) (Arranges lt values))
  {before : Option α} {pivot : α} {position : Nat} {values : List α}
  (hPivot : values[position]? = some pivot)

include hlt hRest hPivot

/-- A least pivot is taken out with its equals. -/
theorem sortParts_least (hLeast : ∀ x ∈ values, MayPrecede lt pivot x) (right : List α) :
    Gives (sortParts sortRest (answers lt) before pivot position values ([], right))
      (Arranges lt values) := by
  have hTest : ∀ x, values[position]? = some x → (!lt pivot x) = true := by
    intro x hx
    rw [hPivot, Option.some_inj] at hx
    rw [hx, hlt.irrefl x]
    rfl
  have hPart : partAt (notLess (answers (ε := ε) lt) pivot) true [] [] position values =
      .ok (values.filter (!lt pivot ·), values.filter (fun x => !!lt pivot x)) :=
    partAt_eq (fun x => !lt pivot x) [] [] hTest
  have hTies : SameTies lt values
      (values.filter (!lt pivot ·) ++ values.filter (fun x => !!lt pivot x)) :=
    .filter hlt fun x _ hx y _ hy => by
      simp only [Bool.not_eq_true', Bool.not_eq_false'] at hx hy
      exact hlt.lt_of_le_of_lt hx hy
  have hEquals : (values.filter (!lt pivot ·)).Pairwise (MayPrecede lt) := by
    refine List.pairwise_of_forall_mem_list ?_
    intro x hx y hy
    rw [List.mem_filter, Bool.not_eq_true'] at hx hy
    exact hlt.trans hx.2 (hLeast y hy.1)
  simp only [sortParts, List.isEmpty_nil, if_true]
  rw [hPart]
  have hNoBound : IsBound lt none (values.filter fun x => !!lt pivot x) := by
    intro bound hMem
    cases hMem
  refine (hRest none _ hNoBound).bind ?_
  intro sorted hSorted
  have hAppend := (Arranges.of_ordered hEquals).append hlt hSorted fun x hx y hy => by
    simp only [List.mem_filter, Bool.not_eq_true', Bool.not_not] at hx hy
    exact hlt.asymm (hlt.lt_of_le_of_lt hx.2 hy.2)
  exact .ok (hAppend.of_sameTies hTies)

/-- The values are parted round the pivot and the parts are sorted. -/
theorem sortRound_gives (hBound : IsBound lt before values) {isEqual : Bool}
    (hEqual : isEqual = true → ∃ bound ∈ before, MayPrecede lt pivot bound) :
    Gives (sortRound sortRest (answers lt) before pivot position values isEqual)
      (Arranges lt values) := by
  unfold sortRound
  by_cases hIs : isEqual = true
  · rw [if_pos hIs]
    obtain ⟨bound, hMem, hNot⟩ := hEqual hIs
    exact sortParts_least hlt hRest hPivot
      (fun x hx => hlt.trans hNot (hBound bound hMem x hx)) []
  rw [if_neg hIs]
  have hTest : ∀ x, values[position]? = some x → lt x pivot = false := by
    intro x hx
    rw [hPivot, Option.some_inj] at hx
    rw [hx]
    exact hlt.irrefl x
  have hPart : partAt (fun x => answers (ε := ε) lt x pivot) false [] [] position values =
      .ok (values.filter (lt · pivot), values.filter (!lt · pivot)) :=
    partAt_eq (fun x => lt x pivot) [] [] hTest
  rw [hPart]
  show Gives (sortParts sortRest (answers lt) before pivot position values
    (values.filter (lt · pivot), values.filter (!lt · pivot))) (Arranges lt values)
  by_cases hNone : values.filter (lt · pivot) = []
  · rw [hNone]
    refine sortParts_least hlt hRest hPivot ?_ _
    intro x hx
    simpa using List.filter_eq_nil_iff.1 hNone x hx
  have hTies : SameTies lt values (values.filter (lt · pivot) ++ values.filter (!lt · pivot)) :=
    .filter hlt fun x _ hx y _ hy => hlt.lt_of_lt_of_le hx hy
  have hUpper : IsBound lt (some pivot) (values.filter (!lt · pivot)) := by
    intro bound hMem x hx
    rw [← Option.some_inj.1 (Option.mem_def.1 hMem)]
    simpa using (List.mem_filter.1 hx).2
  have hLower : IsBound lt before (values.filter (lt · pivot)) :=
    fun bound hMem x hx => hBound bound hMem x (List.mem_filter.1 hx).1
  rw [sortParts, if_neg (by simpa using hNone)]
  refine (hRest _ _ hUpper).bind ?_
  intro right hRight
  refine (hRest _ _ hLower).bind ?_
  intro left hLeft
  have hAppend := hLeft.append hlt hRight fun x hx y hy => by
    simp only [List.mem_filter, Bool.not_eq_true'] at hx hy
    exact hlt.asymm (hlt.lt_of_lt_of_le hx.2 hy.2)
  exact .ok (hAppend.of_sameTies hTies)

end Round

variable [Contradictable ε]

include hlt in
theorem sortByPivots_gives (pivots : Nat) {before : Option α} {values : List α}
    (hBound : IsBound lt before values) :
    Gives (sortByPivots (answers (ε := ε) lt) pivots before values) (Arranges lt values) := by
  induction pivots generalizing before values with
  | zero =>
      rw [sortByPivots]
      by_cases hShort : values.length ≤ blockLimit
      · rw [if_pos hShort]
        exact sortBlock_gives hlt values
      · rw [if_neg hShort]
        refine sortByBlocks_gives hlt ?_
        rintro rfl
        exact hShort (Nat.zero_le _)
  | succ pivots ih =>
      rw [sortByPivots]
      by_cases hShort : values.length ≤ blockLimit
      · rw [if_pos hShort]
        exact sortBlock_gives hlt values
      rw [if_neg hShort]
      have hLong : 8 ≤ values.toArray.size := by
        rw [blockLimit] at hShort
        rw [List.size_toArray]
        omega
      refine (pivotOf_gives lt hLong).bind ?_
      intro position hPosition
      have hItem := Array.getElem?_eq_getElem hPosition
      have hPivot : values[position]? = some values.toArray[position] := by
        rw [← List.getElem?_toArray]
        exact hItem
      rw [hItem]
      have hRest : ∀ before values, IsBound lt before values →
          Gives (sortByPivots (answers (ε := ε) lt) pivots before values) (Arranges lt values) :=
        fun _ _ h => ih h
      cases before with
      | none =>
          have hEqual : false = true →
              ∃ bound ∈ none, MayPrecede lt values.toArray[position] bound := by
            intro hEqual
            cases hEqual
          exact sortRound_gives hlt hRest hPivot hBound hEqual
      | some bound =>
          have hTest : Gives (notLess (answers (ε := ε) lt) bound values.toArray[position])
              (· = !lt bound values.toArray[position]) := .ok rfl
          refine hTest.bind ?_
          rintro _ rfl
          refine sortRound_gives hlt hRest hPivot hBound ?_
          intro hEqual
          rw [Bool.not_eq_true'] at hEqual
          exact ⟨bound, rfl, hEqual⟩

/-! ## Sorting -/

include hlt in
/-- Sorting arranges, when the test always has an answer. -/
theorem sort_gives (values : List α) :
    Gives (sort (answers (ε := ε) lt) values) (Arranges lt values) := by
  unfold sort
  by_cases hFew : values.length ≤ insertionLimit
  · rw [if_pos hFew]
    have hNil : ([] : List α).reverse.Pairwise (MayPrecede lt) := .nil
    have hInsert := insertAll_gives (ε := ε) hlt hNil values
    exact hInsert.map fun done hDone => hDone
  rw [if_neg hFew]
  have hSome : values ≠ [] := by
    rintro rfl
    exact hFew (Nat.zero_le _)
  by_cases hBlocks : values.length ≤ 2 * blockLimit
  · rw [if_pos hBlocks]
    exact sortByBlocks_gives hlt hSome
  · rw [if_neg hBlocks]
    refine Cutting.sort_gives hlt ?_ rfl hSome
    intro stretch
    exact sortByPivots_gives hlt _ nofun

/-- Sorting arranges a list when the test answers about its values, and orders them. -/
theorem sort_arranges {less : Less ε α} {values : List α} (lt : α → α → Bool)
    (hless : ∀ x ∈ values, ∀ y ∈ values, less x y = .ok (lt x y))
    (hlt : IsWeakOrder fun x y : { x // x ∈ values } => lt x y) :
    Gives (sort less values) fun sorted => sorted.Perm values ∧
      sorted.Pairwise (MayPrecede lt) ∧
      ∀ a ∈ values, sorted.filter (tied lt a) = values.filter (tied lt a) := by
  -- the values of the list by themselves, for which the test always has an answer
  have hSort := sort_gives (ε := ε) hlt values.attach
  have hMap : sort less (values.attach.map Subtype.val) = List.map Subtype.val <$>
      sort (answers fun x y : { x // x ∈ values } => lt x y) values.attach :=
    sort_map (fun (x y : { x // x ∈ values }) => hless x x.2 y y.2) values.attach
  rw [List.attach_map_subtype_val] at hMap
  rw [hMap]
  refine hSort.map ?_
  intro sorted hSorted
  have hTied (a : { x // x ∈ values }) (items : List { x // x ∈ values }) :
      (items.map Subtype.val).filter (tied lt a) = (items.filter (tied
        (fun x y : { x // x ∈ values } => lt x y) a)).map Subtype.val := by
    rw [List.filter_map]
    rfl
  refine ⟨?_, ?_, ?_⟩
  · have hPerm := (hSorted.ties.perm hlt).symm.map Subtype.val
    rwa [List.attach_map_subtype_val] at hPerm
  · exact List.pairwise_map.2 hSorted.ordered
  · intro a ha
    have hSame := hSorted.ties ⟨a, ha⟩
    rw [hTied ⟨a, ha⟩, ← hSame, ← hTied ⟨a, ha⟩, List.attach_map_subtype_val]

end Stencil.Sorting
