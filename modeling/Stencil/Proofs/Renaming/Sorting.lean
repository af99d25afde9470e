import Stencil.Proofs.Renaming.Functions

/-!
# Sorting mapped values

Sorting moves values and asks the test about them; it does nothing else with them. So it commutes
with every map that the test does not see, whichever of the ways of sorting is taken. Ranks are
compared by a test that does not see the numbers in them.

## Main results

* `Sorting.sort_map`: sorting commutes with a map.
* `Ranked.sort_rename`: renamed values have the same order.
-/

namespace Stencil.Sorting

variable {ε α β : Type} {f : α → β} {less : Less ε α} {less' : Less ε β}

/-- The test does not see the map. -/
abbrev Unseen (f : α → β) (less : Less ε α) (less' : Less ε β) : Prop :=
  ∀ x y, less' (f x) (f y) = less x y

/-! ## Insertion and merging -/

theorem insert_map (h : Unseen f less less') (x : α) (values : List α) :
    insert less' (f x) (values.map f) = List.map f <$> insert less x values := by
  induction values with
  | nil => rfl
  | cons y rest ih =>
      simp only [List.map_cons, insert, h x y]
      rcases less x y with _ | (_ | _)
      · rfl
      · rfl
      · simp only [ih, Functor.map_map, List.map_cons]

theorem insertAll_map (h : Unseen f less less') (done values : List α) :
    insertAll less' (done.map f) (values.map f) = List.map f <$> insertAll less done values := by
  induction values generalizing done with
  | nil => rfl
  | cons x rest ih =>
      simp only [List.map_cons, insertAll, insert_map h]
      cases insert less x done with
      | error fault => rfl
      | ok done => exact ih done

theorem mergeFront_map (h : Unseen f less less') (done left right : List α) :
    mergeFront less' (done.map f) (left.map f) (right.map f) =
      List.map f <$> mergeFront less done left right := by
  fun_induction mergeFront less done left right with
  | case1 done right => simp [mergeFront]
  | case2 done left hLeft => cases left <;> simp_all [mergeFront]
  | case3 done x left y right fault hLess => simp [mergeFront, h y x, hLess]
  | case4 done x left y right hLess ih => simpa [mergeFront, h y x, hLess] using ih
  | case5 done x left y right hLess ih => simpa [mergeFront, h y x, hLess] using ih

theorem mergeBack_map (h : Unseen f less less') (done left right : List α) :
    mergeBack less' (done.map f) (left.map f) (right.map f) =
      List.map f <$> mergeBack less done left right := by
  fun_induction mergeBack less done left right with
  | case1 done right => simp [mergeBack]
  | case2 done left hLeft => cases left <;> simp_all [mergeBack]
  | case3 done x left y right fault hLess => simp [mergeBack, h y x, hLess]
  | case4 done x left y right hLess ih => simpa [mergeBack, h y x, hLess] using ih
  | case5 done x left y right hLess ih => simpa [mergeBack, h y x, hLess] using ih

theorem merge_map (h : Unseen f less less') (left right : List α) :
    merge less' (left.map f) (right.map f) = List.map f <$> merge less left right := by
  unfold merge
  rw [List.length_map, List.length_map]
  split
  · exact mergeFront_map h [] left right
  · rw [← List.map_reverse, ← List.map_reverse]
    exact mergeBack_map h [] left.reverse right.reverse

/-- Both ends with the map applied to all values. -/
def Ends.map (f : α → β) (ends : Ends α) : Ends β where
  left := ends.left.map f
  right := ends.right.map f
  leftBack := ends.leftBack.map f
  rightBack := ends.rightBack.map f
  front := ends.front.map f
  back := ends.back.map f

theorem Ends.stepFront_map (h : Unseen f less less') (ends : Ends α) :
    (ends.map f).stepFront less' = Ends.map f <$> ends.stepFront less := by
  obtain ⟨left, right, leftBack, rightBack, front, back⟩ := ends
  cases left with
  | nil => rfl
  | cons x left =>
      cases right with
      | nil => rfl
      | cons y right =>
          simp only [stepFront, Ends.map, List.map_cons, h y x, map_bind]
          exact bind_congr fun before => by cases before <;> rfl

theorem Ends.stepBack_map (h : Unseen f less less') (ends : Ends α) :
    (ends.map f).stepBack less' = Ends.map f <$> ends.stepBack less := by
  obtain ⟨left, right, leftBack, rightBack, front, back⟩ := ends
  cases leftBack with
  | nil => rfl
  | cons x leftBack =>
      cases rightBack with
      | nil => rfl
      | cons y rightBack =>
          simp only [stepBack, Ends.map, List.map_cons, h y x, map_bind]
          exact bind_congr fun before => by cases before <;> rfl

theorem Ends.steps_map (h : Unseen f less less') (ends : Ends α) (count : Nat) :
    (ends.map f).steps less' count = Ends.map f <$> ends.steps less count := by
  induction count generalizing ends with
  | zero => rfl
  | succ count ih =>
      simp only [steps, stepFront_map h, stepBack_map h, bind_map_left, map_bind]
      exact bind_congr fun first => bind_congr fun second => ih second

theorem Ends.toList_map (total : Nat) (ends : Ends α) :
    (ends.map f).toList total = (ends.toList total).map f := by
  have hMiddle : (ends.map f).middle total = (ends.middle total).map f := by
    simp only [middle, Ends.map, List.length_map]
    split
    · rfl
    · split <;> simp
  rw [toList, hMiddle, toList, List.reverseAux_eq, List.reverseAux_eq, List.map_append,
    List.map_append, List.map_reverse]
  rfl

theorem Ends.meet_map (half total : Nat) (ends : Ends α) :
    (ends.map f).Meet half total ↔ ends.Meet half total := by
  simp [Meet, Ends.map]

theorem mergeInward_map [Contradictable ε] (h : Unseen f less less') (left right : List α) :
    mergeInward less' (left.map f) (right.map f) = List.map f <$> mergeInward less left right := by
  have hStart : Ends.start (left.map f) (right.map f) = (Ends.start left right).map f := by
    simp [Ends.start, Ends.map]
  simp only [mergeInward, hStart, Ends.steps_map h, List.length_map, bind_map_left, map_bind,
    Ends.meet_map, Ends.toList_map]
  refine bind_congr fun ends => ?_
  split <;> rfl

/-! ## Blocks -/

theorem sortTwo_map (h : Unseen f less less') (x y : α) :
    sortTwo less' (f x) (f y) = Prod.map f f <$> sortTwo less x y := by
  simp only [sortTwo, h y x, Functor.map_map]
  exact congrArg (· <$> _) (funext fun before => by cases before <;> rfl)

theorem sortFour_map (h : Unseen f less less') (x y z w : α) :
    sortFour less' (f x) (f y) (f z) (f w) = List.map f <$> sortFour less x y z w := by
  have hChoice (c : Bool) (a b : α) : (if c then f a else f b) = f (if c then a else b) := by
    cases c <;> rfl
  simp only [sortFour, sortTwo_map h, bind_map_left, map_bind, Prod.map, h, hChoice]
  rfl

theorem sortStart_map (h : Unseen f less less') (values : List α) :
    sortStart less' (values.map f) =
      Prod.map (List.map f) (List.map f) <$> sortStart less values := by
  rcases values with _ | ⟨x, _ | ⟨y, _ | ⟨z, _ | ⟨w, rest⟩⟩⟩⟩
  · rfl
  · rfl
  · rfl
  · rfl
  · simp only [List.map_cons, sortStart, sortFour_map h, Functor.map_map]
    rfl

theorem sortStarts_map (h : Unseen f less less') (left right : List α) :
    sortStarts less' (left.map f) (right.map f) =
      Prod.map (Prod.map (List.map f) (List.map f)) (Prod.map (List.map f) (List.map f)) <$>
        sortStarts less left right := by
  simp only [sortStarts, List.length_map, sortStart_map h, bind_map_left]
  split
  · rfl
  · simp only [map_bind]
    rfl

theorem sortBlock_map [Contradictable ε] (h : Unseen f less less') (values : List α) :
    sortBlock less' (values.map f) = List.map f <$> sortBlock less values := by
  simp only [sortBlock, List.length_map, ← List.map_take, ← List.map_drop, sortStarts_map h,
    bind_map_left, Prod.map]
  split
  · rfl
  · simp only [← List.map_reverse, insertAll_map h, bind_map_left, mergeInward_map h, map_bind]

/-! ## Runs -/

/-- The run with the map applied to all values. -/
def Run.map (f : α → β) (run : Run α) : Run β := ⟨run.values.map f, run.isSorted⟩

theorem monotone_map (h : Unseen f less less') (falling : Bool) (last : α) (done values : List α) :
    monotone less' falling (f last) (done.map f) (values.map f) =
      List.map f <$> monotone less falling last done values := by
  induction values generalizing last done with
  | nil => rfl
  | cons x rest ih =>
      simp only [List.map_cons, monotone, h x last, map_bind]
      refine bind_congr fun before => ?_
      split
      · exact ih x (last :: done)
      · rfl

theorem naturalRun_map (h : Unseen f less less') (values : List α) :
    naturalRun less' (values.map f) = List.map f <$> naturalRun less values := by
  rcases values with _ | ⟨x, _ | ⟨y, rest⟩⟩
  · rfl
  · rfl
  · simp only [List.map_cons, naturalRun, h y x, map_bind]
    refine bind_congr fun falling => ?_
    have hRun := monotone_map h falling y [x] rest
    rw [List.map_cons, List.map_nil] at hRun
    rw [hRun, bind_map_left]
    refine bind_congr fun run => ?_
    cases falling <;> simp

/-- Two ways of cutting that differ in the map only. -/
structure Cutting.Mapped (f : α → β) (cutting : Cutting ε α) (mapped : Cutting ε β) : Prop where
  total : mapped.total = cutting.total
  eager : mapped.eager = cutting.eager
  sortRun : ∀ values, mapped.sortRun (values.map f) = List.map f <$> cutting.sortRun values

namespace Cutting

variable {cutting : Cutting ε α} {mapped : Cutting ε β}

theorem Mapped.worthwhile (hc : Mapped f cutting mapped) :
    mapped.worthwhile = cutting.worthwhile := by
  simp only [Cutting.worthwhile, hc.total]

theorem Mapped.room (hc : Mapped f cutting mapped) : mapped.room = cutting.room := by
  simp only [Cutting.room, hc.total]

theorem Mapped.depth (hc : Mapped f cutting mapped) (first second stop : Nat) :
    mapped.depth first second stop = cutting.depth first second stop := by
  simp only [Cutting.depth, hc.total]

/-- The run for a natural one, if that is long enough. -/
def runFor [Contradictable ε] (cutting : Cutting ε α) (less : Less ε α) (values natural : List α) :
    Except ε (Run α) :=
  if cutting.worthwhile ≤ natural.length && !natural.isEmpty then pure ⟨natural, true⟩
  else if cutting.eager then (⟨·, true⟩) <$> sortBlock less (values.take blockLimit)
  else pure ⟨values.take cutting.worthwhile, false⟩

theorem firstRun_eq [Contradictable ε] (cutting : Cutting ε α) (less : Less ε α) (values : List α)
    (count : Nat) :
    cutting.firstRun less values count =
      (if cutting.worthwhile ≤ count then naturalRun less values else pure []) >>=
        cutting.runFor less values := by
  have hRun (natural : List α) : (do
      if cutting.worthwhile ≤ natural.length && !natural.isEmpty then return ⟨natural, true⟩
      if cutting.eager then return ⟨← sortBlock less (values.take blockLimit), true⟩
      return ⟨values.take cutting.worthwhile, false⟩ : Except ε (Run α)) =
      cutting.runFor less values natural := by
    unfold runFor
    split
    · rfl
    · split <;> rfl
  by_cases hCount : cutting.worthwhile ≤ count
  · simp only [firstRun, if_pos hCount]
    exact bind_congr hRun
  · simp only [firstRun, if_neg hCount]
    exact hRun []

theorem runFor_map [Contradictable ε] (hc : Mapped f cutting mapped) (h : Unseen f less less')
    (values natural : List α) :
    mapped.runFor less' (values.map f) (natural.map f) =
      Run.map f <$> cutting.runFor less values natural := by
  simp only [runFor, hc.worthwhile, hc.eager, List.length_map, List.isEmpty_map, ← List.map_take,
    sortBlock_map h, Functor.map_map]
  split
  · rfl
  · split <;> first | rfl | rw [Functor.map_map]; rfl

theorem firstRun_map [Contradictable ε] (hc : Mapped f cutting mapped) (h : Unseen f less less')
    (values : List α)
    (count : Nat) :
    mapped.firstRun less' (values.map f) count =
      Run.map f <$> cutting.firstRun less values count := by
  rw [firstRun_eq, firstRun_eq, hc.worthwhile, map_bind]
  split
  · rw [naturalRun_map h, bind_map_left]
    exact bind_congr fun natural => runFor_map hc h values natural
  · exact runFor_map hc h values []

theorem sorted_map (hc : Mapped f cutting mapped) (run : Run α) :
    mapped.sorted (run.map f) = List.map f <$> cutting.sorted run := by
  simp only [sorted, Run.map, hc.sortRun]
  split <;> rfl

theorem join_map (hc : Mapped f cutting mapped) (h : Unseen f less less') (left right : Run α) :
    mapped.join less' (left.map f) (right.map f) = Run.map f <$> cutting.join less left right := by
  have hFlags : (left.map f).isSorted = left.isSorted ∧ (right.map f).isSorted = right.isSorted :=
    ⟨rfl, rfl⟩
  have hLengths : (left.map f).values.length + (right.map f).values.length =
      left.values.length + right.values.length := by simp [Run.map]
  simp only [join, sorted_map hc, hc.room, hFlags, hLengths]
  split
  · simp only [bind_map_left, merge_map h, map_bind]
    rfl
  · simp [Run.map]

theorem settle_map (hc : Mapped f cutting mapped) (h : Unseen f less less') (depth : Nat)
    (run : Run α) (waiting : List (Run α × Nat)) :
    mapped.settle less' depth (run.map f) (waiting.map (Prod.map (Run.map f) id)) =
      Prod.map (Run.map f) (List.map (Prod.map (Run.map f) id)) <$>
        cutting.settle less depth run waiting := by
  induction waiting generalizing run with
  | nil => rfl
  | cons next rest ih =>
      simp only [List.map_cons, settle, join_map hc h, bind_map_left, Prod.map, id_eq]
      split
      · rfl
      · rw [map_bind]
        exact bind_congr fun joined => ih joined

theorem joinAll_map [Contradictable ε] (hc : Mapped f cutting mapped) (h : Unseen f less less')
    (waiting : List (Run α × Nat)) (last : Run α) (position : Nat) (values : List α) :
    mapped.joinAll less' (waiting.map (Prod.map (Run.map f) id)) (last.map f) position
        (values.map f) =
      Run.map f <$> cutting.joinAll less waiting last position values := by
  have hLength (run : Run α) : (run.map f).values.length = run.values.length :=
    List.length_map ..
  fun_induction joinAll cutting less waiting last position values with
  | case1 waiting last position =>
      simp only [List.map_nil, joinAll, settle_map hc h, Functor.map_map]
      rfl
  | case2 waiting last position x rest ih =>
      have hFirst := firstRun_map hc h (x :: rest) (cutting.total - position)
      rw [List.map_cons] at hFirst ⊢
      rw [joinAll, hc.total, hFirst, bind_map_left, map_bind]
      refine bind_congr fun next => ?_
      simp only [hLength, hc.depth, settle_map hc h, bind_map_left, map_bind, Prod.map]
      refine bind_congr fun settled => ?_
      have hRest := ih next settled.1 settled.2
      rw [← hRest]
      simp only [List.map_cons, List.map_drop, Prod.map, id_eq]

theorem sort_map [Contradictable ε] (hc : Mapped f cutting mapped) (h : Unseen f less less')
    (values : List α) :
    mapped.sort less' (values.map f) = List.map f <$> cutting.sort less values := by
  simp only [sort, firstRun_map hc h, hc.total, bind_map_left, map_bind]
  refine bind_congr fun first => ?_
  have hRest := joinAll_map hc h [] first first.values.length (values.drop first.values.length)
  have hLength : (first.map f).values.length = first.values.length := List.length_map ..
  rw [List.map_nil, List.map_drop] at hRest
  rw [hLength, hRest, bind_map_left]
  exact bind_congr fun run => sorted_map hc run

end Cutting

theorem sortByBlocks_map [Contradictable ε] (h : Unseen f less less') (values : List α) :
    sortByBlocks less' (values.map f) = List.map f <$> sortByBlocks less values := by
  unfold sortByBlocks
  rw [List.length_map]
  exact Cutting.sort_map (f := f) ⟨rfl, rfl, sortBlock_map h⟩ h values

/-! ## Parting -/

theorem lessAt_map (h : Unseen f less less') (values : Array α) (i j : Nat) :
    lessAt less' (values.map f) i j = lessAt less values i j := by
  simp only [lessAt, Array.getElem?_map]
  cases values[i]? <;> cases values[j]? <;> simp [h]

theorem median_map (h : Unseen f less less') (values : Array α) (i j k : Nat) :
    median less' (values.map f) i j k = median less values i j k := by
  simp only [median, lessAt_map h]

theorem medianOf_map (h : Unseen f less less') (values : Array α) (i j k length : Nat) :
    medianOf less' (values.map f) i j k length = medianOf less values i j k length := by
  fun_induction medianOf less values i j k length with
  | case1 i j k length hLength => rw [medianOf, if_pos hLength, median_map h]
  | case2 i j k length hLength eighth ih1 ih2 ih3 =>
      rw [medianOf, if_neg hLength]
      simp only [median_map h]
      rw [ih1]
      refine bind_congr fun i => ?_
      rw [ih2]
      refine bind_congr fun j => ?_
      rw [ih3]

theorem pivotOf_map (h : Unseen f less less') (values : Array α) :
    pivotOf less' (values.map f) = pivotOf less values := by
  simp only [pivotOf, Array.size_map, median_map h, medianOf_map h]

theorem partRest_map {test : α → Except ε Bool} {test' : β → Except ε Bool}
    (hTest : ∀ x, test' (f x) = test x) (left right values : List α) :
    partAt.partRest test' (left.map f) (right.map f) (values.map f) =
      Prod.map (List.map f) (List.map f) <$> partAt.partRest test left right values := by
  induction values generalizing left right with
  | nil => simp [partAt.partRest]
  | cons x rest ih =>
      simp only [List.map_cons, partAt.partRest, hTest x]
      rcases test x with _ | (_ | _)
      · rfl
      · exact ih left (x :: right)
      · exact ih (x :: left) right

theorem partAt_map (test : α → Except ε Bool) (test' : β → Except ε Bool)
    (hTest : ∀ x, test' (f x) = test x) (passes : Bool) (left right : List α) (position : Nat)
    (values : List α) :
    partAt test' passes (left.map f) (right.map f) position (values.map f) =
      Prod.map (List.map f) (List.map f) <$> partAt test passes left right position values := by
  induction values generalizing left right position with
  | nil => cases position <;> simp [partAt]
  | cons x rest ih =>
      cases position with
      | zero =>
          cases passes with
          | true => exact partRest_map hTest (x :: left) right rest
          | false => exact partRest_map hTest left (x :: right) rest
      | succ position =>
          simp only [List.map_cons, partAt, hTest x]
          rcases test x with _ | (_ | _)
          · rfl
          · exact ih left (x :: right) position
          · exact ih (x :: left) right position

theorem notLess_map (h : Unseen f less less') (x y : α) :
    notLess less' (f x) (f y) = notLess less x y := by
  simp only [notLess, h x y]

/-- Sorts the parts of a list with a way to sort shorter ones; an empty first part is put aside. -/
def sortParts (sortRest : Option α → List α → Except ε (List α)) (less : Less ε α)
    (before : Option α) (pivot : α) (position : Nat) (values : List α)
    (parts : List α × List α) : Except ε (List α) :=
  if parts.1.isEmpty then do
    let equals ← partAt (notLess less pivot) true [] [] position values
    return equals.1 ++ (← sortRest none equals.2)
  else do
    let right ← sortRest (some pivot) parts.2
    let left ← sortRest before parts.1
    return left ++ right

/-- Parts a list, unless the pivot equals the one before, and sorts the parts. -/
def sortRound (sortRest : Option α → List α → Except ε (List α)) (less : Less ε α)
    (before : Option α) (pivot : α) (position : Nat) (values : List α) (isEqual : Bool) :
    Except ε (List α) :=
  if isEqual then sortParts sortRest less before pivot position values ([], [])
  else partAt (less · pivot) false [] [] position values >>=
    sortParts sortRest less before pivot position values

section Round

variable {sortRest : Option α → List α → Except ε (List α)}
  {sortRest' : Option β → List β → Except ε (List β)}

theorem sortParts_map (h : Unseen f less less') (hRest : ∀ before values,
      sortRest' (before.map f) (values.map f) = List.map f <$> sortRest before values)
    (before : Option α) (pivot : α) (position : Nat) (values : List α)
    (parts : List α × List α) :
    sortParts sortRest' less' (before.map f) (f pivot) position (values.map f)
        (Prod.map (List.map f) (List.map f) parts) =
      List.map f <$> sortParts sortRest less before pivot position values parts := by
  have hEquals := partAt_map _ _ (notLess_map h pivot) true [] [] position values
  have hNone (values : List α) : sortRest' none (values.map f) =
      List.map f <$> sortRest none values := hRest none values
  have hSome (values : List α) : sortRest' (some (f pivot)) (values.map f) =
      List.map f <$> sortRest (some pivot) values := hRest (some pivot) values
  rw [List.map_nil] at hEquals
  simp only [sortParts, Prod.map, List.isEmpty_map]
  split
  · simp [hEquals, hNone]
  · simp [hSome, hRest]

theorem sortRound_map (h : Unseen f less less') (hRest : ∀ before values,
      sortRest' (before.map f) (values.map f) = List.map f <$> sortRest before values)
    (before : Option α) (pivot : α) (position : Nat) (values : List α) (isEqual : Bool) :
    sortRound sortRest' less' (before.map f) (f pivot) position (values.map f) isEqual =
      List.map f <$> sortRound sortRest less before pivot position values isEqual := by
  have hParts := partAt_map (less · pivot) (less' · (f pivot)) (fun x => h x pivot) false [] []
    position values
  rw [List.map_nil] at hParts
  cases isEqual with
  | true => exact sortParts_map h hRest before pivot position values ([], [])
  | false =>
      refine (congrArg (· >>= _) hParts).trans ?_
      rw [bind_map_left]
      refine Eq.trans ?_ (map_bind ..).symm
      exact bind_congr (sortParts_map h hRest before pivot position values)

end Round

theorem sortByPivots_map [Contradictable ε] (h : Unseen f less less') (pivots : Nat)
    (before : Option α)
    (values : List α) :
    sortByPivots less' pivots (before.map f) (values.map f) =
      List.map f <$> sortByPivots less pivots before values := by
  induction pivots generalizing before values with
  | zero =>
      simp only [sortByPivots, List.length_map]
      split
      · exact sortBlock_map h values
      · exact sortByBlocks_map h values
  | succ pivots ih =>
      by_cases hShort : values.length ≤ blockLimit
      · simp only [sortByPivots, List.length_map, if_pos hShort]
        exact sortBlock_map h values
      · simp only [sortByPivots, List.length_map, if_neg hShort]
        rw [← List.map_toArray, pivotOf_map h]
        rw [map_bind]
        refine bind_congr fun position => ?_
        rw [Array.getElem?_map]
        cases values.toArray[position]? with
        | none => rfl
        | some pivot =>
            have hRound := sortRound_map h ih before pivot position values
            cases before with
            | none => exact hRound false
            | some earlier =>
                simp only [Option.map_some, notLess_map h, map_bind]
                exact bind_congr hRound

theorem sortByParting_map [Contradictable ε] (h : Unseen f less less') (values : List α) :
    sortByParting less' (values.map f) = List.map f <$> sortByParting less values := by
  unfold sortByParting
  rw [List.length_map]
  exact sortByPivots_map h _ none values

/-- Sorting commutes with a map that the test does not see. -/
theorem sort_map [Contradictable ε] (h : Unseen f less less') (values : List α) :
    sort less' (values.map f) = List.map f <$> sort less values := by
  unfold sort
  rw [List.length_map]
  split
  · have hAll := insertAll_map h [] values
    rw [List.map_nil] at hAll
    simp only [hAll, Functor.map_map, List.map_reverse]
  · split
    · exact sortByBlocks_map h values
    · exact Cutting.sort_map (f := f) ⟨rfl, rfl, sortByParting_map h⟩ h values

end Stencil.Sorting

namespace Stencil.Ranked

theorem told_rename (ρ : Renaming) (reverse : Bool) (x y : Ranked) :
    told reverse (x.rename ρ) (y.rename ρ) = told reverse x y := by
  simp only [told, before_rename]

/-- Renamed values have the same order. -/
theorem sort_rename (ρ : Renaming) (reverse : Bool) (values : List Ranked) :
    sort reverse (values.map (rename ρ)) = List.map (rename ρ) <$> sort reverse values := by
  simp only [sort, Sorting.sort_map (before_rename ρ reverse),
    Sorting.sort_map (told_rename ρ reverse), bind_map_left]
  cases Sorting.sort (before reverse) values with
  | ok sorted => rfl
  | error clash => cases Sorting.sort (told reverse) values <;> rfl

end Stencil.Ranked
