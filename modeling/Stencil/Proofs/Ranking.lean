import Stencil.Calling
import Stencil.Proofs.Ordering
import Stencil.Proofs.Powers
import Stencil.Proofs.Slicing
import Stencil.Proofs.Sorting.Parting

/-!
# Sorted, least and greatest items

Ranks without floats that all have an order with each other are ordered up to ties, so sorting by
them arranges the items. Turning the order round asks for greater ranks first and leaves ties as
they were. The least and the greatest item are found by a pass of their own, which keeps what it
found first. That is the first item of the sorted ones, as nothing goes before it and it came first
of its equals.

All three find the ranks first to last, one call for each item, whatever is done with the ranks
afterwards. So they leave the store as those calls leave it.

## Main results

* `Sorting.IsFirst.foldl`, `Sorting.IsFirst.head?_eq`: the pass finds the first of what is arranged.
* `Builtin.rankItems_eq`: the ranks are found one by one.
* `sorted_items_begin_with_extremes`: the built-in functions agree.
-/

namespace Stencil

/-! ## The first of arranged values -/

namespace Sorting

variable {α : Type} {lt : α → α → Bool} {values done rest arranged : List α} {best x : α}

/-- Nothing goes before the value, and none that is tied with it came earlier. -/
structure IsFirst (lt : α → α → Bool) (values : List α) (best : α) : Prop where
  mem : best ∈ values
  least : ∀ x ∈ values, MayPrecede lt best x
  first : (values.filter (tied lt best)).head? = some best

/-- The one of two values that goes before the other, or the earlier one. -/
def better (lt : α → α → Bool) (best x : α) : α := if lt x best then x else best

theorem IsFirst.single (h : lt x x = false) : IsFirst lt [x] x := by
  have hTied : tied lt x x = true := tied_iff.2 ⟨h, h⟩
  constructor
  · exact List.mem_singleton_self x
  · simpa using h
  · rw [List.filter_cons_of_pos hTied]
    rfl

section Pass

variable (hlt : IsWeakOrder fun x y : { x // x ∈ values } => lt x y)

include hlt

/-- One more value is looked at. -/
theorem IsFirst.push (h : IsFirst lt done best) (hDone : ∀ y ∈ done, y ∈ values) (hx : x ∈ values) :
    IsFirst lt (done ++ [x]) (better lt best x) := by
  have hBest := hDone best h.mem
  by_cases hLess : lt x best = true
  · have hSelf := hlt.irrefl ⟨x, hx⟩
    have hPassed : ∀ y ∈ done, lt x y = true := by
      intro y hy
      exact hlt.lt_of_lt_of_le (x := ⟨x, hx⟩) (y := ⟨best, hBest⟩) (z := ⟨y, hDone y hy⟩) hLess
        (h.least y hy)
    have hNone : done.filter (tied lt x) = [] := by
      rw [List.filter_eq_nil_iff]
      intro y hy hTied
      have hLess := hPassed y hy
      rw [(tied_iff.1 hTied).1] at hLess
      cases hLess
    rw [better, if_pos hLess]
    constructor
    · simp
    · intro y hy
      rcases List.mem_append.1 hy with hy | hy
      · exact hlt.asymm (x := ⟨x, hx⟩) (y := ⟨y, hDone y hy⟩) (hPassed y hy)
      · rw [List.mem_singleton.1 hy]
        exact hSelf
    · rw [List.filter_append, hNone]
      exact (IsFirst.single hSelf).first
  · rw [better, if_neg hLess]
    rw [Bool.not_eq_true] at hLess
    constructor
    · exact List.mem_append_left [x] h.mem
    · intro y hy
      rcases List.mem_append.1 hy with hy | hy
      · exact h.least y hy
      · rw [List.mem_singleton.1 hy]
        exact hLess
    · rw [List.filter_append, List.head?_append, h.first]
      rfl

/-- A pass over values finds the first of them. -/
theorem IsFirst.foldl (h : IsFirst lt done best) (hValues : ∀ y ∈ done ++ rest, y ∈ values) :
    IsFirst lt (done ++ rest) (rest.foldl (better lt) best) := by
  induction rest generalizing done best with
  | nil =>
      rw [List.append_nil]
      exact h
  | cons x rest ih =>
      have hDone : ∀ y ∈ done, y ∈ values := fun y hy => hValues y (List.mem_append_left _ hy)
      have hPush := h.push hlt hDone (hValues x (by simp))
      have hRest := ih hPush (by simpa using hValues)
      rw [List.append_assoc] at hRest
      exact hRest

/-- Arranged values begin with the first one. -/
theorem IsFirst.head?_eq (h : IsFirst lt values best) (hPerm : arranged.Perm values)
    (hOrdered : arranged.Pairwise (MayPrecede lt))
    (hTies : arranged.filter (tied lt best) = values.filter (tied lt best)) :
    arranged.head? = some best := by
  cases arranged with
  | nil =>
      have hMem := hPerm.mem_iff.2 h.mem
      cases hMem
  | cons y rest =>
      have hy : y ∈ values := hPerm.mem_iff.1 (List.mem_cons_self ..)
      have hNot : lt best y = false := by
        rcases List.mem_cons.1 (hPerm.mem_iff.2 h.mem) with rfl | hBest
        · exact hlt.irrefl ⟨best, hy⟩
        · exact (List.pairwise_cons.1 hOrdered).1 best hBest
      have hTied : tied lt best y = true := tied_iff.2 ⟨hNot, h.least y hy⟩
      rw [List.filter_cons_of_pos hTied] at hTies
      rw [← h.first, ← hTies]
      rfl

end Pass

end Sorting

/-! ## Ranks without floats -/

namespace Ranked

open Sorting

/-- Does `x` go before `y` by its rank? -/
def precedes (reverse : Bool) (x y : Ranked) : Bool :=
  x.rank.order? y.rank == some (if reverse then .gt else .lt)

/-- Each rank has an order with each. -/
abbrev AreComparable (values : List Ranked) : Prop :=
  ∀ x ∈ values, ∀ y ∈ values, (x.rank.order? y.rank).isSome = true

/-- The values in the order of their ranks, or in the reverse order. Either way those of equal rank
stand as they came. -/
structure IsArrangement (reverse : Bool) (values arranged : List Ranked) : Prop where
  perm : arranged.Perm values
  ordered : arranged.Pairwise fun x y =>
    ∃ order, x.rank.order? y.rank = some order ∧ order ≠ if reverse then .lt else .gt
  stable : ∀ x ∈ values, arranged.filter (·.rank.order? x.rank == some .eq) =
    values.filter (·.rank.order? x.rank == some .eq)

variable {reverse : Bool} {values rest : List Ranked} {x y z : Ranked}

theorem rank_mem {ranks items : List Value} (h : x ∈ List.zipWith mk ranks items) :
    x.rank ∈ ranks := by
  rw [← List.map_uncurry_zip_eq_zipWith, List.mem_map] at h
  obtain ⟨pair, hPair, rfl⟩ := h
  exact (List.of_mem_zip hPair).1

theorem before_eq (reverse : Bool) (h : (x.rank.order? y.rank).isSome = true) :
    before reverse x y = .ok (precedes reverse x y) := by
  obtain ⟨order, hOrder⟩ := Option.isSome_iff_exists.1 h
  simp [before, precedes, Value.orderFor, hOrder]

section Pairs

variable (hx : x.rank.IsFloatFree) (hy : y.rank.IsFloatFree) (hz : z.rank.IsFloatFree)

include hx hy

/-- In the reverse order a value goes before another when it comes after it in the order. -/
theorem precedes_true : precedes true x y = precedes false y x := by
  simp only [precedes, hx.order?_swap hy]
  cases x.rank.order? y.rank with
  | none => rfl
  | some order => cases order <;> rfl

theorem not_precedes (h : precedes false x y = true) : precedes false y x = false := by
  simp only [precedes, beq_iff_eq] at h
  simp only [precedes, hx.order?_swap hy, h]
  rfl

/-- Of comparable values neither goes before the other when they have equal rank. -/
theorem tied_precedes (h : (y.rank.order? x.rank).isSome = true) :
    tied (precedes reverse) x y = (y.rank.order? x.rank == some .eq) := by
  obtain ⟨order, hOrder⟩ := Option.isSome_iff_exists.1 h
  simp only [tied, precedes, hy.order?_swap hx, hOrder]
  cases reverse <;> cases order <;> rfl

include hz

theorem precedes_trans (hSome : (y.rank.order? x.rank).isSome = true)
    (hNot : precedes false y x = false) (hNot' : precedes false z y = false) :
    precedes false z x = false := by
  obtain ⟨order, hOrder⟩ := Option.isSome_iff_exists.1 hSome
  simp only [precedes, beq_eq_false_iff_ne] at hNot hNot' ⊢
  intro hLess
  cases order with
  | lt => exact hNot hOrder
  | eq =>
      have hContent := ((hy.order?_iff hx _).1 hOrder).eq_iff.1 rfl
      rw [(hy.order?_congr hx hz hContent).2] at hNot'
      exact hNot' hLess
  | gt =>
      have hBefore : x.rank.order? y.rank = some .lt := by
        rw [hy.order?_swap hx, hOrder]
        rfl
      exact hNot' (hz.order?_trans hx hy hLess hBefore)

end Pairs

section Values

variable (hFree : ∀ x ∈ values, x.rank.IsFloatFree) (hComparable : AreComparable values)

include hFree hComparable

theorem isWeakOrder_precedes (reverse : Bool) :
    IsWeakOrder fun x y : { x // x ∈ values } => precedes reverse x y := by
  have hForward : IsWeakOrder fun x y : { x // x ∈ values } => precedes false x y := by
    constructor
    · intro x y h
      exact not_precedes (hFree x x.2) (hFree y y.2) h
    · intro x y z h h'
      exact precedes_trans (hFree x x.2) (hFree y y.2) (hFree z z.2) (hComparable y y.2 x x.2) h h'
  cases reverse with
  | false => exact hForward
  | true =>
      have hConverse := hForward.converse
      have hTrue : (fun x y : { x // x ∈ values } => precedes true x y) =
          converse fun x y : { x // x ∈ values } => precedes false x y := by
        funext x y
        exact precedes_true (hFree x x.2) (hFree y y.2)
      rw [hTrue]
      exact hConverse

end Values

/-- Items that can be compared are sorted, and the first sorted one is found by a pass. -/
theorem exists_arrangement (reverse : Bool) (hFree : ∀ y ∈ x :: rest, y.rank.IsFloatFree)
    (hComparable : rest = [] ∨ AreComparable (x :: rest)) :
    ∃ arranged, sort reverse (x :: rest) = .ok arranged ∧
      IsArrangement reverse (x :: rest) arranged ∧
      arranged.head? = some (rest.foldl (better (precedes reverse)) x) := by
  rcases hComparable with rfl | hComparable
  · exact ⟨[x], rfl, ⟨.refl _, List.pairwise_singleton _ x, fun _ _ => rfl⟩, rfl⟩
  have hlt := isWeakOrder_precedes hFree hComparable reverse
  obtain ⟨arranged, hSort, hPerm, hOrdered, hTies⟩ := sort_arranges (precedes reverse)
    (fun y hy z hz => before_eq reverse (hComparable y hy z hz)) hlt
  have hSort : sort reverse (x :: rest) = .ok arranged := by rw [sort, hSort]
  have hTied : ∀ y ∈ x :: rest, ∀ z ∈ x :: rest,
      tied (precedes reverse) y z = (z.rank.order? y.rank == some .eq) := fun y hy z hz =>
    tied_precedes (hFree y hy) (hFree z hz) (hComparable z hz y hy)
  refine ⟨arranged, hSort, ⟨hPerm, ?_, ?_⟩, ?_⟩
  · refine hOrdered.imp_of_mem ?_
    intro y z hy hz hNot
    have hy := hPerm.mem_iff.1 hy
    have hz := hPerm.mem_iff.1 hz
    obtain ⟨order, hOrder⟩ := Option.isSome_iff_exists.1 (hComparable y hy z hz)
    refine ⟨order, hOrder, ?_⟩
    rintro rfl
    simp only [MayPrecede, precedes, (hFree y hy).order?_swap (hFree z hz), hOrder] at hNot
    cases reverse <;> cases hNot
  · intro y hy
    have hSame := hTies y hy
    rwa [List.filter_congr fun z hz => hTied y hy z (hPerm.mem_iff.1 hz),
      List.filter_congr fun z hz => hTied y hy z hz] at hSame
  · have hSingle : IsFirst (precedes reverse) [x] x :=
      .single (hlt.irrefl ⟨x, List.mem_cons_self ..⟩)
    have hFirst : IsFirst (precedes reverse) ([x] ++ rest)
        (rest.foldl (better (precedes reverse)) x) := hSingle.foldl hlt fun y hy => hy
    exact hFirst.head?_eq hlt hPerm hOrdered (hTies _ hFirst.mem)

end Ranked

/-! ## Finding the ranks -/

section Steps

variable {α β : Type} {setting : Setting} {store after : Store}

/-- When a step and what follows it have a result, each of the two has one. -/
theorem Run.exists_of_perform_bind {action : Run α} {next : α → Run β} {result : β}
    (h : (action >>= next).perform setting store = (.ok result, after)) :
    ∃ found middle, action.perform setting store = (.ok found, middle) ∧
      (next found).perform setting middle = (.ok result, after) := by
  rcases hAction : action.perform setting store with ⟨found | found, middle⟩
  · exfalso
    simp only [Run.perform, ReaderT.run, EStateM.run] at h hAction
    cases hRun : action setting store with
    | ok found left =>
        rw [hRun] at hAction
        cases hAction
    | error cause left =>
        have hBind : (action >>= next) setting store = .error cause left := by
          show EStateM.bind (action setting) (fun x => next x setting) store = _
          rw [EStateM.bind, hRun]
        rw [hBind] at h
        cases h
  · rw [Run.perform_bind next hAction] at h
    exact ⟨found, middle, rfl, h⟩

end Steps

namespace Builtin

/-- The ranks are found one by one, and only then is anything else done. -/
theorem rankItems_eq {m : Type → Type} [Monad m] [LawfulMonad m] (call : Value → Value → m Value)
    (key : Option Value) (done : List Ranked) (items : List Value) :
    rankItems call key done items =
      (fun ranks => done.reverse ++ List.zipWith Ranked.mk ranks items) <$>
        items.mapM (rankOf call key) := by
  induction items generalizing done with
  | nil => simp [rankItems]
  | cons item rest ih =>
      simp only [rankItems, ih, List.mapM_cons, List.reverse_cons, List.append_assoc,
        List.singleton_append, List.zipWith_cons_cons, map_eq_pure_bind, bind_assoc, pure_bind]

section Calls

variable {call : Value → Value → Run Value} {key : Option Value} {setting : Setting}
  {store after : Store} {item : Value} {rest items ranks : List Value}

/-- The ranks of several items are that of the first one and those of the others. -/
theorem exists_of_perform_ranks
    (h : ((item :: rest).mapM (rankOf call key)).perform setting store = (.ok ranks, after)) :
    ∃ rank others middle, ranks = rank :: others ∧
      (rankOf call key item).perform setting store = (.ok rank, middle) ∧
      (rest.mapM (rankOf call key)).perform setting middle = (.ok others, after) := by
  rw [List.mapM_cons] at h
  obtain ⟨rank, middle, hRank, h⟩ := Run.exists_of_perform_bind h
  obtain ⟨others, last, hOthers, h⟩ := Run.exists_of_perform_bind h
  obtain ⟨rfl, rfl⟩ : rank :: others = ranks ∧ last = after := by
    cases h
    exact ⟨rfl, rfl⟩
  exact ⟨rank, others, middle, rfl, hRank, hOthers⟩

theorem length_of_perform_ranks
    (h : (items.mapM (rankOf call key)).perform setting store = (.ok ranks, after)) :
    ranks.length = items.length := by
  induction items generalizing ranks store with
  | nil =>
      cases h
      rfl
  | cons item rest ih =>
      obtain ⟨rank, others, middle, rfl, -, hOthers⟩ := exists_of_perform_ranks h
      rw [List.length_cons, List.length_cons, ih hOthers]

/-- The pass compares each item with the best one so far, once its rank is found. -/
theorem perform_bestItem (symbol : String) (reverse : Bool)
    (h : (items.mapM (rankOf call key)).perform setting store = (.ok ranks, after)) {best : Ranked}
    (hComparable : ∀ x ∈ List.zipWith Ranked.mk ranks items,
      ∀ y ∈ best :: List.zipWith Ranked.mk ranks items, (x.rank.order? y.rank).isSome = true) :
    (bestItem call symbol (if reverse then .gt else .lt) key (some best) items).perform setting
        store =
      (.ok (some ((List.zipWith Ranked.mk ranks items).foldl
        (Sorting.better (Ranked.precedes reverse)) best)), after) := by
  induction items generalizing best ranks store with
  | nil =>
      cases h
      rfl
  | cons item rest ih =>
      obtain ⟨rank, others, middle, rfl, hRank, hOthers⟩ := exists_of_perform_ranks h
      rw [List.zipWith_cons_cons] at hComparable ⊢
      obtain ⟨order, hOrder⟩ := Option.isSome_iff_exists.1
        (hComparable ⟨rank, item⟩ (by simp) best (by simp))
      have hBetter : (if order == (if reverse then .gt else .lt) then ⟨rank, item⟩ else best) =
          Sorting.better (Ranked.precedes reverse) best ⟨rank, item⟩ := by
        simp only [Sorting.better, Ranked.precedes, hOrder]
        rfl
      have hKept : ∀ y ∈ Sorting.better (Ranked.precedes reverse) best ⟨rank, item⟩ ::
          List.zipWith Ranked.mk others rest,
          y ∈ best :: ⟨rank, item⟩ :: List.zipWith Ranked.mk others rest := by
        intro y hy
        rcases List.mem_cons.1 hy with rfl | hy
        · rw [Sorting.better]
          split <;> simp
        · simp [hy]
      rw [bestItem, Run.perform_bind _ hRank]
      simp only [Value.orderFor, hOrder]
      show (bestItem call symbol _ key (some _) rest).perform setting middle = _
      rw [hBetter]
      exact ih hOthers fun x hx y hy => hComparable x (List.mem_cons_of_mem _ hx) y (hKept y hy)

/-- The arguments to sort or compare the items of a value. -/
def rankingArguments (source : Value) (key reverse : Option Value) : Arguments :=
  ⟨[source], (key.map ("key", ·)).toList ++ (reverse.map ("reverse", ·)).toList⟩

theorem apply_sorted (call : Value → Value → Run Value) (source : Value)
    (key reverse : Option Value) :
    apply call "sorted" (rankingArguments source key reverse) = (do
      let items ← source.items
      let ranked ← rankItems call (keyOf key) [] items
      let sorted ← Ranked.sort (reverse.any Value.truthy) ranked
      return .ofList (sorted.map Ranked.item)) := by
  cases key <;> cases reverse <;> rfl

/-- `min`, and `max` in the reverse order. -/
theorem apply_extreme (call : Value → Value → Run Value) (source : Value) (key : Option Value)
    (reverse : Bool) :
    apply call (if reverse then "max" else "min") (rankingArguments source key none) = (do
      let items ← source.items
      let best ← bestItem call (if reverse then ">" else "<") (if reverse then .gt else .lt)
        (keyOf key) none items
      resultOf (if reverse then "max" else "min") ((best.map Ranked.item).or none)) := by
  cases key <;> cases reverse <;> rfl

section Ranks

variable {source : Value} (hItems : source.items = .ok items)
  (hRanks : (items.mapM (rankOf call (keyOf key))).perform setting store = (.ok ranks, after))

include hItems hRanks

theorem perform_sorted (reverse : Option Value) {arranged : List Ranked}
    (hSort : Ranked.sort (reverse.any Value.truthy) (List.zipWith Ranked.mk ranks items) =
      .ok arranged) :
    (apply call "sorted" (rankingArguments source key reverse)).perform setting store =
      (.ok (.ofList (arranged.map Ranked.item)), after) := by
  have hRanked : (rankItems call (keyOf key) [] items).perform setting store =
      (.ok (List.zipWith Ranked.mk ranks items), after) := by
    rw [rankItems_eq, map_eq_pure_bind, Run.perform_bind _ hRanks]
    rfl
  rw [apply_sorted, hItems]
  show Run.perform (rankItems call (keyOf key) [] items >>= _) setting store = _
  rw [Run.perform_bind _ hRanked, hSort]
  rfl

theorem perform_extreme (reverse : Bool) {x : Ranked} {rest : List Ranked}
    (hRanked : List.zipWith Ranked.mk ranks items = x :: rest)
    (hComparable : rest = [] ∨ Ranked.AreComparable (x :: rest)) :
    (apply call (if reverse then "max" else "min") (rankingArguments source key none)).perform
        setting store =
      (.ok (rest.foldl (Sorting.better (Ranked.precedes reverse)) x).item, after) := by
  cases items with
  | nil =>
      rw [List.zipWith_nil_right] at hRanked
      cases hRanked
  | cons item others =>
      obtain ⟨rank, ranks, middle, rfl, hRank, hOthers⟩ := exists_of_perform_ranks hRanks
      rw [List.zipWith_cons_cons, List.cons.injEq] at hRanked
      obtain ⟨rfl, rfl⟩ := hRanked
      have hOrdered : ∀ y ∈ List.zipWith Ranked.mk ranks others,
          ∀ z ∈ ⟨rank, item⟩ :: List.zipWith Ranked.mk ranks others,
            (y.rank.order? z.rank).isSome = true := by
        intro y hy z hz
        rcases hComparable with hNone | hAll
        · rw [hNone] at hy
          cases hy
        · exact hAll y (List.mem_cons_of_mem _ hy) z hz
      have hBest := perform_bestItem (if reverse then ">" else "<") reverse hOthers hOrdered
      rw [apply_extreme, hItems]
      show Run.perform (bestItem call _ _ (keyOf key) none (item :: others) >>= _) setting store = _
      rw [bestItem, bind_assoc, Run.perform_bind _ hRank]
      show Run.perform (bestItem call _ _ (keyOf key) (some ⟨rank, item⟩) others >>= _) setting
        middle = _
      rw [Run.perform_bind _ hBest]
      cases reverse <;> rfl

end Ranks

end Calls

end Builtin

/-- Of comparable items without floats the sorted ones begin with the least, and those sorted the
other way with the greatest, the first of it in either case. Each of the functions finds the ranks
of all items first to last, and does nothing else to the store. -/
theorem sorted_items_begin_with_extremes (call : Value → Value → Run Value) {setting : Setting}
    {store after : Store} {source : Value} {items ranks : List Value} {key : Option Value}
    (hItems : source.items = .ok items) (hSome : items ≠ [])
    (hRanks : (items.mapM (Builtin.rankOf call (Builtin.keyOf key))).perform setting store =
      (.ok ranks, after))
    (hFree : ∀ rank ∈ ranks, rank.IsFloatFree)
    (hComparable : ranks.length = 1 ∨ ∀ a ∈ ranks, ∀ b ∈ ranks, (a.order? b).isSome = true) :
    ranks.length = items.length ∧
    ∃ arranged : Bool → List Ranked, ∃ least greatest : Value,
      (∀ reverse, Ranked.IsArrangement reverse (List.zipWith Ranked.mk ranks items)
        (arranged reverse)) ∧
      (∀ reverse : Option Value,
        (Builtin.apply call "sorted" (Builtin.rankingArguments source key reverse)).perform setting
            store =
          (.ok (.ofList ((arranged (reverse.any Value.truthy)).map Ranked.item)), after)) ∧
      (Builtin.apply call "min" (Builtin.rankingArguments source key none)).perform setting store =
        (.ok least, after) ∧
      (Value.ofList ((arranged false).map Ranked.item)).index (.int 0) = .ok least ∧
      (Builtin.apply call "max" (Builtin.rankingArguments source key none)).perform setting store =
        (.ok greatest, after) ∧
      (Value.ofList ((arranged true).map Ranked.item)).index (.int 0) = .ok greatest := by
  have hLength := Builtin.length_of_perform_ranks hRanks
  obtain ⟨x, rest, hRanked⟩ : ∃ x rest, List.zipWith Ranked.mk ranks items = x :: rest := by
    refine List.exists_cons_of_ne_nil ?_
    intro hNone
    have hZero := congrArg List.length hNone
    rw [List.length_zipWith, hLength, Nat.min_self, List.length_nil] at hZero
    exact hSome (List.eq_nil_of_length_eq_zero hZero)
  have hMem : ∀ y ∈ x :: rest, y.rank ∈ ranks := by
    intro y hy
    rw [← hRanked] at hy
    exact Ranked.rank_mem hy
  have hFreeAll : ∀ y ∈ x :: rest, y.rank.IsFloatFree := fun y hy => hFree _ (hMem y hy)
  have hComparableAll : rest = [] ∨ Ranked.AreComparable (x :: rest) := by
    rcases hComparable with hOne | hAll
    · left
      have hZip := congrArg List.length hRanked
      rw [List.length_zipWith, ← hLength, hOne, List.length_cons] at hZip
      exact List.eq_nil_of_length_eq_zero (by omega)
    · right
      exact fun y hy z hz => hAll _ (hMem y hy) _ (hMem z hz)
  choose arranged hSort hArranged hHead using fun reverse =>
    Ranked.exists_arrangement reverse hFreeAll hComparableAll
  have hIndex (reverse : Bool) :
    (Value.ofList ((arranged reverse).map Ranked.item)).index (.int 0) =
      .ok (rest.foldl (Sorting.better (Ranked.precedes reverse)) x).item := by
    have hFirst : ((arranged reverse).map Ranked.item)[0]? =
        some (rest.foldl (Sorting.better (Ranked.precedes reverse)) x).item := by
      rw [List.getElem?_map, ← List.head?_eq_getElem?, hHead]
      rfl
    exact Value.index_of_place rfl hFirst (.inl rfl)
  rw [← hRanked] at hSort hArranged
  refine ⟨hLength, arranged, _, _, hArranged, ?_, ?_, hIndex false, ?_, hIndex true⟩
  · intro reverse
    exact Builtin.perform_sorted hItems hRanks reverse (hSort _)
  · exact Builtin.perform_extreme hItems hRanks false hRanked hComparableAll
  · exact Builtin.perform_extreme hItems hRanks true hRanked hComparableAll

/-- How `len` is called for an item of a list. -/
abbrev byLength : Value → Value → Run Value := callForItem none (accessWith .spent) .spent

/-- Of `["bb", "a", "cc"]` the item `"bb"` is the greatest by length, and the first one when they
are sorted by length in the reverse order. -/
theorem longest_word_comes_first : ∃ arranged : Bool → List Ranked,
    Ranked.IsArrangement true
      [⟨.int 2, .ofString "bb"⟩, ⟨.int 1, .ofString "a"⟩, ⟨.int 2, .ofString "cc"⟩]
      (arranged true) ∧
    (Builtin.apply byLength "sorted" (Builtin.rankingArguments
        (.ofList [.ofString "bb", .ofString "a", .ofString "cc"]) (some (.builtin "len" none))
        (some (.bool true)))).perform ⟨⟨[], [], []⟩, 0⟩ .initial =
      (.ok (.ofList ((arranged true).map Ranked.item)), .initial) ∧
    (Value.ofList ((arranged true).map Ranked.item)).index (.int 0) = .ok (.ofString "bb") := by
  have hItems : (Value.ofList [.ofString "bb", .ofString "a", .ofString "cc"]).items =
      .ok [.ofString "bb", .ofString "a", .ofString "cc"] := rfl
  have hRanks : ([Value.ofString "bb", .ofString "a", .ofString "cc"].mapM
      (Builtin.rankOf byLength (Builtin.keyOf (some (.builtin "len" none))))).perform
        ⟨⟨[], [], []⟩, 0⟩ .initial = (.ok [.int 2, .int 1, .int 2], .initial) := rfl
  have hFree : ∀ rank ∈ [Value.int 2, .int 1, .int 2], rank.IsFloatFree := by
    simpa using ⟨.int 2, .int 1, .int 2⟩
  obtain ⟨-, arranged, least, greatest, hArranged, hSorted, -, -, hMax, hGreatest⟩ :=
    sorted_items_begin_with_extremes byLength hItems (by simp) hRanks hFree (.inr (by decide))
  have hFound : greatest = .ofString "bb" := by
    cases hMax
    rfl
  rw [hFound] at hGreatest
  exact ⟨arranged, hArranged true, hSorted (some (.bool true)), hGreatest⟩

end Stencil
