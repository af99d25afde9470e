import Stencil.Proofs.Sorting.Arranging

/-!
# Sorting a block arranges

Insertion puts a value behind all that it does not go before. Merging puts the first values of two
arranged lists down one after another, or the last ones. Where the list to the right gives a value
first, that value goes before all that are left in the list to the left, so it passes no value that
it is tied with.

A merge from both ends never looks at what the other end has put down. What an end has put down is
told by a `Cut`: both lists are cut in two, and the first parts come before the second parts. Two
cuts of the same lists do not cross, so what lies between them has not been put down twice, and
there is at most one such value when each end has taken its half of the steps.

The first four values of half a block are two pairs that are merged from both ends with one step
each, so two cuts tell what stands first and last, and the two values between them are put in order
by a last comparison. The rest of a half is inserted, and the halves are merged from both ends.

## Main results

* `insertAll_gives`: insertion arranges.
* `merge_gives`: merging two arranged lists arranges them.
* `Cut.nested`: of two cuts one lies within the other.
* `mergeInward_gives`: merging from both ends arranges.
* `sortFour_gives`: five comparisons arrange four values.
* `sortBlock_gives`: a block is arranged.
-/

namespace Stencil.Sorting

variable {ε α : Type} {lt : α → α → Bool} (hlt : IsWeakOrder lt)

/-! ## Insertion -/

include hlt in
/-- A value is inserted behind all that it does not go before. The values come last first. -/
theorem insert_gives (x : α) {done : List α}
    (hDone : done.Pairwise fun later earlier => MayPrecede lt earlier later) :
    Gives (insert (answers (ε := ε) lt) x done) fun result =>
      SameTies lt (x :: done) result ∧
        result.Pairwise fun later earlier => MayPrecede lt earlier later := by
  induction done with
  | nil => exact .ok ⟨.refl [x], List.pairwise_singleton _ x⟩
  | cons y rest ih =>
      rw [List.pairwise_cons] at hDone
      by_cases hLess : lt x y = true
      · have hRest := ih hDone.2
        simp only [insert, answers, hLess]
        refine hRest.map ?_
        rintro result ⟨hTies, hOrdered⟩
        have hPass : SameTies lt (x :: y :: rest) (y :: x :: rest) :=
          (SameTies.pass hlt [] [y] rest (by simpa using hLess)).symm
        constructor
        · exact hPass.trans (hTies.cons y)
        · refine List.pairwise_cons.2 ⟨?_, hOrdered⟩
          intro z hz
          have hMem := (hTies.perm hlt).mem_iff.2 hz
          rcases List.mem_cons.1 hMem with rfl | hMem
          · exact hlt.asymm hLess
          · exact hDone.1 z hMem
      · rw [Bool.not_eq_true] at hLess
        simp only [insert, answers, hLess]
        refine .ok ⟨.refl _, List.pairwise_cons.2 ⟨?_, List.pairwise_cons.2 hDone⟩⟩
        intro z hz
        rcases List.mem_cons.1 hz with rfl | hz
        · exact hLess
        · exact hlt.trans (hDone.1 z hz) hLess

include hlt in
/-- Values are inserted one after another into arranged values, which come last first. -/
theorem insertAll_gives {done : List α} (hDone : done.reverse.Pairwise (MayPrecede lt))
    (values : List α) :
    Gives (insertAll (answers (ε := ε) lt) done values) fun result =>
      Arranges lt (done.reverse ++ values) result.reverse := by
  induction values generalizing done with
  | nil =>
      rw [List.append_nil]
      exact .ok (.of_ordered hDone)
  | cons x rest ih =>
      obtain ⟨next, hNext, hTies, hOrdered⟩ :=
        insert_gives (ε := ε) hlt x (List.pairwise_reverse.1 hDone)
      have hRest := ih (List.pairwise_reverse.2 hOrdered)
      simp only [insertAll, hNext]
      refine hRest.mono ?_
      intro result hResult
      have hSame := hTies.reverse.append (.refl rest)
      rw [List.reverse_cons, List.append_assoc] at hSame
      exact hResult.of_sameTies hSame

/-! ## Merging from one end -/

include hlt in
/-- Of two arranged lists behind what is merged already the first value is taken. -/
theorem mergeFront_gives (done left right : List α)
    (hLeft : (done.reverse ++ left).Pairwise (MayPrecede lt))
    (hRight : (done.reverse ++ right).Pairwise (MayPrecede lt)) :
    Gives (mergeFront (answers (ε := ε) lt) done left right) fun result =>
      Arranges lt (done.reverse ++ (left ++ right)) result := by
  fun_induction mergeFront (answers (ε := ε) lt) done left right with
  | case1 done right =>
      rw [List.reverseAux_eq]
      exact .ok (.of_ordered hRight)
  | case2 done left =>
      rw [List.reverseAux_eq, List.append_nil]
      exact .ok (.of_ordered hLeft)
  | case3 done x left y right fault hLess => cases hLess
  | case4 done x left y right hLess ih =>
      -- `y` goes before all that is left in the list to the left
      have hBefore : lt y x = true := by simpa using hLess
      rw [List.pairwise_append] at hLeft hRight
      have hAll : ∀ z ∈ x :: left, lt y z = true := by
        intro z hz
        rcases List.mem_cons.1 hz with rfl | hz
        · exact hBefore
        · exact hlt.lt_of_lt_of_le hBefore ((List.pairwise_cons.1 hLeft.2.1).1 z hz)
      have hStep := ih ?_ ?_
      · refine hStep.mono ?_
        intro result hResult
        refine hResult.of_sameTies ?_
        have hPass := SameTies.pass hlt done.reverse (x :: left) right hAll
        simpa using hPass
      · rw [List.reverse_cons, List.append_assoc, List.pairwise_append]
        refine ⟨hLeft.1, List.pairwise_cons.2 ⟨fun z hz => hlt.asymm (hAll z hz), hLeft.2.1⟩, ?_⟩
        intro z hz w hw
        rcases List.mem_cons.1 hw with rfl | hw
        · exact hRight.2.2 z hz w (List.mem_cons_self ..)
        · exact hLeft.2.2 z hz w hw
      · rw [List.reverse_cons, List.append_assoc, List.pairwise_append]
        exact hRight
  | case5 done x left y right hLess ih =>
      have hNotBefore : lt y x = false := by simpa using hLess
      rw [List.pairwise_append] at hLeft hRight
      have hStep := ih ?_ ?_
      · refine hStep.mono ?_
        intro result hResult
        simpa using hResult
      · rw [List.reverse_cons, List.append_assoc, List.pairwise_append]
        exact hLeft
      · rw [List.reverse_cons, List.append_assoc, List.pairwise_append]
        refine ⟨hRight.1, List.pairwise_cons.2 ⟨?_, hRight.2.1⟩, ?_⟩
        · intro z hz
          rcases List.mem_cons.1 hz with rfl | hz
          · exact hNotBefore
          · exact hlt.trans hNotBefore ((List.pairwise_cons.1 hRight.2.1).1 z hz)
        · intro z hz w hw
          rcases List.mem_cons.1 hw with rfl | hw
          · exact hLeft.2.2 z hz w (List.mem_cons_self ..)
          · exact hRight.2.2 z hz w hw

/-! ## Merging from the other end -/

/-- Merging from the back is merging from the front with the order and the lists turned round. -/
theorem mergeBack_eq (less : Less ε α) (done left right : List α) :
    mergeBack less done left right =
      List.reverse <$> mergeFront (converse less) done right left := by
  fun_induction mergeBack less done left right with
  | case1 done right =>
      cases right <;> simp [mergeFront]
  | case2 done left hLeft =>
      cases left with
      | nil => exact absurd rfl hLeft
      | cons x left => simp [mergeFront]
  | case3 done x left y right fault hLess => simp [mergeFront, hLess]
  | case4 done x left y right hLess ih => simp [mergeFront, hLess, ih]
  | case5 done x left y right hLess ih => simp [mergeFront, hLess, ih]

include hlt in
/-- Merging two arranged lists arranges them, the left one first where they are tied. -/
theorem merge_gives {left right : List α} (hLeft : left.Pairwise (MayPrecede lt))
    (hRight : right.Pairwise (MayPrecede lt)) :
    Gives (merge (answers (ε := ε) lt) left right) (Arranges lt (left ++ right)) := by
  unfold merge
  by_cases hLength : left.length ≤ right.length
  · rw [if_pos hLength]
    have hMerge := mergeFront_gives (ε := ε) hlt [] left right (by simpa) (by simpa)
    simpa using hMerge
  · rw [if_neg hLength, mergeBack_eq]
    have hMerge := mergeFront_gives (ε := ε) hlt.converse [] right.reverse left.reverse
      (by simpa [List.pairwise_reverse]) (by simpa [List.pairwise_reverse])
    refine hMerge.map ?_
    intro result hResult
    simpa using hResult.of_converse

/-! ## Cuts -/

/-- Two lists are cut in two so that the first parts come before the second ones where the lists
are merged. -/
structure Cut {α : Type} (lt : α → α → Bool) (leftFirst leftRest rightFirst rightRest : List α) :
    Prop where
  left_first : ∀ x ∈ leftFirst, ∀ y ∈ rightRest, lt y x = false
  right_first : ∀ y ∈ rightFirst, ∀ x ∈ leftRest, lt y x = true

section Cuts

variable {leftFirst leftRest rightFirst rightRest : List α}

include hlt in
/-- The parts of a cut may be arranged by themselves. -/
theorem Cut.arranges (hCut : Cut lt leftFirst leftRest rightFirst rightRest)
    (hLeft : (leftFirst ++ leftRest).Pairwise (MayPrecede lt))
    (hRight : (rightFirst ++ rightRest).Pairwise (MayPrecede lt)) {first rest : List α}
    (hFirst : Arranges lt (leftFirst ++ rightFirst) first)
    (hRest : Arranges lt (leftRest ++ rightRest) rest) :
    Arranges lt (leftFirst ++ leftRest ++ (rightFirst ++ rightRest)) (first ++ rest) := by
  rw [List.pairwise_append] at hLeft hRight
  have hBetween : ∀ x ∈ leftFirst ++ rightFirst, ∀ y ∈ leftRest ++ rightRest,
      MayPrecede lt x y := by
    intro x hx y hy
    rcases List.mem_append.1 hx with hx | hx
    · rcases List.mem_append.1 hy with hy | hy
      · exact hLeft.2.2 x hx y hy
      · exact hCut.left_first x hx y hy
    · rcases List.mem_append.1 hy with hy | hy
      · exact hlt.asymm (hCut.right_first x hx y hy)
      · exact hRight.2.2 x hx y hy
  refine (hFirst.append hlt hRest hBetween).of_sameTies ?_
  have hSwap : SameTies lt (leftRest ++ rightFirst) (rightFirst ++ leftRest) :=
    .swap hlt hCut.right_first
  have hAll := ((SameTies.refl leftFirst).append hSwap).append (.refl rightRest)
  simpa using hAll

include hlt in
/-- What lies between two cuts may be arranged by itself, too. -/
theorem Cut.arranges_between {leftMiddle leftLast rightMiddle rightLast : List α}
    (hCut : Cut lt leftFirst (leftMiddle ++ leftLast) rightFirst (rightMiddle ++ rightLast))
    (hOther : Cut lt (leftFirst ++ leftMiddle) leftLast (rightFirst ++ rightMiddle) rightLast)
    (hLeft : (leftFirst ++ (leftMiddle ++ leftLast)).Pairwise (MayPrecede lt))
    (hRight : (rightFirst ++ (rightMiddle ++ rightLast)).Pairwise (MayPrecede lt))
    {first middle last : List α} (hFirst : Arranges lt (leftFirst ++ rightFirst) first)
    (hMiddle : Arranges lt (leftMiddle ++ rightMiddle) middle)
    (hLast : Arranges lt (leftLast ++ rightLast) last) :
    Arranges lt (leftFirst ++ (leftMiddle ++ leftLast) ++
      (rightFirst ++ (rightMiddle ++ rightLast))) (first ++ (middle ++ last)) := by
  have hInner : Cut lt leftMiddle leftLast rightMiddle rightLast := by
    constructor
    · intro x hx
      exact hOther.left_first x (List.mem_append_right _ hx)
    · intro y hy
      exact hOther.right_first y (List.mem_append_right _ hy)
  have hRest := hInner.arranges hlt (List.pairwise_append.1 hLeft).2.1
    (List.pairwise_append.1 hRight).2.1 hMiddle hLast
  exact hCut.arranges hlt hLeft hRight hFirst hRest

/-- Two cuts do not cross: a value behind the first cut and before the second one in the left list
excludes a value before the first and behind the second in the right list. -/
theorem Cut.not_crossed (hCut : Cut lt leftFirst leftRest rightFirst rightRest)
    {leftStart leftBack rightStart rightBack : List α}
    (hOther : Cut lt leftStart leftBack rightStart rightBack) {x y : α} (hx : x ∈ leftRest)
    (hx' : x ∈ leftStart) (hy : y ∈ rightFirst) : y ∉ rightBack := by
  intro hy'
  have hLess := hCut.right_first y hy x hx
  have hNot := hOther.left_first x hx' y hy'
  rw [hLess] at hNot
  cases hNot

/-- Of two cuts of the same lists, the one with fewer values in front lies within the other. -/
theorem Cut.nested (hCut : Cut lt leftFirst leftRest rightFirst rightRest)
    {leftStart leftBack rightStart rightBack : List α}
    (hOther : Cut lt leftStart leftBack rightStart rightBack)
    (hLeft : leftFirst ++ leftRest = leftStart ++ leftBack)
    (hRight : rightFirst ++ rightRest = rightStart ++ rightBack)
    (hLength : leftFirst.length + rightFirst.length ≤ leftStart.length + rightStart.length) :
    ∃ leftMiddle rightMiddle, leftStart = leftFirst ++ leftMiddle ∧
      leftRest = leftMiddle ++ leftBack ∧ rightStart = rightFirst ++ rightMiddle ∧
      rightRest = rightMiddle ++ rightBack := by
  rcases List.append_eq_append_iff.1 hLeft with ⟨a, hStart, hRest⟩ | ⟨a, hFirst, hBack⟩
  · rcases List.append_eq_append_iff.1 hRight with ⟨b, hStart', hRest'⟩ | ⟨b, hFirst', hBack'⟩
    · exact ⟨a, b, hStart, hRest, hStart', hRest'⟩
    · -- values of the right list that stand before the first cut and behind the second
      cases b with
      | nil => exact ⟨a, [], hStart, hRest, by simpa using hFirst'.symm, by simpa using hBack'.symm⟩
      | cons y b =>
          cases a with
          | nil =>
              simp only [hStart, hFirst', List.length_append, List.length_cons,
                List.length_nil] at hLength
              omega
          | cons x a =>
              have hNot : y ∉ rightBack := hCut.not_crossed hOther (x := x) (by simp [hRest])
                (by simp [hStart]) (by simp [hFirst'])
              exact absurd (by simp [hBack']) hNot
  · rcases List.append_eq_append_iff.1 hRight with ⟨b, hStart', hRest'⟩ | ⟨b, hFirst', hBack'⟩
    · cases a with
      | nil => exact ⟨[], b, by simpa using hFirst.symm, by simpa using hBack.symm, hStart', hRest'⟩
      | cons x a =>
          cases b with
          | nil =>
              simp only [hFirst, hStart', List.length_append, List.length_cons,
                List.length_nil] at hLength
              omega
          | cons y b =>
              have hNot : y ∉ rightRest := hOther.not_crossed hCut (x := x) (by simp [hBack])
                (by simp [hFirst]) (by simp [hStart'])
              exact absurd (by simp [hRest']) hNot
    · simp only [hFirst, hFirst', List.length_append] at hLength
      have hNone : a = [] ∧ b = [] := by
        constructor <;> exact List.eq_nil_of_length_eq_zero (by omega)
      obtain ⟨rfl, rfl⟩ := hNone
      exact ⟨[], [], by simpa using hFirst.symm, by simpa using hBack.symm,
        by simpa using hFirst'.symm, by simpa using hBack'.symm⟩

end Cuts

/-! ## Merging from both ends -/

theorem pairwise_of_length_le_one {r : α → α → Prop} {values : List α} (h : values.length ≤ 1) :
    values.Pairwise r := by
  match values, h with
  | [], _ => exact .nil
  | [x], _ => exact List.pairwise_singleton r x

/-- So many values of a merge are put down, the last of them first, and these are left. -/
def Taken (lt : α → α → Bool) (left right : List α) (count : Nat)
    (front leftRest rightRest : List α) : Prop :=
  ∃ leftFirst rightFirst, left = leftFirst ++ leftRest ∧ right = rightFirst ++ rightRest ∧
    leftFirst.length + rightFirst.length = count ∧
    Cut lt leftFirst leftRest rightFirst rightRest ∧
    Arranges lt (leftFirst ++ rightFirst) front.reverse

section Ends

variable {left right front leftRest rightRest : List α} {count : Nat}

theorem Taken.start (lt : α → α → Bool) (left right : List α) :
    Taken lt left right 0 [] left right :=
  ⟨[], [], rfl, rfl, rfl, ⟨nofun, nofun⟩, .of_ordered .nil⟩

/-- As long as fewer values are put down than a list has, it has values left. -/
theorem Taken.ne_nil (h : Taken lt left right count front leftRest rightRest)
    (hLeft : count < left.length) (hRight : count < right.length) :
    leftRest ≠ [] ∧ rightRest ≠ [] := by
  obtain ⟨leftFirst, rightFirst, rfl, rfl, hCount, -, -⟩ := h
  rw [List.length_append] at hLeft hRight
  constructor
  · rintro rfl
    rw [List.length_nil] at hLeft
    omega
  · rintro rfl
    rw [List.length_nil] at hRight
    omega

variable (hLeft : left.Pairwise (MayPrecede lt)) (hRight : right.Pairwise (MayPrecede lt))

include hlt hLeft hRight

/-- The right list gives the next value when that goes before the next one of the left list. -/
theorem Taken.fromRight {x y : α}
    (h : Taken lt left right count front (x :: leftRest) (y :: rightRest))
    (hLess : lt y x = true) :
    Taken lt left right (count + 1) (y :: front) (x :: leftRest) rightRest := by
  obtain ⟨leftFirst, rightFirst, rfl, rfl, hCount, hCut, hFront⟩ := h
  refine ⟨leftFirst, rightFirst ++ [y], rfl, by simp, by simp; omega, ⟨?_, ?_⟩, ?_⟩
  · intro z hz w hw
    exact hCut.left_first z hz w (List.mem_cons_of_mem y hw)
  · intro z hz w hw
    have hAfter : MayPrecede lt x w := by
      rcases List.mem_cons.1 hw with rfl | hw
      · exact hlt.irrefl w
      · exact (List.pairwise_cons.1 (List.pairwise_append.1 hLeft).2.1).1 w hw
    rcases List.mem_append.1 hz with hz | hz
    · exact hCut.right_first z hz w hw
    · rw [List.mem_singleton.1 hz]
      exact hlt.lt_of_lt_of_le hLess hAfter
  · rw [List.reverse_cons, ← List.append_assoc]
    refine hFront.append hlt (.of_ordered (List.pairwise_singleton _ y)) ?_
    intro z hz w hw
    rw [List.mem_singleton.1 hw]
    rcases List.mem_append.1 hz with hz | hz
    · exact hCut.left_first z hz y (List.mem_cons_self ..)
    · exact (List.pairwise_append.1 hRight).2.2 z hz y (List.mem_cons_self ..)

/-- The left list gives the next value when that of the right list does not go before it. -/
theorem Taken.fromLeft {x y : α}
    (h : Taken lt left right count front (x :: leftRest) (y :: rightRest))
    (hNot : lt y x = false) :
    Taken lt left right (count + 1) (x :: front) leftRest (y :: rightRest) := by
  obtain ⟨leftFirst, rightFirst, rfl, rfl, hCount, hCut, hFront⟩ := h
  have hPassed : ∀ z ∈ rightFirst, lt z x = true := fun z hz =>
    hCut.right_first z hz x (List.mem_cons_self ..)
  refine ⟨leftFirst ++ [x], rightFirst, by simp, rfl, by simp; omega, ⟨?_, ?_⟩, ?_⟩
  · intro z hz w hw
    have hAfter : MayPrecede lt y w := by
      rcases List.mem_cons.1 hw with rfl | hw
      · exact hlt.irrefl w
      · exact (List.pairwise_cons.1 (List.pairwise_append.1 hRight).2.1).1 w hw
    rcases List.mem_append.1 hz with hz | hz
    · exact hCut.left_first z hz w hw
    · rw [List.mem_singleton.1 hz]
      exact hlt.trans hNot hAfter
  · intro z hz w hw
    exact hCut.right_first z hz w (List.mem_cons_of_mem x hw)
  · have hAppend := hFront.append hlt (.of_ordered (List.pairwise_singleton _ x)) ?_
    · rw [List.reverse_cons]
      refine hAppend.of_sameTies ?_
      have hSwap : SameTies lt ([x] ++ rightFirst) (rightFirst ++ [x]) :=
        .swap hlt fun z hz w hw => by
          rw [List.mem_singleton.1 hw]
          exact hPassed z hz
      have hBefore : SameTies lt leftFirst leftFirst := .refl leftFirst
      have hAll := hBefore.append hSwap
      simpa using hAll
    · intro z hz w hw
      rw [List.mem_singleton.1 hw]
      rcases List.mem_append.1 hz with hz | hz
      · exact (List.pairwise_append.1 hLeft).2.2 z hz x (List.mem_cons_self ..)
      · exact hlt.asymm (hPassed z hz)

omit hlt hLeft hRight in
/-- What is put down at one end is arranged in front, and the rest is told by a cut. -/
theorem Taken.cut
    (h : Taken (converse lt) right.reverse left.reverse count front rightRest leftRest) :
    ∃ leftLast rightLast, left = leftRest.reverse ++ leftLast ∧
      right = rightRest.reverse ++ rightLast ∧ leftLast.length + rightLast.length = count ∧
      Cut lt leftRest.reverse leftLast rightRest.reverse rightLast ∧
      Arranges lt (leftLast ++ rightLast) front := by
  obtain ⟨rightFirst, leftFirst, hRight, hLeft, hCount, hCut, hFront⟩ := h
  refine ⟨leftFirst.reverse, rightFirst.reverse, ?_, ?_, by simp; omega, ⟨?_, ?_⟩, ?_⟩
  · rw [← List.reverse_reverse left, hLeft, List.reverse_append]
  · rw [← List.reverse_reverse right, hRight, List.reverse_append]
  · intro x hx y hy
    exact hCut.left_first y (List.mem_reverse.1 hy) x (List.mem_reverse.1 hx)
  · intro y hy x hx
    exact hCut.right_first x (List.mem_reverse.1 hx) y (List.mem_reverse.1 hy)
  · simpa using hFront.of_converse

end Ends

namespace Ends

/-- The ends with the front and the back turned round. -/
def mirror (ends : Ends α) : Ends α where
  left := ends.rightBack
  right := ends.leftBack
  leftBack := ends.right
  rightBack := ends.left
  front := ends.back
  back := ends.front

/-- A step at the back is a step at the front with everything turned round. -/
theorem stepBack_eq (less : Less ε α) (ends : Ends α) :
    ends.stepBack less = mirror <$> ends.mirror.stepFront (converse less) := by
  obtain ⟨left, right, leftBack, rightBack, front, back⟩ := ends
  cases leftBack with
  | nil => cases rightBack <;> rfl
  | cons x leftBack =>
      cases rightBack with
      | nil => rfl
      | cons y rightBack =>
          simp only [stepBack, mirror, stepFront, converse]
          rcases less y x with fault | _ | _ <;> rfl

/-- Both ends have put so many values down. -/
structure HaveTaken (lt : α → α → Bool) (left right : List α) (count : Nat) (ends : Ends α) :
    Prop where
  front : Taken lt left right count ends.front ends.left ends.right
  back : Taken (converse lt) right.reverse left.reverse count ends.back ends.rightBack ends.leftBack

section Steps

variable {left right : List α} (hLeft : left.Pairwise (MayPrecede lt))
  (hRight : right.Pairwise (MayPrecede lt)) {ends : Ends α} {count : Nat}

include hlt hLeft hRight

theorem stepFront_gives (h : Taken lt left right count ends.front ends.left ends.right)
    (hShort : count < left.length) (hShort' : count < right.length) :
    Gives (ends.stepFront (answers (ε := ε) lt)) fun next =>
      Taken lt left right (count + 1) next.front next.left next.right ∧
        next.back = ends.back ∧ next.leftBack = ends.leftBack ∧
          next.rightBack = ends.rightBack := by
  obtain ⟨leftRest, rightRest, leftBack, rightBack, front, back⟩ := ends
  have hNe := h.ne_nil hShort hShort'
  obtain ⟨x, leftRest, rfl⟩ := List.exists_cons_of_ne_nil hNe.1
  obtain ⟨y, rightRest, rfl⟩ := List.exists_cons_of_ne_nil hNe.2
  by_cases hLess : lt y x = true
  · refine ⟨⟨x :: leftRest, rightRest, leftBack, rightBack, y :: front, back⟩, ?_, ?_⟩
    · simp only [stepFront, answers, hLess]
      rfl
    · exact ⟨h.fromRight hlt hLeft hRight hLess, rfl, rfl, rfl⟩
  · rw [Bool.not_eq_true] at hLess
    refine ⟨⟨leftRest, y :: rightRest, leftBack, rightBack, x :: front, back⟩, ?_, ?_⟩
    · simp only [stepFront, answers, hLess]
      rfl
    · exact ⟨h.fromLeft hlt hLeft hRight hLess, rfl, rfl, rfl⟩

theorem stepBack_gives
    (h : Taken (converse lt) right.reverse left.reverse count ends.back ends.rightBack
      ends.leftBack)
    (hShort : count < left.length) (hShort' : count < right.length) :
    Gives (ends.stepBack (answers (ε := ε) lt)) fun next =>
      Taken (converse lt) right.reverse left.reverse (count + 1) next.back next.rightBack
          next.leftBack ∧
        next.front = ends.front ∧ next.left = ends.left ∧ next.right = ends.right := by
  rw [stepBack_eq]
  have hStart : Taken (converse lt) right.reverse left.reverse count ends.mirror.front
    ends.mirror.left ends.mirror.right := h
  have hStep := stepFront_gives (ε := ε) hlt.converse (List.pairwise_reverse.2 hRight)
    (List.pairwise_reverse.2 hLeft) hStart (by simpa) (by simpa)
  refine hStep.map ?_
  rintro next ⟨hTaken, hFront, hRest, hRest'⟩
  exact ⟨hTaken, hFront, hRest', hRest⟩

theorem steps_gives (h : ends.HaveTaken lt left right count) (more : Nat)
    (hShort : count + more ≤ left.length) (hShort' : count + more ≤ right.length) :
    Gives (ends.steps (answers (ε := ε) lt) more)
      (Ends.HaveTaken lt left right (count + more)) := by
  induction more generalizing ends count with
  | zero => exact .ok h
  | succ more ih =>
      have hFront := stepFront_gives (ε := ε) hlt hLeft hRight h.front (by omega) (by omega)
      refine hFront.bind ?_
      rintro next ⟨hNext, hBack, hLeftBack, hRightBack⟩
      have hKept := h.back
      rw [← hBack, ← hLeftBack, ← hRightBack] at hKept
      have hBackStep := stepBack_gives (ε := ε) hlt hLeft hRight hKept (by omega) (by omega)
      refine hBackStep.bind ?_
      rintro last ⟨hLast, hSame, hSameLeft, hSameRight⟩
      rw [← hSame, ← hSameLeft, ← hSameRight] at hNext
      have hSteps := ih ⟨hNext, hLast⟩ (by omega) (by omega)
      rwa [Nat.add_assoc, Nat.add_comm 1 more] at hSteps

omit hlt hLeft hRight in
/-- The value in the middle is found, on whichever side it is. -/
theorem middle_eq {leftMiddle leftLast rightMiddle rightLast leftBack rightBack front back : List α}
    {total : Nat} (hEven : total % 2 = 0 → leftMiddle.length + rightMiddle.length = 0)
    (hOdd : total % 2 ≠ 0 → leftMiddle.length + rightMiddle.length = 1)
    (hSide : total / 2 < leftMiddle.length + leftLast.length + leftBack.length ↔
      leftMiddle.length = 1) :
    middle total
      ⟨leftMiddle ++ leftLast, rightMiddle ++ rightLast, leftBack, rightBack, front, back⟩ =
      leftMiddle ++ rightMiddle := by
  simp only [middle, List.length_append]
  by_cases hHalf : total % 2 = 0
  · have hNone := hEven hHalf
    rw [if_pos hHalf, List.eq_nil_of_length_eq_zero (l := leftMiddle) (by omega),
      List.eq_nil_of_length_eq_zero (l := rightMiddle) (by omega)]
    rfl
  have hOne := hOdd hHalf
  rw [if_neg hHalf]
  by_cases hFromLeft : leftMiddle.length = 1
  · rw [if_pos (hSide.2 hFromLeft), List.eq_nil_of_length_eq_zero (l := rightMiddle) (by omega),
      List.append_nil, List.take_left' hFromLeft]
  · rw [if_neg fun hLess => hFromLeft (hSide.1 hLess),
      List.eq_nil_of_length_eq_zero (l := leftMiddle) (by omega), List.nil_append,
      List.take_left' (by omega)]

/-- When each end has taken its half of the steps, the ends have met, and what lies between them is
one value or none. -/
theorem toList_arranges (h : ends.HaveTaken lt left right left.length)
    (hHalves : right.length = left.length ∨ right.length = left.length + 1) :
    ends.Meet left.length (left.length + right.length) ∧
      Arranges lt (left ++ right) (ends.toList (left.length + right.length)) := by
  obtain ⟨leftRest, rightRest, leftBack, rightBack, front, back⟩ := ends
  obtain ⟨leftFirst, rightFirst, hLeftEq, hRightEq, hCount, hCut, hFront⟩ := h.front
  obtain ⟨leftLast, rightLast, hLeftEq', hRightEq', hCount', hCut', hBack⟩ := h.back.cut
  simp only at *
  have hLengths := congrArg List.length hLeftEq'
  have hLengths' := congrArg List.length hRightEq'
  rw [List.length_append] at hLengths hLengths'
  obtain ⟨leftMiddle, rightMiddle, hStart, hRest, hStart', hRest'⟩ := hCut.nested hCut'
    (hLeftEq.symm.trans hLeftEq') (hRightEq.symm.trans hRightEq') (by omega)
  rw [hStart, List.length_append] at hLengths
  rw [hStart', List.length_append] at hLengths'
  have hCounts : leftRest.length = leftMiddle.length + leftLast.length := by
    rw [hRest, List.length_append]
  have hBackCount : leftBack.length = leftFirst.length + leftMiddle.length := by
    rw [← List.length_append, ← hStart, List.length_reverse]
  have hMiddle : middle (left.length + right.length)
      ⟨leftRest, rightRest, leftBack, rightBack, front, back⟩ = leftMiddle ++ rightMiddle := by
    rw [hRest, hRest']
    exact middle_eq (by omega) (by omega) (by omega)
  have hFew : (leftMiddle ++ rightMiddle).Pairwise (MayPrecede lt) := by
    refine pairwise_of_length_le_one ?_
    rw [List.length_append]
    omega
  refine ⟨by simp only [Meet]; omega, ?_⟩
  subst hRest hRest'
  rw [hStart, hStart'] at hCut'
  rw [hLeftEq] at hLeft
  rw [hRightEq] at hRight
  have hAll := hCut.arranges_between hlt hCut' hLeft hRight hFront (.of_ordered hFew) hBack
  rw [toList, hMiddle, List.reverseAux_eq]
  simp only [hLeftEq, hRightEq]
  exact hAll

end Steps

end Ends

include hlt in
/-- Merging arranged halves from both ends arranges them. -/
theorem mergeInward_gives [Contradictable ε] {left right : List α}
    (hLeft : left.Pairwise (MayPrecede lt))
    (hRight : right.Pairwise (MayPrecede lt))
    (hHalves : right.length = left.length ∨ right.length = left.length + 1) :
    Gives (mergeInward (answers (ε := ε) lt) left right) (Arranges lt (left ++ right)) := by
  have hStart : (Ends.start left right).HaveTaken lt left right 0 :=
    ⟨.start lt left right, .start (converse lt) right.reverse left.reverse⟩
  have hSteps := Ends.steps_gives (ε := ε) hlt hLeft hRight hStart left.length (by omega) (by omega)
  refine hSteps.bind ?_
  intro ends hEnds
  rw [Nat.zero_add] at hEnds
  obtain ⟨hMeet, hAll⟩ := Ends.toList_arranges hlt hLeft hRight hEnds hHalves
  rw [if_pos hMeet]
  exact .ok hAll

/-! ## Four values -/

include hlt in
theorem sortTwo_gives (x y : α) :
    Gives (sortTwo (answers (ε := ε) lt) x y) fun pair => Arranges lt [x, y] [pair.1, pair.2] := by
  by_cases hLess : lt y x = true
  · refine ⟨(y, x), ?_, ?_, ?_⟩
    · simp only [sortTwo, answers, hLess]
      rfl
    · exact SameTies.pass hlt [] [x] [] (by simpa using hLess)
    · simpa using hlt.asymm hLess
  · rw [Bool.not_eq_true] at hLess
    refine ⟨(x, y), ?_, .of_ordered ?_⟩
    · simp only [sortTwo, answers, hLess]
      rfl
    · simpa using hLess

section Pairs

variable {a b c d : α} (hLeft : lt b a = false) (hRight : lt d c = false)

include hlt in
/-- The values between two cuts that leave one value at each end are put in order. -/
theorem sortMiddle_gives (leftFirst leftMiddle leftLast rightFirst rightMiddle rightLast : List α)
    {values : List α} {least left right greatest : α}
    (hTies : SameTies lt values (leftFirst ++ (leftMiddle ++ leftLast) ++
      (rightFirst ++ (rightMiddle ++ rightLast))))
    (hCut : Cut lt leftFirst (leftMiddle ++ leftLast) rightFirst (rightMiddle ++ rightLast))
    (hOther : Cut lt (leftFirst ++ leftMiddle) leftLast (rightFirst ++ rightMiddle) rightLast)
    (hLeft : (leftFirst ++ (leftMiddle ++ leftLast)).Pairwise (MayPrecede lt))
    (hRight : (rightFirst ++ (rightMiddle ++ rightLast)).Pairwise (MayPrecede lt))
    (hFirst : leftFirst ++ rightFirst = [least])
    (hMiddle : leftMiddle ++ rightMiddle = [left, right])
    (hLast : leftLast ++ rightLast = [greatest]) :
    Gives (sortTwo (answers (ε := ε) lt) left right >>= fun pair =>
        pure [least, pair.1, pair.2, greatest]) (Arranges lt values) := by
  refine (sortTwo_gives hlt left right).bind ?_
  intro pair hPair
  have hOne (x : α) : Arranges lt [x] [x] := .of_ordered (List.pairwise_singleton _ x)
  have hLeast : Arranges lt (leftFirst ++ rightFirst) [least] := by
    rw [hFirst]
    exact hOne least
  have hGreatest : Arranges lt (leftLast ++ rightLast) [greatest] := by
    rw [hLast]
    exact hOne greatest
  rw [← hMiddle] at hPair
  have hAll := hCut.arranges_between hlt hOther hLeft hRight hLeast hPair hGreatest
  exact .ok (hAll.of_sameTies hTies)

include hlt hLeft in
theorem cut_rightFirst (h : lt c a = true) : Cut lt [] [a, b] [c] [d] := by
  refine ⟨nofun, ?_⟩
  have hSecond := hlt.lt_of_lt_of_le h hLeft
  simpa using ⟨h, hSecond⟩

include hlt hRight in
theorem cut_leftFirst (h : lt c a = false) : Cut lt [a] [b] [] [c, d] := by
  refine ⟨?_, nofun⟩
  have hSecond := hlt.trans h hRight
  simpa using ⟨h, hSecond⟩

include hlt hRight in
theorem cut_leftLast (h : lt d b = true) : Cut lt [a] [b] [c, d] [] := by
  refine ⟨fun _ _ => nofun, ?_⟩
  have hSecond := hlt.lt_of_le_of_lt hRight h
  simpa using ⟨hSecond, h⟩

include hlt hLeft in
theorem cut_rightLast (h : lt d b = false) : Cut lt [a, b] [] [c] [d] := by
  refine ⟨?_, fun _ _ => nofun⟩
  have hSecond := hlt.trans hLeft h
  simpa using ⟨hSecond, h⟩

end Pairs

include hlt in
/-- Five comparisons arrange four values. -/
theorem sortFour_gives (x y z w : α) :
    Gives (sortFour (answers (ε := ε) lt) x y z w) (Arranges lt [x, y, z, w]) := by
  refine (sortTwo_gives hlt x y).bind ?_
  rintro ⟨a, b⟩ hLeft
  refine (sortTwo_gives hlt z w).bind ?_
  rintro ⟨c, d⟩ hRight
  have hLeftOrder : lt b a = false := by simpa using hLeft.ordered
  have hRightOrder : lt d c = false := by simpa using hRight.ordered
  have hPairs : SameTies lt [x, y, z, w] ([a, b] ++ [c, d]) := hLeft.ties.append hRight.ties
  by_cases hFirst : lt c a = true
  · have hCut := cut_rightFirst hlt hLeftOrder (d := d) hFirst
    by_cases hLast : lt d b = true
    · have hOther := cut_leftLast hlt hRightOrder (a := a) hLast
      have hMiddle := sortMiddle_gives (ε := ε) hlt [] [a] [b] [c] [d] [] hPairs
        hCut hOther hLeft.ordered hRight.ordered rfl rfl rfl
      simp only [answers, hFirst, hLast]
      exact hMiddle
    · rw [Bool.not_eq_true] at hLast
      have hOther := cut_rightLast hlt hLeftOrder (c := c) hLast
      have hMiddle := sortMiddle_gives (ε := ε) hlt [] [a, b] [] [c] [] [d] hPairs
        hCut hOther hLeft.ordered hRight.ordered rfl rfl rfl
      simp only [answers, hFirst, hLast]
      exact hMiddle
  · rw [Bool.not_eq_true] at hFirst
    have hCut := cut_leftFirst hlt hRightOrder (b := b) hFirst
    by_cases hLast : lt d b = true
    · have hOther := cut_leftLast hlt hRightOrder (a := a) hLast
      have hMiddle := sortMiddle_gives (ε := ε) hlt [a] [] [b] [] [c, d] [] hPairs
        hCut hOther hLeft.ordered hRight.ordered rfl rfl rfl
      simp only [answers, hFirst, hLast]
      exact hMiddle
    · rw [Bool.not_eq_true] at hLast
      have hOther := cut_rightLast hlt hLeftOrder (c := c) hLast
      have hMiddle := sortMiddle_gives (ε := ε) hlt [a] [b] [] [] [c] [d] hPairs
        hCut hOther hLeft.ordered hRight.ordered rfl rfl rfl
      simp only [answers, hFirst, hLast]
      exact hMiddle

/-! ## Blocks -/

/-- The start of a half that is sorted already, and the values after it. -/
abbrev IsStart (lt : α → α → Bool) (values : List α) (start : List α × List α) : Prop :=
  start.1.Pairwise (MayPrecede lt) ∧ SameTies lt values (start.1 ++ start.2)

include hlt in
theorem sortStart_gives (values : List α) :
    Gives (sortStart (answers (ε := ε) lt) values) (IsStart lt values) := by
  unfold sortStart
  split
  · rename_i x y z w rest
    refine (sortFour_gives hlt x y z w).map ?_
    intro first hFirst
    exact ⟨hFirst.ordered, hFirst.ties.append (.refl rest)⟩
  · exact .ok ⟨.nil, .refl values⟩

include hlt in
theorem sortStarts_gives (left right : List α) :
    Gives (sortStarts (answers (ε := ε) lt) left right) fun starts =>
      IsStart lt left starts.1 ∧ IsStart lt right starts.2 := by
  unfold sortStarts
  by_cases hFew : left.length < 4
  · rw [if_pos hFew]
    exact .ok ⟨⟨.nil, .refl left⟩, ⟨.nil, .refl right⟩⟩
  · rw [if_neg hFew]
    refine (sortStart_gives hlt left).bind ?_
    intro leftStart hLeft
    refine (sortStart_gives hlt right).bind ?_
    intro rightStart hRight
    exact .ok ⟨hLeft, hRight⟩

include hlt in
/-- Insertion into the sorted start of a half arranges the half. -/
theorem IsStart.insert_gives {values : List α} {start : List α × List α}
    (h : IsStart lt values start) :
    Gives (insertAll (answers (ε := ε) lt) start.1.reverse start.2) fun done =>
      Arranges lt values done.reverse := by
  have hStart : start.1.reverse.reverse.Pairwise (MayPrecede lt) := by simpa using h.1
  have hInsert := insertAll_gives (ε := ε) hlt hStart start.2
  refine hInsert.mono ?_
  intro done hDone
  rw [List.reverse_reverse] at hDone
  exact hDone.of_sameTies h.2

include hlt in
/-- A block is arranged. -/
theorem sortBlock_gives [Contradictable ε] (values : List α) :
    Gives (sortBlock (answers (ε := ε) lt) values) (Arranges lt values) := by
  unfold sortBlock
  by_cases hFew : values.length < 2
  · rw [if_pos hFew]
    exact .ok (.of_ordered (pairwise_of_length_le_one (Nat.le_of_lt_succ hFew)))
  · rw [if_neg hFew]
    refine (sortStarts_gives hlt _ _).bind ?_
    rintro ⟨left, right⟩ ⟨hLeft, hRight⟩
    refine (hLeft.insert_gives hlt).bind ?_
    intro leftDone hLeftDone
    refine (hRight.insert_gives hlt).bind ?_
    intro rightDone hRightDone
    have hHalf := hLeftDone.length_eq hlt
    have hOther := hRightDone.length_eq hlt
    rw [List.length_take] at hHalf
    rw [List.length_drop] at hOther
    have hMerge := mergeInward_gives (ε := ε) hlt hLeftDone.ordered hRightDone.ordered (by omega)
    refine hMerge.mono ?_
    intro result hResult
    have hTies := hLeftDone.ties.append hRightDone.ties
    rw [List.take_append_drop] at hTies
    exact hResult.of_sameTies hTies

end Stencil.Sorting
