import Stencil.Proofs.Equality
import Stencil.Proofs.Ranges

/-!
# Slices

A slice of a sequence goes from a start by steps of one length as long as it is before a stop, and
takes the item at each place it comes to. Start and stop may be negative, which counts from the end,
and lie anywhere; they are brought to the nearest place from which the steps still make sense, so
that the slice never comes to a place without an item. From the last place it makes one more step,
and breaks off when 64 bits do not hold where that leads. Lists and strings are sliced in the same
way; the items of a string are its characters.

## Main results

* `Value.slice_isSlice`: a slice takes the items at the places before its stop, and no others.
* `Value.far_of_slice_breaks`: it breaks off only when its last step leads too far.
* `IsSlice.eq_drop_take`, `IsSlice.eq_reverse`: what that is for the steps 1 and -1.
* `Value.index_of_place`, `Value.index_outside`: the item at a place, and the fault where there is
  none.
* `slices_select_items`: all of this for lists and strings.
-/

namespace Stencil

open Stencil.Number Stencil.Text

/-! ## What a slice takes -/

/-- The part has the items at the places from the start on, by this step, before the stop. -/
structure IsSlice {α : Type} (items part : List α) (start stop step : Int) : Prop where
  /-- There is an item for each place before the stop, and for no other. -/
  length_iff : ∀ i : Nat, i < part.length ↔ Precedes step stop (start + i * step)
  inside : ∀ i < part.length, 0 ≤ start + i * step ∧ start + i * step < items.length
  item : ∀ i < part.length, part[i]? = items[(start + i * step).toNat]?

namespace IsSlice

variable {α : Type} {items part : List α} {start stop step : Int}

theorem map {β : Type} (f : α → β) (h : IsSlice items part start stop step) :
    IsSlice (items.map f) (part.map f) start stop step where
  length_iff i := by
    rw [List.length_map]
    exact h.length_iff i
  inside i hi := by
    rw [List.length_map] at hi ⊢
    exact h.inside i hi
  item i hi := by
    rw [List.length_map] at hi
    rw [List.getElem?_map, List.getElem?_map, h.item i hi]

/-- The places say how many items there are. -/
theorem length_eq {other : List α} (h : IsSlice items part start stop step)
    (h' : IsSlice items other start stop step) : part.length = other.length :=
  Nat.le_antisymm
    (le_of_forall_lt fun i hi => (h'.length_iff i).2 ((h.length_iff i).1 hi))
    (le_of_forall_lt fun i hi => (h.length_iff i).2 ((h'.length_iff i).1 hi))

/-- A slice of neighbours is a piece of the sequence. -/
theorem eq_drop_take {start stop : Nat} (h : IsSlice items part start stop 1)
    (hStop : stop ≤ items.length) : part = (items.take stop).drop start := by
  apply List.ext_getElem?
  intro i
  have hLength : i < part.length ↔ start + i < stop := by
    rw [h.length_iff, Precedes, if_pos (by decide)]
    omega
  by_cases hi : i < part.length
  · have hPlace : ((start : Int) + i * 1).toNat = start + i := by omega
    rw [h.item i hi, hPlace, List.getElem?_drop, List.getElem?_take_of_lt (hLength.1 hi)]
  · have hShort : ((items.take stop).drop start).length ≤ i := by
      rw [List.length_drop, List.length_take]
      omega
    rw [List.getElem?_eq_none (Nat.le_of_not_lt hi), List.getElem?_eq_none hShort]

/-- Going back from the last item to the first one reverses the sequence. -/
theorem eq_reverse (h : IsSlice items part (items.length - 1) (-1) (-1)) :
    part = items.reverse := by
  apply List.ext_getElem?
  intro i
  have hLength : i < part.length ↔ i < items.length := by
    rw [h.length_iff, Precedes, if_neg (by decide)]
    omega
  by_cases hi : i < part.length
  · have hPlace : ((items.length : Int) - 1 + i * -1).toNat = items.length - 1 - i := by omega
    rw [h.item i hi, hPlace, List.getElem?_reverse (hLength.1 hi)]
  · have hShort : items.reverse.length ≤ i := by
      rw [List.length_reverse]
      omega
    rw [List.getElem?_eq_none (Nat.le_of_not_lt hi), List.getElem?_eq_none hShort]

end IsSlice

/-! ## The places of a slice -/

namespace Progression

variable {α : Type} {p : Progression} {items : Array α} {stop : Int}

theorem places_eq (p : Progression) :
    p.places = (List.range p.count).map fun i => (p.term i).toNat := rfl

section Inside

variable (h : ∀ i < p.count, 0 ≤ p.term i ∧ p.term i < items.size)

include h

/-- Where there is an item at every place, each of them is taken. -/
theorem map_some_pick : (p.pick items).toList.map some =
    (List.range p.count).map fun i => items.toList[(p.term i).toNat]? := by
  rw [toList_pick, places_eq, List.filterMap_map, List.map_filterMap_some_eq_filter_map_isSome]
  simp only [Function.comp_def, ← Array.getElem?_toList]
  apply List.filter_eq_self.2
  intro found hFound
  obtain ⟨i, hi, rfl⟩ := List.mem_map.1 hFound
  obtain ⟨hLow, hHigh⟩ := h i (List.mem_range.1 hi)
  have hPlace : (p.term i).toNat < items.toList.length := by
    rw [Array.length_toList]
    omega
  rw [List.getElem?_eq_getElem hPlace, Option.isSome_some]

theorem length_pick : (p.pick items).toList.length = p.count := by
  have hLength := congrArg List.length (map_some_pick h)
  rwa [List.length_map, List.length_map, List.length_range] at hLength

theorem isSlice_pick (hEnds : p.EndsBefore stop) :
    IsSlice items.toList (p.pick items).toList p.start stop p.step where
  length_iff i := by
    rw [length_pick h]
    exact hEnds i
  inside i hi := by
    rw [length_pick h] at hi
    exact h i hi
  item i hi := by
    have hItem := congrArg (·[i]?) (map_some_pick h)
    rw [length_pick h] at hi
    simp only [List.getElem?_map, List.getElem?_range hi, Option.map_some] at hItem
    have hPart : i < (p.pick items).toList.length := (length_pick h).symm ▸ hi
    rw [List.getElem?_eq_getElem hPart, Option.map_some] at hItem
    rw [List.getElem?_eq_getElem hPart]
    exact Option.some.inj hItem

end Inside

end Progression

/-- A position in a sequence of `length` items. A negative one counts from the end. -/
def fromStart (length : Nat) (position : Int) : Int :=
  if position < 0 then position + length else position

/-- The place from which on steps may lead into the sequence that is nearest to the position. -/
def nearestPlace (length : Nat) (step position : Int) : Int :=
  if 0 < step then max 0 (min length (fromStart length position))
  else max (-1) (min (length - 1) (fromStart length position))

/-- Where a slice starts; by default, at the end from which the steps lead into the sequence. -/
def sliceStart (length : Nat) (step : Int) : Option Int64 → Int
  | none => if 0 < step then 0 else length - 1
  | some start => nearestPlace length step start.toInt

/-- Where a slice stops; by default, behind the other end. -/
def sliceStop (length : Nat) (step : Int) : Option Int64 → Int
  | none => if 0 < step then length else -1
  | some stop => nearestPlace length step stop.toInt

/-- How a slice goes on; by default, to the next place. -/
def sliceStep : Option Int64 → Int
  | none => 1
  | some step => step.toInt

section Places

variable {length : Nat} {step : Int}

/-- The places from the start of a slice to its stop. -/
def slicePath (length : Nat) (start stop stride : Option Int64) : Progression :=
  .upTo (sliceStart length (sliceStep stride) start) (sliceStop length (sliceStep stride) stop)
    (sliceStep stride)

theorem slicePlaces_eq {start stop stride : Option Int64} (hNonzero : sliceStep stride ≠ 0) :
    slicePlaces length start stop stride =
      if (slicePath length start stop stride).cursor ≤ length ∨
          (slicePath length start stop stride).cursor < int64Bound
      then .ok (slicePath length start stop stride) else .error (.broken .cursor) := by
  have hStep : (stride.map Int64.toInt).getD 1 = sliceStep stride := by cases stride <;> rfl
  unfold slicePlaces slicePath
  simp only [hStep, if_neg hNonzero]
  by_cases hUp : 0 < sliceStep stride <;> cases start <;> cases stop <;>
    simp only [hUp, if_true, if_false, Option.map_none, Option.map_some, Option.getD_none,
      Option.getD_some, sliceStart, sliceStop, nearestPlace, clampBound, fromStart]

/-- A slice that steps forwards starts and stops inside the sequence, or right behind it. -/
theorem slice_bounds_forwards (hUp : 0 < step) (start stop : Option Int64) :
    0 ≤ sliceStart length step start ∧ sliceStart length step start ≤ length ∧
      sliceStop length step stop ≤ length := by
  cases start <;> cases stop <;> simp only [sliceStart, sliceStop, nearestPlace] <;> omega

/-- A slice that steps backwards starts and stops inside the sequence, or right before it. -/
theorem slice_bounds_backwards (hDown : step < 0) (start stop : Option Int64) :
    -1 ≤ sliceStart length step start ∧ sliceStart length step start < length ∧
      -1 ≤ sliceStop length step stop := by
  cases start <;> cases stop <;> simp only [sliceStart, sliceStop, nearestPlace] <;> omega

/-- The places before the stop are places of items. -/
theorem slice_inside (hNonzero : step ≠ 0) {start stop : Option Int64} {i : Nat}
    (h : Precedes step (sliceStop length step stop) (sliceStart length step start + i * step)) :
    0 ≤ sliceStart length step start + i * step ∧
      sliceStart length step start + i * step < length := by
  unfold Precedes at h
  by_cases hUp : 0 < step
  · have hBounds := @slice_bounds_forwards length step hUp start stop
    have hSteps : 0 ≤ i * step := by positivity
    rw [if_pos hUp] at h
    omega
  · have hDown : step < 0 := by omega
    have hBounds := @slice_bounds_backwards length step hDown start stop
    have hSteps : 0 ≤ i * -step := Int.mul_nonneg (Int.natCast_nonneg i) (by omega)
    rw [if_neg hUp] at h
    rw [Int.mul_neg] at hSteps
    omega

theorem isSlice_pick_slicePath {α : Type} {items : Array α} {start stop stride : Option Int64}
    (hNonzero : sliceStep stride ≠ 0) :
    IsSlice items.toList ((slicePath items.size start stop stride).pick items).toList
        (sliceStart items.size (sliceStep stride) start)
        (sliceStop items.size (sliceStep stride) stop) (sliceStep stride) ∧
      ((slicePath items.size start stop stride).pick items).toList.length =
        (slicePath items.size start stop stride).count := by
  have hEnds : (slicePath items.size start stop stride).EndsBefore
      (sliceStop items.size (sliceStep stride) stop) := Progression.endsBefore_upTo hNonzero
  have hInside : ∀ i < (slicePath items.size start stop stride).count,
      0 ≤ (slicePath items.size start stop stride).term i ∧
        (slicePath items.size start stop stride).term i < items.size :=
    fun i hi => slice_inside hNonzero ((hEnds i).1 hi)
  exact ⟨Progression.isSlice_pick hInside hEnds, Progression.length_pick hInside⟩

/-- A slice by steps of one, or backwards, does not get behind the sequence. -/
theorem IsSlice.cursor_le {α : Type} {items part : List α} {start stop : Option Int64}
    (hSlice : IsSlice items part (sliceStart items.length step start)
      (sliceStop items.length step stop) step) (hNonzero : step ≠ 0) (hShort : step ≤ 1) :
    sliceStart items.length step start + part.length * step ≤ items.length := by
  cases hCount : part.length with
  | zero =>
      by_cases hUp : 0 < step
      · have hBounds := @slice_bounds_forwards items.length step hUp start stop
        omega
      · have hBounds := @slice_bounds_backwards items.length step (by omega) start stop
        omega
  | succ count =>
      have hLast := hSlice.inside count (by omega)
      have hNext : sliceStart items.length step start + ((count + 1 : Nat) : Int) * step =
          sliceStart items.length step start + count * step + step := by
        rw [Nat.cast_succ, Int.add_mul, Int.one_mul, Int.add_assoc]
      omega

/-- No place that a slice comes to needs more than 64 bits, the one it stops at included, where the
length and a step together need no more. -/
theorem slicePlaces_fit (hNonzero : step ≠ 0) (hFits : length + step.natAbs < int64Bound)
    {start stop : Option Int64} {i : Nat}
    (h : ∀ j < i, Precedes step (sliceStop length step stop)
      (sliceStart length step start + j * step)) :
    FitsInt64 (sliceStart length step start + i * step) := by
  cases i with
  | zero =>
      rw [FitsInt64]
      by_cases hUp : 0 < step
      · have hBounds := @slice_bounds_forwards length step hUp start stop
        omega
      · have hDown : step < 0 := by omega
        have hBounds := @slice_bounds_backwards length step hDown start stop
        omega
  | succ i =>
      have hLast := slice_inside hNonzero (h i (Nat.lt_succ_self i))
      have hNext : sliceStart length step start + ((i + 1 : Nat) : Int) * step =
          sliceStart length step start + i * step + step := by
        rw [Nat.cast_succ, Int.add_mul, Int.one_mul, Int.add_assoc]
      rw [hNext, FitsInt64]
      omega

end Places

section Positions

variable {i : Int64} {length : Nat}

theorem placeOf?_eq (i : Int64) (length : Nat) : placeOf? i length =
    if 0 ≤ fromStart length i.toInt ∧ fromStart length i.toInt < length then
      some (fromStart length i.toInt).toNat else none := by
  have hNegative : i < 0 ↔ i.toInt < 0 := Int64.lt_iff_toInt_lt
  by_cases hi : i.toInt < 0
  · simp only [placeOf?, fromStart, if_pos hi, if_pos (hNegative.2 hi)]
  · simp only [placeOf?, fromStart, if_neg hi, if_neg (mt hNegative.1 hi)]

theorem placeOf?_of_place {place : Nat} (hPlace : place < length)
    (hi : i.toInt = place ∨ i.toInt = place - length) : placeOf? i length = some place := by
  have hStart : fromStart length i.toInt = place := by
    unfold fromStart
    omega
  rw [placeOf?_eq, hStart, if_pos (by omega), Int.toNat_natCast]

theorem placeOf?_outside (hi : i.toInt < -length ∨ length ≤ i.toInt) :
    placeOf? i length = none := by
  rw [placeOf?_eq, if_neg]
  unfold fromStart
  omega

end Positions

/-! ## Slices of values -/

/-- The argument is absent or none, or it is this number. -/
inductive IsBound : Option Value → Option Int64 → Prop
  | absent : IsBound none none
  | empty : IsBound (some .none) none
  | number {value : Value} {i : Int64} (h : value.asInt? = some i) : IsBound (some value) (some i)

theorem IsBound.int (i : Int64) : IsBound (some (.int i)) (some i) := .number rfl

theorem IsBound.sliceBound_eq {argument : Option Value} {bound : Option Int64}
    (h : IsBound argument bound) : sliceBound argument = .ok bound := by
  cases h with
  | absent => rfl
  | empty => rfl
  | number h =>
      rename_i value i
      have hSome : sliceBound (some value) = some <$> value.wantInt "slice indices" := by
        cases value <;> first | rfl | cases h
      rw [hSome, wantInt_of_asInt? h]
      rfl

namespace Value

/-- The items of a sequence: those of a list, and the characters of a string. -/
def sequence? : Value → Option (List Value)
  | list items _ => some items.toList
  | string text _ => some (text.toList.map ofChar)
  | _ => Option.none

/-- The value is a sequence of the same type as the other one, and has these items. -/
structure IsPart (part whole : Value) (items : List Value) : Prop where
  typeName : part.typeName = whole.typeName
  items : part.sequence? = some items

theorem ofChar_injective : Function.Injective ofChar := by
  intro c d h
  simpa [ofChar, ofString] using h

/-- Two sequences of one type put together have the items of both. -/
theorem add_isPart {left right whole : Value} {front back : List Value}
    (hLeft : left.IsPart whole front) (hRight : right.IsPart whole back) :
    ∃ joined, BinaryOp.add.apply left right = .ok joined ∧ joined.IsPart whole (front ++ back) := by
  obtain ⟨hType, hFront⟩ := hLeft
  obtain ⟨hType', hBack⟩ := hRight
  have hTypes := hType.trans hType'.symm
  cases left with
  | list l _ =>
      cases right with
      | list r _ =>
          obtain rfl := Option.some.inj hFront
          obtain rfl := Option.some.inj hBack
          exact ⟨.ofArray (l ++ r), rfl, hType, congrArg some Array.toList_append⟩
      | string _ _ => simp [typeName] at hTypes
      | _ => cases hBack
  | string l _ =>
      cases right with
      | string r _ =>
          obtain rfl := Option.some.inj hFront
          obtain rfl := Option.some.inj hBack
          refine ⟨.ofString (l ++ r), rfl, hType, congrArg some ?_⟩
          rw [String.toList_append, List.map_append]
      | list _ _ => simp [typeName] at hTypes
      | _ => cases hBack
  | _ => cases hFront

theorem equalItems_self {items : List Value} (h : ∀ item ∈ items, item.equals item = true) :
    equalItems items items = true := by
  induction items with
  | nil => rfl
  | cons item rest ih =>
      rw [equalItems, h item (List.mem_cons_self ..),
        ih fun other hOther => h other (List.mem_cons_of_mem _ hOther)]
      rfl

/-- A sequence equals another one of its type with the same items when these are equal to
themselves. -/
theorem IsPart.equals {part whole : Value} {items : List Value} (h : part.IsPart whole items)
    (hWhole : whole.sequence? = some items) (hSelf : ∀ item ∈ items, item.equals item = true) :
    part.equals whole = true := by
  obtain ⟨hType, hItems⟩ := h
  cases part with
  | list found _ =>
      cases whole with
      | list kept _ =>
          obtain rfl := Option.some.inj hItems
          have hSame : found = kept := Array.toList_inj.1 (Option.some.inj hWhole).symm
          rw [← hSame, equals_list]
          exact equalItems_self hSelf
      | string _ _ => simp [Value.typeName] at hType
      | _ => cases hWhole
  | string found _ =>
      cases whole with
      | string kept _ =>
          obtain rfl := Option.some.inj hItems
          have hSame : kept.toList = found.toList :=
            ofChar_injective.list_map (Option.some.inj hWhole)
          rw [equals_string, String.toList_inj.1 hSame]
          exact beq_self_eq_true found
      | list _ _ => simp [Value.typeName] at hType
      | _ => cases hWhole
  | _ => cases hItems

section Sequences

variable {value : Value} {items : List Value} (h : value.sequence? = some items)

include h

/-- A slice takes the items at the places before its stop, and no others, unless its last step leads
too far. -/
theorem slice_isSlice {start stop step : Option Value} {first last stride : Option Int64}
    (hStart : IsBound start first) (hStop : IsBound stop last) (hStep : IsBound step stride)
    (hNonzero : sliceStep stride ≠ 0) :
    ∃ part found, part.IsPart value found ∧
      IsSlice items found (sliceStart items.length (sliceStep stride) first)
        (sliceStop items.length (sliceStep stride) last) (sliceStep stride) ∧
      value.slice start stop step =
        if (sliceStart items.length (sliceStep stride) first + found.length * sliceStep stride ≤
            items.length ∨
          sliceStart items.length (sliceStep stride) first + found.length * sliceStep stride <
            int64Bound)
        then .ok part else .error (.broken .cursor) := by
  unfold slice
  rw [hStart.sliceBound_eq, hStop.sliceBound_eq, hStep.sliceBound_eq]
  cases value with
  | list whole mark =>
      obtain rfl := Option.some.inj h
      obtain ⟨hSlice, hLength⟩ := @isSlice_pick_slicePath _ whole first last stride hNonzero
      refine ⟨.ofArray ((slicePath whole.size first last stride).pick whole), _, ⟨rfl, rfl⟩, hSlice,
        ?_⟩
      rw [hLength]
      simp only [bind_ok, slicePlaces_eq hNonzero]
      show _ = if _ ≤ (whole.size : Int) ∨ _ then _ else _
      split <;> rename_i hEnd
      · exact (if_pos hEnd).symm
      · exact (if_neg hEnd).symm
  | string text mark =>
      obtain rfl := Option.some.inj h
      obtain ⟨hSlice, hLength⟩ :=
        @isSlice_pick_slicePath _ text.toList.toArray first last stride hNonzero
      have hSize : text.toList.toArray.size = (text.toList.map ofChar).length := by simp
      rw [← hSize]
      refine ⟨.ofChars ((slicePath text.toList.toArray.size first last stride).pick
        text.toList.toArray).toList, _, ⟨rfl, ?_⟩, hSlice.map ofChar, ?_⟩
      · exact congrArg (some <| ·.map ofChar) String.toList_ofList
      · rw [List.length_map, hLength]
        simp only [bind_ok, slicePlaces_eq hNonzero]
        show _ = if _ ≤ (text.toList.toArray.size : Int) ∨ _ then _ else _
        split <;> rename_i hEnd
        · exact (if_pos hEnd).symm
        · exact (if_neg hEnd).symm
  | _ => cases h

/-- A slice by steps of one, or backwards, takes its items. -/
theorem slice_of_step_le_one {start stop step : Option Value} {first last stride : Option Int64}
    (hStart : IsBound start first) (hStop : IsBound stop last) (hStep : IsBound step stride)
    (hNonzero : sliceStep stride ≠ 0) (hShort : sliceStep stride ≤ 1) :
    ∃ part found, value.slice start stop step = .ok part ∧ part.IsPart value found ∧
      IsSlice items found (sliceStart items.length (sliceStep stride) first)
        (sliceStop items.length (sliceStep stride) last) (sliceStep stride) := by
  obtain ⟨part, found, hPart, hSlice, hSame⟩ := slice_isSlice h hStart hStop hStep hNonzero
  refine ⟨part, found, ?_, hPart, hSlice⟩
  rw [hSame, if_pos (.inl (hSlice.cursor_le hNonzero hShort))]

/-- A slice of neighbours holds a piece of the sequence. -/
theorem slice_eq_drop_take {start stop : Option Value} {first last : Option Int64}
    (hStart : IsBound start first) (hStop : IsBound stop last) {low high : Nat}
    (hLow : sliceStart items.length 1 first = low) (hHigh : sliceStop items.length 1 last = high) :
    ∃ part, value.slice start stop Option.none = .ok part ∧
      part.IsPart value ((items.take high).drop low) := by
  obtain ⟨part, found, hPart, hFound, hSlice⟩ :=
    slice_of_step_le_one h hStart hStop .absent (by decide) (by decide)
  have hBounds := @slice_bounds_forwards items.length 1 (by decide) first last
  have hSlice : IsSlice items found low high 1 := hLow ▸ hHigh ▸ hSlice
  rw [hSlice.eq_drop_take (by omega)] at hFound
  exact ⟨part, hPart, hFound⟩

/-- The two parts that a place cuts a sequence into are the whole together. -/
theorem slices_join (k : Int64) : ∃ front back joined,
    value.slice Option.none (some (.int k)) Option.none = .ok front ∧
    value.slice (some (.int k)) Option.none Option.none = .ok back ∧
    BinaryOp.add.apply front back = .ok joined ∧ joined.IsPart value items := by
  have hBounds := @slice_bounds_forwards items.length 1 (by decide) (some k) (some k)
  obtain ⟨cut, hCut⟩ := Int.eq_ofNat_of_zero_le hBounds.1
  have hZero : sliceStart items.length 1 Option.none = (0 : Nat) := rfl
  have hEnd : sliceStop items.length 1 Option.none = items.length := rfl
  obtain ⟨front, hFront, hFirst⟩ := slice_eq_drop_take h .absent (.int k) hZero hCut
  obtain ⟨back, hBack, hSecond⟩ := slice_eq_drop_take h (.int k) .absent hCut hEnd
  rw [List.drop_zero] at hFirst
  rw [List.take_length] at hSecond
  obtain ⟨joined, hJoined, hItems⟩ := add_isPart hFirst hSecond
  rw [List.take_append_drop] at hItems
  exact ⟨front, back, joined, hFront, hBack, hJoined, hItems⟩

theorem slice_reverse : ∃ reversed,
    value.slice Option.none Option.none (some (.int (-1))) = .ok reversed ∧
      reversed.IsPart value items.reverse := by
  obtain ⟨part, found, hPart, hFound, hSlice⟩ :=
    slice_of_step_le_one h .absent .absent (.int (-1)) (by decide) (by decide)
  have hSlice : IsSlice items found (items.length - 1) (-1) (-1) := hSlice
  rw [hSlice.eq_reverse] at hFound
  exact ⟨part, hPart, hFound⟩

/-- A slice from a place to the next one holds the item at the place. -/
theorem slice_single {place : Nat} {item : Value} (hItem : items[place]? = some item)
    {i j : Int64} (hi : i.toInt = place) (hj : j.toInt = place + 1) : ∃ part,
      value.slice (some (.int i)) (some (.int j)) Option.none = .ok part ∧
        part.IsPart value [item] := by
  obtain ⟨hPlace, rfl⟩ := List.getElem?_eq_some_iff.1 hItem
  have hLow : sliceStart items.length 1 (some i) = place := by
    simp only [sliceStart, nearestPlace, fromStart]
    omega
  have hHigh : sliceStop items.length 1 (some j) = (place + 1 : Nat) := by
    simp only [sliceStop, nearestPlace, fromStart]
    omega
  obtain ⟨part, hPart, hFound⟩ := slice_eq_drop_take h (.int i) (.int j) hLow hHigh
  have hOne : (items.take (place + 1)).drop place = [items[place]] := by
    rw [List.take_add_one, hItem, List.drop_append_of_le_length (by simp; omega)]
    simp
  rw [hOne] at hFound
  exact ⟨part, hPart, hFound⟩

/-- The item that a number leads to. -/
theorem index_eq (i : Int64) : ∃ what, value.index (.int i) =
    match (placeOf? i items.length).bind (items[·]?) with
    | some item => .ok item
    | Option.none => .error (.indexOutOfRange what) := by
  cases value with
  | list whole mark =>
      obtain rfl := Option.some.inj h
      have hSame : (placeOf? i whole.toList.length).bind (whole.toList[·]?) =
          (placeOf? i whole.size).bind (whole[·]?) := by
        simp only [Array.length_toList, Array.getElem?_toList]
      rw [hSame]
      exact ⟨"list", rfl⟩
  | string text mark =>
      obtain rfl := Option.some.inj h
      refine ⟨"string", ?_⟩
      simp only [index, wantInt, asInt?, bind_ok, List.length_map, String.length_toList,
        List.getElem?_map]
      cases placeOf? i text.length with
      | none => rfl
      | some place =>
          simp only [Option.bind_some, charAt?_eq]
          cases text.toList[place]? <;> rfl
  | _ => cases h

/-- The item at a place has two numbers: one counts from the start, the other one from the end. -/
theorem index_of_place {place : Nat} {item : Value} (hItem : items[place]? = some item) {i : Int64}
    (hi : i.toInt = place ∨ i.toInt = place - items.length) :
    value.index (.int i) = .ok item := by
  have hPlace := placeOf?_of_place (List.getElem?_eq_some_iff.1 hItem).1 hi
  obtain ⟨what, hIndex⟩ := index_eq h i
  rw [hIndex, hPlace, Option.bind_some, hItem]

theorem index_outside {i : Int64} (hi : i.toInt < -items.length ∨ items.length ≤ i.toInt) :
    ∃ what, value.index (.int i) = .error (.indexOutOfRange what) := by
  obtain ⟨what, hIndex⟩ := index_eq h i
  rw [placeOf?_outside hi] at hIndex
  exact ⟨what, hIndex⟩

end Sequences

end Value

/-- Slices and positions of lists and strings. A slice holds the items at the places from its start
on, by its step, before its stop; each of them is the place of an item. When the length and the step
together need no more than 64 bits, no place that it comes to does; else its last step may lead too
far, and it breaks off. The two parts that a place cuts a sequence into are the whole, put together;
they equal it if its items equal themselves. The step -1 reverses a sequence, and between
neighbouring places there is the item that is there, which can be counted from both ends. All other
numbers are out of range. -/
theorem slices_select_items {value : Value} {items : List Value}
    (h : value.sequence? = some items) :
    (∀ {start stop step : Option Value} {first last stride : Option Int64},
      IsBound start first → IsBound stop last → IsBound step stride → sliceStep stride ≠ 0 →
      let place := fun i : Nat =>
        sliceStart items.length (sliceStep stride) first + i * sliceStep stride
      ∃ part found, part.IsPart value found ∧
        IsSlice items found (sliceStart items.length (sliceStep stride) first)
          (sliceStop items.length (sliceStep stride) last) (sliceStep stride) ∧
        (items.length + (sliceStep stride).natAbs < int64Bound →
          value.slice start stop step = .ok part ∧ ∀ i ≤ found.length, FitsInt64 (place i)) ∧
        value.slice start stop step =
          if (place found.length ≤ items.length ∨ place found.length < int64Bound)
          then .ok part else .error (.broken .cursor)) ∧
    (∀ k : Int64, ∃ front back joined,
      value.slice none (some (.int k)) none = .ok front ∧
      value.slice (some (.int k)) none none = .ok back ∧
      BinaryOp.add.apply front back = .ok joined ∧ joined.IsPart value items ∧
      ((∀ item ∈ items, item.equals item = true) →
        CompareOp.equal.apply joined value = .ok true)) ∧
    (∃ reversed, value.slice none none (some (.int (-1))) = .ok reversed ∧
      reversed.IsPart value items.reverse) ∧
    (∀ (place : Nat) (item : Value), items[place]? = some item →
      (∀ i : Int64, i.toInt = place ∨ i.toInt = place - items.length →
        value.index (.int i) = .ok item) ∧
      (∀ i j : Int64, i.toInt = place → j.toInt = place + 1 → ∃ part,
        value.slice (some (.int i)) (some (.int j)) none = .ok part ∧ part.IsPart value [item])) ∧
    (∀ i : Int64, i.toInt < -items.length ∨ items.length ≤ i.toInt →
      ∃ what, value.index (.int i) = .error (.indexOutOfRange what)) := by
  refine ⟨?_, ?_, Value.slice_reverse h, ?_, fun i hi => Value.index_outside h hi⟩
  · intro start stop step first last stride hStart hStop hStep hNonzero
    obtain ⟨part, found, hFound, hSlice, hSame⟩ :=
      Value.slice_isSlice h hStart hStop hStep hNonzero
    refine ⟨part, found, hFound, hSlice, fun hFits => ?_, hSame⟩
    have hPlaces : ∀ i ≤ found.length, FitsInt64
        (sliceStart items.length (sliceStep stride) first + i * sliceStep stride) :=
      fun i hi => slicePlaces_fit hNonzero hFits fun j hj =>
        (hSlice.length_iff j).1 (Nat.lt_of_lt_of_le hj hi)
    exact ⟨hSame.trans (if_pos (.inr (hPlaces _ (Nat.le_refl _)).2)), hPlaces⟩
  · intro k
    obtain ⟨front, back, joined, hFront, hBack, hJoined, hItems⟩ := Value.slices_join h k
    exact ⟨front, back, joined, hFront, hBack, hJoined, hItems, fun hSelf =>
      congrArg Except.ok (hItems.equals h hSelf)⟩
  · intro place item hItem
    exact ⟨fun i hi => Value.index_of_place h hItem hi,
      fun i j hi hj => Value.slice_single h hItem hi hj⟩

/-- Three letters of four bytes, counted from the end and read backwards. -/
theorem letters_of_short_string :
    (Value.ofString "añb").sequence? =
      some [.ofString "a", .ofString "ñ", .ofString "b"] ∧
    (Value.ofString "añb").index (.int (-2)) = .ok (.ofString "ñ") ∧
    ∃ reversed, (Value.ofString "añb").slice none none (some (.int (-1))) = .ok reversed ∧
      reversed.IsPart (.ofString "añb") [.ofString "b", .ofString "ñ", .ofString "a"] := by
  have hItems : (Value.ofString "añb").sequence? =
      some [.ofString "a", .ofString "ñ", .ofString "b"] := rfl
  obtain ⟨-, -, hReverse, hPlaces, -⟩ := slices_select_items hItems
  have hSecond := (hPlaces 1 (.ofString "ñ") rfl).1 (-2) (Or.inr (by decide))
  exact ⟨hItems, hSecond, hReverse⟩

/-- A list of what is no number does not equal itself, so neither do its parts put together. -/
theorem parts_of_undefined_number : ∃ front back joined,
    (Value.ofList [.float (0.0 / 0.0)]).slice none (some (.int 1)) none = .ok front ∧
    (Value.ofList [.float (0.0 / 0.0)]).slice (some (.int 1)) none none = .ok back ∧
    BinaryOp.add.apply front back = .ok joined ∧
    CompareOp.equal.apply joined (.ofList [.float (0.0 / 0.0)]) = .ok false :=
  ⟨_, _, _, rfl, rfl, rfl, by decide⟩

end Stencil
