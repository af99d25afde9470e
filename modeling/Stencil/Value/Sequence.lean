import Stencil.Number.Integer
import Stencil.Text.Search
import Stencil.Value.Compare

/-!
# Items, lengths and slices

What a value holds. Strings hold their characters, lists their items, dictionaries and renderings
their keys. A position counts from the start, a negative one from the end. A slice takes every
`step`-th item from a start up to a stop; both are first brought into range. Its cursor has 64 bits
and goes one step beyond the last place, so a step that is very long breaks the run off.

## Main results

* `length_of_items`: the length of a value is the number of its items.
* `toList_pick`: a slice holds the items at its places.
-/

namespace Stencil

open Stencil.Text

namespace Value

/-- A string of one character. -/
def ofChar (c : Char) : Value := .ofString (String.singleton c)

/-- The items of a value. -/
def items : Value → Except Fault (List Value)
  | string text _ => .ok (text.toList.map ofChar)
  | list items _ => .ok items.toList
  | dict entries _ => .ok (entries.map fun entry => ofString entry.1)
  | rendering content _ => .ok (content.keys.map ofString)
  | value => .error (.notIterable value.typeName)

/-- The number of a value's items. -/
def length : Value → Except Fault Nat
  | string text _ => .ok text.length
  | list items _ => .ok items.size
  | dict entries _ => .ok entries.length
  | rendering content _ => .ok content.keys.length
  | value => .error (.type (.noLength value.typeName))

theorem length_of_items {value : Value} {found : List Value} (h : value.items = .ok found) :
    value.length = .ok found.length := by
  cases value <;> simp [items] at h <;> subst h <;> simp [length, String.length_toList]

/-- Is `item` in a value? -/
def contains (container item : Value) : Except Fault Bool :=
  match container with
  | string text _ =>
      match item with
      | string sought _ => .ok (occurs sought.toList text.toList)
      | other => .error (.type (.soughtInString other.typeName))
  | list items _ => .ok (items.any fun x => x.equals item)
  | dict entries _ => .ok (Entries.has item.text entries)
  | rendering content _ => .ok (content.keys.contains item.text)
  | other =>
      if other.isObject then .error (.notIterable other.typeName)
      else .error (.type (.noContainer other.typeName))

end Value

/-! ## Positions -/

/-- The position among `length` items that a number names. -/
def placeOf? (index : Int64) (length : Nat) : Option Nat :=
  let index := if index < 0 then index.toInt + length else index.toInt
  if 0 ≤ index ∧ index < length then some index.toNat else none

namespace Value

/-- The item of a value under a key, for values that are no objects. -/
def index (value key : Value) : Except Fault Value :=
  match value with
  | list items _ => do
      let place ← key.wantInt "list indices"
      match (placeOf? place items.size).bind (items[·]?) with
      | some item => .ok item
      | Option.none => .error (.indexOutOfRange "list")
  | string text _ => do
      let place ← key.wantInt "string indices"
      match (placeOf? place text.length).bind (charAt? text) with
      | some c => .ok (ofChar c)
      | Option.none => .error (.indexOutOfRange "string")
  | dict entries _ =>
      match Entries.find? key.text entries with
      | some item => .ok item
      | Option.none => .error (.keyNotFound key.code)
  | rendering content _ =>
      match content.get? key.text with
      | some item => .ok item
      | Option.none => .error (.keyNotFound key.code)
  | other => .error (.notSubscriptable other.typeName)

end Value

/-! ## Slices -/

/-- A bound of a slice, counted from the start and brought between `low` and `high`. -/
def clampBound (length : Nat) (low high bound : Int) : Int :=
  max low (min high (if bound < 0 then bound + length else bound))

/-- Places that are the same distance apart. A place before the first item stands for that item. -/
structure Progression where
  start : Int
  step : Int
  count : Nat
  deriving DecidableEq, Repr

namespace Progression

/-- The numbers from `start` on by steps of `step`, up to but not with `stop`. -/
def upTo (start stop step : Int) : Progression :=
  let count :=
    if 0 < step then (if start < stop then ((stop - start - 1) / step).toNat + 1 else 0)
    else (if stop < start then ((start - stop - 1) / -step).toNat + 1 else 0)
  { start, step, count }

/-- Where a cursor that has gone through all the numbers is in the end. -/
def cursor (p : Progression) : Int := p.start + p.count * p.step

/-- The places in order. -/
def places (p : Progression) : List Nat :=
  (List.range p.count).map fun (i : Nat) => (p.start + i * p.step).toNat

/-- The items at the places. Neighbours are taken in one piece. -/
def pick {α : Type} (p : Progression) (items : Array α) : Array α :=
  if p.step = 1 ∧ 0 ≤ p.start then items.extract p.start.toNat (p.start.toNat + p.count)
  else (p.places.filterMap (items[·]?)).toArray

/-- Counting the places from the start gives the first items. -/
theorem filterMap_range_getElem? {α : Type} (items : List α) (count : Nat) :
    (List.range count).filterMap (items[·]?) = items.take count := by
  induction count with
  | zero => simp
  | succ count ih =>
      rw [List.range_succ, List.filterMap_append, ih, List.take_add_one]
      exact congrArg _ (by cases h : items[count]? <;> simp [h])

/-- What is taken are the items at the places that there are, in the order of the places. -/
theorem toList_pick {α : Type} (p : Progression) (items : Array α) :
    (p.pick items).toList = p.places.filterMap (items[·]?) := by
  unfold pick
  split
  · rename_i h
    obtain ⟨start, hStart⟩ := Int.eq_ofNat_of_zero_le h.2
    have hPlaces : p.places = (List.range p.count).map (start + ·) := by
      refine List.map_congr_left fun i _ => ?_
      rw [hStart, h.1]
      omega
    have hItem (i : Nat) : items[start + i]? = (items.toList.drop start)[i]? := by
      rw [List.getElem?_drop, Array.getElem?_toList]
    rw [hPlaces, List.filterMap_map]
    simp only [Function.comp_def, hItem, filterMap_range_getElem?]
    rw [Array.toList_extract, hStart, Int.toNat_natCast, List.extract_eq_take_drop]
    simp
  · rfl

end Progression

/-- The places that a slice takes from `length` items. The cursor goes on from the last place by one
more step, and a length has 64 bits as the cursor has. -/
def slicePlaces (length : Nat) (start stop step : Option Int64) : Except Fault Progression :=
  let step := (step.map Int64.toInt).getD 1
  if step = 0 then .error (.value .zeroStep)
  else
    let (low, high) : Int × Int := if 0 < step then (0, length) else (-1, length - 1)
    let (first, last) : Int × Int := if 0 < step then (low, high) else (high, low)
    let start := (start.map fun s => clampBound length low high s.toInt).getD first
    let stop := (stop.map fun s => clampBound length low high s.toInt).getD last
    let places := Progression.upTo start stop step
    if places.cursor ≤ length ∨ places.cursor < Number.int64Bound then .ok places
    else .error (.broken .cursor)

/-- A bound of a slice; it may be absent. -/
def sliceBound : Option Value → Except Fault (Option Int64)
  | none => .ok none
  | some .none => .ok none
  | some value => some <$> value.wantInt "slice indices"

/-- A slice of a value. -/
def Value.slice (value : Value) (start stop step : Option Value) : Except Fault Value := do
  let start ← sliceBound start
  let stop ← sliceBound stop
  let step ← sliceBound step
  match value with
  | .list items _ => do
      let places ← slicePlaces items.size start stop step
      return .ofArray (places.pick items)
  | .string text _ => do
      let chars := text.toList.toArray
      let places ← slicePlaces chars.size start stop step
      return .ofChars (places.pick chars).toList
  | other => .error (.notSubscriptable other.typeName)

end Stencil
