import Stencil.Proofs.Slicing

/-!
# Views of containers

A value that holds items can be looked at from several sides: how many items there are, which ones
come one after another, what is found at a position or under a key, and whether something is in it.
A dictionary also gives lists of its keys, its values and its entries. Each side is told apart for
each type of value; all of them tell of the same items.

Dictionaries and renderings are taken as they come about: a dictionary by setting one entry after
another, a rendering by any requests after its start. That no key occurs twice follows from that.

## Main results

* `Entries.nodup_keys_ofPairs`, `Rendering.nodup_keys_after`: no key occurs twice.
* `IsKeyed.views`: membership, look-up and the keys of a dictionary or a rendering agree.
* `compute_dict_items`, `compute_dict_zip`: a dictionary is made again of its entries, and of its
  keys and values.
* `container_views_agree`: all of this, with the length and the positions of sequences.
-/

namespace Stencil

/-! ## Keys -/

namespace Entries

variable {α : Type} {entries : Entries α}

theorem nodup_keys_insert (h : (keys entries).Nodup) (name : String) (value : α) :
    (keys (entries.insert name value)).Nodup := by
  rw [keys_insert]
  split
  · exact h
  · rename_i hNew
    rw [← List.concat_eq_append]
    exact (List.nodup_concat _ _).2 ⟨hNew, h⟩

theorem nodup_keys_insertAll (h : (keys entries).Nodup) (more : List (String × α)) :
    (keys (insertAll entries more)).Nodup := by
  induction more generalizing entries with
  | nil => exact h
  | cons entry rest ih => exact ih (nodup_keys_insert h entry.1 entry.2)

/-- However often a name is set, it occurs once. -/
theorem nodup_keys_ofPairs (pairs : List (String × α)) : (keys (ofPairs pairs)).Nodup := by
  rw [ofPairs_eq]
  have hNone : (keys ([] : List (String × α))).Nodup := List.nodup_nil
  exact nodup_keys_insertAll hNone pairs

/-- Setting the entries again, in their order, gives the entries. -/
theorem ofPairs_of_nodup (h : (keys entries).Nodup) : ofPairs entries = entries := by
  rw [ofPairs_eq]
  exact insertAll_of_nodup h

end Entries

namespace Rendering

/-- The rendering after requests, one after another. -/
def after (r : Rendering Value) : List RecordRequest → Rendering Value
  | [] => r
  | request :: rest => (r.answer request).2.after rest

/-- However often a name is set, it occurs once. -/
theorem nodup_keys_after {r : Rendering Value} (h : r.keys.Nodup)
    (requests : List RecordRequest) : (r.after requests).keys.Nodup := by
  induction requests generalizing r with
  | nil => exact h
  | cons request rest ih => exact ih (nodup_keys_answer h request)

/-- There is a value under the names, the text among them, and under no other. -/
theorem get?_eq_none_iff (r : Rendering Value) (name : String) :
    r.get? name = none ↔ name ∉ r.keys := by
  unfold get? keys
  by_cases hName : name = bodyName
  · simp [hName]
  · rw [if_neg hName, find?, Entries.find?_eq_none_iff, List.mem_cons, not_or,
      and_iff_right hName]

end Rendering

/-! ## What holds items -/

/-- A dictionary or a rendering as they come about, with its keys. -/
inductive IsKeyed : Value → List String → Prop
  | dict (pairs : List (String × Value)) (mark : Mark) :
      IsKeyed (.dict (Entries.ofPairs pairs) mark) (Entries.keys (Entries.ofPairs pairs))
  | rendering (text : Option String) (requests : List RecordRequest) (mark : Mark) :
      IsKeyed (.rendering ((Rendering.start text).after requests) mark)
        ((Rendering.start text).after requests).keys

/-- The value holds these items, one after another. -/
structure HoldsItems (value : Value) (items : List Value) : Prop where
  items_eq : value.items = .ok items
  length_eq : value.length = .ok items.length
  len_eq : Builtin.compute "len" (.ofList [value]) = .ok (.ofNat items.length)

theorem holdsItems_of_items {value : Value} {items : List Value} (h : value.items = .ok items) :
    HoldsItems value items where
  items_eq := h
  length_eq := Value.length_of_items h
  len_eq := by
    show (value.length >>= fun n => Except.ok (Value.ofNat n)) = _
    rw [Value.length_of_items h, bind_ok]

/-- An integer leads to the item at its place in a sequence, where negative ones count from the end,
and to a fault where there is no such place. -/
structure LeadsToItem (value : Value) (items : List Value) (i : Int64) : Prop where
  inside : -items.length ≤ i.toInt → i.toInt < items.length →
    ∃ item, items[(fromStart items.length i.toInt).toNat]? = some item ∧
      value.index (.int i) = .ok item
  outside : i.toInt < -items.length ∨ items.length ≤ i.toInt →
    ∃ what, value.index (.int i) = .error (.indexOutOfRange what)

theorem Value.items_of_sequence {value : Value} {items : List Value}
    (h : value.sequence? = some items) : value.items = .ok items := by
  cases value with
  | list whole mark => exact congrArg Except.ok (Option.some.inj h)
  | string text mark => exact congrArg Except.ok (Option.some.inj h)
  | _ => cases h

theorem leadsToItem {value : Value} {items : List Value} (h : value.sequence? = some items)
    (i : Int64) : LeadsToItem value items i where
  inside := by
    intro hLow hHigh
    obtain ⟨place, hPlace⟩ : ∃ place : Nat, fromStart items.length i.toInt = place :=
      Int.eq_ofNat_of_zero_le (by unfold fromStart; omega)
    have hStart : i.toInt = place ∨ i.toInt = place - items.length := by
      unfold fromStart at hPlace
      omega
    have hPlaceLt : place < items.length := by
      unfold fromStart at hPlace
      omega
    have hItem : items[place]? = some items[place] := List.getElem?_eq_getElem hPlaceLt
    refine ⟨_, ?_, Value.index_of_place h hItem hStart⟩
    rw [hPlace, Int.toNat_natCast, hItem]
  outside := Value.index_outside h

/-- Whether a key is in the value, and whether something is found under it, is told by the keys,
each of which occurs once. -/
structure KeysAgree (value : Value) (keys : List String) : Prop where
  nodup : keys.Nodup
  isIn_eq : ∀ key, CompareOp.isIn.apply key value = .ok (decide (key.text ∈ keys))
  found : ∀ key, key.text ∈ keys → ∃ item, value.index key = .ok item
  missing : ∀ key, key.text ∉ keys → value.index key = .error (.keyNotFound key.code)

/-- One look-up behind it all is enough for the keys to agree. -/
theorem keysAgree_of_find {value : Value} {keys : List String} (find : String → Option Value)
    (hNames : keys.Nodup) (hNone : ∀ name, find name = none ↔ name ∉ keys)
    (hIn : ∀ key, value.contains key = .ok (find key.text).isSome)
    (hIndex : ∀ key, value.index key =
      (find key.text).elim (.error (.keyNotFound key.code)) .ok) : KeysAgree value keys where
  nodup := hNames
  isIn_eq key := by
    show value.contains key = _
    rw [hIn, Except.ok.injEq, Bool.eq_iff_iff, decide_eq_true_iff, ← not_iff_not, ← hNone]
    simp
  found key hKey := by
    obtain ⟨item, hItem⟩ := Option.ne_none_iff_exists'.1 (mt (hNone _).1 (not_not.2 hKey))
    exact ⟨item, by rw [hIndex, hItem, Option.elim_some]⟩
  missing key hKey := by
    rw [hIndex, (hNone _).2 hKey, Option.elim_none]

section Keyed

variable {value : Value} {keys : List String}

theorem IsKeyed.items_eq (h : IsKeyed value keys) : value.items = .ok (keys.map .ofString) := by
  cases h with
  | dict pairs mark =>
      show Except.ok (List.map _ _) = Except.ok (List.map _ (List.map _ _))
      rw [List.map_map]
      rfl
  | rendering text requests mark => rfl

theorem IsKeyed.keysAgree (h : IsKeyed value keys) : KeysAgree value keys := by
  cases h with
  | dict pairs mark =>
      refine keysAgree_of_find (Entries.find? · (Entries.ofPairs pairs))
        (Entries.nodup_keys_ofPairs pairs) (fun _ => Entries.find?_eq_none_iff) (fun _ => rfl) ?_
      intro key
      rw [Value.index]
      cases Entries.find? key.text (Entries.ofPairs pairs) <;> rfl
  | rendering text requests mark =>
      have hNone := Rendering.get?_eq_none_iff ((Rendering.start text).after requests)
      refine keysAgree_of_find ((Rendering.start text).after requests).get?
        (Rendering.nodup_keys_after (Rendering.nodup_keys_start text) requests) hNone ?_ ?_
      · intro key
        refine congrArg Except.ok ?_
        rw [Bool.eq_iff_iff, List.contains_iff_mem, Option.isSome_iff_ne_none, ne_eq, hNone,
          not_not]
      · intro key
        rw [Value.index]
        cases ((Rendering.start text).after requests).get? key.text <;> rfl

end Keyed

/-! ## Dictionaries that are made again -/

/-- The name and the value of an entry in a list. -/
def Value.ofEntry (entry : String × Value) : Value := .ofList [.ofString entry.1, entry.2]

/-- A dictionary of these entries, in this order, is made of the entries that a value lists, and of
its keys with its values. -/
structure IsMadeAgain (value : Value) (entries : Entries Value) : Prop where
  ofItems : ∃ pairs, callMethod value "items" (.ofList []) = .ok pairs ∧
    Builtin.compute "dict" (.ofList [pairs]) = .ok (.ofEntries entries)
  ofColumns : ∃ names values pairs, callMethod value "keys" (.ofList []) = .ok names ∧
    callMethod value "values" (.ofList []) = .ok values ∧
    Builtin.compute "zip" (.ofList [names, values]) = .ok pairs ∧
    Builtin.compute "dict" (.ofList [pairs]) = .ok (.ofEntries entries)

section Dictionaries

variable {entries : Entries Value}

theorem entriesOf_map_ofEntry (done : List (String × Value)) (entries : Entries Value) :
    Builtin.entriesOf done (entries.map .ofEntry) =
      .ok (Entries.ofPairs (done.reverse ++ entries)) := by
  induction entries generalizing done with
  | nil => simp [Builtin.entriesOf]
  | cons entry rest ih =>
      show Builtin.entriesOf (entry :: done) (rest.map .ofEntry) = _
      rw [ih]
      simp

theorem compute_dict (h : (Entries.keys entries).Nodup) :
    Builtin.compute "dict" (.ofList [.ofList (entries.map .ofEntry)]) =
      .ok (.ofEntries entries) := by
  show (Builtin.entriesOf [] (entries.map .ofEntry).toArray.toList >>= fun found =>
    Except.ok (Value.ofEntries found)) = _
  rw [List.toList_toArray, entriesOf_map_ofEntry, bind_ok, List.reverse_nil, List.nil_append,
    Entries.ofPairs_of_nodup h]

/-- Beside each other, the names and the values of entries are the entries. -/
theorem rows_columns (entries : Entries Value) :
    Builtin.rows [(entries.map fun entry => .ofString entry.1).toArray,
      (entries.map Prod.snd).toArray] = entries.map .ofEntry := by
  have hSize : ([(entries.map fun entry => Value.ofString entry.1).toArray,
      (entries.map Prod.snd).toArray].map Array.size).min? = some entries.length := by
    simp [List.min?]
  rw [Builtin.rows, hSize]
  apply List.ext_getElem?
  intro place
  by_cases hPlace : place < entries.length
  · simp [hPlace, Value.ofEntry]
  · simp [Nat.le_of_not_lt hPlace]

theorem isMadeAgain (h : (Entries.keys entries).Nodup) (mark : Mark) :
    IsMadeAgain (.dict entries mark) entries where
  ofItems := ⟨_, rfl, compute_dict h⟩
  ofColumns := by
    refine ⟨_, _, _, rfl, rfl, ?_, compute_dict h⟩
    rw [← rows_columns]
    rfl

/-- Entries equal themselves just when each of their values does. -/
theorem equalEntries_self (h : (Entries.keys entries).Nodup) :
    Value.equalEntries entries entries =
      decide (∀ entry ∈ entries, entry.2.equals entry.2 = true) := by
  rw [Bool.eq_iff_iff, decide_eq_true_iff, Value.equalEntries_eq_true]
  refine forall₂_congr fun entry hEntry => ?_
  rw [Entries.lookup_of_mem h hEntry]
  exact ⟨fun ⟨found, hFound, hEqual⟩ => Option.some.inj hFound ▸ hEqual,
    fun hSelf => ⟨entry.2, rfl, hSelf⟩⟩

end Dictionaries

/-- The length, the items, the positions and the keys of what holds items tell of the same ones. A
dictionary made of the entries of another one, or of its keys and values, has the same entries in
the same order, and equals it just when each of its values equals itself. -/
theorem container_views_agree :
    (∀ {value : Value} {items : List Value}, value.sequence? = some items →
      HoldsItems value items ∧ ∀ i, LeadsToItem value items i) ∧
    (∀ {value : Value} {keys : List String}, IsKeyed value keys →
      HoldsItems value (keys.map .ofString) ∧ KeysAgree value keys) ∧
    ∀ (pairs : List (String × Value)) (mark : Mark),
      IsMadeAgain (.dict (Entries.ofPairs pairs) mark) (Entries.ofPairs pairs) ∧
      CompareOp.equal.apply (.ofEntries (Entries.ofPairs pairs))
          (.dict (Entries.ofPairs pairs) mark) =
        .ok (decide (∀ entry ∈ Entries.ofPairs pairs, entry.2.equals entry.2 = true)) := by
  refine ⟨fun h => ⟨holdsItems_of_items (Value.items_of_sequence h), leadsToItem h⟩,
    fun h => ⟨holdsItems_of_items h.items_eq, h.keysAgree⟩, fun pairs mark => ?_⟩
  have hNames := Entries.nodup_keys_ofPairs pairs
  refine ⟨isMadeAgain hNames mark, ?_⟩
  show Except.ok ((Entries.ofPairs pairs).length == (Entries.ofPairs pairs).length &&
    Value.equalEntries _ _) = _
  rw [equalEntries_self hNames, beq_self_eq_true, Bool.true_and]

/-- Names that are set twice keep their first place, and a rendering always has its text. -/
theorem views_of_repeated_names :
    (Value.ofString "añ").sequence? = some [.ofChar 'a', .ofChar 'ñ'] ∧
    (Value.ofString "añ").index (.int (-1)) = .ok (.ofChar 'ñ') ∧
    (∃ page, IsKeyed page [bodyName, "title"] ∧ page.length = .ok 2 ∧
      CompareOp.isIn.apply (.ofString "body") page = .ok true ∧
      page.index (.int 1) = .error (.keyNotFound "1")) ∧
    IsMadeAgain (.dict (Entries.ofPairs [("b", .int 1), ("a", .none), ("b", .int 3)]) none)
      [("b", .int 3), ("a", .none)] ∧
    CompareOp.equal.apply (.ofEntries [("b", .int 3), ("a", .none)])
      (.dict [("b", .int 3), ("a", .none)] none) = .ok true := by
  obtain ⟨hSequences, hKeyed, hMade⟩ := container_views_agree
  have hPairs : Entries.ofPairs [("b", Value.int 1), ("a", .none), ("b", .int 3)] =
      [("b", .int 3), ("a", .none)] := by
    rw [Entries.ofPairs_eq]
    rfl
  have hPage : IsKeyed _ [bodyName, "title"] :=
    IsKeyed.rendering none [.insert "title" .none, .push "x", .insert "title" (.int 1)] none
  obtain ⟨hAgain, hEqual⟩ := hMade [("b", .int 1), ("a", .none), ("b", .int 3)] none
  obtain ⟨hHolds, hAgree⟩ := hKeyed hPage
  rw [hPairs] at hEqual
  refine ⟨rfl, ?_, ⟨_, hPage, hHolds.length_eq, ?_, ?_⟩, hPairs ▸ hAgain, hEqual.trans ?_⟩
  · obtain ⟨-, hIndices⟩ := @hSequences (.ofString "añ") _ rfl
    obtain ⟨item, hItem, hIndex⟩ := (hIndices (-1)).inside (by decide) (by decide)
    obtain rfl := Option.some.inj hItem
    exact hIndex
  · rw [hAgree.isIn_eq]
    rfl
  · exact hAgree.missing (.int 1) (by decide)
  · decide

/-- A dictionary with what is no number under a key does not equal the one made of its entries. -/
theorem entries_of_undefined_number : ∃ pairs made,
    callMethod (.ofEntries [("a", .float (0.0 / 0.0))]) "items" (.ofList []) = .ok pairs ∧
    Builtin.compute "dict" (.ofList [pairs]) = .ok made ∧
    CompareOp.equal.apply made (.ofEntries [("a", .float (0.0 / 0.0))]) = .ok false :=
  ⟨_, _, rfl, compute_dict (List.nodup_singleton "a"), by decide⟩

end Stencil
