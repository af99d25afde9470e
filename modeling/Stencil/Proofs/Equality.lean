import Stencil.Proofs.Binding

/-!
# Equality

Two values are equal when they have the same content: the same number, whatever its type; the same
text; the same items in the same order; or the same values under the same names, in any order. An
object is its own content. `Value.content` is this content, so equality is reflexive, symmetric and
transitive because equality of contents is.

This holds of regular values. A float may differ from itself, and it is compared with an integer
after rounding; an object without a mark is the same as no other. In a dictionary and among the
values of a rendering every name stands once.

## Main results

* `Value.IsRegular.equals_iff`: regular values are equal when they have the same content.
-/

namespace Stencil

/-- What there is in a value, without the way it is kept. -/
inductive Content where
  | none
  | number (n : Int)
  | float (x : Float)
  | text (text : String)
  | list (items : List Content)
  /-- The values under names, and the text of a rendering. -/
  | named (text : Option String) (values : String → Option Content)
  | object (mark : Mark)

namespace Value

/-! ## The content of a value -/

mutual

/-- The content of a value. -/
def content : Value → Content
  | none => .none
  | bool b => .number (if b then 1 else 0)
  | int i => .number i.toInt
  | float x => .float x
  | string text _ => .text text
  | list ⟨items⟩ _ => .list (contents items)
  | dict entries _ => .named .none (namedContents entries)
  | rendering ⟨body, pending, attributes⟩ _ =>
      .named (some (body.getD "" ++ pending)) (namedContents attributes)
  | value => .object value.mark?

/-- The contents of items. -/
def contents : List Value → List Content
  | [] => []
  | item :: rest => item.content :: contents rest

/-- The content of the first value under a name. -/
def namedContents : List (String × Value) → String → Option Content
  | [], _ => .none
  | (key, value) :: rest, name => if key = name then some value.content else namedContents rest name

end

theorem contents_eq (items : List Value) : contents items = items.map content := by
  induction items with
  | nil => rfl
  | cons item rest ih => rw [contents, ih, List.map_cons]

theorem namedContents_eq (entries : List (String × Value)) (name : String) :
    namedContents entries name = (Entries.find? name entries).map content := by
  induction entries with
  | nil => rfl
  | cons entry rest ih =>
      obtain ⟨key, value⟩ := entry
      rw [namedContents, Entries.find?, ih]
      split
      · rfl
      · rfl

section Kinds

variable {value : Value}

attribute [local simp] content

theorem text?_of_isObject (h : value.isObject = true) : value.text? = Option.none := by
  cases value <;> first | rfl | cases h

theorem list?_of_isObject (h : value.isObject = true) : value.list? = Option.none := by
  cases value <;> first | rfl | cases h

theorem dict?_of_isObject (h : value.isObject = true) : value.dict? = Option.none := by
  cases value <;> first | rfl | cases h

theorem rendering?_of_isObject (h : value.isObject = true) : value.rendering? = Option.none := by
  cases value <;> first | rfl | cases h

theorem asInt?_of_isObject (h : value.isObject = true) : value.asInt? = Option.none := by
  cases value <;> first | rfl | cases h

theorem content_eq_none_iff : value.content = .none ↔ value.isNone = true := by
  cases value <;> simp [isNone]

theorem content_eq_number_iff {n : Int} :
    value.content = .number n ↔ ∃ i, value.asInt? = some i ∧ i.toInt = n := by
  cases value with
  | bool b => cases b <;> simp [asInt?]
  | _ => simp [asInt?]

theorem content_eq_text_iff {text : String} :
    value.content = .text text ↔ value.text? = some text := by
  cases value <;> simp [text?]

theorem content_eq_list_iff {items : List Content} :
    value.content = .list items ↔
      ∃ found, value.list? = some found ∧ found.map content = items := by
  cases value <;> simp [list?, contents_eq]

theorem content_eq_dict_iff {values : String → Option Content} :
    value.content = .named .none values ↔
      ∃ entries, value.dict? = some entries ∧ namedContents entries = values := by
  cases value <;> simp [dict?]

theorem content_eq_rendering_iff {text : String} {values : String → Option Content} :
    value.content = .named (some text) values ↔ ∃ content : Rendering Value,
      value.rendering? = some content ∧ content.text = text ∧
        namedContents content.attributes = values := by
  cases value <;> simp [rendering?, Rendering.text]

theorem content_of_isObject (h : value.isObject = true) : value.content = .object value.mark? := by
  cases value <;> first | rfl | cases h

theorem content_eq_object_iff {mark : Mark} :
    value.content = .object mark ↔ value.isObject = true ∧ value.mark? = mark := by
  cases value <;> simp [isObject]

end Kinds

/-! ## Regular values -/

/-- There are no floats in the value, its objects have their marks, and every name stands once. -/
inductive IsRegular : Value → Prop
  | none : IsRegular .none
  | bool (b : Bool) : IsRegular (.bool b)
  | int (i : Int64) : IsRegular (.int i)
  | string (text : String) (mark : Mark) : IsRegular (.string text mark)
  | list {items : List Value} (mark : Mark) (regular : ∀ item ∈ items, IsRegular item) :
      IsRegular (.list ⟨items⟩ mark)
  | dict {entries : List (String × Value)} (mark : Mark)
      (regular : ∀ entry ∈ entries, IsRegular entry.2) (distinct : (Entries.keys entries).Nodup) :
      IsRegular (.dict entries mark)
  | rendering {content : Rendering Value} (mark : Mark)
      (regular : ∀ entry ∈ content.attributes, IsRegular entry.2)
      (distinct : (Entries.keys content.attributes).Nodup) : IsRegular (.rendering content mark)
  | object {value : Value} (isObject : value.isObject = true) (marked : value.mark?.isSome = true) :
      IsRegular value

namespace IsRegular

variable {value other : Value}

theorem numeric? (h : value.IsRegular) : value.numeric? = value.asInt?.map .int := by
  cases h with
  | object isObject marked => cases value <;> first | rfl | cases isObject
  | _ => rfl

theorem of_list? (h : value.IsRegular) {items : List Value} (hItems : value.list? = some items) :
    ∀ item ∈ items, item.IsRegular := by
  cases h with
  | list mark regular => exact Option.some.inj hItems ▸ regular
  | object isObject marked => rw [list?_of_isObject isObject] at hItems; cases hItems
  | _ => cases hItems

theorem of_dict? (h : value.IsRegular) {entries : List (String × Value)}
    (hEntries : value.dict? = some entries) :
    (∀ entry ∈ entries, entry.2.IsRegular) ∧ (Entries.keys entries).Nodup := by
  cases h with
  | dict mark regular distinct => exact Option.some.inj hEntries ▸ ⟨regular, distinct⟩
  | object isObject marked => rw [dict?_of_isObject isObject] at hEntries; cases hEntries
  | _ => cases hEntries

theorem of_rendering? (h : value.IsRegular) {content : Rendering Value}
    (hContent : value.rendering? = some content) :
    (∀ entry ∈ content.attributes, entry.2.IsRegular) ∧
      (Entries.keys content.attributes).Nodup := by
  cases h with
  | rendering mark regular distinct => exact Option.some.inj hContent ▸ ⟨regular, distinct⟩
  | object isObject marked => rw [rendering?_of_isObject isObject] at hContent; cases hContent
  | _ => cases hContent

end IsRegular

/-! ## Equal values -/

section Parts

variable {entries others : List (String × Value)}

theorem namedContents_eq_none_iff {name : String} :
    namedContents entries name = .none ↔ name ∉ Entries.keys entries := by
  rw [namedContents_eq, Option.map_eq_none_iff, Entries.find?_eq_none_iff]

/-- Values that agree on each name have the same names, so there are as many of them. -/
theorem length_eq_of_namedContents (hDistinct : (Entries.keys entries).Nodup)
    (hOthers : (Entries.keys others).Nodup) (h : namedContents entries = namedContents others) :
    entries.length = others.length := by
  have hKeys : (Entries.keys entries).Perm (Entries.keys others) :=
    (List.perm_ext_iff_of_nodup hDistinct hOthers).2 fun name => by
      rw [← not_iff_not, ← namedContents_eq_none_iff, ← namedContents_eq_none_iff, h]
  simpa [Entries.keys] using hKeys.length_eq

/-- As many names, among them all names of the entries, are no other names. -/
theorem mem_keys_of_subset (hDistinct : (Entries.keys entries).Nodup)
    (hSubset : ∀ name ∈ Entries.keys entries, name ∈ Entries.keys others)
    (hLength : entries.length = others.length) {name : String}
    (hName : name ∈ Entries.keys others) : name ∈ Entries.keys entries := by
  have hSub : (Entries.keys entries).Subperm (Entries.keys others) :=
    List.subperm_of_subset hDistinct hSubset
  have hPerm := hSub.perm_of_length_le (by simp [Entries.keys, hLength])
  exact hPerm.mem_iff.2 hName

theorem equalItems_iff {items : List Value}
    (hItems : ∀ item ∈ items, ∀ other : Value, other.IsRegular →
      (item.equals other = true ↔ item.content = other.content))
    {others : List Value} (hOthers : ∀ other ∈ others, other.IsRegular) :
    equalItems items others = true ↔ contents items = contents others := by
  induction items generalizing others with
  | nil => cases others <;> simp [equalItems, contents]
  | cons item rest ih =>
      cases others with
      | nil => simp [equalItems, contents]
      | cons other others =>
          have hOther := hOthers other (List.mem_cons_self ..)
          have hFirst := hItems item (List.mem_cons_self ..) other hOther
          have hRest := ih (fun i hi => hItems i (List.mem_cons_of_mem _ hi))
            fun o ho => hOthers o (List.mem_cons_of_mem _ ho)
          rw [equalItems, Bool.and_eq_true, hFirst, hRest, contents, contents, List.cons.injEq]

/-- The entries have equal values among the others when the others agree with them on each of their
names. -/
theorem equalEntries_iff (hDistinct : (Entries.keys entries).Nodup)
    (hEntries : ∀ entry ∈ entries, ∀ other : Value, other.IsRegular →
      (entry.2.equals other = true ↔ entry.2.content = other.content))
    (hOthers : ∀ entry ∈ others, entry.2.IsRegular) :
    equalEntries others entries = true ↔
      ∀ name ∈ Entries.keys entries, namedContents others name = namedContents entries name := by
  have hEntry : ∀ entry ∈ entries,
      (∃ twin, others.lookup entry.1 = some twin ∧ entry.2.equals twin = true) ↔
        namedContents others entry.1 = namedContents entries entry.1 := by
    rintro ⟨name, value⟩ hMem
    rw [namedContents_eq, namedContents_eq, (Entries.find?_eq_some_iff hDistinct).2 hMem,
      Option.map_some, Option.map_eq_some_iff, Entries.find?_eq_lookup]
    refine exists_congr fun twin => and_congr_right fun hTwin => ?_
    obtain ⟨before, after, rfl, -⟩ := List.lookup_eq_some_iff.1 hTwin
    rw [hEntries _ hMem twin (hOthers (name, twin) (by simp))]
    exact eq_comm
  rw [equalEntries_eq_true, Entries.keys, List.forall_mem_map]
  exact forall₂_congr hEntry

/-- Named values are equal in both ways of speaking: as many, with equal ones under each name; and
the same contents under all names. -/
theorem equalNamed_iff (hDistinct : (Entries.keys entries).Nodup)
    (hEntries : ∀ entry ∈ entries, ∀ other : Value, other.IsRegular →
      (entry.2.equals other = true ↔ entry.2.content = other.content))
    (hOthers : ∀ entry ∈ others, entry.2.IsRegular) (hNames : (Entries.keys others).Nodup) :
    (entries.length == others.length && equalEntries others entries) = true ↔
      namedContents entries = namedContents others := by
  rw [Bool.and_eq_true, beq_iff_eq, equalEntries_iff hDistinct hEntries hOthers]
  constructor
  · rintro ⟨hLength, hAgree⟩
    have hSubset : ∀ name ∈ Entries.keys entries, name ∈ Entries.keys others := by
      intro name hName
      by_contra hMissing
      have hNone := hAgree name hName
      rw [namedContents_eq_none_iff.2 hMissing] at hNone
      exact namedContents_eq_none_iff.1 hNone.symm hName
    funext name
    by_cases hName : name ∈ Entries.keys entries
    · exact (hAgree name hName).symm
    · have hOther : name ∉ Entries.keys others := fun h =>
        hName (mem_keys_of_subset hDistinct hSubset hLength h)
      rw [namedContents_eq_none_iff.2 hName, namedContents_eq_none_iff.2 hOther]
  · intro hSame
    exact ⟨length_eq_of_namedContents hDistinct hNames hSame, fun name _ => by rw [hSame]⟩

end Parts

theorem equals_number_iff {left right : Value} {i : Int64} (hLeft : left.asInt? = some i)
    (hRight : right.IsRegular) : left.equals right = true ↔ left.content = right.content := by
  have hEquals : left.equals right = right.equalsNumber (.int i) := by
    cases left <;> first | (cases hLeft; rfl) | cases hLeft
  have hContent : left.content = .number i.toInt := content_eq_number_iff.2 ⟨i, hLeft, rfl⟩
  rw [hEquals, equalsNumber, hRight.numeric?, hContent, @eq_comm Content,
    content_eq_number_iff]
  cases right.asInt? with
  | none => simp
  | some j => simp [Numeric.equals, Int64.toInt_inj, @eq_comm Int64 j]

namespace IsRegular

/-- Regular values are equal when they have the same content. -/
theorem equals_iff {left right : Value} (hLeft : left.IsRegular) (hRight : right.IsRegular) :
    left.equals right = true ↔ left.content = right.content := by
  induction left using dataInduction generalizing right with
  | list items mark ih =>
      rw [equals_list, Option.any_eq_true, content, eq_comm, content_eq_list_iff]
      refine exists_congr fun others => and_congr_right fun hOthers => ?_
      rw [equalItems_iff (fun item hItem other => ih item hItem (hLeft.of_list? rfl item hItem))
        (hRight.of_list? hOthers), ← contents_eq]
      exact eq_comm
  | dict entries mark ih =>
      rw [equals_dict, Option.any_eq_true, content, eq_comm, content_eq_dict_iff]
      refine exists_congr fun others => and_congr_right fun hOthers => ?_
      have hEntries := hLeft.of_dict? rfl
      have hOthers := hRight.of_dict? hOthers
      rw [equalNamed_iff hEntries.2
        (fun entry hEntry other => ih entry hEntry (hEntries.1 entry hEntry)) hOthers.1 hOthers.2]
      exact eq_comm
  | rendering body pending attributes mark ih =>
      rw [equals_rendering, Option.any_eq_true, content, eq_comm, content_eq_rendering_iff]
      refine exists_congr fun other => and_congr_right fun hOther => ?_
      have hEntries := hLeft.of_rendering? rfl
      have hOthers := hRight.of_rendering? hOther
      rw [Bool.and_eq_true, beq_iff_eq, equalNamed_iff hEntries.2
        (fun entry hEntry other => ih entry hEntry (hEntries.1 entry hEntry)) hOthers.1 hOthers.2]
      exact and_congr eq_comm eq_comm
  | leaf value hLeaf =>
      cases hLeft with
      | none => rw [content, @eq_comm Content, content_eq_none_iff, equals]
      | bool b => exact equals_number_iff rfl hRight
      | int i => exact equals_number_iff rfl hRight
      | string text mark =>
          rw [equals_string, Option.any_eq_true, content, eq_comm, content_eq_text_iff]
          simp
      | object isObject marked =>
          rw [equals_of_isObject isObject, Bool.and_eq_true, content_of_isObject isObject,
            @eq_comm Content, content_eq_object_iff]
          refine and_congr_right fun _ => ?_
          obtain ⟨mark, hMark⟩ := Option.isSome_iff_exists.1 marked
          rw [hMark, Mark.same_eq_true_iff]
          constructor
          · rintro ⟨n, hLeft, hRight⟩
            rw [hRight, hLeft]
          · intro h
            exact ⟨mark, rfl, h⟩
      | _ => cases hLeaf

theorem equals_self {a : Value} (h : a.IsRegular) : a.equals a = true :=
  (h.equals_iff h).2 rfl

theorem equals_comm {a b : Value} (ha : a.IsRegular) (hb : b.IsRegular) :
    a.equals b = b.equals a := by
  rw [Bool.eq_iff_iff, ha.equals_iff hb, hb.equals_iff ha]
  exact eq_comm

theorem equals_trans {a b c : Value} (ha : a.IsRegular) (hb : b.IsRegular) (hc : c.IsRegular)
    (hLeft : a.equals b = true) (hRight : b.equals c = true) : a.equals c = true := by
  rw [ha.equals_iff hb] at hLeft
  rw [hb.equals_iff hc] at hRight
  rw [ha.equals_iff hc, hLeft, hRight]

end IsRegular

end Value

end Stencil
