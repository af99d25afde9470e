import Stencil.Proofs.Renaming

/-!
# Operations on renamed data

The operations on values commute with renaming: what they give for renamed values is what they give
for the values, renamed. Texts, truth values and faults have no numbers in them, so they stay what
they are. Equality compares the marks of objects and needs a renaming that keeps them apart.

## Main results

* `Value.text_rename`, `Value.code_rename`: the texts of a value do not show its numbers.
* `Value.equals_rename`, `Value.order?_rename`: nor do comparisons.
* `Value.index_rename`, `Value.slice_rename`: parts of a renamed value are renamed parts.
-/

namespace Stencil

/-! ## Results that may be faults -/

section Results

variable {ε α β : Type}

@[simp] theorem map_error (f : α → β) (cause : ε) :
    f <$> (Except.error cause : Except ε α) = .error cause := rfl

@[simp] theorem map_throw (f : α → β) (cause : ε) :
    f <$> (throw cause : Except ε α) = throw cause := rfl

@[simp] theorem map_ok (f : α → β) (value : α) :
    f <$> (Except.ok value : Except ε α) = .ok (f value) := rfl

@[simp] theorem bind_error (f : α → Except ε β) (cause : ε) :
    (Except.error cause >>= f) = .error cause := rfl

@[simp] theorem bind_ok (f : α → Except ε β) (value : α) : (Except.ok value >>= f) = f value := rfl

@[simp] theorem pure_eq_ok (value : α) : (pure value : Except ε α) = .ok value := rfl

@[simp] theorem throw_eq_error (cause : ε) : (throw cause : Except ε α) = .error cause := rfl

end Results

/-! ## Named values -/

namespace Entries

variable (ρ : Renaming)

@[simp] theorem rename_nil : Entries.rename ρ [] = [] := rfl

@[simp] theorem rename_cons (entry : String × Value) (rest : List (String × Value)) :
    Entries.rename ρ (entry :: rest) = (entry.1, entry.2.rename ρ) :: Entries.rename ρ rest := rfl

@[simp] theorem length_rename (entries : List (String × Value)) :
    (Entries.rename ρ entries).length = entries.length := by
  simp [Entries.rename]

@[simp] theorem map_fst_rename (entries : List (String × Value)) :
    (Entries.rename ρ entries).map Prod.fst = entries.map Prod.fst := by
  simp [Entries.rename, Function.comp_def]

@[simp] theorem keys_rename (entries : List (String × Value)) :
    Entries.keys (Entries.rename ρ entries) = Entries.keys entries :=
  map_fst_rename ρ entries

@[simp] theorem isEmpty_rename (entries : List (String × Value)) :
    (Entries.rename ρ entries).isEmpty = entries.isEmpty := by
  cases entries <;> rfl

@[simp] theorem find?_rename (name : String) (entries : List (String × Value)) :
    Entries.find? name (Entries.rename ρ entries) =
      (Entries.find? name entries).map (Value.rename ρ) := by
  induction entries with
  | nil => rfl
  | cons entry rest ih =>
      simp only [rename_cons, Entries.find?]
      split
      · rfl
      · exact ih

@[simp] theorem has_rename (name : String) (entries : List (String × Value)) :
    Entries.has name (Entries.rename ρ entries) = Entries.has name entries := by
  simp [Entries.has]

@[simp] theorem insert_rename (name : String) (value : Value) (entries : List (String × Value)) :
    Entries.insert name (value.rename ρ) (Entries.rename ρ entries) =
      Entries.rename ρ (Entries.insert name value entries) := by
  induction entries with
  | nil => rfl
  | cons entry rest ih =>
      simp only [rename_cons, Entries.insert]
      split
      · rfl
      · rw [ih, rename_cons]

@[simp] theorem remove_rename (name : String) (entries : List (String × Value)) :
    Entries.remove name (Entries.rename ρ entries) =
      Entries.rename ρ (Entries.remove name entries) := by
  induction entries with
  | nil => rfl
  | cons entry rest ih =>
      simp only [rename_cons, Entries.remove]
      split
      · rfl
      · rw [ih, rename_cons]

@[simp] theorem insertAll_rename (entries more : List (String × Value)) :
    Entries.insertAll (Entries.rename ρ entries) (Entries.rename ρ more) =
      Entries.rename ρ (Entries.insertAll entries more) := by
  induction more generalizing entries with
  | nil => rfl
  | cons entry rest ih =>
      simp only [Entries.insertAll, rename_cons, List.foldl_cons] at ih ⊢
      rw [insert_rename, ih]

@[simp] theorem ofPairs_rename (pairs : List (String × Value)) :
    Entries.ofPairs (Entries.rename ρ pairs) = Entries.rename ρ (Entries.ofPairs pairs) := by
  rw [ofPairs_eq, ofPairs_eq, ← insertAll_rename, rename_nil]

end Entries

/-! ## Renderings -/

namespace Rendering

variable (ρ : Renaming)

@[simp] theorem rename_empty : (Rendering.empty : Rendering Value).rename ρ = .empty := rfl

@[simp] theorem rename_ofText (text : String) :
    (Rendering.ofText text : Rendering Value).rename ρ = .ofText text := rfl

@[simp] theorem text_rename (r : Rendering Value) : (r.rename ρ).text = r.text := rfl

@[simp] theorem push_rename (r : Rendering Value) (text : String) :
    (r.rename ρ).push text = (r.push text).rename ρ := rfl

@[simp] theorem fold_rename (r : Rendering Value) : (r.rename ρ).fold = r.fold.rename ρ := by
  unfold fold
  rw [show (r.rename ρ).pending = r.pending from rfl]
  split <;> rfl

@[simp] theorem isEmpty_rename (r : Rendering Value) : (r.rename ρ).isEmpty = r.isEmpty := by
  simp [isEmpty, rename]

@[simp] theorem keys_rename (r : Rendering Value) : (r.rename ρ).keys = r.keys := by
  simp [keys, rename]

@[simp] theorem find?_rename (r : Rendering Value) (name : String) :
    (r.rename ρ).find? name = (r.find? name).map (Value.rename ρ) := by
  simp [find?, rename]

end Rendering

namespace Value

variable (ρ : Renaming)

/-! ## New values -/

@[simp] theorem rename_ofString (text : String) : (ofString text).rename ρ = ofString text := rfl

@[simp] theorem rename_ofChars (text : List Char) : (ofChars text).rename ρ = ofChars text := rfl

@[simp] theorem rename_ofChar (c : Char) : (ofChar c).rename ρ = ofChar c := rfl

@[simp] theorem rename_ofNat (n : Nat) : (ofNat n).rename ρ = ofNat n := rfl

@[simp] theorem rename_ofArray (items : Array Value) :
    (ofArray items).rename ρ = ofArray (items.map (rename ρ)) := by
  simp [ofArray]

@[simp] theorem rename_ofList (items : List Value) :
    (ofList items).rename ρ = ofList (items.map (rename ρ)) := by
  simp [ofList]

@[simp] theorem rename_ofEntries (entries : Entries Value) :
    (ofEntries entries).rename ρ = ofEntries (Entries.rename ρ entries) := by
  simp [ofEntries]

@[simp] theorem rename_ofRendering (content : Rendering Value) :
    (ofRendering content).rename ρ = ofRendering (content.rename ρ) := by
  simp [ofRendering]

/-! ## Questions -/

@[simp] theorem typeName_rename (value : Value) : (value.rename ρ).typeName = value.typeName := by
  cases value <;> simp [typeName]

@[simp] theorem isNone_rename (value : Value) : (value.rename ρ).isNone = value.isNone := by
  cases value <;> simp [isNone]

@[simp] theorem truthy_rename (value : Value) : (value.rename ρ).truthy = value.truthy := by
  cases value <;> simp [truthy, Array.isEmpty]

@[simp] theorem isCallable_rename (value : Value) :
    (value.rename ρ).isCallable = value.isCallable := by
  cases value <;> simp [isCallable]

@[simp] theorem isObject_rename (value : Value) : (value.rename ρ).isObject = value.isObject := by
  cases value <;> simp [isObject]

@[simp] theorem asInt?_rename (value : Value) : (value.rename ρ).asInt? = value.asInt? := by
  cases value <;> simp [asInt?]

@[simp] theorem asFloat?_rename (value : Value) : (value.rename ρ).asFloat? = value.asFloat? := by
  cases value <;> simp [asFloat?, asInt?]

@[simp] theorem numeric?_rename (value : Value) : (value.rename ρ).numeric? = value.numeric? := by
  cases value <;> simp [numeric?, asInt?]

@[simp] theorem wantString_rename (role : String) (value : Value) :
    (value.rename ρ).wantString role = value.wantString role := by
  cases value <;> simp [wantString, typeName]

@[simp] theorem wantInt_rename (role : String) (value : Value) :
    (value.rename ρ).wantInt role = value.wantInt role := by
  simp [wantInt]

@[simp] theorem equalsNumber_rename (number : Numeric) (value : Value) :
    (value.rename ρ).equalsNumber number = value.equalsNumber number := by
  simp [equalsNumber]

/-! ## Texts -/

@[simp] theorem flatText_rename (value : Value) : (value.rename ρ).flatText = value.flatText := by
  cases value with
  | method receiver name mark =>
      rw [rename_method]
      show "<built-in method " ++ name ++ " of " ++ (receiver.rename ρ).typeName ++ " object>" = _
      rw [typeName_rename]
      rfl
  | list items mark => rw [rename_list]; rfl
  | dict entries mark => rw [rename_dict]; rfl
  | rendering content mark => rw [rename_rendering]; rfl
  | function closure mark => rw [rename_function]; rfl
  | template content mark => rw [rename_template]; rfl
  | renderer content mark => rw [rename_renderer]; rfl
  | page renderer leaf mark => rw [rename_page]; rfl
  | _ => rfl

/-- Is there no data inside the value? -/
def isLeaf : Value → Bool
  | list _ _ => false
  | dict _ _ => false
  | rendering _ _ => false
  | _ => true

/-- Induction over the data inside a value. Objects are leaves. -/
@[elab_as_elim]
theorem dataInduction {motive : Value → Prop}
    (list : ∀ items mark, (∀ item ∈ items, motive item) → motive (.list ⟨items⟩ mark))
    (dict : ∀ entries mark, (∀ entry ∈ entries, motive entry.2) → motive (.dict entries mark))
    (rendering : ∀ body pending attributes mark, (∀ entry ∈ attributes, motive entry.2) →
      motive (.rendering ⟨body, pending, attributes⟩ mark))
    (leaf : ∀ value, value.isLeaf = true → motive value) (value : Value) : motive value := by
  induction hSize : sizeOf value using Nat.strongRecOn generalizing value with
  | ind size ih =>
      subst hSize
      have hSmaller (other : Value) (h : sizeOf other < sizeOf value) : motive other :=
        ih _ h other rfl
      cases value with
      | list items mark =>
          obtain ⟨items⟩ := items
          refine list items mark fun item hItem => hSmaller item ?_
          have := List.sizeOf_lt_of_mem hItem
          simp
          omega
      | dict entries mark =>
          refine dict entries mark fun entry hEntry => hSmaller entry.2 ?_
          have := List.sizeOf_lt_of_mem hEntry
          obtain ⟨name, value⟩ := entry
          simp at this ⊢
          omega
      | rendering content mark =>
          obtain ⟨body, pending, attributes⟩ := content
          refine rendering body pending attributes mark fun entry hEntry => hSmaller entry.2 ?_
          have := List.sizeOf_lt_of_mem hEntry
          obtain ⟨name, value⟩ := entry
          simp at this ⊢
          omega
      | _ => exact leaf _ rfl

/-- The text of a value as source code has it does not show its numbers. -/
@[simp] theorem code_rename (value : Value) : (value.rename ρ).code = value.code := by
  induction value using dataInduction with
  | list items mark ih =>
      have hItems : items.map (code ∘ rename ρ) = items.map code := List.map_congr_left ih
      rw [rename_list, List.map_toArray, code_list, code_list, List.map_map, hItems]
  | dict entries mark ih =>
      have hEntries : ∀ entry ∈ entries,
          quoteText entry.1 ++ ": " ++ (entry.2.rename ρ).code =
            quoteText entry.1 ++ ": " ++ entry.2.code :=
        fun entry hEntry => by rw [ih entry hEntry]
      rw [rename_dict, code_dict, code_dict, Entries.rename, List.map_map]
      rw [← List.map_congr_left hEntries]
      rfl
  | rendering body pending attributes mark ih =>
      rw [rename_rendering]
      rfl
  | leaf value hLeaf =>
      cases value with
      | list items mark => cases hLeaf
      | dict entries mark => cases hLeaf
      | rendering content mark => cases hLeaf
      | string text mark => rfl
      | none => rfl
      | bool b => rfl
      | int i => rfl
      | float x => rfl
      | builtin name mark => rfl
      | method receiver name mark => exact flatText_rename ρ (.method receiver name mark)
      | function closure mark => rw [rename_function]; rfl
      | template content mark => rw [rename_template]; rfl
      | renderer content mark => rw [rename_renderer]; rfl
      | page renderer leaf mark => rw [rename_page]; rfl
      | loop level outer => rfl

@[simp] theorem text_rename (value : Value) : (value.rename ρ).text = value.text := by
  have hFlat := flatText_rename ρ value
  have hCode := code_rename ρ value
  cases value with
  | list items mark => rw [rename_list] at hCode ⊢; exact hCode
  | dict entries mark => rw [rename_dict] at hCode ⊢; exact hCode
  | rendering content mark => rw [rename_rendering] at hFlat ⊢; exact hFlat
  | function closure mark => rw [rename_function] at hFlat ⊢; exact hFlat
  | template content mark => rw [rename_template] at hFlat ⊢; exact hFlat
  | renderer content mark => rw [rename_renderer] at hFlat ⊢; exact hFlat
  | page renderer leaf mark => rw [rename_page] at hFlat ⊢; exact hFlat
  | _ => exact hFlat

/-! ## What a value holds -/

/-- The text of a string. -/
def text? : Value → Option String
  | string text _ => some text
  | _ => Option.none

/-- The items of a list. -/
def list? : Value → Option (List Value)
  | list items _ => some items.toList
  | _ => Option.none

/-- The entries of a dictionary. -/
def dict? : Value → Option (List (String × Value))
  | dict entries _ => some entries
  | _ => Option.none

/-- The content of a rendering. -/
def rendering? : Value → Option (Rendering Value)
  | rendering content _ => some content
  | _ => Option.none

@[simp] theorem text?_rename (value : Value) : (value.rename ρ).text? = value.text? := by
  cases value <;> simp [text?]

@[simp] theorem list?_rename (value : Value) :
    (value.rename ρ).list? = value.list?.map (List.map (rename ρ)) := by
  cases value <;> simp [list?]

@[simp] theorem dict?_rename (value : Value) :
    (value.rename ρ).dict? = value.dict?.map (Entries.rename ρ) := by
  cases value <;> simp [dict?]

@[simp] theorem rendering?_rename (value : Value) :
    (value.rename ρ).rendering? = value.rendering?.map (Rendering.rename ρ) := by
  cases value <;> simp [rendering?]

/-! ## Comparisons -/

variable {ρ}

theorem same_mark_map {f : Nat → Nat} (hf : Function.Injective f) (a b : Mark) :
    Mark.same (a.map f) (b.map f) = Mark.same a b := by
  rcases a with _ | m <;> rcases b with _ | n
  · rfl
  · rfl
  · rfl
  · show (f m == f n) = (m == n)
    rw [Bool.eq_iff_iff, beq_iff_eq, beq_iff_eq, hf.eq_iff]

/-- The mark of an object is renamed as such. -/
theorem mark?_rename {value : Value} (h : value.isObject = true) :
    (value.rename ρ).mark? = value.mark?.map ρ.mark := by
  cases value <;> simp [isObject] at h <;> simp [mark?]

theorem equalItems_rename {items : List Value}
    (h : ∀ item ∈ items, ∀ other : Value,
      (item.rename ρ).equals (other.rename ρ) = item.equals other) (others : List Value) :
    equalItems (items.map (rename ρ)) (others.map (rename ρ)) = equalItems items others := by
  induction items generalizing others with
  | nil => cases others <;> rfl
  | cons item rest ih =>
      cases others with
      | nil => rfl
      | cons other others =>
          have hRest := ih (fun i hi => h i (List.mem_cons_of_mem _ hi)) others
          have hItem := h item (List.mem_cons_self ..) other
          simp only [List.map_cons]
          show (equals _ _ && equalItems _ _) = (equals _ _ && equalItems _ _)
          rw [hItem, hRest]

theorem equalEntries_rename {entries : List (String × Value)}
    (h : ∀ entry ∈ entries, ∀ other : Value,
      (entry.2.rename ρ).equals (other.rename ρ) = entry.2.equals other)
    (others : List (String × Value)) :
    equalEntries (Entries.rename ρ others) (Entries.rename ρ entries) =
      equalEntries others entries := by
  induction entries with
  | nil => rfl
  | cons entry rest ih =>
      have hRest := ih fun e he => h e (List.mem_cons_of_mem _ he)
      have hEntry := h entry (List.mem_cons_self ..)
      obtain ⟨name, value⟩ := entry
      rw [Entries.rename_cons, equalEntries, equalEntries, hRest, Entries.find?_rename]
      cases Entries.find? name others with
      | none => rfl
      | some other => exact congrArg (· && _) (hEntry other)

/-- Objects are equal when they are one. -/
theorem equals_of_isObject {left : Value} (h : left.isObject = true) (right : Value) :
    left.equals right = (right.isObject && Mark.same left.mark? right.mark?) := by
  cases left <;> first | rfl | cases h

theorem equalsObject_rename (hMark : Function.Injective ρ.mark) {left : Value}
    (h : left.isObject = true) (right : Value) :
    (left.rename ρ).equals (right.rename ρ) = left.equals right := by
  rw [equals_of_isObject (by rw [isObject_rename, h]), equals_of_isObject h, isObject_rename]
  by_cases hRight : right.isObject = true
  · rw [mark?_rename h, mark?_rename hRight, same_mark_map hMark]
  · rw [Bool.not_eq_true] at hRight
    rw [hRight, Bool.false_and, Bool.false_and]

theorem equals_string (text : String) (mark : Mark) (right : Value) :
    (string text mark).equals right = right.text?.any (text == ·) := by
  cases right <;> rfl

theorem equals_list (items : List Value) (mark : Mark) (right : Value) :
    (list ⟨items⟩ mark).equals right = right.list?.any (equalItems items) := by
  cases right <;> rfl

theorem equals_dict (entries : List (String × Value)) (mark : Mark) (right : Value) :
    (dict entries mark).equals right = right.dict?.any fun others =>
      entries.length == others.length && equalEntries others entries := by
  cases right <;> rfl

theorem equals_rendering (body : Option String) (pending : String)
    (attributes : List (String × Value)) (mark : Mark) (right : Value) :
    (rendering ⟨body, pending, attributes⟩ mark).equals right = right.rendering?.any fun other =>
      body.getD "" ++ pending == other.text &&
        (attributes.length == other.attributes.length &&
          equalEntries other.attributes attributes) := by
  cases right <;> rfl

/-- Equality does not show the numbers of values, when the marks of objects are kept apart. -/
theorem equals_rename (hMark : Function.Injective ρ.mark) (left right : Value) :
    (left.rename ρ).equals (right.rename ρ) = left.equals right := by
  induction left using dataInduction generalizing right with
  | list items mark ih =>
      rw [rename_list, List.map_toArray, equals_list, equals_list, list?_rename, Option.any_map]
      exact congrArg (Option.any · _) (funext fun others => equalItems_rename ih others)
  | dict entries mark ih =>
      rw [rename_dict, equals_dict, equals_dict, dict?_rename, Option.any_map]
      refine congrArg (Option.any · _) (funext fun others => ?_)
      simp only [Entries.length_rename, equalEntries_rename ih]
  | rendering body pending attributes mark ih =>
      rw [rename_rendering, equals_rendering, rendering?_rename, Option.any_map]
      refine Eq.trans ?_ (equals_rendering ..).symm
      refine congrArg (Option.any · _) (funext fun other => ?_)
      have hEntries := equalEntries_rename ih other.attributes
      simp only [Rendering.rename, Entries.length_rename, hEntries]
      rfl
  | leaf value hLeaf =>
      cases value with
      | list items mark => cases hLeaf
      | dict entries mark => cases hLeaf
      | rendering content mark => cases hLeaf
      | none => exact isNone_rename ρ right
      | bool b => exact equalsNumber_rename ρ _ right
      | int i => exact equalsNumber_rename ρ _ right
      | float x => exact equalsNumber_rename ρ _ right
      | string text mark => rw [rename_string, equals_string, equals_string, text?_rename]
      | _ => exact equalsObject_rename hMark rfl right

theorem order?_string (text : String) (mark : Mark) (right : Value) :
    (string text mark).order? right = right.text?.map fun other =>
      if text < other then .lt else if text = other then .eq else .gt := by
  cases right <;> rfl

theorem order?_list (items : List Value) (mark : Mark) (right : Value) :
    (list ⟨items⟩ mark).order? right = right.list?.bind (orderItems? items) := by
  cases right <;> rfl

/-- A value that is neither a string nor a list has an order as a number only. -/
theorem order?_of_numeric {left : Value} (hString : left.text? = Option.none)
    (hList : left.list? = Option.none) (right : Value) :
    left.order? right = left.numeric?.bind fun a => right.numeric?.bind a.order := by
  have hNotString (text : String) (mark : Mark) : left ≠ string text mark := by
    rintro rfl
    cases hString
  have hNotList (items : List Value) (mark : Mark) : left ≠ list ⟨items⟩ mark := by
    rintro rfl
    cases hList
  rw [order?.eq_5 left right hNotString hNotList]
  cases left.numeric? <;> cases right.numeric? <;> rfl

theorem orderItems?_rename {items : List Value}
    (h : ∀ item ∈ items, ∀ other : Value,
      (item.rename ρ).order? (other.rename ρ) = item.order? other) (others : List Value) :
    orderItems? (items.map (rename ρ)) (others.map (rename ρ)) = orderItems? items others := by
  induction items generalizing others with
  | nil => cases others <;> rfl
  | cons item rest ih =>
      cases others with
      | nil => rfl
      | cons other others =>
          have hRest := ih (fun i hi => h i (List.mem_cons_of_mem _ hi)) others
          have hItem := h item (List.mem_cons_self ..) other
          simp only [List.map_cons, orderItems?, hItem, hRest]

/-- The order of values does not show their numbers. -/
@[simp] theorem order?_rename (left right : Value) :
    (left.rename ρ).order? (right.rename ρ) = left.order? right := by
  induction left using dataInduction generalizing right with
  | list items mark ih =>
      rw [rename_list, List.map_toArray, order?_list, order?_list, list?_rename, Option.bind_map]
      exact congrArg (Option.bind _) (funext fun others => orderItems?_rename ih others)
  | dict entries mark ih =>
      rw [order?_of_numeric (by simp [text?]) (by simp [list?]), order?_of_numeric rfl rfl,
        numeric?_rename, numeric?_rename]
  | rendering body pending attributes mark ih =>
      rw [order?_of_numeric (by simp [text?]) (by simp [list?]), order?_of_numeric rfl rfl,
        numeric?_rename, numeric?_rename]
  | leaf value hLeaf =>
      cases hText : value.text? with
      | some text =>
          cases value <;> simp [text?] at hText
          rw [rename_string, order?_string, order?_string, text?_rename]
      | none =>
          have hList : value.list? = Option.none := by cases value <;> first | rfl | cases hLeaf
          rw [order?_of_numeric (by simpa using hText) (by simpa using hList),
            order?_of_numeric hText hList, numeric?_rename, numeric?_rename]

@[simp] theorem orderFor_rename (left : Value) (symbol : String) (right : Value) :
    (left.rename ρ).orderFor symbol (right.rename ρ) = left.orderFor symbol right := by
  simp [orderFor]

/-- Whether two values are one does not show their numbers, when all marks are renamed in one way
and kept apart. -/
theorem same_rename (hMark : Function.Injective ρ.mark) (hData : ρ.data = ρ.mark)
    (left right : Value) : (left.rename ρ).same (right.rename ρ) = left.same right := by
  have hMarks (value : Value) : (value.rename ρ).mark? = value.mark?.map ρ.mark := by
    cases value <;> simp [mark?, hData]
  have hSame (value : Value) : Mark.same (value.rename ρ).mark? (right.rename ρ).mark? =
      Mark.same value.mark? right.mark? := by
    rw [hMarks, hMarks, same_mark_map hMark]
  cases left with
  | none => exact isNone_rename ρ right
  | bool b => cases right <;> simp [same]
  | int i => cases right <;> simp [same]
  | float x => rfl
  | list items mark =>
      obtain ⟨items⟩ := items
      exact hSame (.list ⟨items⟩ mark)
  | _ => exact hSame _

/-! ## Items and parts -/

variable (ρ)

@[simp] theorem items_rename (value : Value) :
    (value.rename ρ).items = List.map (rename ρ) <$> value.items := by
  cases value <;> simp [items, Entries.rename, Function.comp_def, typeName]

@[simp] theorem length_rename (value : Value) : (value.rename ρ).length = value.length := by
  cases value <;> simp [length, typeName]

theorem contains_rename {ρ : Renaming} (hMark : Function.Injective ρ.mark)
    (container item : Value) :
    (container.rename ρ).contains (item.rename ρ) = container.contains item := by
  cases container with
  | string text mark =>
      rw [rename_string]
      cases item <;> simp [contains, typeName]
  | list items mark =>
      rw [rename_list]
      simp [contains, equals_rename hMark]
  | _ => simp [contains, typeName, isObject]

@[simp] theorem insert_rename (r : Rendering Value) (name : String) (value : Value) :
    (r.rename ρ).insert name (value.rename ρ) = (r.insert name value).rename ρ := by
  unfold Rendering.insert
  split
  · rw [text_rename]
    rfl
  · simp [Rendering.set, Rendering.rename]

@[simp] theorem get?_rename (r : Rendering Value) (name : String) :
    (r.rename ρ).get? name = (r.get? name).map (rename ρ) := by
  unfold Rendering.get?
  split <;> simp

/-- What is found, or the fault that nothing is. -/
theorem found_rename (found : Option Value) (cause : Fault) :
    (match found.map (rename ρ) with
      | some item => Except.ok item
      | Option.none => Except.error cause) =
    rename ρ <$> match found with
      | some item => Except.ok item
      | Option.none => Except.error cause := by
  cases found <;> rfl

@[simp] theorem index_rename (value key : Value) :
    (value.rename ρ).index (key.rename ρ) = rename ρ <$> value.index key := by
  cases value with
  | string text mark =>
      rw [rename_string]
      simp only [index, wantInt_rename, map_bind]
      refine congrArg _ (funext fun place => ?_)
      split <;> simp
  | list items mark =>
      rw [rename_list]
      simp only [index, wantInt_rename, map_bind, Array.size_map, Array.getElem?_map]
      refine congrArg _ (funext fun place => ?_)
      have hItem : ((placeOf? place items.size).bind fun at' => items[at']?.map (rename ρ)) =
          ((placeOf? place items.size).bind (items[·]?)).map (rename ρ) := Option.map_bind.symm
      rw [hItem]
      exact found_rename ρ _ _
  | dict entries mark =>
      rw [rename_dict]
      simp only [index, text_rename, code_rename, Entries.find?_rename]
      exact found_rename ρ _ _
  | rendering content mark =>
      rw [rename_rendering]
      simp only [index, text_rename, code_rename, get?_rename]
      exact found_rename ρ _ _
  | _ => simp [index, typeName]

@[simp] theorem sliceBound_rename (bound : Option Value) :
    sliceBound (bound.map (rename ρ)) = sliceBound bound := by
  cases bound with
  | none => rfl
  | some value =>
      cases value <;> simp [sliceBound, wantInt, asInt?, typeName]

theorem pick_map {α β : Type} (p : Progression) (f : α → β) (items : Array α) :
    p.pick (items.map f) = (p.pick items).map f := by
  have hItem : ((items.map f)[·]? : Nat → Option β) = fun place => items[place]?.map f :=
    funext fun place => Array.getElem?_map
  apply Array.toList_inj.1
  rw [Array.toList_map, Progression.toList_pick, Progression.toList_pick, hItem,
    List.map_filterMap]

@[simp] theorem slice_rename (value : Value) (start stop step : Option Value) :
    (value.rename ρ).slice (start.map (rename ρ)) (stop.map (rename ρ)) (step.map (rename ρ)) =
      rename ρ <$> value.slice start stop step := by
  simp only [slice, sliceBound_rename, map_bind]
  refine congrArg _ (funext fun start => congrArg _ (funext fun stop =>
    congrArg _ (funext fun step => ?_)))
  cases value <;> simp [typeName, pick_map]

end Value

end Stencil
