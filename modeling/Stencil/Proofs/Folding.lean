import Mathlib.Data.List.Nodup
import Mathlib.Data.List.Perm.Subperm
import Stencil.Value.Compare

/-!
# Folding is not observed

A rendering keeps appended text in a buffer and lets it join the text when somebody asks. A `Sheet`
has no buffer: appended text joins at once. Whatever is asked of a rendering, and in whatever order,
the answers are those of the sheet with the same text and the same values.

The sheet's own operations say what the order of the names means: a name that comes again keeps its
place, and two sheets are equal when they have the same text and equal values under the same names,
in whatever order the names came.

## Main results

* `Rendering.sheet_answer`: one request gets the same answer from a rendering and from its sheet.
* `answers_do_not_tell_folding`: so do all requests in a row, and reading changes no later answer.
-/

namespace Stencil

/-! ## Sheets -/

/-- A text in one piece, and named values in the order in which their names came. -/
structure Sheet where
  text : String
  values : List (String × Value)

namespace Sheet

/-- The sheet at the start, with a text if there is one. -/
def start (text : Option String) : Sheet := ⟨text.getD "", []⟩

/-- The names of the values. -/
def names (s : Sheet) : List String := s.values.map Prod.fst

/-- Sets the value under a name. Under the name of the text, the value's text becomes the text. -/
def insert (s : Sheet) (name : String) (value : Value) : Sheet :=
  if name = bodyName then { s with text := value.text }
  else if name ∈ s.names then
    { s with values := s.values.map fun entry => if entry.1 = name then (name, value) else entry }
  else { s with values := s.values ++ [(name, value)] }

/-- The value under a name, the text among them. -/
def get? (s : Sheet) (name : String) : Option Value :=
  if name = bodyName then some (.ofString s.text) else s.values.lookup name

/-- Have both sheets a value under this name, and are the values equal? -/
def agreeOn (s other : Sheet) (name : String) : Bool :=
  match s.values.lookup name, other.values.lookup name with
  | some value, some twin => value.equals twin
  | _, _ => false

/-- Have the sheets the same text, and equal values under all names that one of them has? -/
def equals (s other : Sheet) : Bool :=
  s.text == other.text && (s.names ++ other.names).all (s.agreeOn other)

end Sheet

/-! ## Requests -/

/-- A rendering whose names are all different; none of them is the name of the text. -/
structure Record where
  rendering : Rendering Value
  distinct : rendering.keys.Nodup

/-- What can be asked of a rendering. -/
inductive RecordRequest where
  | push (text : String)
  | fold
  | insert (name : String) (value : Value)
  /-- The text; it is folded then. -/
  | body
  | get (name : String)
  /-- The value under a name; nothing is folded. -/
  | peek (name : String)
  /-- A copy of the rendering as it stands. -/
  | snapshot
  /-- The text that is left when a copy is used up. -/
  | intoBody
  | keys
  | isEmpty
  /-- The text; nothing is folded. -/
  | display
  | equals (other : Record)

/-- Does the request ask only, and change nothing? Folding counts as asking. -/
def RecordRequest.isRead : RecordRequest → Bool
  | .push _ => false
  | .insert _ _ => false
  | _ => true

/-- What a request is answered with. -/
inductive RecordAnswer where
  | done
  | text (content : String)
  | value (found : Option Value)
  | names (all : List String)
  | truth (holds : Bool)
  | copy (content : Sheet)

/-- The text and the values of a rendering, whatever waits in its buffer. -/
def Rendering.sheet (r : Rendering Value) : Sheet := ⟨r.text, r.attributes⟩

/-- The rendering at the start, with a text if there is one. -/
def Rendering.start : Option String → Rendering Value
  | none => .empty
  | some text => .ofText text

/-- The answer of a rendering, and the rendering afterwards. -/
def Rendering.answer (r : Rendering Value) : RecordRequest → RecordAnswer × Rendering Value
  | .push text => (.done, r.push text)
  | .fold => (.done, r.fold)
  | .insert name value => (.done, r.insert name value)
  | .body => (.text (r.fold.body.getD ""), r.fold)
  | .get name => (.value (r.get? name), if name = bodyName then r.fold else r)
  | .peek name => (.value (r.get? name), r)
  | .snapshot => (.copy r.fold.sheet, r.fold)
  | .intoBody => (.text (r.fold.body.getD ""), r)
  | .keys => (.names r.keys, r)
  | .isEmpty => (.truth r.isEmpty, r)
  | .display => (.text r.text, r)
  | .equals other =>
      (.truth ((Value.rendering r none).equals (.rendering other.rendering none)), r)

/-- The answer of a sheet, and the sheet afterwards. -/
def Sheet.answer (s : Sheet) : RecordRequest → RecordAnswer × Sheet
  | .push text => (.done, { s with text := s.text ++ text })
  | .fold => (.done, s)
  | .insert name value => (.done, s.insert name value)
  | .body => (.text s.text, s)
  | .get name => (.value (s.get? name), s)
  | .peek name => (.value (s.get? name), s)
  | .snapshot => (.copy s, s)
  | .intoBody => (.text s.text, s)
  | .keys => (.names (bodyName :: s.names), s)
  | .isEmpty => (.truth (s.text == "" && s.values.isEmpty), s)
  | .display => (.text s.text, s)
  | .equals other => (.truth (s.equals other.rendering.sheet), s)

/-- The answers to requests, one after another. -/
def Rendering.answers (r : Rendering Value) : List RecordRequest → List RecordAnswer
  | [] => []
  | request :: rest => (r.answer request).1 :: (r.answer request).2.answers rest

/-- The answers to requests, one after another. -/
def Sheet.answers (s : Sheet) : List RecordRequest → List RecordAnswer
  | [] => []
  | request :: rest => (s.answer request).1 :: (s.answer request).2.answers rest

/-! ## Named values -/

namespace Entries

theorem find?_eq_lookup {α : Type} (name : String) (entries : Entries α) :
    find? name entries = entries.lookup name := by
  induction entries with
  | nil => rfl
  | cons entry rest ih =>
      obtain ⟨key, value⟩ := entry
      by_cases h : key = name
      · simp [find?, h]
      · have hName : (name == key) = false := beq_eq_false_iff_ne.2 (Ne.symm h)
        simp [find?, h, List.lookup_cons, hName, ih]

/-- A name that is there already keeps its place. -/
theorem insert_of_mem {α : Type} {name : String} {entries : Entries α} (h : name ∈ keys entries)
    (hDistinct : (keys entries).Nodup) (value : α) :
    entries.insert name value =
      entries.map fun entry => if entry.1 = name then (name, value) else entry := by
  induction entries with
  | nil => simp [keys] at h
  | cons entry rest ih =>
      obtain ⟨key, old⟩ := entry
      obtain ⟨hKey, hRest⟩ := List.nodup_cons.1 hDistinct
      by_cases hSame : key = name
      · subst hSame
        have hOthers : ∀ other ∈ rest, (if other.1 = key then (key, value) else other) = other := by
          intro other hOther
          rw [if_neg]
          intro hEq
          exact hKey (List.mem_map.2 ⟨other, hOther, hEq⟩)
        rw [insert, if_pos rfl, List.map_cons, if_pos rfl, List.map_congr_left hOthers,
          List.map_id']
      · have hMem : name ∈ keys rest := by
          rcases List.mem_cons.1 h with hEq | hMem
          · exact absurd hEq.symm hSame
          · exact hMem
        rw [insert, if_neg hSame, List.map_cons, if_neg hSame, ih hMem hRest]

end Entries

/-! ## Renderings and their sheets -/

/-- Folded, a rendering has all of its text in one place. -/
theorem Rendering.getD_body_fold (r : Rendering Value) : r.fold.body.getD "" = r.text := by
  have hText := r.text_fold
  rw [Rendering.text, r.pending_fold, String.append_empty] at hText
  exact hText

theorem Rendering.sheet_fold (r : Rendering Value) : r.fold.sheet = r.sheet := by
  have hAttributes : r.fold.attributes = r.attributes := by
    unfold Rendering.fold
    split <;> rfl
  rw [Rendering.sheet, Rendering.text_fold, hAttributes]
  rfl

theorem Rendering.sheet_start (text : Option String) :
    (Rendering.start text).sheet = Sheet.start text := by
  cases text with
  | none => rfl
  | some text => exact congrArg (Sheet.mk · []) (String.append_empty)

theorem Rendering.get?_sheet (r : Rendering Value) (name : String) :
    r.sheet.get? name = r.get? name := by
  unfold Sheet.get? Rendering.get?
  by_cases h : name = bodyName
  · rw [if_pos h, if_pos h]
    rfl
  · rw [if_neg h, if_neg h]
    exact (Entries.find?_eq_lookup name r.attributes).symm

theorem Rendering.isEmpty_sheet (r : Rendering Value) :
    r.isEmpty = (r.sheet.text == "" && r.sheet.values.isEmpty) := by
  have hText : (r.text == "") = ((r.body.getD "").isEmpty && r.pending.isEmpty) := by
    rw [Bool.eq_iff_iff]
    simp [Rendering.text]
  rw [Rendering.isEmpty, ← hText]
  rfl

/-- Setting a value under a name keeps the names different. -/
theorem Rendering.nodup_keys_insert {r : Rendering Value} (h : r.keys.Nodup) (name : String)
    (value : Value) : (r.insert name value).keys.Nodup := by
  obtain ⟨hBody, hNames⟩ := List.nodup_cons.1 h
  unfold Rendering.insert
  by_cases hName : name = bodyName
  · rw [if_pos hName]
    exact h
  · rw [if_neg hName]
    show (bodyName :: Entries.keys (Entries.insert name value r.attributes)).Nodup
    rw [Entries.keys_insert]
    by_cases hMem : name ∈ Entries.keys r.attributes
    · rw [if_pos hMem]
      exact h
    · rw [if_neg hMem, ← List.cons_append, List.nodup_append]
      refine ⟨h, List.nodup_singleton name, ?_⟩
      intro key hKey other hOther
      rw [List.mem_singleton.1 hOther]
      intro hSame
      rcases List.mem_cons.1 (hSame ▸ hKey) with hEq | hOld
      · exact hName hEq
      · exact hMem hOld

theorem Rendering.sheet_insert {r : Rendering Value} (h : r.keys.Nodup) (name : String)
    (value : Value) : (r.insert name value).sheet = r.sheet.insert name value := by
  have hNames : (Entries.keys r.attributes).Nodup := (List.nodup_cons.1 h).2
  unfold Rendering.insert Sheet.insert
  by_cases hName : name = bodyName
  · rw [if_pos hName, if_pos hName, Rendering.sheet, Rendering.text_setText]
    rfl
  · rw [if_neg hName, if_neg hName, Rendering.sheet, Rendering.text_set]
    by_cases hMem : name ∈ Entries.keys r.attributes
    · rw [if_pos (show name ∈ r.sheet.names from hMem)]
      exact congrArg (Sheet.mk r.text) (Entries.insert_of_mem hMem hNames value)
    · rw [if_neg (show ¬ name ∈ r.sheet.names from hMem)]
      exact congrArg (Sheet.mk r.text) (Entries.insert_of_notMem hMem value)

/-! ## Equality -/

/-- The values on the left have equal ones on the right. -/
theorem Value.equalEntries_eq_true {right left : List (String × Value)} :
    Value.equalEntries right left = true ↔
      ∀ entry ∈ left, ∃ twin, right.lookup entry.1 = some twin ∧ entry.2.equals twin = true := by
  induction left with
  | nil => simp [Value.equalEntries]
  | cons entry rest ih =>
      obtain ⟨name, value⟩ := entry
      rw [Value.equalEntries, Bool.and_eq_true, ih, List.forall_mem_cons, Entries.find?_eq_lookup]
      cases right.lookup name with
      | none => simp
      | some twin => simp

theorem Sheet.agreeOn_eq_true {s other : Sheet} {name : String} :
    s.agreeOn other name = true ↔ ∃ value twin, s.values.lookup name = some value ∧
      other.values.lookup name = some twin ∧ value.equals twin = true := by
  unfold Sheet.agreeOn
  cases s.values.lookup name <;> cases other.values.lookup name <;> simp

/-- A name is among those of the entries when a value is found under it. -/
theorem Entries.mem_keys_of_lookup {entries : Entries Value} {name : String} {value : Value}
    (h : entries.lookup name = some value) : name ∈ Entries.keys entries := by
  obtain ⟨before, after, hSplit, -⟩ := List.lookup_eq_some_iff.1 h
  simp [Entries.keys, hSplit]

/-- Under different names, what stands among the entries is what is found. -/
theorem Entries.lookup_of_mem {entries : Entries Value} (hDistinct : (Entries.keys entries).Nodup)
    {name : String} {value : Value} (h : (name, value) ∈ entries) :
    entries.lookup name = some value := by
  obtain ⟨before, after, rfl⟩ := List.append_of_mem h
  refine List.lookup_eq_some_iff.2 ⟨before, after, rfl, ?_⟩
  intro entry hEntry
  rw [Entries.keys, List.map_append, List.map_cons, List.nodup_append] at hDistinct
  have hNe := hDistinct.2.2 entry.1 (List.mem_map_of_mem hEntry) name (List.mem_cons_self ..)
  simpa using Ne.symm hNe

/-- Entries under as many names on both sides, each with an equal one on the right, are entries that
agree under all names of both sides. -/
theorem Sheet.all_agreeOn {s other : Sheet} (h : s.names.Nodup) (hOther : other.names.Nodup) :
    (s.names ++ other.names).all (s.agreeOn other) =
      (s.values.length == other.values.length && Value.equalEntries other.values s.values) := by
  rw [Bool.eq_iff_iff, List.all_eq_true, Bool.and_eq_true, beq_iff_eq, Value.equalEntries_eq_true]
  have hLength : s.values.length = s.names.length := (List.length_map ..).symm
  have hLengthOther : other.values.length = other.names.length := (List.length_map ..).symm
  constructor
  · intro hAgree
    have hFound {name : String} (hName : name ∈ s.names ++ other.names) :
        name ∈ s.names ∧ name ∈ other.names := by
      obtain ⟨value, twin, hLeft, hRight, -⟩ := Sheet.agreeOn_eq_true.1 (hAgree name hName)
      exact ⟨Entries.mem_keys_of_lookup hLeft, Entries.mem_keys_of_lookup hRight⟩
    constructor
    · rw [hLength, hLengthOther]
      have hPerm : s.names.Perm other.names := (List.perm_ext_iff_of_nodup h hOther).2 fun name =>
        ⟨fun hName => (hFound (List.mem_append_left _ hName)).2,
          fun hName => (hFound (List.mem_append_right _ hName)).1⟩
      exact hPerm.length_eq
    · intro entry hEntry
      have hName : entry.1 ∈ s.names := List.mem_map_of_mem hEntry
      obtain ⟨value, twin, hLeft, hRight, hEqual⟩ :=
        Sheet.agreeOn_eq_true.1 (hAgree entry.1 (List.mem_append_left _ hName))
      rw [Entries.lookup_of_mem h hEntry] at hLeft
      exact ⟨twin, hRight, Option.some.inj hLeft ▸ hEqual⟩
  · rintro ⟨hSame, hEqual⟩
    have hAgree : ∀ name ∈ s.names, s.agreeOn other name = true := by
      intro name hName
      obtain ⟨⟨key, value⟩, hEntry, rfl⟩ := List.mem_map.1 hName
      obtain ⟨twin, hRight, hTwin⟩ := hEqual _ hEntry
      exact Sheet.agreeOn_eq_true.2 ⟨value, twin, Entries.lookup_of_mem h hEntry, hRight, hTwin⟩
    have hSubset : s.names ⊆ other.names := by
      intro name hName
      obtain ⟨value, twin, -, hRight, -⟩ := Sheet.agreeOn_eq_true.1 (hAgree name hName)
      exact Entries.mem_keys_of_lookup hRight
    have hPerm : s.names.Perm other.names :=
      (List.subperm_of_subset h hSubset).perm_of_length_le (by omega)
    intro name hName
    rcases List.mem_append.1 hName with hLeft | hRight
    · exact hAgree name hLeft
    · exact hAgree name (hPerm.mem_iff.2 hRight)

/-- Renderings are equal when their sheets are. -/
theorem Rendering.equals_sheet {r other : Rendering Value} (h : r.keys.Nodup)
    (hOther : other.keys.Nodup) (mark twinMark : Mark) :
    (Value.rendering r mark).equals (.rendering other twinMark) = r.sheet.equals other.sheet := by
  have hNames : r.sheet.names.Nodup := (List.nodup_cons.1 h).2
  have hOtherNames : other.sheet.names.Nodup := (List.nodup_cons.1 hOther).2
  rw [Sheet.equals, Sheet.all_agreeOn hNames hOtherNames]
  rfl

/-! ## Answers -/

/-- A request gets the same answer from a rendering and from its sheet, and does the same to
both. -/
theorem Rendering.sheet_answer {r : Rendering Value} (h : r.keys.Nodup) (request : RecordRequest) :
    (r.answer request).1 = (r.sheet.answer request).1 ∧
      (r.answer request).2.sheet = (r.sheet.answer request).2 := by
  cases request with
  | push text => exact ⟨rfl, congrArg (Sheet.mk · r.attributes) (r.text_push text)⟩
  | fold => exact ⟨rfl, r.sheet_fold⟩
  | insert name value => exact ⟨rfl, sheet_insert h name value⟩
  | body => exact ⟨congrArg RecordAnswer.text r.getD_body_fold, r.sheet_fold⟩
  | get name =>
      refine ⟨congrArg RecordAnswer.value (r.get?_sheet name).symm, ?_⟩
      show (if name = bodyName then r.fold else r).sheet = r.sheet
      split
      · exact r.sheet_fold
      · rfl
  | peek name => exact ⟨congrArg RecordAnswer.value (r.get?_sheet name).symm, rfl⟩
  | snapshot => exact ⟨congrArg RecordAnswer.copy r.sheet_fold, r.sheet_fold⟩
  | intoBody => exact ⟨congrArg RecordAnswer.text r.getD_body_fold, rfl⟩
  | keys => exact ⟨rfl, rfl⟩
  | isEmpty => exact ⟨congrArg RecordAnswer.truth r.isEmpty_sheet, rfl⟩
  | display => exact ⟨rfl, rfl⟩
  | equals other =>
      exact ⟨congrArg RecordAnswer.truth (equals_sheet h other.distinct none none), rfl⟩

/-- No request makes two names the same. -/
theorem Rendering.nodup_keys_answer {r : Rendering Value} (h : r.keys.Nodup)
    (request : RecordRequest) :
    (r.answer request).2.keys.Nodup := by
  have hFold : r.fold.keys = r.keys := congrArg (bodyName :: Sheet.names ·) r.sheet_fold
  cases request with
  | insert name value => exact nodup_keys_insert h name value
  | fold => exact hFold ▸ h
  | body => exact hFold ▸ h
  | snapshot => exact hFold ▸ h
  | get name =>
      show (if name = bodyName then r.fold else r).keys.Nodup
      split
      · exact hFold ▸ h
      · exact h
  | _ => exact h

theorem Rendering.answers_sheet {r : Rendering Value} (h : r.keys.Nodup)
    (requests : List RecordRequest) : r.answers requests = r.sheet.answers requests := by
  induction requests generalizing r with
  | nil => rfl
  | cons request rest ih =>
      obtain ⟨hAnswer, hAfter⟩ := sheet_answer h request
      rw [Rendering.answers, Sheet.answers, hAnswer, ih (nodup_keys_answer h request), hAfter]

theorem Rendering.nodup_keys_start (text : Option String) : (start text).keys.Nodup := by
  cases text <;> exact List.nodup_singleton bodyName

/-- A read leaves a sheet as it is. -/
theorem Sheet.answer_of_isRead {request : RecordRequest} (h : request.isRead = true) (s : Sheet) :
    (s.answer request).2 = s := by
  cases request <;> first | rfl | cases h

theorem Sheet.length_answers (s : Sheet) (requests : List RecordRequest) :
    (s.answers requests).length = requests.length := by
  induction requests generalizing s with
  | nil => rfl
  | cons request rest ih => exact congrArg (· + 1) (ih _)

theorem Sheet.exists_answers_append (s : Sheet) (requests : List RecordRequest) :
    ∃ after : Sheet, ∀ others,
      s.answers (requests ++ others) = s.answers requests ++ after.answers others := by
  induction requests generalizing s with
  | nil => exact ⟨s, fun _ => rfl⟩
  | cons request rest ih =>
      obtain ⟨after, hAfter⟩ := ih (s.answer request).2
      exact ⟨after, fun others => congrArg (_ :: ·) (hAfter others)⟩

/-- All requests in a row get the answers of a sheet, which has no buffer. A request that only reads
is answered, and all others are answered as they are without it. -/
theorem answers_do_not_tell_folding (text : Option String) :
    (∀ requests, (Rendering.start text).answers requests = (Sheet.start text).answers requests) ∧
    ∀ (before : List RecordRequest) (read : RecordRequest) (after : List RecordRequest),
      read.isRead = true →
      ∃ earlier answer later, earlier.length = before.length ∧
        (Rendering.start text).answers (before ++ read :: after) = earlier ++ answer :: later ∧
        (Rendering.start text).answers (before ++ after) = earlier ++ later := by
  have hAnswers (requests : List RecordRequest) :
      (Rendering.start text).answers requests = (Sheet.start text).answers requests := by
    rw [Rendering.answers_sheet (Rendering.nodup_keys_start text), Rendering.sheet_start]
  constructor
  · exact hAnswers
  · intro before read after hRead
    obtain ⟨s, hAppend⟩ := (Sheet.start text).exists_answers_append before
    refine ⟨(Sheet.start text).answers before, (s.answer read).1, s.answers after,
      Sheet.length_answers _ before, ?_, ?_⟩
    · rw [hAnswers, hAppend, Sheet.answers, Sheet.answer_of_isRead hRead]
    · rw [hAnswers, hAppend]

/-- Asking for the text between two insertions does not keep a draft alive. -/
theorem draft_is_replaced :
    ∃ earlier answer later, earlier.length = 2 ∧
      (Rendering.start none).answers [.push "draft", .insert "title" (.ofString "Home"), .body,
        .insert bodyName (.ofString "final"), .push "!", .display] = earlier ++ answer :: later ∧
      (Rendering.start none).answers [.push "draft", .insert "title" (.ofString "Home"),
        .insert bodyName (.ofString "final"), .push "!", .display] = earlier ++ later :=
  (answers_do_not_tell_folding none).2 [.push "draft", .insert "title" (.ofString "Home")] .body
    [.insert bodyName (.ofString "final"), .push "!", .display] rfl

end Stencil
