import Stencil.Proofs.Ensuring
import Stencil.Proofs.Writing.Values
import Stencil.Evaluation

/-!
# The code of a value gives the value back

The text of plain data as source code is an expression, and wherever it is evaluated its value is
the same data: the same types, the same items, and the same names in the same order. Only the marks
are new, since an expression makes new values.

## Main results

* `Value.IsPlain.evaluate_expression`: the expression of a value has the data of the value.
* `Value.equals_of_unmarked`: values with the same data are equal.
* `Value.code_reads_back`: the code of a value is read and evaluated to the same data.
-/

namespace Stencil

open Stencil.Text Stencil.Number

namespace Value

/-! ## Data without marks -/

mutual

/-- Plain data without its marks. -/
def unmarked : Value → Value
  | string text _ => .string text .none
  | list ⟨items⟩ _ => .list ⟨unmarkedItems items⟩ .none
  | dict entries _ => .dict (unmarkedEntries entries) .none
  | value => value

/-- Items without their marks. -/
def unmarkedItems : List Value → List Value
  | [] => []
  | item :: rest => item.unmarked :: unmarkedItems rest

/-- Entries without their marks. -/
def unmarkedEntries : List (String × Value) → List (String × Value)
  | [] => []
  | (name, value) :: rest => (name, value.unmarked) :: unmarkedEntries rest

end

theorem unmarkedItems_eq (items : List Value) : unmarkedItems items = items.map unmarked := by
  induction items with
  | nil => rfl
  | cons item rest ih => rw [unmarkedItems, ih, List.map_cons]

theorem unmarkedEntries_eq (entries : List (String × Value)) :
    unmarkedEntries entries = entries.map fun entry => (entry.1, entry.2.unmarked) := by
  induction entries with
  | nil => rfl
  | cons entry rest ih => rw [unmarkedEntries, ih, List.map_cons]

/-- The value has the same data as another one, and its marks. -/
structure IsCopy (original value : Value) : Prop where
  data : value.unmarked = original.unmarked
  settled : value.isSettled = true

theorem settleEntries_of_isSettled {entries : List (String × Value)}
    (h : ∀ entry ∈ entries, entry.2.isSettled = true) (next : Nat)
    (done : List (String × Value)) :
    settleEntries next done entries = (done.reverse ++ entries, next) := by
  induction entries generalizing done with
  | nil => simp [settleEntries]
  | cons entry rest ih =>
      obtain ⟨hEntry, hRest⟩ := List.forall_mem_cons.1 h
      rw [settleEntries, settle_of_isSettled hEntry]
      refine (ih hRest _).trans ?_
      rw [List.reverse_cons, List.append_assoc]
      rfl

/-! ## Evaluation -/

section Evaluation

variable (services : Services) (scene : Scene) (out : Rendering Value) (setting : Setting)

variable {setting} in
/-- What settling a value stores. -/
theorem run_settle_eq {value settled : Value} {store : Store} {next : Nat}
    (h : value.settle store.nextMark = (settled, next)) :
    Run.settle value setting store = .ok settled { store with nextMark := next } := by
  show EStateM.Result.ok (value.settle store.nextMark).1
    { store with nextMark := (value.settle store.nextMark).2 } = _
  rw [h]

/-- Items with expressions that have their data, one after another. -/
theorem evaluateAll_copies {items : List Value}
    (h : ∀ item ∈ items, ∀ store, ∃ result after,
      item.expression.evaluate services scene out setting store = .ok result after ∧
        IsCopy item result) (store : Store) :
    ∃ results after, Expr.evaluateAll services scene out (items.map expression) setting store =
      .ok results after ∧ results.map unmarked = items.map unmarked ∧
        ∀ result ∈ results, result.isSettled = true := by
  induction items generalizing store with
  | nil => exact ⟨[], store, rfl, rfl, by simp⟩
  | cons item rest ih =>
      obtain ⟨hItem, hRest⟩ := List.forall_mem_cons.1 h
      obtain ⟨result, middle, hResult, hCopy⟩ := hItem store
      obtain ⟨results, after, hResults, hData, hSettled⟩ := ih hRest middle
      refine ⟨result :: results, after, ?_, ?_, List.forall_mem_cons.2 ⟨hCopy.settled, hSettled⟩⟩
      · rw [List.map_cons, Expr.evaluateAll, Run.bind_of_eq_ok hResult, Run.bind_of_eq_ok hResults]
        rfl
      · rw [List.map_cons, List.map_cons, hCopy.data, hData]

/-- Entries with expressions that have their data: each new name comes last. -/
theorem evaluateEntries_copies {entries : List (String × Value)}
    (h : ∀ entry ∈ entries, ∀ store, ∃ result after,
      entry.2.expression.evaluate services scene out setting store = .ok result after ∧
        IsCopy entry.2 result) (hNames : (entries.map Prod.fst).Nodup) (done : Entries Value)
    (hDone : ∀ entry ∈ entries, entry.1 ∉ done.keys) (store : Store) :
    ∃ results after, Expr.evaluateEntries services scene out done
        (entries.map fun entry => (.literal (.string entry.1), entry.2.expression)) setting store =
      .ok (done ++ results) after ∧
        unmarkedEntries results = unmarkedEntries entries ∧
          ∀ result ∈ results, result.2.isSettled = true := by
  induction entries generalizing done store with
  | nil => exact ⟨[], store, by rw [List.append_nil]; rfl, rfl, by simp⟩
  | cons entry rest ih =>
      obtain ⟨name, value⟩ := entry
      obtain ⟨hEntry, hRest⟩ := List.forall_mem_cons.1 h
      obtain ⟨hNew, hNewRest⟩ := List.forall_mem_cons.1 hDone
      rw [List.map_cons, List.nodup_cons] at hNames
      have hKey : Expr.evaluate services scene out (.literal (.string name)) setting store =
          .ok (.string name (some store.nextMark)) { store with nextMark := store.nextMark + 1 } :=
        rfl
      obtain ⟨result, middle, hResult, hCopy⟩ :=
        hEntry { store with nextMark := store.nextMark + 1 }
      have hInsert : done.insert name result = done ++ [(name, result)] :=
        Entries.insert_of_notMem hNew result
      have hDoneNext : ∀ entry ∈ rest, entry.1 ∉ Entries.keys (done ++ [(name, result)]) := by
        intro entry hMem hKeys
        rw [Entries.keys, List.map_append, List.mem_append] at hKeys
        rcases hKeys with hOld | hSame
        · exact hNewRest entry hMem hOld
        · rw [List.map_singleton, List.mem_singleton] at hSame
          exact hNames.1 (hSame ▸ List.mem_map_of_mem hMem)
      obtain ⟨results, after, hResults, hData, hSettled⟩ :=
        ih hRest hNames.2 (done ++ [(name, result)]) hDoneNext middle
      refine ⟨(name, result) :: results, after, ?_, ?_,
        List.forall_mem_cons.2 ⟨hCopy.settled, hSettled⟩⟩
      · rw [List.map_cons, Expr.evaluateEntries, Run.bind_of_eq_ok hKey, Run.bind_of_eq_ok hResult]
        show Expr.evaluateEntries services scene out (done.insert name result) _ setting middle = _
        rw [hInsert, hResults, List.append_assoc]
        rfl
      · rw [unmarkedEntries, unmarkedEntries, hCopy.data, hData]

theorem apply_negative {i : Int64} (h : i ≠ Int64.minValue) :
    UnaryOp.negative.apply (.int (-i)) = .ok (.int i) := by
  have hBack : exactInt64? (-(-i).toInt) = some i := by
    rw [exactInt64?_eq_some_iff, toInt_neg_of_ne h, Int.neg_neg]
  show Value.int <$> fitInt (-(-i).toInt) = _
  rw [fitInt, hBack]
  rfl

/-- The expression of a plain value has the data of the value, wherever it is evaluated. -/
theorem IsPlain.evaluate_expression {value : Value} (h : value.IsPlain) (store : Store) :
    ∃ result after, value.expression.evaluate services scene out setting store = .ok result after ∧
      IsCopy value result := by
  induction h generalizing store with
  | none => exact ⟨.none, store, rfl, rfl, rfl⟩
  | bool b => exact ⟨.bool b, store, rfl, rfl, rfl⟩
  | @int i h =>
      refine ⟨.int i, store, ?_, rfl, rfl⟩
      rw [expression]
      split
      · have hOperand : Expr.evaluate services scene out (.literal (.int (-i))) setting store =
            .ok (.int (-i)) store := rfl
        rw [Expr.evaluate, Run.bind_of_eq_ok hOperand, apply_negative h]
        rfl
      · rfl
  | string text mark => exact ⟨_, _, rfl, rfl, rfl⟩
  | @list items mark h ih =>
      obtain ⟨results, after, hResults, hData, hSettled⟩ :=
        evaluateAll_copies services scene out setting ih store
      have hSettle : (Value.ofList results).settle after.nextMark =
          (.list ⟨results⟩ (some after.nextMark), after.nextMark + 1) := by
        have hAll : (⟨results⟩ : Array Value).all isSettled = true := by simpa using hSettled
        show (Value.list ⟨results⟩ Option.none).settle after.nextMark = _
        rw [settle, if_pos hAll]
      refine ⟨.list ⟨results⟩ (some after.nextMark), { after with nextMark := after.nextMark + 1 },
        ?_, ?_, rfl⟩
      · rw [expression, itemExpressions_eq, Expr.evaluate, Run.bind_of_eq_ok hResults]
        exact run_settle_eq hSettle
      · rw [unmarked, unmarked, unmarkedItems_eq, unmarkedItems_eq, hData]
  | @dict entries mark h hNames ih =>
      obtain ⟨results, after, hResults, hData, hSettled⟩ :=
        evaluateEntries_copies services scene out setting ih hNames []
          (by simp [Entries.keys]) store
      have hSettle : (Value.ofEntries results).settle after.nextMark =
          (.dict results (some after.nextMark), after.nextMark + 1) := by
        show (Value.dict results Option.none).settle after.nextMark = _
        rw [settle, settleEntries_of_isSettled hSettled]
        rfl
      refine ⟨.dict results (some after.nextMark), { after with nextMark := after.nextMark + 1 },
        ?_, ?_, rfl⟩
      · rw [expression, entryExpressions_eq, Expr.evaluate, Run.bind_of_eq_ok hResults]
        exact run_settle_eq hSettle
      · rw [unmarked, unmarked, hData]

end Evaluation

/-! ## Equality -/

theorem equalItems_of_unmarked {originals : List Value}
    (h : ∀ original ∈ originals, ∀ value : Value, value.unmarked = original.unmarked →
      value.equals original = true) {values : List Value}
    (hData : values.map unmarked = originals.map unmarked) :
    equalItems values originals = true := by
  induction originals generalizing values with
  | nil =>
      rw [List.map_nil, List.map_eq_nil_iff] at hData
      rw [hData]
      rfl
  | cons original rest ih =>
      obtain ⟨hOriginal, hRest⟩ := List.forall_mem_cons.1 h
      cases values with
      | nil => cases hData
      | cons value others =>
          rw [List.map_cons, List.map_cons, List.cons_eq_cons] at hData
          rw [equalItems, hOriginal value hData.1, ih hRest hData.2]
          rfl

theorem find?_of_mem {name : String} {value : Value} {entries : List (String × Value)}
    (hNames : (entries.map Prod.fst).Nodup) (h : (name, value) ∈ entries) :
    Entries.find? name entries = some value := by
  induction entries with
  | nil => cases h
  | cons entry rest ih =>
      rw [List.map_cons, List.nodup_cons] at hNames
      rw [Entries.find?]
      rcases List.mem_cons.1 h with hSame | hRest
      · rw [← hSame, if_pos rfl]
      · have hOther : entry.1 ≠ name := fun hEq =>
          hNames.1 (hEq ▸ List.mem_map_of_mem hRest)
        rw [if_neg hOther, ih hNames.2 hRest]

/-- Each entry finds its own name in a dictionary with the same data. -/
theorem equalEntries_of_unmarked {originals : List (String × Value)}
    (h : ∀ original ∈ originals, ∀ value : Value, value.unmarked = original.2.unmarked →
      value.equals original.2 = true) (hNames : (originals.map Prod.fst).Nodup)
    {values part : List (String × Value)} (hPart : ∀ original ∈ part, original ∈ originals)
    (hData : unmarkedEntries values = unmarkedEntries part) :
    equalEntries originals values = true := by
  induction part generalizing values with
  | nil =>
      cases values with
      | nil => rfl
      | cons value others => cases hData
  | cons original rest ih =>
      obtain ⟨hOriginal, hRest⟩ := List.forall_mem_cons.1 hPart
      cases values with
      | nil => cases hData
      | cons value others =>
          obtain ⟨name, content⟩ := value
          rw [unmarkedEntries, unmarkedEntries, List.cons_eq_cons, Prod.mk.injEq] at hData
          obtain ⟨⟨rfl, hContent⟩, hOthers⟩ := hData
          rw [equalEntries, find?_of_mem hNames hOriginal, ih hRest hOthers, Bool.and_true]
          exact h original hOriginal content hContent

theorem length_of_unmarkedEntries {values originals : List (String × Value)}
    (h : unmarkedEntries values = unmarkedEntries originals) :
    values.length = originals.length := by
  have hLength := congrArg List.length h
  rwa [unmarkedEntries_eq, unmarkedEntries_eq, List.length_map, List.length_map] at hLength

/-- A value that differs from plain data in its marks only is equal to it. -/
theorem IsPlain.equals_of_unmarked {original : Value} (h : original.IsPlain) {value : Value}
    (hData : value.unmarked = original.unmarked) : value.equals original = true := by
  induction h generalizing value with
  | none =>
      cases value <;> cases hData
      rfl
  | bool b =>
      cases value <;> cases hData
      cases b <;> rfl
  | int h =>
      cases value <;> cases hData
      exact beq_self_eq_true (_ : Int64)
  | string text mark =>
      cases value <;> cases hData
      exact beq_self_eq_true text
  | list h ih =>
      cases value with
      | list items mark =>
          obtain ⟨items⟩ := items
          rw [unmarked, unmarked, unmarkedItems_eq, unmarkedItems_eq] at hData
          exact equalItems_of_unmarked (fun item hItem value => ih item hItem)
            (congrArg Array.toList (Value.list.inj hData).1)
      | _ => cases hData
  | dict h hNames ih =>
      cases value with
      | dict entries mark =>
          rw [unmarked, unmarked] at hData
          have hEntries := (Value.dict.inj hData).1
          rw [equals]
          show (entries.length == _ && equalEntries _ entries) = true
          rw [length_of_unmarkedEntries hEntries, beq_self_eq_true, Bool.true_and]
          exact equalEntries_of_unmarked (fun entry hEntry value => ih entry hEntry) hNames
            (fun _ hMem => hMem) hEntries
      | _ => cases hData

/-! ## Strings -/

/-- A text in quotes is one token. -/
theorem strictTokens_quoteText (text : String) :
    strictTokens (quoteText text).toList = .ok [⟨.string, (quoteText text).toList, 0⟩] := by
  have hConstant : (Literal.string text).IsWritable := trivial
  have hTokens := Expr.strictTokens_write (.literal hConstant)
  rw [write_string] at hTokens
  rw [toList_quoteText, hTokens, Expr.words]
  rfl

/-- The code of a plain value is read, and evaluating it anywhere gives the same data, equal to the
value. The code of a string is one token, which stands for the string. -/
theorem code_reads_back {value : Value} (h : value.IsPlain) :
    (∃ expr, Expr.read value.code.toList = .ok expr ∧
      ∀ (services : Services) (scene : Scene) (out : Rendering Value) (setting : Setting)
        (store : Store), ∃ result after,
          expr.evaluate services scene out setting store = .ok result after ∧
            result.unmarked = value.unmarked ∧ result.equals value = true) ∧
    ∀ text mark, value = .string text mark →
      strictTokens value.code.toList = .ok [⟨.string, value.code.toList, 0⟩] ∧
        decodeString value.code.toList = .ok text.toList := by
  refine ⟨⟨value.expression, ?_, fun services scene out setting store => ?_⟩, ?_⟩
  · rw [h.toList_code, Expr.read, Reader.run_eq_ok
      (Expr.strictTokens_write h.isWritable_expression)]
    exact Expr.readTuple_write h.isWritable_expression
  · obtain ⟨result, after, hResult, hCopy⟩ :=
      h.evaluate_expression services scene out setting store
    exact ⟨result, after, hResult, hCopy.data, h.equals_of_unmarked hCopy.data⟩
  · rintro text mark rfl
    have hCode : (Value.string text mark).code = quoteText text := rfl
    rw [hCode]
    refine ⟨strictTokens_quoteText text, ?_⟩
    rw [toList_quoteText, decodeString_quoteChars]

/-- A dictionary with a list that holds an integer below zero, a quote and a truth value. -/
def sampleData : Value :=
  .ofEntries [("it's", .ofList [.int (-3), .ofString "\"\n", .bool true])]

theorem sampleData_isPlain : sampleData.IsPlain := by
  have hItems : (Value.ofList [.int (-3), .ofString "\"\n", .bool true]).IsPlain := by
    refine .list (List.forall_mem_cons.2 ⟨.int (by decide), ?_⟩)
    exact List.forall_mem_cons.2 ⟨.string .., List.forall_mem_singleton.2 (.bool true)⟩
  exact .dict (List.forall_mem_singleton.2 hItems) (by simp)

theorem sampleData_reads_back :
    sampleData.code = "\x7b\"it's\": [-3, '\"\\n', True]\x7d" ∧
    ∃ expr, Expr.read sampleData.code.toList = .ok expr ∧
      ∀ (services : Services) (scene : Scene) (out : Rendering Value) (setting : Setting)
        (store : Store), ∃ result after,
          expr.evaluate services scene out setting store = .ok result after ∧
            result.unmarked = sampleData.unmarked ∧ result.equals sampleData = true :=
  ⟨by decide +kernel, (code_reads_back sampleData_isPlain).1⟩

end Value

end Stencil
