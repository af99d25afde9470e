import Stencil.Proofs.Writing.Reading
import Stencil.Value.Compare

/-!
# Values as expressions

Plain data has an expression: constants, lists and dictionaries in brackets, and a sign before the
integers below zero. The text of the value as source code is the text of that expression.

## Main results

* `Value.toList_code`: the code of a plain value is its expression, written.
* `Value.IsPlain.isWritable_expression`: the expression can be written.
-/

namespace Stencil

open Stencil.Text Stencil.Number

namespace Value

/-- Plain data: constants, lists, and dictionaries whose names differ. No expression stands for the
least integer, whose magnitude is too large, and none for floats. -/
inductive IsPlain : Value → Prop
  | none : IsPlain .none
  | bool (b : Bool) : IsPlain (.bool b)
  | int {i : Int64} (h : i ≠ Int64.minValue) : IsPlain (.int i)
  | string (text : String) (mark : Mark) : IsPlain (.string text mark)
  | list {items : List Value} {mark : Mark} (h : ∀ item ∈ items, IsPlain item) :
      IsPlain (.list ⟨items⟩ mark)
  | dict {entries : List (String × Value)} {mark : Mark} (h : ∀ entry ∈ entries, IsPlain entry.2)
      (hNames : (entries.map Prod.fst).Nodup) : IsPlain (.dict entries mark)

mutual

/-- The expression of a plain value. -/
def expression : Value → Expr
  | bool b => .literal (.bool b)
  | int i => if i.toInt < 0 then .unary .negative (.literal (.int (-i))) else .literal (.int i)
  | string text _ => .literal (.string text)
  | list ⟨items⟩ _ => .list (itemExpressions items)
  | dict entries _ => .dict (entryExpressions entries)
  | _ => .literal .none

/-- The expressions of items. -/
def itemExpressions : List Value → List Expr
  | [] => []
  | item :: rest => item.expression :: itemExpressions rest

/-- The expressions of entries. -/
def entryExpressions : List (String × Value) → List (Expr × Expr)
  | [] => []
  | (name, value) :: rest => (.literal (.string name), value.expression) :: entryExpressions rest

end

theorem itemExpressions_eq (items : List Value) : itemExpressions items = items.map expression := by
  induction items with
  | nil => rfl
  | cons item rest ih => rw [itemExpressions, ih, List.map_cons]

theorem entryExpressions_eq (entries : List (String × Value)) :
    entryExpressions entries =
      entries.map fun entry => (.literal (.string entry.1), entry.2.expression) := by
  induction entries with
  | nil => rfl
  | cons entry rest ih => rw [entryExpressions, ih, List.map_cons]

/-! ## The expression can be written -/

/-- The magnitude of an integer below zero, unless it is the least one. -/
theorem toInt_neg_of_ne {i : Int64} (h : i ≠ Int64.minValue) : (-i).toInt = -i.toInt := by
  have hLow := Int64.le_toInt i
  have hHigh := Int64.toInt_lt i
  have hLeast : i.toInt ≠ -2 ^ 63 := fun hEq =>
    h (Int64.toInt_inj.1 (hEq.trans Int64.toInt_minValue.symm))
  rw [Int64.toInt_neg]
  exact Int.bmod_eq_of_le (by omega) (by omega)

theorem IsPlain.isWritable_expression {value : Value} (h : value.IsPlain) :
    value.expression.IsWritable := by
  induction h with
  | none => exact .literal trivial
  | bool b => exact .literal trivial
  | @int i h =>
      rw [expression]
      split
      · have hMagnitude : 0 ≤ (-i).toInt := by
          rw [toInt_neg_of_ne h]
          omega
        exact .unary (.literal hMagnitude)
      · rename_i hSign
        exact .literal (Int.not_lt.1 hSign)
  | string text mark => exact .literal trivial
  | list h ih =>
      rw [expression, itemExpressions_eq]
      exact .list (List.forall_mem_map.2 ih)
  | dict h hNames ih =>
      rw [expression, entryExpressions_eq]
      exact .dict (List.forall_mem_map.2 fun _ _ => .literal trivial) (List.forall_mem_map.2 ih)

/-! ## The code is the written expression -/

theorem groups_eq (items : List Expr) : Expr.groups items = items.map Expr.words := by
  induction items with
  | nil => rfl
  | cons item rest ih => rw [Expr.groups, ih, List.map_cons]

theorem entryGroups_eq (entries : List (Expr × Expr)) : Expr.entryGroups entries =
    entries.map fun entry => entry.1.words ++ .operator ":" :: .space :: entry.2.words := by
  induction entries with
  | nil => rfl
  | cons entry rest ih => rw [Expr.entryGroups, ih, List.map_cons]

/-- Groups with commas between them are written as their texts with commas between these. -/
theorem writeWords_commaSeparated (groups : List (List Word)) :
    writeWords (commaSeparated groups) = [',', ' '].intercalate (groups.map writeWords) := by
  induction groups with
  | nil => rfl
  | cons group rest ih =>
      cases rest with
      | nil => simp [commaSeparated]
      | cons next others =>
          rw [commaSeparated_cons _ (List.cons_ne_nil next others), writeWords_append,
            writeWords_cons, writeWords_cons, ih, List.map_cons, List.map_cons, List.map_cons,
            List.intercalate_cons_cons, List.append_assoc]
          rfl

theorem toList_quoteText (text : String) : (quoteText text).toList = quoteChars text.toList := by
  rw [quoteText, String.toList_ofList]

theorem toList_intercalate_code (texts : List String) :
    (", ".intercalate texts).toList = [',', ' '].intercalate (texts.map String.toList) :=
  String.toList_intercalate

theorem write_list (items : List Expr) : (Expr.list items).write =
    '[' :: ([',', ' '].intercalate (items.map Expr.write) ++ [']']) := by
  have hWords : (Expr.list items).words =
      .opening '[' :: commaSeparated (Expr.groups items) ++ [.closing ']'] := by rw [Expr.words]
  have hItems : (Expr.groups items).map writeWords = items.map Expr.write := by
    rw [groups_eq, List.map_map]
    rfl
  rw [Expr.write, hWords, writeWords_append, writeWords_cons, writeWords_commaSeparated, hItems]
  rfl

theorem write_dict (entries : List (Expr × Expr)) : (Expr.dict entries).write =
    '\x7b' :: ([',', ' '].intercalate
      (entries.map fun entry => entry.1.write ++ ':' :: ' ' :: entry.2.write) ++ ['\x7d']) := by
  have hWords : (Expr.dict entries).words = .opening '\x7b' ::
      commaSeparated (Expr.entryGroups entries) ++ [.closing '\x7d'] := by rw [Expr.words]
  have hEntries : (Expr.entryGroups entries).map writeWords =
      entries.map fun entry => entry.1.write ++ ':' :: ' ' :: entry.2.write := by
    rw [entryGroups_eq, List.map_map]
    exact List.map_congr_left fun entry _ => writeWords_append ..
  rw [Expr.write, hWords, writeWords_append, writeWords_cons, writeWords_commaSeparated, hEntries]
  rfl

theorem write_string (text : String) :
    (Expr.literal (.string text)).write = quoteChars text.toList := by
  rw [Expr.write, Expr.words]
  exact List.append_nil _

theorem write_int (i : Int64) : (Expr.literal (.int i)).write = decimalText i.toInt := by
  rw [Expr.write, Expr.words]
  exact List.append_nil _

/-- The sign of an integer below zero is written as the operator. -/
theorem write_negative {i : Int64} (h : i ≠ Int64.minValue) (hSign : i.toInt < 0) :
    (Expr.unary .negative (.literal (.int (-i)))).write = decimalText i.toInt := by
  have hMagnitude : (-i).toInt.natAbs = i.toInt.natAbs := by
    rw [toInt_neg_of_ne h, Int.natAbs_neg]
  have hPositive : ¬ (-i).toInt < 0 := by
    rw [toInt_neg_of_ne h]
    exact Int.not_lt.2 (Int.neg_nonneg.2 (Int.le_of_lt hSign))
  have hOperand : (Expr.unary .negative (.literal (.int (-i)))).write =
      '-' :: (Expr.literal (.int (-i))).write := by
    rw [Expr.write, Expr.words]
    rfl
  rw [hOperand, write_int, decimalText, decimalText, if_pos hSign, if_neg hPositive, hMagnitude]

theorem code_int (i : Int64) : (Value.int i).code.toList = decimalText i.toInt := by
  have hCode : (Value.int i).code = String.ofList (decimalText i.toInt) := rfl
  rw [hCode, String.toList_ofList]

/-- The code of a plain value is its expression, written. -/
theorem IsPlain.toList_code {value : Value} (h : value.IsPlain) :
    value.code.toList = value.expression.write := by
  induction h with
  | none => rfl
  | bool b => cases b <;> rfl
  | @int i h =>
      rw [code_int, expression]
      split
      · rename_i hSign
        exact (write_negative h hSign).symm
      · rename_i hSign
        exact (write_int i).symm
  | string text mark =>
      rw [expression, write_string, ← toList_quoteText]
      rfl
  | @list items mark h ih =>
      have hItems : items.map (String.toList ∘ code) = items.map (Expr.write ∘ expression) :=
        List.map_congr_left ih
      rw [code_list, expression, write_list, itemExpressions_eq, String.toList_append,
        String.toList_append, toList_intercalate_code, List.map_map, List.map_map, hItems]
      rfl
  | @dict entries mark h hNames ih =>
      have hEntries : entries.map (String.toList ∘ fun entry =>
            quoteText entry.1 ++ ": " ++ entry.2.code) =
          entries.map ((fun entry : Expr × Expr => entry.1.write ++ ':' :: ' ' :: entry.2.write) ∘
            fun entry => (.literal (.string entry.1), entry.2.expression)) := by
        refine List.map_congr_left fun entry hEntry => ?_
        show (quoteText entry.1 ++ ": " ++ entry.2.code).toList = _
        rw [String.toList_append, String.toList_append, toList_quoteText, ih entry hEntry,
          List.append_assoc]
        show _ = (Expr.literal (.string entry.1)).write ++ ':' :: ' ' :: entry.2.expression.write
        rw [write_string]
        rfl
      rw [code_dict, expression, write_dict, entryExpressions_eq, String.toList_append,
        String.toList_append, toList_intercalate_code, List.map_map, List.map_map, hEntries]
      rfl

end Value

end Stencil
