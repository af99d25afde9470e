import Stencil.Proofs.Renaming.Data

/-!
# Operators on renamed values

Arithmetic, the joining and repeating of sequences, and the formatting of a text with a percent sign
commute with renaming. Only the two operators that ask whether their operands are one value need
more: they see the marks of all values.

## Main results

* `BinaryOp.apply_rename`, `UnaryOp.apply_rename`, `CompareOp.apply_rename`.
-/

namespace Stencil

variable (ρ : Renaming)

/-! ## Arithmetic -/

theorem rename_intResult (result : Except Fault Int64) :
    Value.rename ρ <$> Value.int <$> result = Value.int <$> result := by
  cases result <;> rfl

theorem rename_floatResult (result : Except Fault Float) :
    Value.rename ρ <$> Value.float <$> result = Value.float <$> result := by
  cases result <;> rfl

@[simp] theorem rename_computeInts (op : BinaryOp) (a b : Int64) :
    Value.rename ρ <$> computeInts op a b = computeInts op a b := by
  cases op with
  | add => exact rename_intResult ρ _
  | subtract => exact rename_intResult ρ _
  | multiply => exact rename_intResult ρ _
  | divide =>
      simp only [computeInts]
      split <;> rfl
  | floorDivide =>
      simp only [computeInts]
      split
      · rfl
      · exact rename_intResult ρ _
  | modulo =>
      simp only [computeInts]
      split <;> rfl
  | power =>
      simp only [computeInts]
      split
      · rfl
      · split <;> rfl

@[simp] theorem rename_computeNumbers (op : BinaryOp) (a b : Numeric) :
    Value.rename ρ <$> computeNumbers op a b = computeNumbers op a b := by
  cases a with
  | float x => exact rename_floatResult ρ _
  | int i =>
      cases b with
      | float x => exact rename_floatResult ρ _
      | int j => exact rename_computeInts ρ op i j

@[simp] theorem rename_repeatText (text : String) (n : Int64) :
    Value.rename ρ <$> repeatText text n = repeatText text n := by
  simp [repeatText]

@[simp] theorem repeatItems_rename (items : Array Value) (n : Int64) :
    repeatItems (items.map (Value.rename ρ)) n = Value.rename ρ <$> repeatItems items n := by
  simp only [repeatItems, map_bind, Array.size_map]
  refine congrArg _ (funext fun _ => ?_)
  cases h : items.isEmpty <;> simp_all

theorem unsupported_rename (op : BinaryOp) (left right : Value) :
    unsupported op (left.rename ρ) (right.rename ρ) = unsupported op left right := by
  simp [unsupported]

theorem multiplySequence_rename (left right : Value) :
    multiplySequence (left.rename ρ) (right.rename ρ) =
      Value.rename ρ <$> multiplySequence left right := by
  cases left <;> cases right <;>
    simp [multiplySequence, Value.asInt?, unsupported, Value.typeName]

@[simp] theorem UnaryOp.apply_rename (op : UnaryOp) (operand : Value) :
    op.apply (operand.rename ρ) = Value.rename ρ <$> op.apply operand := by
  simp only [UnaryOp.apply, Value.numeric?_rename, Value.truthy_rename, Value.typeName_rename]
  split <;> first | rfl | exact (rename_intResult ρ _).symm

/-! ## Formatting -/

namespace Format

@[simp] theorem integerOf_rename (conversion : Char) (value : Value) :
    integerOf conversion (value.rename ρ) = integerOf conversion value := by
  cases value <;> simp [integerOf, Value.asInt?, Value.typeName]

@[simp] theorem floatOf_rename (conversion : Char) (value : Value) :
    floatOf conversion (value.rename ρ) = floatOf conversion value := by
  simp [floatOf]

@[simp] theorem characterOf_rename (value : Value) :
    characterOf (value.rename ρ) = characterOf value := by
  cases value <;> simp [characterOf, integerOf, Value.asInt?, Value.typeName]

@[simp] theorem convert_rename (value : Value) (letter : Char) (flags : NumberFlags) (width : Nat)
    (precision : Option Nat) :
    convert (value.rename ρ) letter flags width precision =
      convert value letter flags width precision := by
  simp [convert]

/-- The values that are left, with other numbers. -/
def Supply.rename (supply : Supply) : Supply :=
  { supply with positional := supply.positional.map (Value.rename ρ) }

theorem Supply.next_rename (supply : Supply) (values : Value) (key : Option (List Char)) :
    (supply.rename ρ).next (values.rename ρ) key =
      (fun found => (found.1.rename ρ, found.2.rename ρ)) <$> supply.next values key := by
  cases key with
  | none =>
      obtain ⟨positional, usesNames⟩ := supply
      cases positional <;> rfl
  | some name =>
      cases values with
      | dict entries mark =>
          rw [Value.rename_dict]
          simp only [next, Entries.find?_rename]
          cases Entries.find? (String.ofList name) entries <;> rfl
      | _ => simp [next]

theorem Conversion.apply_rename (conversion : Conversion) (values : Value) (supply : Supply) :
    conversion.apply (values.rename ρ) (supply.rename ρ) =
      (fun found => (found.1, found.2.rename ρ)) <$> conversion.apply values supply := by
  unfold apply
  split
  · rfl
  · simp only [Supply.next_rename, map_bind, bind_map_left, convert_rename, pure_eq_ok, map_ok]

theorem fillConversions_rename (values : Value) (done : List (List Char)) (supply : Supply)
    (pieces : List (List Char × Conversion)) :
    fillConversions (values.rename ρ) done (supply.rename ρ) pieces =
      (fun found => (found.1, found.2.rename ρ)) <$>
        fillConversions values done supply pieces := by
  induction pieces generalizing done supply with
  | nil => rfl
  | cons piece rest ih =>
      obtain ⟨literal, conversion⟩ := piece
      simp only [fillConversions, Conversion.apply_rename]
      split
      · rfl
      · cases conversion.apply values supply with
        | error fault => rfl
        | ok found => exact ih _ _

theorem servesNames_rename (values : Value) :
    servesNames (values.rename ρ) = servesNames values := by
  cases values <;> simp [servesNames]

/-- What is checked and put together when the conversions are filled. -/
def finishPercent (values : Value) (tail : List Char)
    (filled : List (List Char) × Supply) : Except Fault (List Char) := do
  if tail.contains '%' then throw (.value .incompleteConversion)
  if !filled.2.usesNames && !filled.2.positional.isEmpty && !servesNames values then
    throw (.type .tooManyValues)
  return (tail :: filled.1).reverse.flatten

theorem percent_eq (format : List Char) (values : Value) :
    percent format values =
      fillConversions values [] ⟨values.list?.getD [values], false⟩ (percentPieces [] format).1 >>=
        finishPercent values (percentPieces [] format).2 := by
  cases values <;> rfl

@[simp] theorem percent_rename (format : List Char) (values : Value) :
    percent format (values.rename ρ) = percent format values := by
  have hPositional : (values.rename ρ).list?.getD [values.rename ρ] =
      (values.list?.getD [values]).map (Value.rename ρ) := by
    rw [Value.list?_rename]
    cases values.list? <;> rfl
  have hFill := fillConversions_rename ρ values [] ⟨values.list?.getD [values], false⟩
    (percentPieces [] format).1
  rw [percent_eq, percent_eq, hPositional]
  refine (congrArg (· >>= _) hFill).trans ?_
  rw [bind_map_left]
  refine congrArg _ (funext fun filled => ?_)
  simp only [finishPercent, servesNames_rename, Supply.rename, List.isEmpty_map]

end Format

/-! ## Operators between values -/

/-- An operator between values that are not both numbers. -/
def BinaryOp.applyOther (op : BinaryOp) (left right : Value) : Except Fault Value :=
  match op, left, right with
  | .add, .string a _, .string b _ => .ok (.ofString (a ++ b))
  | .add, .list a _, .list b _ => .ok (.ofArray (a ++ b))
  | .multiply, left, right => multiplySequence left right
  | .modulo, .string format _, values => .ofChars <$> Format.percent format.toList values
  | op, left, right => .error (unsupported op left right)

theorem BinaryOp.apply_eq (op : BinaryOp) (left right : Value) :
    op.apply left right = match left.numeric?, right.numeric? with
      | some a, some b => computeNumbers op a b
      | _, _ => op.applyOther left right := rfl

theorem BinaryOp.applyOther_rename (op : BinaryOp) (left right : Value) :
    op.applyOther (left.rename ρ) (right.rename ρ) =
      Value.rename ρ <$> op.applyOther left right := by
  have hFault := unsupported_rename ρ op left right
  cases op with
  | multiply => exact multiplySequence_rename ρ left right
  | modulo =>
      cases left with
      | string text mark => simp [applyOther]
      | _ => exact congrArg Except.error hFault
  | add =>
      cases left with
      | string text mark =>
          cases right <;> rfl
      | list items mark =>
          cases right with
          | list others mark => simp [applyOther]
          | _ => exact congrArg Except.error hFault
      | _ => exact congrArg Except.error hFault
  | _ => exact congrArg Except.error hFault

@[simp] theorem BinaryOp.apply_rename (op : BinaryOp) (left right : Value) :
    op.apply (left.rename ρ) (right.rename ρ) = Value.rename ρ <$> op.apply left right := by
  rw [apply_eq, apply_eq, Value.numeric?_rename, Value.numeric?_rename]
  cases left.numeric? with
  | none => exact applyOther_rename ρ op left right
  | some a =>
      cases right.numeric? with
      | none => exact applyOther_rename ρ op left right
      | some b => exact (rename_computeNumbers ρ op a b).symm

/-- A comparison does not show the numbers of its operands. The two that ask for identity need a
renaming that treats all marks in one way. -/
theorem CompareOp.apply_rename {ρ : Renaming} (hMark : Function.Injective ρ.mark) (op : CompareOp)
    (hData : ρ.data = ρ.mark ∨ (op ≠ .same ∧ op ≠ .notSame)) (left right : Value) :
    op.apply (left.rename ρ) (right.rename ρ) = op.apply left right := by
  cases op with
  | same =>
      have hData : ρ.data = ρ.mark := hData.resolve_right (by simp)
      simp [CompareOp.apply, Value.same_rename hMark hData]
  | notSame =>
      have hData : ρ.data = ρ.mark := hData.resolve_right (by simp)
      simp [CompareOp.apply, Value.same_rename hMark hData]
  | _ => simp [CompareOp.apply, Value.equals_rename hMark, Value.contains_rename hMark]

end Stencil
