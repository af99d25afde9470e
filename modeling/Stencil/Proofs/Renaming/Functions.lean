import Stencil.Calling
import Stencil.Proofs.Renaming.Operators

/-!
# Functions on renamed arguments

Methods, built-in functions that call nothing, sorting, and the binding of arguments to parameters
commute with renaming.

## Main results

* `Value.access_rename`, `callMethod_rename`: attributes and methods of a renamed value.
* `Builtin.compute_rename`: the built-in functions that call nothing.
* `bindParameters_rename`: renamed arguments are bound to the same parameters.
-/

namespace Stencil

variable (ρ : Renaming)

/-- The arguments with other numbers. -/
def Arguments.rename (arguments : Arguments) : Arguments :=
  ⟨arguments.positional.map (Value.rename ρ), Entries.rename ρ arguments.named⟩

section Arguments

@[simp] theorem Arguments.rename_ofList (values : List Value) :
    (Arguments.ofList values).rename ρ = .ofList (values.map (Value.rename ρ)) := rfl

@[simp] theorem Arguments.positional_rename (arguments : Arguments) :
    (arguments.rename ρ).positional = arguments.positional.map (Value.rename ρ) := rfl

@[simp] theorem Arguments.named_rename (arguments : Arguments) :
    (arguments.rename ρ).named = Entries.rename ρ arguments.named := rfl

@[simp] theorem Arguments.get?_rename (arguments : Arguments) (place : Nat) :
    (arguments.rename ρ).get? place = (arguments.get? place).map (Value.rename ρ) := by
  simp [get?]

@[simp] theorem Arguments.take_rename (arguments : Arguments) (name : String) :
    (arguments.rename ρ).take name =
      ((arguments.take name).1.map (Value.rename ρ), (arguments.take name).2.rename ρ) := by
  simp [take, rename]

@[simp] theorem Arguments.checkCount_rename (arguments : Arguments) (function : String)
    (least : Nat) (most : Option Nat) :
    (arguments.rename ρ).checkCount function least most =
      arguments.checkCount function least most := by
  simp [checkCount]

@[simp] theorem Arguments.check_rename (arguments : Arguments) (function : String) (least : Nat)
    (most : Option Nat) :
    (arguments.rename ρ).check function least most = arguments.check function least most := by
  obtain ⟨positional, named⟩ := arguments
  cases named with
  | nil => exact checkCount_rename ρ ⟨positional, []⟩ function least most
  | cons entry rest => rfl

@[simp] theorem argument_rename (arguments : Arguments) (place : Nat) :
    argument (arguments.rename ρ) place = (argument arguments place).rename ρ := by
  simp only [argument, Arguments.get?_rename]
  cases arguments.get? place <;> rfl

@[simp] theorem optionalString_rename (arguments : Arguments) (place : Nat) (role : String) :
    optionalString (arguments.rename ρ) place role = optionalString arguments place role := by
  simp only [optionalString, Arguments.get?_rename]
  cases arguments.get? place with
  | none => rfl
  | some value => cases value <;> simp [Value.wantString, Value.typeName]

end Arguments

/-! ## Methods -/

section Methods

theorem justify_rename (text : List Char) (name : String) (left : Bool) (arguments : Arguments) :
    justify text name left (arguments.rename ρ) =
      Value.rename ρ <$> justify text name left arguments := by
  simp only [justify, Arguments.check_rename, argument_rename, Value.wantInt_rename,
    optionalString_rename, map_bind]
  refine bind_congr fun _ => bind_congr fun width => bind_congr fun fill => ?_
  split
  · simp only [pure_eq_ok, bind_ok]
    split <;> simp
  · rfl
  · simp only [pure_eq_ok, bind_ok]
    split <;> simp

theorem stripMethod_rename (text : List Char) (name : String) (arguments : Arguments) :
    stripMethod text name (arguments.rename ρ) =
      Value.rename ρ <$> stripMethod text name arguments := by
  simp [stripMethod]

theorem replaceMethod_rename (text : List Char) (name : String) (arguments : Arguments) :
    replaceMethod text name (arguments.rename ρ) =
      Value.rename ρ <$> replaceMethod text name arguments := by
  simp only [replaceMethod, Arguments.check_rename, argument_rename, Value.wantString_rename,
    Arguments.get?_rename, map_bind]
  refine bind_congr fun _ => bind_congr fun old => bind_congr fun new => ?_
  cases arguments.get? 2 <;> simp

theorem splitMethod_rename (text : List Char) (name : String) (arguments : Arguments) :
    splitMethod text name (arguments.rename ρ) =
      Value.rename ρ <$> splitMethod text name arguments := by
  have hPieces (pieces : List (List Char)) :
      Value.rename ρ (.ofList (pieces.map .ofChars)) = .ofList (pieces.map .ofChars) := by
    simp [Function.comp_def]
  simp only [splitMethod, Arguments.check_rename, optionalString_rename, Arguments.get?_rename,
    map_bind]
  refine bind_congr fun _ => ?_
  cases arguments.get? 1 with
  | none =>
      simp only [Option.map_none, map_bind, pure_bind]
      refine bind_congr fun separator => ?_
      cases separator with
      | none => simp [hPieces]
      | some separator => by_cases h : separator.isEmpty = true <;> simp [h, hPieces]
  | some limit =>
      simp only [Option.map_some, Value.wantInt_rename, map_bind, pure_bind]
      refine bind_congr fun limit => bind_congr fun separator => ?_
      generalize (if limit < 0 then none else some limit.toInt.toNat : Option Nat) = most
      cases separator with
      | none => cases most <;> simp [hPieces]
      | some separator => by_cases h : separator.isEmpty = true <;> simp [h, hPieces]

theorem wantStrings_rename (done : List String) (values : List Value) :
    wantStrings done (values.map (Value.rename ρ)) = wantStrings done values := by
  induction values generalizing done with
  | nil => rfl
  | cons value rest ih => cases value <;> simp [wantStrings, ih, Value.typeName]

theorem hasAffix_rename (test : List Char → Bool) (role : String) (values : List Value) :
    hasAffix test role (values.map (Value.rename ρ)) = hasAffix test role values := by
  induction values with
  | nil => rfl
  | cons value rest ih => simp [hasAffix, ih]

theorem mapText_rename (f : List Char → List Char) (text : List Char) (name : String)
    (arguments : Arguments) :
    mapText f text name (arguments.rename ρ) =
      Value.rename ρ <$> mapText f text name arguments := by
  simp [mapText]

theorem candidates_rename (arguments : Arguments) :
    stringMethod.candidates (arguments.rename ρ) =
      (stringMethod.candidates arguments).map (Value.rename ρ) := by
  simp only [stringMethod.candidates, argument_rename]
  cases argument arguments 0 <;> simp

theorem stringMethod_rename (text : List Char) (name : String) (arguments : Arguments) :
    stringMethod text name (arguments.rename ρ) =
      Value.rename ρ <$> stringMethod text name arguments := by
  unfold stringMethod
  split
  all_goals first
    | exact justify_rename ρ text _ _ arguments
    | exact mapText_rename ρ _ text _ arguments
    | exact stripMethod_rename ρ text _ arguments
    | exact replaceMethod_rename ρ text _ arguments
    | exact splitMethod_rename ρ text _ arguments
    | (simp [candidates_rename, hasAffix_rename, wantStrings_rename]; done)
    | skip
  -- What remains is the search, whose result is a place or minus one.
  simp only [Arguments.check_rename, argument_rename, Value.wantString_rename, map_bind, map_pure]
  refine bind_congr fun _ => bind_congr fun sought => ?_
  cases Text.findIndex? sought.toList text <;> rfl

theorem listMethod_rename {ρ : Renaming} (hMark : Function.Injective ρ.mark) (items : Array Value)
    (name : String) (arguments : Arguments) :
    listMethod (items.map (Value.rename ρ)) name (arguments.rename ρ) =
      Value.rename ρ <$> listMethod items name arguments := by
  simp only [listMethod, Arguments.check_rename, argument_rename, map_bind]
  refine bind_congr fun _ => ?_
  split
  · simp [Array.countP_map, Function.comp_def, Value.equals_rename hMark]
  · simp [Array.findIdx?_map, Function.comp_def, Value.equals_rename hMark]
    cases items.findIdx? fun x => x.equals (argument arguments 0) <;> rfl
  · rfl

theorem dictMethod_rename (entries : List (String × Value)) (name : String)
    (arguments : Arguments) :
    dictMethod (Entries.rename ρ entries) name (arguments.rename ρ) =
      Value.rename ρ <$> dictMethod entries name arguments := by
  unfold dictMethod
  split
  · simp only [Arguments.check_rename, argument_rename, Value.text_rename, Entries.find?_rename,
      map_bind]
    refine bind_congr fun _ => ?_
    cases Entries.find? (argument arguments 0).text entries <;> rfl
  · simp [Entries.rename, Function.comp_def]
  · simp [Entries.rename, Function.comp_def]
  · simp [Entries.rename, Function.comp_def]
  · rfl

theorem callMethod_rename {ρ : Renaming} (hMark : Function.Injective ρ.mark) (receiver : Value)
    (name : String) (arguments : Arguments) :
    callMethod (receiver.rename ρ) name (arguments.rename ρ) =
      Value.rename ρ <$> callMethod receiver name arguments := by
  have hType := Value.typeName_rename ρ receiver
  cases receiver with
  | string text mark => exact stringMethod_rename ρ text.toList name arguments
  | list items mark =>
      rw [Value.rename_list]
      exact listMethod_rename hMark items name arguments
  | dict entries mark =>
      rw [Value.rename_dict]
      exact dictMethod_rename ρ entries name arguments
  | _ => exact congrArg (fun type => Except.error (Fault.noAttribute type name)) hType

end Methods

/-! ## Attributes -/

section Attributes

theorem loopAttribute?_rename (level : LoopLevel) (outer : List LoopLevel) (name : String) :
    loopAttribute? (level.rename ρ) (outer.map (LoopLevel.rename ρ)) name =
      (loopAttribute? level outer name).map (Value.rename ρ) := by
  unfold loopAttribute?
  split <;> first | rfl | (cases outer <;> rfl)

theorem Value.hasMethod_rename (value : Value) (name : String) :
    (value.rename ρ).hasMethod name = value.hasMethod name := by
  cases value <;> simp [hasMethod, methods]

theorem Value.find?_rename (value : Value) (name : String) :
    (value.rename ρ).find? name = (value.find? name).map (Value.rename ρ) := by
  simp only [find?, hasMethod_rename]
  split
  · rfl
  · cases value with
    | dict entries mark => simp
    | rendering content mark => simp
    | loop level outer => exact loopAttribute?_rename ρ level outer name
    | _ => simp

/-- The attribute of a renamed value is the renamed attribute. -/
theorem Value.access_rename (value : Value) (name : String) :
    (value.rename ρ).access name = Value.rename ρ <$> value.access name := by
  simp only [access, find?_rename, typeName_rename]
  cases value.find? name <;> rfl

end Attributes

/-! ## Built-in functions -/

namespace Builtin

open Stencil.Number

theorem absolute_rename (arguments : Arguments) :
    absolute (arguments.rename ρ) = Value.rename ρ <$> absolute arguments := by
  simp only [absolute, Arguments.check_rename, argument_rename, map_bind]
  refine bind_congr fun _ => ?_
  cases argument arguments 0 <;> simp [Value.asInt?, Value.typeName]

/-- The integer that a text writes in a base. -/
def writtenInteger (text : String) (mark : Mark) (base : Int) : Except Fault Value := do
  if base < 2 ∨ 36 < base then throw (.value .baseRange)
  match readInt64? base.toNat ((Text.trim text.toList).filter (· != '_')) with
  | some i => return .int i
  | none => throw (.value (.noIntegerText base.toNat (Value.string text mark).code))

/-- The integer that an argument stands for, with the base if one is given. -/
def integerFrom : Option Value → Option Value → Except Fault Value
  | none, _ => return .int 0
  | some (.string text mark), none => writtenInteger text mark 10
  | some (.string text mark), some base => do
      writtenInteger text mark (← base.wantInt "int() base").toInt
  | some _, some _ => throw (.type .baseOfNumber)
  | some (.float x), none =>
      match Scaled.ofFloat? x with
      | none => throw (.value (.notFinite (Value.float x).text))
      | some s => .int <$> fitInt s.truncate
  | some value, none =>
      match value.asInt? with
      | some i => return .int i
      | none => throw (.type (.noInteger value.typeName))

theorem integer_eq (arguments : Arguments) :
    integer arguments = (do
      (arguments.take "base").2.check "int" 0 (some 2)
      integerFrom ((arguments.take "base").2.get? 0)
        ((arguments.take "base").1.or ((arguments.take "base").2.get? 1))) := by
  unfold integer
  obtain ⟨named, rest⟩ := arguments.take "base"
  refine bind_congr fun _ => ?_
  simp only
  generalize named.or (rest.get? 1) = base
  cases rest.get? 0 with
  | none => rfl
  | some value =>
      cases value with
      | string text mark =>
          cases base with
          | none => rfl
          | some base =>
              simp only [integerFrom, bind_map_left]
              rfl
      | _ => cases base <;> rfl

theorem rename_writtenInteger (text : String) (mark other : Mark) (base : Int) :
    Value.rename ρ <$> writtenInteger text mark base = writtenInteger text other base := by
  simp only [writtenInteger]
  split
  · rfl
  · cases readInt64? base.toNat ((Text.trim text.toList).filter (· != '_')) <;> rfl

theorem integer_rename (arguments : Arguments) :
    integer (arguments.rename ρ) = Value.rename ρ <$> integer arguments := by
  simp only [integer_eq, Arguments.take_rename, Arguments.check_rename, Arguments.get?_rename,
    map_bind, ← Option.map_or]
  refine bind_congr fun _ => ?_
  generalize (arguments.take "base").1.or ((arguments.take "base").2.get? 1) = base
  cases (arguments.take "base").2.get? 0 with
  | none => rfl
  | some value =>
      cases value with
      | string text mark =>
          cases base with
          | none => exact (rename_writtenInteger ρ text mark _ 10).symm
          | some base =>
              simp only [integerFrom, Option.map_some, Value.rename_string, Value.wantInt_rename,
                map_bind]
              exact bind_congr fun base => (rename_writtenInteger ρ text mark _ _).symm
      | float x =>
          cases base with
          | none =>
              simp only [integerFrom, Option.map_some, Option.map_none, Value.rename_float]
              cases Scaled.ofFloat? x with
              | none => rfl
              | some s => exact (rename_intResult ρ _).symm
          | some base => rfl
      | _ => cases base <;> simp [integerFrom, Value.asInt?, Value.typeName]

theorem real_rename (arguments : Arguments) :
    real (arguments.rename ρ) = Value.rename ρ <$> real arguments := by
  simp only [real, Arguments.check_rename, Arguments.get?_rename, map_bind]
  refine bind_congr fun _ => ?_
  cases arguments.get? 0 with
  | none => rfl
  | some value =>
      simp only [Option.map_some, Value.asFloat?_rename, Value.wantString_rename]
      cases value.asFloat? with
      | some x => rfl
      | none =>
          simp only [map_bind]
          refine bind_congr fun text => ?_
          split <;> rfl

theorem digitsIn_rename (base : Nat) (mark : List Char) (name : String) (arguments : Arguments) :
    digitsIn base mark name (arguments.rename ρ) =
      Value.rename ρ <$> digitsIn base mark name arguments := by
  simp [digitsIn]

theorem quotient_rename (arguments : Arguments) :
    quotient (arguments.rename ρ) = Value.rename ρ <$> quotient arguments := by
  simp [quotient]

theorem power_rename (arguments : Arguments) :
    power (arguments.rename ρ) = Value.rename ρ <$> power arguments := by
  simp [power]

/-- The number of decimal places that an argument gives. -/
def roundPlaces : Option Value → Except Fault (Option Int64)
  | none => pure none
  | some .none => pure none
  | some places => some <$> places.wantInt "round() ndigits"

/-- A float rounded to a number of decimal places. -/
def roundFloat (x : Float) : Option Int64 → Except Fault Value
  | none =>
      match Scaled.ofFloat? (roundTiesEven x) with
      | none => throw .overflow
      | some s =>
          if int64Bound ≤ s.wholePart then throw .overflow else .int <$> fitInt s.truncate
  | some places => do
      if places.toInt < -(int32Bound : Int) ∨ int32Bound ≤ places.toInt then throw .overflow
      let scale := powInt 10 places.toInt
      return .float (roundTiesEven (x * scale) / scale)

/-- A number rounded to a number of decimal places. -/
def roundAt (value : Value) (places : Option Int64) : Except Fault Value :=
  match value, places with
  | .int i, _ => return .int i
  | .bool b, none => return .int (if b then 1 else 0)
  | .bool b, some _ => return .bool b
  | .float x, places => roundFloat x places
  | value, _ => throw (.type (.noRounding value.typeName))

theorem round_eq (arguments : Arguments) :
    round arguments = (do
      arguments.check "round" 1 (some 2)
      let places ← roundPlaces (arguments.get? 1)
      roundAt (argument arguments 0) places) := by
  unfold round
  refine bind_congr fun _ => ?_
  cases arguments.get? 1 with
  | none => cases argument arguments 0 <;> rfl
  | some places =>
      cases places with
      | none => cases argument arguments 0 <;> rfl
      | _ =>
          simp only [roundPlaces, bind_map_left]
          refine bind_congr fun places => ?_
          cases argument arguments 0 <;> rfl

theorem rename_roundFloat (x : Float) (places : Option Int64) :
    Value.rename ρ <$> roundFloat x places = roundFloat x places := by
  cases places with
  | none =>
      simp only [roundFloat]
      cases Scaled.ofFloat? (roundTiesEven x) with
      | none => rfl
      | some s =>
          simp only
          split
          · rfl
          · exact rename_intResult ρ _
  | some places =>
      simp only [roundFloat]
      split <;> rfl

theorem round_rename (arguments : Arguments) :
    round (arguments.rename ρ) = Value.rename ρ <$> round arguments := by
  have hPlaces : roundPlaces ((arguments.get? 1).map (Value.rename ρ)) =
      roundPlaces (arguments.get? 1) := by
    cases arguments.get? 1 with
    | none => rfl
    | some places =>
        cases places <;> simp [roundPlaces, Value.wantInt, Value.asInt?, Value.typeName]
  simp only [round_eq, Arguments.check_rename, Arguments.get?_rename, argument_rename, map_bind,
    hPlaces]
  refine bind_congr fun _ => bind_congr fun places => ?_
  cases argument arguments 0 with
  | float x => exact (rename_roundFloat ρ x places).symm
  | _ => cases places <;> simp [roundAt, Value.typeName]

theorem addItems_rename (total : Value) (items : List Value) :
    addItems (total.rename ρ) (items.map (Value.rename ρ)) =
      Value.rename ρ <$> addItems total items := by
  induction items generalizing total with
  | nil => rfl
  | cons item rest ih =>
      simp only [List.map_cons, addItems, BinaryOp.apply_rename]
      cases BinaryOp.add.apply total item with
      | error fault => rfl
      | ok total => exact ih total

theorem sum_rename (arguments : Arguments) :
    sum (arguments.rename ρ) = Value.rename ρ <$> sum arguments := by
  simp only [sum, Arguments.take_rename, Arguments.check_rename, Arguments.get?_rename,
    argument_rename, map_bind, ← Option.map_or]
  refine bind_congr fun _ => ?_
  generalize (arguments.take "start").1.or ((arguments.take "start").2.get? 1) = start
  have hStart : (start.map (Value.rename ρ)).getD (.int 0) = (start.getD (.int 0)).rename ρ := by
    cases start <;> rfl
  rw [hStart]
  generalize start.getD (.int 0) = start
  have hSum : ((argument (arguments.take "start").2 0).rename ρ).items >>=
      addItems (start.rename ρ) =
      Value.rename ρ <$> ((argument (arguments.take "start").2 0).items >>= addItems start) := by
    simp only [Value.items_rename, bind_map_left, map_bind]
    exact bind_congr fun items => addItems_rename ρ start items
  cases start with
  | string text mark => rfl
  | _ => exact hSum

theorem character_rename (arguments : Arguments) :
    character (arguments.rename ρ) = Value.rename ρ <$> character arguments := by
  simp only [character, Arguments.check_rename, argument_rename, Value.wantInt_rename, map_bind]
  refine bind_congr fun _ => bind_congr fun code => ?_
  split <;> rfl

theorem codeOf_rename (arguments : Arguments) :
    codeOf (arguments.rename ρ) = Value.rename ρ <$> codeOf arguments := by
  simp only [codeOf, Arguments.check_rename, argument_rename, Value.wantString_rename, map_bind]
  refine bind_congr fun _ => bind_congr fun text => ?_
  split <;> rfl

theorem textOf_rename (arguments : Arguments) :
    textOf (arguments.rename ρ) = Value.rename ρ <$> textOf arguments := by
  simp [textOf, Function.comp_def]

theorem sourceOf_rename (arguments : Arguments) :
    sourceOf (arguments.rename ρ) = Value.rename ρ <$> sourceOf arguments := by
  simp [sourceOf]

theorem entryOf_rename (pair : Value) :
    entryOf (pair.rename ρ) = (fun entry => (entry.1, entry.2.rename ρ)) <$> entryOf pair := by
  simp only [entryOf, Value.items_rename, map_bind, bind_map_left]
  refine bind_congr fun items => ?_
  rcases items with _ | ⟨key, _ | ⟨value, _ | ⟨more, rest⟩⟩⟩ <;> simp

theorem entriesOf_rename (done : List (String × Value)) (pairs : List Value) :
    entriesOf (Entries.rename ρ done) (pairs.map (Value.rename ρ)) =
      Entries.rename ρ <$> entriesOf done pairs := by
  induction pairs generalizing done with
  | nil =>
      have hReverse : (Entries.rename ρ done).reverse = Entries.rename ρ done.reverse := by
        simp [Entries.rename]
      simp [entriesOf, hReverse]
  | cons pair rest ih =>
      simp only [List.map_cons, entriesOf, entryOf_rename, map_bind, bind_map_left]
      exact bind_congr fun entry => ih (entry :: done)

/-- The entries that a dictionary is made from. -/
def entriesFrom : Option Value → Except Fault (Entries Value)
  | some (.dict entries _) => pure entries
  | some source => do entriesOf [] (← source.items)
  | none => pure []

theorem dictionary_eq (arguments : Arguments) :
    dictionary arguments = (do
      arguments.checkCount "dict" 0 (some 1)
      let entries ← entriesFrom (arguments.get? 0)
      return .ofEntries (Entries.insertAll entries arguments.named)) := by
  unfold dictionary
  refine bind_congr fun _ => ?_
  cases arguments.get? 0 with
  | none => rfl
  | some source => cases source <;> rfl

theorem entriesFrom_rename (source : Option Value) :
    entriesFrom (source.map (Value.rename ρ)) = Entries.rename ρ <$> entriesFrom source := by
  have hPairs (source : Value) : (source.rename ρ).items >>= entriesOf [] =
      Entries.rename ρ <$> (source.items >>= entriesOf []) := by
    simp only [Value.items_rename, bind_map_left, map_bind]
    exact bind_congr fun items => entriesOf_rename ρ [] items
  cases source with
  | none => rfl
  | some source =>
      cases source with
      | dict entries mark => simp [entriesFrom]
      | _ => exact hPairs _

theorem dictionary_rename (arguments : Arguments) :
    dictionary (arguments.rename ρ) = Value.rename ρ <$> dictionary arguments := by
  simp [dictionary_eq, entriesFrom_rename]

theorem numberItems_rename (index : Int) (done items : List Value) :
    numberItems index (done.map (Value.rename ρ)) (items.map (Value.rename ρ)) =
      List.map (Value.rename ρ) <$> numberItems index done items := by
  induction items generalizing index done with
  | nil => simp [numberItems]
  | cons item rest ih =>
      simp only [List.map_cons, numberItems]
      cases fitInt index with
      | error fault => rfl
      | ok i => simpa using ih (index + 1) (.ofList [.int i, item] :: done)

theorem enumerate_rename (arguments : Arguments) :
    enumerate (arguments.rename ρ) = Value.rename ρ <$> enumerate arguments := by
  simp only [enumerate, Arguments.take_rename, Arguments.check_rename, Arguments.get?_rename,
    argument_rename, map_bind, ← Option.map_or]
  refine bind_congr fun _ => ?_
  generalize (arguments.take "start").1.or ((arguments.take "start").2.get? 1) = start
  have hItems (index : Int) : (((argument (arguments.take "start").2 0).rename ρ).items >>=
      fun items => Value.ofList <$> numberItems index [] items) =
      Value.rename ρ <$> ((argument (arguments.take "start").2 0).items >>= fun items =>
        Value.ofList <$> numberItems index [] items) := by
    simp only [Value.items_rename, bind_map_left, map_bind]
    refine bind_congr fun items => ?_
    have hNumbered := numberItems_rename ρ index [] items
    rw [List.map_nil] at hNumbered
    rw [hNumbered, Functor.map_map, Functor.map_map]
    exact congrArg (· <$> _) (funext fun found => (Value.rename_ofList ρ found).symm)
  cases start with
  | none => exact hItems 0
  | some start =>
      simp only [Option.map_some, Value.wantInt_rename, map_bind]
      exact bind_congr fun start => (hItems start.toInt).trans (map_bind ..)

theorem listOf_rename (arguments : Arguments) :
    listOf (arguments.rename ρ) = Value.rename ρ <$> listOf arguments := by
  simp only [listOf, Arguments.check_rename, Arguments.get?_rename, map_bind]
  refine bind_congr fun _ => ?_
  cases arguments.get? 0 <;> simp

/-- The integers from a start on, by a step, up to but not with a stop. -/
def rangeOf (start stop step : Int) : Except Fault Value := do
  if step = 0 then throw (.value .zeroRangeStep)
  let count := rangeCount start stop step
  if rangeLimit < count then throw (.value (.rangeTooLong count))
  return .ofList ((List.range count).map fun (i : Nat) => .int (Int64.ofInt (start + i * step)))

theorem rename_rangeOf (start stop step : Int) :
    Value.rename ρ <$> rangeOf start stop step = rangeOf start stop step := by
  simp only [rangeOf]
  split
  · rfl
  · split
    · rfl
    · simp [Function.comp_def]

theorem range_rename (arguments : Arguments) :
    range (arguments.rename ρ) = Value.rename ρ <$> range arguments := by
  have hBounds : (arguments.positional.map (Value.rename ρ)).mapM (fun value =>
      Int64.toInt <$> value.wantInt "range() argument") = arguments.positional.mapM fun value =>
      Int64.toInt <$> value.wantInt "range() argument" := by
    simp [List.mapM_map, Function.comp_def]
  simp only [range, Arguments.check_rename, Arguments.positional_rename, hBounds, map_bind]
  refine bind_congr fun _ => bind_congr fun bounds => ?_
  match bounds with
  | [] => exact (rename_rangeOf ρ 0 0 1).symm
  | [stop] => exact (rename_rangeOf ρ 0 stop 1).symm
  | [start, stop] => exact (rename_rangeOf ρ start stop 1).symm
  | [start, stop, step] => exact (rename_rangeOf ρ start stop step).symm
  | first :: _ :: _ :: _ :: _ => exact (rename_rangeOf ρ 0 first 1).symm

theorem reversed_rename (arguments : Arguments) :
    reversed (arguments.rename ρ) = Value.rename ρ <$> reversed arguments := by
  simp [reversed]

theorem rows_map (columns : List (Array Value)) :
    rows (columns.map (Array.map (Value.rename ρ))) = (rows columns).map (Value.rename ρ) := by
  have hCounts : (columns.map (Array.map (Value.rename ρ))).map Array.size =
      columns.map Array.size := by
    simp [Function.comp_def]
  unfold rows
  rw [hCounts]
  cases (columns.map Array.size).min? with
  | none => rfl
  | some count => simp [Function.comp_def, List.filterMap_map, List.map_filterMap]

theorem mapM_items_rename (values : List Value) :
    (values.map (Value.rename ρ)).mapM Value.items =
      List.map (List.map (Value.rename ρ)) <$> values.mapM Value.items := by
  induction values with
  | nil => rfl
  | cons value rest ih => simp [ih]

theorem zip_rename (arguments : Arguments) :
    zip (arguments.rename ρ) = Value.rename ρ <$> zip arguments := by
  simp only [zip, Arguments.check_rename, Arguments.positional_rename, mapM_items_rename,
    bind_map_left, map_bind]
  refine bind_congr fun _ => bind_congr fun columns => ?_
  have hRows := rows_map ρ (columns.map List.toArray)
  simp only [List.map_map, Function.comp_def, List.map_toArray] at hRows ⊢
  rw [hRows, ← Value.rename_ofList]
  rfl

/-- The built-in functions that call nothing commute with renaming. -/
theorem compute_rename (name : String) (arguments : Arguments) :
    compute name (arguments.rename ρ) = Value.rename ρ <$> compute name arguments := by
  have hAny : ((arguments.get? 0).map (Value.rename ρ)).any Value.truthy =
      (arguments.get? 0).any Value.truthy := by
    cases arguments.get? 0 <;> simp
  unfold compute
  split
  all_goals first
    | exact absolute_rename ρ arguments
    | exact character_rename ρ arguments
    | exact dictionary_rename ρ arguments
    | exact quotient_rename ρ arguments
    | exact enumerate_rename ρ arguments
    | exact real_rename ρ arguments
    | exact digitsIn_rename ρ _ _ _ arguments
    | exact integer_rename ρ arguments
    | exact listOf_rename ρ arguments
    | exact codeOf_rename ρ arguments
    | exact power_rename ρ arguments
    | exact range_rename ρ arguments
    | exact sourceOf_rename ρ arguments
    | exact reversed_rename ρ arguments
    | exact round_rename ρ arguments
    | exact textOf_rename ρ arguments
    | exact sum_rename ρ arguments
    | exact zip_rename ρ arguments
    | rfl
    | simp [Function.comp_def, hAny]

end Builtin

/-! ## Binding -/

section Binding

theorem bindNamed_rename (function : String) (parameters : List Parameter)
    (bound : Entries Value) (named : List (String × Value)) :
    bindNamed function parameters (Entries.rename ρ bound) (Entries.rename ρ named) =
      Entries.rename ρ <$> bindNamed function parameters bound named := by
  induction named generalizing bound with
  | nil => rfl
  | cons entry rest ih =>
      obtain ⟨name, value⟩ := entry
      simp only [Entries.rename_cons, bindNamed, Entries.has_rename, Entries.insert_rename]
      split
      · rfl
      · split
        · rfl
        · exact ih _

theorem withDefaults_rename (bound : Entries Value) (parameters : List Parameter)
    (defaults : List (Option Value)) :
    withDefaults (Entries.rename ρ bound) parameters
        (defaults.map (Option.map (Value.rename ρ))) =
      (withDefaults bound parameters defaults).map fun entry =>
        (entry.1, entry.2.map (Value.rename ρ)) := by
  simp only [withDefaults, List.map_map]
  refine List.map_congr_left fun entry _ => ?_
  simp only [Function.comp_apply, Entries.find?_rename, List.getElem?_map, Option.map_or,
    Option.join_map_eq_map_join]

theorem allBound_rename (values : List (String × Option Value)) :
    allBound (values.map fun entry => (entry.1, entry.2.map (Value.rename ρ))) =
      (allBound values).map (Entries.rename ρ) := by
  induction values with
  | nil => rfl
  | cons entry rest ih =>
      obtain ⟨name, value⟩ := entry
      cases value with
      | none => rfl
      | some value =>
          simp only [List.map_cons, Option.map_some, allBound, ih, Option.map_map]
          rfl

/-- The values of all parameters, or the fault that some have none. -/
def bindRest (function : String) (parameters : List Parameter) (defaults : List (Option Value))
    (bound : Entries Value) : Except Fault (List (String × Value)) :=
  match allBound (withDefaults bound parameters defaults) with
  | some values => .ok values
  | none => .error (.arity (.missing function
      ((withDefaults bound parameters defaults).filterMap fun (name, value) =>
        if value.isNone then some name else none)))

theorem bindParameters_eq (function : String) (parameters : List Parameter)
    (defaults : List (Option Value)) (arguments : Arguments) :
    bindParameters function parameters defaults arguments =
      if parameters.length < arguments.positional.length then
        .error (.arity (.tooMany function parameters.length arguments.positional.length))
      else bindNamed function parameters
        (Entries.ofPairs ((parameters.map Parameter.name).zip arguments.positional))
        arguments.named >>= bindRest function parameters defaults := by
  unfold bindParameters
  split
  · rfl
  · refine bind_congr fun bound => ?_
    simp only [bindRest]
    cases allBound (withDefaults bound parameters defaults) <;> rfl

theorem bindRest_rename (function : String) (parameters : List Parameter)
    (defaults : List (Option Value)) (bound : Entries Value) :
    bindRest function parameters (defaults.map (Option.map (Value.rename ρ)))
        (Entries.rename ρ bound) =
      Entries.rename ρ <$> bindRest function parameters defaults bound := by
  simp only [bindRest, withDefaults_rename, allBound_rename]
  cases allBound (withDefaults bound parameters defaults) with
  | some values => rfl
  | none =>
      refine congrArg (fun names => Except.error (Fault.arity (.missing function names))) ?_
      rw [List.filterMap_map]
      refine congrArg (List.filterMap · _) (funext fun entry => ?_)
      rw [Function.comp_apply, Option.isNone_map]

/-- Renamed arguments are bound to the same parameters. -/
theorem bindParameters_rename (function : String) (parameters : List Parameter)
    (defaults : List (Option Value)) (arguments : Arguments) :
    bindParameters function parameters (defaults.map (Option.map (Value.rename ρ)))
        (arguments.rename ρ) =
      Entries.rename ρ <$> bindParameters function parameters defaults arguments := by
  have hPlaced : Entries.ofPairs ((parameters.map Parameter.name).zip
      (arguments.positional.map (Value.rename ρ))) = Entries.rename ρ
        (Entries.ofPairs ((parameters.map Parameter.name).zip arguments.positional)) := by
    rw [← Entries.ofPairs_rename, List.zip_map_right]
    rfl
  simp only [bindParameters_eq, Arguments.positional_rename, Arguments.named_rename,
    List.length_map, hPlaced, bindNamed_rename, bind_map_left]
  split
  · rfl
  · rw [map_bind]
    exact bind_congr fun bound => bindRest_rename ρ function parameters defaults bound

end Binding

/-! ## Fields -/

namespace Format

@[simp] theorem isNumber_rename (value : Value) : isNumber (value.rename ρ) = isNumber value := by
  cases value <;> simp [isNumber]

theorem specNumber_rename (value : Value) (letter : Char) (precision : Option Nat) :
    specNumber (value.rename ρ) letter precision = specNumber value letter precision := by
  simp [specNumber]

theorem plainField_rename (value : Value) (precision : Option Nat) :
    plainField (value.rename ρ) precision = plainField value precision := by
  have hOther (other : Value) (h : ∀ x, other ≠ .float x) : plainField other precision =
      if isNumber other then other.text.toList else shorten precision other.text.toList := by
    cases other <;> cases precision <;> first | rfl | exact absurd rfl (h _)
  by_cases h : ∃ x, value = .float x
  · obtain ⟨x, rfl⟩ := h
    rfl
  · have hValue : ∀ x, value ≠ .float x := fun x hx => h ⟨x, hx⟩
    have hTwin : ∀ x, value.rename ρ ≠ .float x := fun x hx => hValue x (Value.of_rename_float hx)
    rw [hOther value hValue, hOther _ hTwin, isNumber_rename, Value.text_rename]

@[simp] theorem Spec.apply_rename (spec : Spec) (value : Value) :
    spec.apply (value.rename ρ) = spec.apply value := by
  unfold Spec.apply
  simp only [isNumber_rename, Value.text_rename, specNumber_rename, plainField_rename,
    floatOf_rename]

/-- What a specification writes does not show the numbers. -/
theorem applySpec_rename (spec : List Char) (value : Value) :
    applySpec spec (value.rename ρ) = applySpec spec value := by
  simp only [applySpec, Value.text_rename, Spec.apply_rename]

theorem FieldSource.find_rename (source : FieldSource) (arguments : Arguments) (next : Nat) :
    source.find (arguments.rename ρ) next =
      (fun found => (found.1.rename ρ, found.2)) <$> source.find arguments next := by
  cases source with
  | next =>
      simp only [find, Arguments.get?_rename]
      cases arguments.get? next <;> rfl
  | place index =>
      simp only [find, Arguments.get?_rename]
      cases arguments.get? index <;> rfl
  | name key =>
      simp only [find, Arguments.named_rename, Entries.find?_rename]
      cases Entries.find? key arguments.named <;> rfl

end Format

/-! ## Sorting -/

namespace Ranked

/-- The value and its rank with other numbers. -/
def rename (ranked : Ranked) : Ranked := ⟨ranked.rank.rename ρ, ranked.item.rename ρ⟩

theorem before_rename (reverse : Bool) (x y : Ranked) :
    before reverse (x.rename ρ) (y.rename ρ) = before reverse x y := by
  simp [before, rename]

end Ranked

end Stencil
