import Stencil.Number.Reading
import Stencil.Value.Method
import Stencil.Value.Order

/-!
# Built-in functions

The functions that every template knows. They compute on their arguments alone. Four of them call a
function that they are given, for each item in turn: `filter`, and with a `key` also `sorted`, `min`
and `max`. How a value is called is for the evaluation to say, so these four take it as an argument.

## Main results

* `names_nodup`: each name is that of one function.
-/

namespace Stencil.Builtin

open Stencil.Text Stencil.Number

/-- The names of the built-in functions. -/
def names : List String :=
  ["abs", "all", "any", "bool", "callable", "chr", "dict", "divmod", "enumerate", "filter",
    "float", "hex", "int", "len", "list", "max", "min", "oct", "ord", "pow", "range", "repr",
    "reversed", "round", "sorted", "str", "sum", "tuple", "zip"]

theorem names_nodup : names.Nodup := by decide

/-! ## Numbers -/

/-- The magnitude of a number. -/
def absolute (arguments : Arguments) : Except Fault Value := do
  arguments.check "abs" 1 (some 1)
  match argument arguments 0 with
  | .float x => return .float x.abs
  | value =>
      match value.asInt? with
      | some i => .int <$> fitInt i.toInt.natAbs
      | none => throw (.type (.noMagnitude value.typeName))

/-- The integer that a value stands for or that a text writes. -/
def integer (arguments : Arguments) : Except Fault Value := do
  let (named, arguments) := arguments.take "base"
  arguments.check "int" 0 (some 2)
  let base := named.or (arguments.get? 1)
  match arguments.get? 0, base with
  | none, _ => return .int 0
  | some (.string text mark), base =>
      let base ← match base with
        | some base => (·.toInt) <$> base.wantInt "int() base"
        | none => pure 10
      if base < 2 ∨ 36 < base then throw (.value .baseRange)
      let digits := (trim text.toList).filter (· != '_')
      match readInt64? base.toNat digits with
      | some i => return .int i
      | none => throw (.value (.noIntegerText base.toNat (Value.string text mark).code))
  | some _, some _ => throw (.type .baseOfNumber)
  | some (.float x), none =>
      match Scaled.ofFloat? x with
      | none => throw (.value (.notFinite (Value.float x).text))
      | some s => .int <$> fitInt s.truncate
  | some value, none =>
      match value.asInt? with
      | some i => return .int i
      | none => throw (.type (.noInteger value.typeName))

/-- The float that a value stands for or that a text writes. -/
def real (arguments : Arguments) : Except Fault Value := do
  arguments.check "float" 0 (some 1)
  match arguments.get? 0 with
  | none => return .float 0
  | some value =>
      match value.asFloat? with
      | some x => return .float x
      | none =>
          let text := trim (← value.wantString "float() argument").toList
          match readFloat? text with
          | some x => return .float x
          | none => throw (.value (.noFloatText (String.ofList text)))

/-- The digits of an integer in a base, after its mark. -/
def digitsIn (base : Nat) (mark : List Char) (name : String) (arguments : Arguments) :
    Except Fault Value := do
  arguments.check name 1 (some 1)
  let i ← (argument arguments 0).wantInt (name ++ "() argument")
  let digits := mark ++ Nat.toDigits base i.toInt.natAbs
  return .ofChars (if i < 0 then '-' :: digits else digits)

/-- A quotient rounded down and its remainder. -/
def quotient (arguments : Arguments) : Except Fault Value := do
  arguments.check "divmod" 2 (some 2)
  let (a, b) := (argument arguments 0, argument arguments 1)
  let quotient ← BinaryOp.floorDivide.apply a b
  let remainder ← BinaryOp.modulo.apply a b
  return .ofList [quotient, remainder]

/-- A power. -/
def power (arguments : Arguments) : Except Fault Value := do
  arguments.check "pow" 2 (some 2)
  BinaryOp.power.apply (argument arguments 0) (argument arguments 1)

/-- A number rounded to a number of decimal places, a half to the even neighbour. Without a number
of places the result is an integer. -/
def round (arguments : Arguments) : Except Fault Value := do
  arguments.check "round" 1 (some 2)
  let places ← match arguments.get? 1 with
    | none => pure none
    | some .none => pure none
    | some places => some <$> places.wantInt "round() ndigits"
  match argument arguments 0, places with
  | .int i, _ => return .int i
  | .bool b, none => return .int (if b then 1 else 0)
  | .bool b, some _ => return .bool b
  | .float x, none =>
      let rounded := roundTiesEven x
      match Scaled.ofFloat? rounded with
      | none => throw .overflow
      | some s =>
          if int64Bound ≤ s.wholePart then throw .overflow else .int <$> fitInt s.truncate
  | .float x, some places =>
      if places.toInt < -(int32Bound : Int) ∨ int32Bound ≤ places.toInt then throw .overflow
      let scale := powInt 10 places.toInt
      return .float (roundTiesEven (x * scale) / scale)
  | value, _ => throw (.type (.noRounding value.typeName))

/-- Adds items to a total, in order. -/
def addItems (total : Value) : List Value → Except Fault Value
  | [] => .ok total
  | item :: rest =>
      match BinaryOp.add.apply total item with
      | .ok total => addItems total rest
      | .error fault => .error fault

/-- The sum of items, from a start on. -/
def sum (arguments : Arguments) : Except Fault Value := do
  let (start, arguments) := arguments.take "start"
  arguments.check "sum" 1 (some 2)
  match (start.or (arguments.get? 1)).getD (.int 0) with
  | .string _ _ => throw (.type .sumOfStrings)
  | start =>
      let items ← (argument arguments 0).items
      addItems start items

/-! ## Texts -/

/-- The character of a code. -/
def character (arguments : Arguments) : Except Fault Value := do
  arguments.check "chr" 1 (some 1)
  let code ← (argument arguments 0).wantInt "chr() argument"
  match if code < 0 then none else charOfCode? code.toInt.toNat with
  | some c => return .ofChar c
  | none => throw (.value .characterCode)

/-- The code of a character. -/
def codeOf (arguments : Arguments) : Except Fault Value := do
  arguments.check "ord" 1 (some 1)
  let text ← (argument arguments 0).wantString "ord() argument"
  match text.toList with
  | [c] => return .ofNat c.toNat
  | chars => throw (.type (.notOneCharacter chars.length))

/-- The text of a value. -/
def textOf (arguments : Arguments) : Except Fault Value := do
  arguments.check "str" 0 (some 1)
  return .ofString (((arguments.get? 0).map Value.text).getD "")

/-- The text of a value as source code has it. -/
def sourceOf (arguments : Arguments) : Except Fault Value := do
  arguments.check "repr" 1 (some 1)
  return .ofString (argument arguments 0).code

/-! ## Items -/

/-- The entry that a pair sets. -/
def entryOf (pair : Value) : Except Fault (String × Value) := do
  match ← pair.items with
  | [key, value] => return (key.text, value)
  | items => throw (.value (.pairLength items.length))

/-- The entries that pairs set one after another, after those that are given in reverse. -/
def entriesOf (done : List (String × Value)) : List Value → Except Fault (Entries Value)
  | [] => .ok (Entries.ofPairs done.reverse)
  | pair :: rest => do
      let entry ← entryOf pair
      entriesOf (entry :: done) rest

/-- A dictionary of the entries of another one, or of pairs, and of named arguments. -/
def dictionary (arguments : Arguments) : Except Fault Value := do
  arguments.checkCount "dict" 0 (some 1)
  let entries ← match arguments.get? 0 with
    | some (.dict entries _) => pure entries
    | some source => do entriesOf [] (← source.items)
    | none => pure []
  return .ofEntries (Entries.insertAll entries arguments.named)

/-- The items with their numbers. -/
def numberItems (index : Int) (done : List Value) : List Value → Except Fault (List Value)
  | [] => .ok done.reverse
  | item :: rest =>
      match fitInt index with
      | .ok i => numberItems (index + 1) (.ofList [.int i, item] :: done) rest
      | .error fault => .error fault

/-- The items with their numbers, from a start on. -/
def enumerate (arguments : Arguments) : Except Fault Value := do
  let (start, arguments) := arguments.take "start"
  arguments.check "enumerate" 1 (some 2)
  let start ← match start.or (arguments.get? 1) with
    | some start => start.wantInt "enumerate start"
    | none => pure 0
  let items ← (argument arguments 0).items
  .ofList <$> numberItems start.toInt [] items

/-- A list of the items of a value. -/
def listOf (arguments : Arguments) : Except Fault Value := do
  arguments.check "list" 0 (some 1)
  match arguments.get? 0 with
  | some source => .ofList <$> source.items
  | none => return .ofList []

/-- How many numbers a range holds. The distance is brought into 64 bits first. -/
def rangeCount (start stop step : Int) : Nat :=
  let span := saturate (if 0 < step then stop - start else start - stop)
  if span ≤ 0 then 0 else ((span - 1) / saturate step.natAbs).toNat + 1

/-- Integers from a start on, by a step, up to but not with a stop. -/
def range (arguments : Arguments) : Except Fault Value := do
  arguments.check "range" 1 (some 3)
  let bounds ← arguments.positional.mapM fun value =>
    Int64.toInt <$> value.wantInt "range() argument"
  let (start, stop, step) : Int × Int × Int := match bounds with
    | [start, stop, step] => (start, stop, step)
    | [start, stop] => (start, stop, 1)
    | bounds => (0, bounds.headD 0, 1)
  if step = 0 then throw (.value .zeroRangeStep)
  let count := rangeCount start stop step
  if rangeLimit < count then throw (.value (.rangeTooLong count))
  return .ofList ((List.range count).map fun (i : Nat) => .int (Int64.ofInt (start + i * step)))

/-- The items in reverse. -/
def reversed (arguments : Arguments) : Except Fault Value := do
  arguments.check "reversed" 1 (some 1)
  let items ← (argument arguments 0).items
  return .ofList items.reverse

/-- The first items of all columns together, then the second ones, up to the end of the shortest
column. -/
def rows (columns : List (Array Value)) : List Value :=
  match (columns.map Array.size).min? with
  | none => []
  | some count =>
      (List.range count).map fun place => .ofList (columns.filterMap (·[place]?))

/-- Lists of the items of several values that are at the same place. -/
def zip (arguments : Arguments) : Except Fault Value := do
  arguments.check "zip" 0 none
  let columns ← arguments.positional.mapM Value.items
  return .ofList (rows (columns.map List.toArray))

/-! ## Questions -/

/-- Calls a built-in function that calls no other function. -/
def compute (name : String) (arguments : Arguments) : Except Fault Value :=
  match name with
  | "abs" => absolute arguments
  | "all" => do
      arguments.check "all" 1 (some 1)
      return .bool ((← (argument arguments 0).items).all Value.truthy)
  | "any" => do
      arguments.check "any" 1 (some 1)
      return .bool ((← (argument arguments 0).items).any Value.truthy)
  | "bool" => do
      arguments.check "bool" 0 (some 1)
      return .bool ((arguments.get? 0).any Value.truthy)
  | "callable" => do
      arguments.check "callable" 1 (some 1)
      return .bool (argument arguments 0).isCallable
  | "chr" => character arguments
  | "dict" => dictionary arguments
  | "divmod" => quotient arguments
  | "enumerate" => enumerate arguments
  | "float" => real arguments
  | "hex" => digitsIn 16 ['0', 'x'] "hex" arguments
  | "int" => integer arguments
  | "len" => do
      arguments.check "len" 1 (some 1)
      return .ofNat (← (argument arguments 0).length)
  | "list" => listOf arguments
  | "oct" => digitsIn 8 ['0', 'o'] "oct" arguments
  | "ord" => codeOf arguments
  | "pow" => power arguments
  | "range" => range arguments
  | "repr" => sourceOf arguments
  | "reversed" => reversed arguments
  | "round" => round arguments
  | "str" => textOf arguments
  | "sum" => sum arguments
  | "tuple" => listOf arguments
  | "zip" => zip arguments
  | name => .error (.undefinedName name)

/-! ## Functions that call functions -/

section Callbacks

variable {m : Type → Type} [Monad m] [MonadLiftT (Except Fault) m]
  (call : Value → Value → m Value)

/-- The items that a function keeps, after those that are kept already, in reverse. Without a
function the items that count as true are kept. -/
def keepItems (function : Value) (kept : List Value) : List Value → m (List Value)
  | [] => pure kept.reverse
  | item :: rest =>
      if function.isNone then
        keepItems function (if item.truthy then item :: kept else kept) rest
      else do
        let answer ← call function item
        keepItems function (if answer.truthy then item :: kept else kept) rest

/-- The items of a value that a function keeps. -/
def filter (arguments : Arguments) : m Value := do
  arguments.check "filter" 2 (some 2)
  let items ← (argument arguments 1).items
  let kept ← keepItems call (argument arguments 0) [] items
  return .ofList kept

/-- The rank of an item: the item, or what the function gives for it. -/
def rankOf (key : Option Value) (item : Value) : m Value :=
  match key with
  | some function => call function item
  | none => pure item

/-- The items with their ranks, after those that are ranked already, in reverse. -/
def rankItems (key : Option Value) (done : List Ranked) : List Value → m (List Ranked)
  | [] => pure done.reverse
  | item :: rest => do
      let rank ← rankOf call key item
      rankItems key (⟨rank, item⟩ :: done) rest

/-- The function to rank by; the absent value asks for none. -/
def keyOf (key : Option Value) : Option Value := key.filter (!·.isNone)

/-- The items of a value in the order of their ranks. -/
def sorted (arguments : Arguments) : m Value := do
  let (key, arguments) := arguments.take "key"
  let (reverse, arguments) := arguments.take "reverse"
  arguments.check "sorted" 1 (some 1)
  let items ← (argument arguments 0).items
  let ranked ← rankItems call (keyOf key) [] items
  let sorted ← Ranked.sort (reverse.any Value.truthy) ranked
  return .ofList (sorted.map Ranked.item)

/-- The item whose rank is wanted most, the first one of those with the same rank. The rank of an
item is found before the item is compared. -/
def bestItem (symbol : String) (wanted : Ordering) (key : Option Value)
    (best : Option Ranked) : List Value → m (Option Ranked)
  | [] => pure best
  | item :: rest => do
      let rank ← rankOf call key item
      match best with
      | none => bestItem symbol wanted key (some ⟨rank, item⟩) rest
      | some best =>
          let order ← rank.orderFor symbol best.rank
          bestItem symbol wanted key (some (if order == wanted then ⟨rank, item⟩ else best)) rest

/-- The items that are compared: those of a single argument, or the arguments. -/
def itemsToCompare : List Value → Except Fault (List Value)
  | [value] => value.items
  | values => .ok values

/-- The item that was found, or the fault that there was none. -/
def resultOf (name : String) : Option Value → Except Fault Value
  | some value => .ok value
  | none => .error (.value (.noItems name))

/-- The greatest or the least item: of one value, or of several arguments. -/
def extreme (name symbol : String) (wanted : Ordering) (arguments : Arguments) : m Value := do
  let (key, arguments) := arguments.take "key"
  let (default, arguments) := arguments.take "default"
  arguments.check name 1 none
  let items ← itemsToCompare arguments.positional
  let best ← bestItem call symbol wanted (keyOf key) none items
  resultOf name ((best.map Ranked.item).or default)

omit [MonadLiftT (Except Fault) m] in
/-- Without a function to rank by, nothing is called. -/
theorem rankItems_none (other : Value → Value → m Value) (done : List Ranked)
    (items : List Value) : rankItems call none done items = rankItems other none done items := by
  induction items generalizing done with
  | nil => rfl
  | cons item rest ih =>
      simp only [rankItems, rankOf]
      exact congrArg _ (funext fun rank => ih _)

/-- Without a function to rank by, nothing is called. -/
theorem bestItem_none (other : Value → Value → m Value) (symbol : String) (wanted : Ordering)
    (best : Option Ranked) (items : List Value) :
    bestItem call symbol wanted none best items = bestItem other symbol wanted none best items := by
  induction items generalizing best with
  | nil => rfl
  | cons item rest ih =>
      simp only [bestItem, rankOf]
      refine congrArg _ (funext fun rank => ?_)
      cases best with
      | none => exact ih _
      | some best => exact congrArg _ (funext fun order => ih _)

/-- Calls a built-in function. -/
def apply (name : String) (arguments : Arguments) : m Value :=
  match name with
  | "filter" => filter call arguments
  | "sorted" => sorted call arguments
  | "max" => extreme call "max" ">" .gt arguments
  | "min" => extreme call "min" "<" .lt arguments
  | name => liftM (compute name arguments)

end Callbacks

end Stencil.Builtin
