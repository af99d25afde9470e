import Stencil.Escape
import Stencil.Fault
import Stencil.Frame
import Stencil.Loop
import Stencil.Rendering

/-!
# Values

The values of a running template: plain data, renderings, and objects that can be called or asked
for attributes. A value that is made anew has no mark until `Value.settle` numbers it and the values
inside it; a settled value keeps its marks wherever it is copied to.

## Main results

* `settle_of_isSettled`, `settleItems_of_isSettled`: settling what is settled changes neither it nor
  the count.
-/

namespace Stencil

/-- A function that was defined in a running template. -/
structure Closure (α : Type) where
  kind : DefinitionKind
  name : String
  parameters : List Parameter
  body : List Instr
  /-- The frame it was defined in. -/
  frame : FrameId
  /-- The values of the defaults, in the order of the parameters. -/
  defaults : List (Option α)
  escape : Escape

/-- A compiled template. -/
structure Template (α : Type) where
  name : String
  program : Program
  /-- The values of the defaults, in the order of the parameters. -/
  defaults : List (Option α)
  escape : Escape
  /-- The frame of its globals. -/
  frame : FrameId

/-- A directory of templates and how they are compiled. -/
structure Library (α : Type) where
  /-- The path of the directory. -/
  root : String
  /-- The names that every template can use. -/
  globals : List (String × α)
  /-- The filter of every template; when there is none, it follows from the file name. -/
  escape : Option Escape
  /-- The memory of what names led to, when there is one. -/
  cache : Option Nat
  /-- The name under which templates can use the library itself. -/
  exposedAs : Option String
  /-- The count of the templates that were compiled. -/
  counter : Nat

/-- The layout around the templates of a library: the name of a template, and the library that it is
found in. -/
structure Layout (α : Type) where
  name : String
  library : Library α

/-- A library and the layout around its templates. -/
structure Renderer (α : Type) where
  library : Library α
  layout : Option (Layout α)

/-- A value. -/
inductive Value where
  | none
  | bool (value : Bool)
  | int (value : Int64)
  | float (value : Float)
  | string (text : String) (mark : Mark)
  | list (items : Array Value) (mark : Mark)
  | dict (entries : List (String × Value)) (mark : Mark)
  | rendering (content : Rendering Value) (mark : Mark)
  /-- A function that is known everywhere. -/
  | builtin (name : String) (mark : Mark)
  /-- A method of a value, with the value. -/
  | method (receiver : Value) (name : String) (mark : Mark)
  | function (closure : Closure Value) (mark : Mark)
  | template (content : Template Value) (mark : Mark)
  | renderer (content : Renderer Value) (mark : Mark)
  /-- A template of a library, which is rendered inside the layout. -/
  | page (renderer : Renderer Value) (leaf : Template Value) (mark : Mark)
  /-- The position of a loop, with the loops around it. -/
  | loop (level : LoopLevel) (outer : List LoopLevel)

namespace Value

instance : Inhabited Value := ⟨.none⟩

/-! ## New values -/

/-- A new string. -/
def ofString (text : String) : Value := .string text .none

/-- A new string. -/
def ofChars (text : List Char) : Value := .string (String.ofList text) .none

/-- A new list. -/
def ofArray (items : Array Value) : Value := .list items .none

/-- A new list. -/
def ofList (items : List Value) : Value := .ofArray items.toArray

/-- A new dictionary. -/
def ofEntries (entries : Entries Value) : Value := .dict entries .none

/-- A new rendering. -/
def ofRendering (content : Rendering Value) : Value := .rendering content.fold .none

/-- An integer that is known to have 64 bits. -/
def ofNat (n : Nat) : Value := .int (Int64.ofNat n)

/-! ## Questions -/

/-- The name of a value's type. -/
def typeName : Value → String
  | none => "NoneType"
  | bool _ => "bool"
  | int _ => "int"
  | float _ => "float"
  | string _ _ => "str"
  | list _ _ => "list"
  | dict _ _ => "dict"
  | rendering _ _ => "TemplateResult"
  | builtin _ _ => "builtin_function_or_method"
  | method _ _ _ => "builtin_function_or_method"
  | function _ _ => "function"
  | template _ _ => "template"
  | renderer _ _ => "render"
  | page _ _ _ => "template"
  | loop _ _ => "loop"

/-- Is this the absent value? -/
def isNone : Value → Bool
  | none => true
  | _ => false

/-- Does the value count as true? Zero, the absent value and everything empty do not. -/
def truthy : Value → Bool
  | none => false
  | bool b => b
  | int i => i != 0
  | float x => x != 0
  | string text _ => !text.isEmpty
  | list items _ => !items.isEmpty
  | dict entries _ => !entries.isEmpty
  | rendering content _ => !content.isEmpty
  | _ => true

/-- Can the value be called? -/
def isCallable : Value → Bool
  | builtin _ _ => true
  | method _ _ _ => true
  | function _ _ => true
  | template _ _ => true
  | page _ _ _ => true
  | _ => false

/-- Is the value none of the plain data and no rendering? -/
def isObject : Value → Bool
  | builtin _ _ => true
  | method _ _ _ => true
  | function _ _ => true
  | template _ _ => true
  | renderer _ _ => true
  | page _ _ _ => true
  | loop _ _ => true
  | _ => false

/-- The integer of a number without a fraction; the truth values are one and zero. -/
def asInt? : Value → Option Int64
  | int i => some i
  | bool b => some (if b then 1 else 0)
  | _ => Option.none

/-- The float of a number. -/
def asFloat? : Value → Option Float
  | float x => some x
  | value => value.asInt?.map Int64.toFloat

/-- The string that a value must be. -/
def wantString (role : String) : Value → Except Fault String
  | string text _ => .ok text
  | value => .error (.type (.mustBe role "str" value.typeName))

/-- The integer that a value must be. -/
def wantInt (role : String) (value : Value) : Except Fault Int64 :=
  match value.asInt? with
  | some i => .ok i
  | Option.none => .error (.type (.mustBe role "int" value.typeName))

/-! ## Marks -/

/-- The mark of a value that has one. -/
def mark? : Value → Mark
  | string _ mark => mark
  | list _ mark => mark
  | dict _ mark => mark
  | rendering _ mark => mark
  | builtin _ mark => mark
  | method _ _ mark => mark
  | function _ mark => mark
  | template _ mark => mark
  | renderer _ mark => mark
  | page _ _ mark => mark
  | loop level _ => level.mark
  | _ => Option.none

/-- Has the value its number, or does it need none? Inside a value that has one, all have. -/
def isSettled : Value → Bool
  | none => true
  | bool _ => true
  | int _ => true
  | float _ => true
  | value => value.mark?.isSome

/-- Numbers the loops that have no number, from `next` on. -/
def settleLevels (next : Nat) : List LoopLevel → List LoopLevel × Nat
  | [] => ([], next)
  | level :: rest =>
      match level.mark with
      | some _ => (level :: rest, next)
      | Option.none =>
          let (rest, after) := settleLevels (next + 1) rest
          ({ level with mark := some next } :: rest, after)

mutual

/-- Numbers the value and those inside it that have no number, from `next` on: the value, and the
number after the last one that was used. Items that all have their numbers stay as they are. -/
def settle (next : Nat) : Value → Value × Nat
  | string text .none => (string text (some next), next + 1)
  | list whole@⟨items⟩ .none =>
      if whole.all isSettled then (list whole (some next), next + 1)
      else
        let (items, after) := settleItems (next + 1) [] items
        (list items.toArray (some next), after)
  | dict entries .none =>
      let (entries, after) := settleEntries (next + 1) [] entries
      (dict entries (some next), after)
  | rendering ⟨body, pending, attributes⟩ .none =>
      let (attributes, after) := settleEntries (next + 1) [] attributes
      (rendering ⟨body, pending, attributes⟩ (some next), after)
  | builtin name .none => (builtin name (some next), next + 1)
  | method receiver name .none =>
      let (receiver, after) := settle (next + 1) receiver
      (method receiver name (some next), after)
  | function closure .none => (function closure (some next), next + 1)
  | template content .none => (template content (some next), next + 1)
  | renderer content .none => (renderer content (some next), next + 1)
  | page content leaf .none => (page content leaf (some next), next + 1)
  | loop level outer =>
      match settleLevels next (level :: outer) with
      | (level :: outer, after) => (loop level outer, after)
      | ([], after) => (loop level outer, after)
  | value => (value, next)

/-- Numbers the items after those that are done, in reverse. -/
def settleItems (next : Nat) (done : List Value) : List Value → List Value × Nat
  | [] => (done.reverse, next)
  | item :: rest =>
      let (item, after) := settle next item
      settleItems after (item :: done) rest

/-- Numbers the entries after those that are done, in reverse. -/
def settleEntries (next : Nat) (done : List (String × Value)) :
    List (String × Value) → List (String × Value) × Nat
  | [] => (done.reverse, next)
  | (name, value) :: rest =>
      let (value, after) := settle next value
      settleEntries after ((name, value) :: done) rest

end

/-- A value that has its number keeps it. -/
theorem settle_of_isSettled {value : Value} (h : value.isSettled = true) (next : Nat) :
    value.settle next = (value, next) := by
  cases value with
  | loop level outer =>
      obtain ⟨position, mark⟩ := level
      cases mark with
      | none => simp [isSettled, mark?] at h
      | some n => simp [settle, settleLevels]
  | rendering content mark =>
      cases mark with
      | none => simp [isSettled, mark?] at h
      | some n => simp [settle]
  | string text mark => cases mark <;> simp_all [settle, isSettled, mark?]
  | list items mark => cases mark <;> simp_all [settle, isSettled, mark?]
  | dict entries mark => cases mark <;> simp_all [settle, isSettled, mark?]
  | builtin name mark => cases mark <;> simp_all [settle, isSettled, mark?]
  | method receiver name mark => cases mark <;> simp_all [settle, isSettled, mark?]
  | function closure mark => cases mark <;> simp_all [settle, isSettled, mark?]
  | template content mark => cases mark <;> simp_all [settle, isSettled, mark?]
  | renderer content mark => cases mark <;> simp_all [settle, isSettled, mark?]
  | page content leaf mark => cases mark <;> simp_all [settle, isSettled, mark?]
  | _ => simp [settle]

/-- Items that have their numbers keep them. -/
theorem settleItems_of_isSettled {items : List Value}
    (h : ∀ item ∈ items, item.isSettled = true) (next : Nat) (done : List Value) :
    settleItems next done items = (done.reverse ++ items, next) := by
  induction items generalizing done with
  | nil => simp [settleItems]
  | cons item rest ih =>
      have hItem := settle_of_isSettled (h item (List.mem_cons_self ..)) next
      have hRest := ih fun other hOther => h other (List.mem_cons_of_mem _ hOther)
      simp [settleItems, hItem, hRest]

end Value

/-! ## Arguments -/

/-- The arguments of a call. -/
structure Arguments where
  positional : List Value
  named : Entries Value

namespace Arguments

/-- Arguments that are told by their places. -/
def ofList (values : List Value) : Arguments := ⟨values, []⟩

/-- Arguments that are told by their names. -/
def ofEntries (entries : Entries Value) : Arguments := ⟨[], entries⟩

/-- The argument at a place. -/
def get? (arguments : Arguments) (place : Nat) : Option Value := arguments.positional[place]?

/-- The argument of a name, and the others. -/
def take (arguments : Arguments) (name : String) : Option Value × Arguments :=
  (Entries.find? name arguments.named,
    { arguments with named := Entries.remove name arguments.named })

/-- Refuses a number of positional arguments that is out of bounds. -/
def checkCount (arguments : Arguments) (function : String) (least : Nat) (most : Option Nat) :
    Except Fault Unit :=
  let given := arguments.positional.length
  if given < least ∨ most.any (· < given) then
    .error (.arity (.wrongCount function least most given))
  else .ok ()

/-- Refuses named arguments, and a number of positional ones that is out of bounds. -/
def check (arguments : Arguments) (function : String) (least : Nat) (most : Option Nat) :
    Except Fault Unit :=
  match arguments.named with
  | (name, _) :: _ => .error (.arity (.unexpectedName function name))
  | [] => arguments.checkCount function least most

end Arguments

end Stencil
