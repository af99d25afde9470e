import Stencil.Number.FloatText
import Stencil.Value

/-!
# Values as text

Two texts of a value: the one that is written out, and the one that source code would be written
with, where strings stand in quotes. They differ for strings and renderings only.

Strings stand between apostrophes, or between double quotes when an apostrophe and no double quote
is in them. The backslash, the quote, and three control characters are written with a backslash.

## Main results

* `codeItems_eq`, `codeEntries_eq`: the texts of the items of a list are those of each of them.
-/

namespace Stencil

open Stencil.Number

/-! ## Strings in quotes -/

/-- The quote around a text. -/
def quoteFor (text : List Char) : Char :=
  if text.contains '\'' && !text.contains '"' then '"' else '\''

/-- A character as it stands between the given quotes. -/
def quoteChar (quote c : Char) : List Char :=
  match c with
  | '\\' => ['\\', '\\']
  | '\n' => ['\\', 'n']
  | '\r' => ['\\', 'r']
  | '\t' => ['\\', 't']
  | c => if c = quote then ['\\', c] else [c]

/-- A text in quotes. -/
def quoteChars (text : List Char) : List Char :=
  quoteFor text :: text.flatMap (quoteChar (quoteFor text)) ++ [quoteFor text]

/-- A text in quotes. -/
def quoteText (text : String) : String := String.ofList (quoteChars text.toList)

namespace Value

/-- The text of a value that is neither a list nor a dictionary. -/
def flatText : Value → String
  | none => "None"
  | bool b => if b then "True" else "False"
  | int i => String.ofList (decimalText i.toInt)
  | float x => String.ofList (floatText x)
  | string text _ => text
  | list _ _ => ""
  | dict _ _ => ""
  | rendering content _ => content.text
  | builtin name _ => "<built-in function " ++ name ++ ">"
  | method receiver name _ =>
      "<built-in method " ++ name ++ " of " ++ receiver.typeName ++ " object>"
  | function closure _ => "<function " ++ closure.name ++ ">"
  | template content _ => "<template " ++ content.name ++ ">"
  | renderer content _ => "<render " ++ content.library.root ++ ">"
  | page _ leaf _ => "<template " ++ leaf.name ++ ">"
  | loop level _ => level.position.text

mutual

/-- The text of a value as source code has it. -/
def code : Value → String
  | string text _ => quoteText text
  | list ⟨items⟩ _ => "[" ++ ", ".intercalate (codeItems [] items) ++ "]"
  | dict entries _ => "\x7b" ++ ", ".intercalate (codeEntries [] entries) ++ "\x7d"
  | rendering content _ => "<TemplateResult: " ++ quoteText content.text ++ ">"
  | value => value.flatText

/-- The texts of the items after those that are done, in reverse. -/
def codeItems (done : List String) : List Value → List String
  | [] => done.reverse
  | item :: rest => codeItems (item.code :: done) rest

/-- The texts of the entries after those that are done, in reverse. -/
def codeEntries (done : List String) : List (String × Value) → List String
  | [] => done.reverse
  | (name, value) :: rest => codeEntries ((quoteText name ++ ": " ++ value.code) :: done) rest

end

theorem codeItems_eq (done : List String) (items : List Value) :
    codeItems done items = done.reverse ++ items.map code := by
  induction items generalizing done with
  | nil => simp [codeItems]
  | cons item rest ih => simp [codeItems, ih]

theorem codeEntries_eq (done : List String) (entries : List (String × Value)) :
    codeEntries done entries =
      done.reverse ++ entries.map fun entry => quoteText entry.1 ++ ": " ++ entry.2.code := by
  induction entries generalizing done with
  | nil => simp [codeEntries]
  | cons entry rest ih => simp [codeEntries, ih]

theorem code_list (items : List Value) (mark : Mark) :
    (Value.list ⟨items⟩ mark).code = "[" ++ ", ".intercalate (items.map code) ++ "]" := by
  show "[" ++ ", ".intercalate (codeItems [] items) ++ "]" = _
  rw [codeItems_eq, List.reverse_nil, List.nil_append]

theorem code_dict (entries : List (String × Value)) (mark : Mark) :
    (Value.dict entries mark).code = "\x7b" ++ ", ".intercalate
      (entries.map fun entry => quoteText entry.1 ++ ": " ++ entry.2.code) ++ "\x7d" := by
  show "\x7b" ++ ", ".intercalate (codeEntries [] entries) ++ "\x7d" = _
  rw [codeEntries_eq, List.reverse_nil, List.nil_append]

/-- The text of a value that is written out. It is also the name that a value stands for where a
dictionary is asked for an entry. -/
def text : Value → String
  | list items mark => code (.list items mark)
  | dict entries mark => code (.dict entries mark)
  | value => value.flatText

end Value

namespace Rendering

/-- Sets the value under a name. Under the name of the text, the value's text becomes the text. -/
def insert (r : Rendering Value) (name : String) (value : Value) : Rendering Value :=
  if name = bodyName then r.setText value.text else r.set name value

/-- The value under a name, the text among them. -/
def get? (r : Rendering Value) (name : String) : Option Value :=
  if name = bodyName then some (.ofString r.text) else r.find? name

end Rendering

end Stencil
