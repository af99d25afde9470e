import Stencil.Text.CaseMap
import Stencil.Text.Letter

/-!
# Upper case, lower case, titles

The full case mappings of texts. A character may grow into several, and the lower-case form of a
capital sigma depends on its neighbours: at the end of a word it is the final form.

`lowerAll` maps each character alone, as inside a capitalised word; `lowercase` maps a text and
looks at the neighbours.
-/

namespace Stencil.Text

/-- The upper-case form of one character. -/
def upperOf (c : Char) : List Char :=
  if c.toNat < 128 then [c.toUpper]
  else match raisedMany.lookup c.toNat with
    | some codes => codes.map Char.ofNat
    | none => match CaseRun.find? c.toNat raisedOne with
      | some code => [Char.ofNat code]
      | none => [c]

/-- The lower-case form of one character. The dotted capital i keeps its dot as a mark. -/
def lowerOf (c : Char) : List Char :=
  if c.toNat < 128 then [c.toLower]
  else if c.toNat = 0x130 then ['i', Char.ofNat 0x307]
  else match CaseRun.find? c.toNat loweredOne with
    | some code => [Char.ofNat code]
    | none => [c]

/-- The upper-case form of a text. -/
def uppercase (text : List Char) : List Char := text.flatMap upperOf

/-- The lower-case forms of the characters of a text, each taken alone. -/
def lowerAll (text : List Char) : List Char := text.flatMap lowerOf

/-- Is the first character that is not passed over a cased one? -/
def meetsCased (text : List Char) : Bool :=
  match text.dropWhile isCaseIgnorable with
  | [] => false
  | c :: _ => isCased c

/-- The lower-case form of a text, given the characters already passed, nearest first. -/
def lowerAfter (passed : List Char) : List Char → List Char
  | [] => []
  | c :: rest =>
      (if c.toNat = 0x3A3 then
        [Char.ofNat (if meetsCased passed && !meetsCased rest then 0x3C2 else 0x3C3)]
      else lowerOf c) ++ lowerAfter (c :: passed) rest

/-- The lower-case form of a text. A capital sigma becomes a final sigma after a letter and before
none. -/
def lowercase (text : List Char) : List Char := lowerAfter [] text

/-- The first character raised, the others lowered one by one. -/
def capitalize : List Char → List Char
  | [] => []
  | c :: rest => upperOf c ++ lowerAll rest

/-- Each letter that follows no letter raised, every other character lowered. -/
def titleAfter (afterLetter : Bool) : List Char → List Char
  | [] => []
  | c :: rest => (if afterLetter then lowerOf c else upperOf c) ++ titleAfter (isLetter c) rest

/-- The title form of a text. -/
def title (text : List Char) : List Char := titleAfter false text

end Stencil.Text
