import Stencil.Text.Blank
import Stencil.Text.Cut

/-!
# Searching and splitting

What follows from the leftmost place of a text in another one: pieces between the places where a
separator stands, replacement, and words between blanks. Places do not overlap: the search goes on
after the one that was found.

A place is the number of the characters before it. The search for the character at a place steps
from position to position and holds no list of the characters.

## Main results

* `charAt?_eq`: the character at a place is the one in the list of the characters.
-/

namespace Stencil.Text

/-- Does `needle` stand somewhere in the text? -/
def occurs (needle text : List Char) : Bool := (cut needle text).isSome

/-- How many characters precede the leftmost place of `needle`. -/
def findIndex? (needle text : List Char) : Option Nat := (cut needle text).map (·.1.length)

/-- The pieces between the places of `separator`, at most `limit + 1` of them when there is a limit.
The budget bounds the number of pieces. -/
def splitWithin (separator : List Char) : Nat → Option Nat → List (List Char) → List Char →
    List (List Char)
  | 0, _, done, text => (text :: done).reverse
  | budget + 1, limit, done, text =>
      if limit = some 0 then (text :: done).reverse
      else match cut separator text with
        | none => (text :: done).reverse
        | some (before, after) =>
            splitWithin separator budget (limit.map (· - 1)) (before :: done) after

/-- The pieces between the places of `separator`, which is not empty: all of them, or with a limit
at most so many cuts. -/
def splitOn (separator : List Char) (limit : Option Nat) (text : List Char) : List (List Char) :=
  splitWithin separator (text.length + 1) limit [] text

/-- The text with `new` before each of its characters and at its end, at most `limit` times. -/
def interleave (new : List Char) : Option Nat → List Char → List Char → List Char
  | some 0, done, text => done.reverse ++ text
  | _, done, [] => (new.reverse ++ done).reverse
  | limit, done, c :: rest => interleave new (limit.map (· - 1)) (c :: (new.reverse ++ done)) rest

/-- The text with `new` in the places of `old`, in the first `limit` of them when there is a
limit. An empty text has a place before each character and at the end. -/
def replace (old new : List Char) (limit : Option Nat) (text : List Char) : List Char :=
  if old.isEmpty then interleave new limit [] text
  else new.intercalate (splitOn old limit text)

/-- How many places `needle` has in the text. -/
def countOf (needle text : List Char) : Nat :=
  if needle.isEmpty then text.length + 1 else (splitOn needle none text).length - 1

/-- The words between blanks, given the current word and the words before it, both in reverse. -/
def wordsFrom (done : List (List Char)) (word : List Char) : List Char → List (List Char)
  | [] => (if word.isEmpty then done else word.reverse :: done).reverse
  | c :: rest =>
      if isBlank c then
        wordsFrom (if word.isEmpty then done else word.reverse :: done) [] rest
      else wordsFrom done (c :: word) rest

/-- The words between blanks. -/
def words (text : List Char) : List (List Char) := wordsFrom [] [] text

/-- The first `limit` words, and as one piece all that follows the blanks after them. -/
def wordsWithin : Nat → List Char → List (List Char)
  | limit, text =>
      match limit, trimStart text with
      | _, [] => []
      | 0, rest => [rest]
      | limit + 1, rest =>
          rest.takeWhile (!isBlank ·) :: wordsWithin limit (rest.dropWhile (!isBlank ·))

/-- The text without the characters at its ends that pass the test. -/
def strip (test : Char → Bool) (atStart atEnd : Bool) (text : List Char) : List Char :=
  let text := if atStart then text.dropWhile test else text
  if atEnd then (text.reverse.dropWhile test).reverse else text

/-! ## Characters at places -/

/-- The character that so many others precede from a position on. -/
def charFrom? {text : String} (position : text.Pos) : Nat → Option Char
  | 0 => if h : position = text.endPos then none else some (position.get h)
  | count + 1 =>
      if h : position = text.endPos then none else charFrom? (position.next h) count

/-- The character at a place. -/
def charAt? (text : String) (place : Nat) : Option Char := charFrom? text.startPos place

theorem charFrom?_eq {text : String} {position : text.Pos} {before after : String}
    (h : position.Splits before after) (count : Nat) :
    charFrom? position count = after.toList[count]? := by
  induction count generalizing position before after with
  | zero =>
      unfold charFrom?
      split
      · rename_i hEnd
        subst hEnd
        simp_all
      · rename_i hEnd
        obtain ⟨rest, hRest⟩ := h.exists_eq_singleton_append hEnd
        simp [hRest]
  | succ count ih =>
      unfold charFrom?
      split
      · rename_i hEnd
        subst hEnd
        simp_all
      · rename_i hEnd
        obtain ⟨rest, hRest⟩ := h.exists_eq_singleton_append hEnd
        subst hRest
        rw [ih h.next]
        simp

theorem charAt?_eq (text : String) (place : Nat) : charAt? text place = text.toList[place]? :=
  charFrom?_eq text.splits_startPos place

end Stencil.Text
