import Stencil.Text.Blank

/-!
# Lines and widths

A text is read line by line. `splitLine` cuts a text after its first newline, so that a line keeps
its newline and the two halves are the text again. Offsets count the bytes of the UTF-8 form.

Main statements: the halves of `splitLine` append to the text (`splitLine_append`), and what
follows the first line of a text that is not empty is shorter than the text
(`length_splitLine_rest_lt`).
-/

namespace Stencil.Text

/-- The number of bytes of the UTF-8 form. -/
def byteLength : List Char → Nat
  | [] => 0
  | c :: rest => c.utf8Size + byteLength rest

@[simp] theorem byteLength_nil : byteLength [] = 0 := rfl

@[simp] theorem byteLength_cons (c : Char) (rest : List Char) :
    byteLength (c :: rest) = c.utf8Size + byteLength rest := rfl

@[simp] theorem byteLength_append (a b : List Char) :
    byteLength (a ++ b) = byteLength a + byteLength b := by
  induction a with
  | nil => rw [List.nil_append, byteLength_nil, Nat.zero_add]
  | cons c rest ih => rw [List.cons_append, byteLength_cons, byteLength_cons, ih, Nat.add_assoc]

/-- The first line with its newline, and the text after it. -/
def splitLine : List Char → List Char × List Char
  | [] => ([], [])
  | '\n' :: rest => (['\n'], rest)
  | c :: rest => (c :: (splitLine rest).1, (splitLine rest).2)

theorem splitLine_append (text : List Char) :
    (splitLine text).1 ++ (splitLine text).2 = text := by
  fun_induction splitLine text <;> simp_all

theorem length_splitLine (text : List Char) :
    (splitLine text).1.length + (splitLine text).2.length = text.length := by
  have h := congrArg List.length (splitLine_append text)
  simpa using h

theorem splitLine_ne_nil {text : List Char} (h : text ≠ []) : (splitLine text).1 ≠ [] := by
  fun_cases splitLine text <;> simp_all

theorem length_splitLine_rest_lt {text : List Char} (h : text ≠ []) :
    (splitLine text).2.length < text.length := by
  have hLen := length_splitLine text
  have hPos := List.length_pos_iff.2 (splitLine_ne_nil h)
  omega

/-- The lines of a text, each with its newline. -/
def splitLines : List Char → List (List Char)
  | [] => []
  | '\n' :: rest => ['\n'] :: splitLines rest
  | c :: rest =>
      match splitLines rest with
      | [] => [[c]]
      | line :: others => (c :: line) :: others

@[simp] theorem flatten_splitLines (text : List Char) : (splitLines text).flatten = text := by
  fun_induction splitLines text <;> simp_all

theorem ne_nil_of_mem_splitLines {text line : List Char} (h : line ∈ splitLines text) :
    line ≠ [] := by
  fun_induction splitLines text generalizing line <;> grind

theorem splitLines_of_ne_nil {text : List Char} (h : text ≠ []) :
    splitLines text = (splitLine text).1 :: splitLines (splitLine text).2 := by
  fun_induction splitLine text with
  | case1 => contradiction
  | case2 rest => simp [splitLines]
  | case3 c rest hNewline ih =>
      cases rest with
      | nil => simp [splitLines, splitLine]
      | cons d others =>
          rw [splitLines]
          · rw [ih (by simp)]
          · exact hNewline

/-- How many newlines are in the text. -/
def countNewlines (text : List Char) : Nat := text.count '\n'

theorem countNewlines_splitLine (text : List Char) :
    countNewlines (splitLine text).1 + countNewlines (splitLine text).2 = countNewlines text := by
  conv => rhs; rw [← splitLine_append text]
  exact List.count_append.symm

/-- How many spaces the text starts with. -/
def leadingSpaces (text : List Char) : Nat := (text.takeWhile (· == ' ')).length

/-- The text without the spaces it starts with. -/
def dropSpaces (text : List Char) : List Char := text.dropWhile (· == ' ')

/-- A line read in reverse, without a carriage return at its end. -/
def finishLine : List Char → List Char
  | '\r' :: before => before.reverse
  | line => line.reverse

/-- The lines of a text, given what is read of the current line in reverse. -/
def linesFrom (current : List Char) : List Char → List (List Char)
  | [] => if current.isEmpty then [] else [current.reverse]
  | '\n' :: rest => finishLine current :: linesFrom [] rest
  | c :: rest => linesFrom (c :: current) rest

/-- The lines of a text without their ends. A newline ends a line, and a carriage return before it
belongs to the end; what follows the last newline is a line when it is not empty. -/
def lines (text : List Char) : List (List Char) := linesFrom [] text

end Stencil.Text
