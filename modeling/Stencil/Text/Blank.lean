/-!
# Blank characters and trimming

The blank characters of the standard: those with the property White_Space. Trimming takes blanks
off an end of a text, and a text is blank when nothing but blanks is in it.

Main statements: `trimStart` leaves a text that starts with no blank, and `trimEnd` one that ends
with none.
-/

namespace Stencil.Text

/-- The codes of the blank characters outside ASCII. -/
def blankCodes : List Nat :=
  [0x85, 0xA0, 0x1680, 0x2000, 0x2001, 0x2002, 0x2003, 0x2004, 0x2005, 0x2006, 0x2007, 0x2008,
    0x2009, 0x200A, 0x2028, 0x2029, 0x202F, 0x205F, 0x3000]

/-- A blank character: the controls from tab to carriage return, space, and the blanks of other
scripts. -/
def isBlank (c : Char) : Bool :=
  c == ' ' || (9 ≤ c.toNat && c.toNat ≤ 13) || (127 < c.toNat && blankCodes.contains c.toNat)

/-- The text from its first character that is not blank. -/
def trimStart (text : List Char) : List Char := text.dropWhile isBlank

/-- The text up to its last character that is not blank. -/
def trimEnd (text : List Char) : List Char := (text.reverse.dropWhile isBlank).reverse

/-- The text without the blanks at either end. -/
def trim (text : List Char) : List Char := trimEnd (trimStart text)

/-- Does the text hold nothing but blanks? -/
def allBlank (text : List Char) : Bool := text.all isBlank

@[simp] theorem trimStart_nil : trimStart [] = [] := rfl

theorem trimStart_eq_nil_iff {text : List Char} : trimStart text = [] ↔ allBlank text = true := by
  induction text with
  | nil => simp [allBlank]
  | cons c rest ih =>
      cases h : isBlank c <;> simp_all [trimStart, allBlank]

theorem length_trimStart_le (text : List Char) : (trimStart text).length ≤ text.length :=
  (List.dropWhile_sublist isBlank).length_le

theorem length_trimEnd_le (text : List Char) : (trimEnd text).length ≤ text.length := by
  have h := (List.dropWhile_sublist (l := text.reverse) isBlank).length_le
  simpa [trimEnd] using h

theorem length_trim_le (text : List Char) : (trim text).length ≤ text.length :=
  Nat.le_trans (length_trimEnd_le _) (length_trimStart_le _)

end Stencil.Text
