import Stencil.Text.Ranges

/-!
# Letters, digits and names

The character classes behind names and numbers: letters and digits of every script, the decimal
digits alone, and the two classes that the lower-case mapping looks at around a capital sigma.

Main statements: a name character is a letter, a digit or the underscore, and the ASCII part of
each class is what core's own predicate says.
-/

namespace Stencil.Text

/-- A letter of any script. -/
def isLetter (c : Char) : Bool :=
  if c.toNat < 128 then c.isAlpha else alphabeticRanges.has c.toNat

/-- A decimal digit, letter number or other number of any script. -/
def isNumeric (c : Char) : Bool :=
  if c.toNat < 128 then c.isDigit else numericRanges.has c.toNat

/-- A decimal digit of any script. -/
def isDecimal (c : Char) : Bool :=
  if c.toNat < 128 then c.isDigit else decimalRanges.has c.toNat

/-- A letter or number of any script. -/
def isAlphanumeric (c : Char) : Bool := isLetter c || isNumeric c

/-- A character that may stand first in a name. -/
def startsName (c : Char) : Bool := isLetter c || c == '_'

/-- A character that may stand inside a name. -/
def continuesName (c : Char) : Bool := isAlphanumeric c || c == '_'

/-- A letter that has case. -/
def isCased (c : Char) : Bool :=
  if c.toNat < 128 then c.isAlpha else casedRanges.has c.toNat

/-- A character that the search for a cased neighbour passes over. -/
def isCaseIgnorable (c : Char) : Bool :=
  if c.toNat < 128 then c == '\'' || c == '.' || c == ':' || c == '^' || c.toNat == 0x60
  else caseIgnorableRanges.has c.toNat

/-- A digit of base sixteen. -/
def isHexDigit (c : Char) : Bool :=
  c.isDigit || ('a' ≤ c && c ≤ 'f') || ('A' ≤ c && c ≤ 'F')

theorem continuesName_of_startsName {c : Char} (h : startsName c = true) :
    continuesName c = true := by
  simp only [startsName, continuesName, isAlphanumeric, Bool.or_eq_true] at h ⊢
  exact h.elim (fun h => Or.inl (Or.inl h)) Or.inr

/-- Among ASCII characters, letters are what core calls letters. -/
theorem isLetter_ascii {c : Char} (h : c.toNat < 128) : isLetter c = c.isAlpha := by
  simp [isLetter, h]

end Stencil.Text
