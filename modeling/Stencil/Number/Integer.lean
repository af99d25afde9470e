/-!
# Integers of 64 bits

The integers of templates are signed and have 64 bits. An operation whose exact result does not fit
has no result; nothing wraps around. `exactInt64?` is the one place where an unbounded integer
becomes one of 64 bits.

Digits are read and written in any base up to 36. A written integer has a minus sign or none; a read
one may have a plus sign too.

## Main results

* `exactInt64?_eq_some_iff`: `exactInt64?` answers exactly the integers that fit.
* `readNat?_eq`: digits are read one after another.
-/

namespace Stencil.Number

/-- Two to the power of 31, which bounds the integers of 32 bits. -/
def int32Bound : Nat := 0x80000000

/-- Two to the power of 63, which bounds the integers of 64 bits. -/
def int64Bound : Nat := 0x8000000000000000

/-- Two to the power of 64, which bounds the natural numbers of 64 bits. -/
def wordBound : Nat := 0x10000000000000000

/-- The integer of 64 bits with this value, when there is one. -/
def exactInt64? (n : Int) : Option Int64 :=
  if -(int64Bound : Int) ≤ n ∧ n < int64Bound then some (Int64.ofInt n) else none

theorem toInt_ofInt_of_fits {n : Int} (hLow : -(int64Bound : Int) ≤ n) (hHigh : n < int64Bound) :
    (Int64.ofInt n).toInt = n :=
  Int64.toInt_ofInt_of_le hLow hHigh

theorem exactInt64?_eq_some_iff {n : Int} {i : Int64} : exactInt64? n = some i ↔ i.toInt = n := by
  unfold exactInt64?
  constructor
  · intro h
    split at h
    · rename_i hFits
      cases h
      exact toInt_ofInt_of_fits hFits.1 hFits.2
    · cases h
  · rintro rfl
    have hLow := Int64.le_toInt i
    have hHigh := Int64.toInt_lt i
    rw [if_pos ⟨hLow, hHigh⟩, Int64.ofInt_toInt]

/-! ## Digits -/

/-- The value of a digit, letters counting from ten on. -/
def digitValue? (c : Char) : Option Nat :=
  if '0' ≤ c ∧ c ≤ '9' then some (c.toNat - '0'.toNat)
  else if 'a' ≤ c ∧ c ≤ 'z' then some (c.toNat - 'a'.toNat + 10)
  else if 'A' ≤ c ∧ c ≤ 'Z' then some (c.toNat - 'A'.toNat + 10)
  else none

/-- The value of a digit that is one in this base. -/
def digitBelow? (base : Nat) (c : Char) : Option Nat := (digitValue? c).filter (· < base)

/-- The value of the digits after those that make up `value`. -/
def readDigits? (base value : Nat) : List Char → Option Nat
  | [] => some value
  | c :: rest =>
      match digitBelow? base c with
      | some digit => readDigits? base (value * base + digit) rest
      | none => none

/-- The number with these digits, of which the lowest comes first. -/
def ofDigits (base : Nat) (digits : List Nat) : Nat :=
  digits.foldr (fun digit rest => rest * base + digit) 0

/-- The digits of the same number in the square of the base: two neighbours become one. -/
def pairDigits (base : Nat) : List Nat → List Nat
  | low :: high :: rest => (high * base + low) :: pairDigits base rest
  | rest => rest

/-- The number with these digits. Neighbours are paired until a single digit is left, so that a long
number takes few multiplications of long numbers. -/
def gatherDigits (base : Nat) : Nat → List Nat → Nat
  | 0, digits => ofDigits base digits
  | steps + 1, digits =>
      match digits with
      | [] => 0
      | [digit] => digit
      | digits => gatherDigits (base * base) steps (pairDigits base digits)

/-- The natural number that is written with these digits, of which there is at least one. -/
def readNat? (base : Nat) (text : List Char) : Option Nat :=
  if text.isEmpty then none
  else (text.mapM (digitBelow? base)).map fun digits =>
    gatherDigits base digits.length digits.reverse

theorem ofDigits_pairDigits (base : Nat) (digits : List Nat) :
    ofDigits (base * base) (pairDigits base digits) = ofDigits base digits := by
  fun_induction pairDigits base digits with
  | case1 low high rest ih =>
      simp only [ofDigits, List.foldr_cons] at ih ⊢
      rw [ih, Nat.add_mul, Nat.mul_assoc, Nat.add_assoc]
  | case2 rest hShort =>
      match rest with
      | [] => rfl
      | [digit] => simp [ofDigits]
      | low :: high :: rest => exact absurd rfl (hShort low high rest)

theorem gatherDigits_eq (base steps : Nat) (digits : List Nat) :
    gatherDigits base steps digits = ofDigits base digits := by
  fun_induction gatherDigits base steps digits with
  | case1 => rfl
  | case2 => rfl
  | case3 => simp [ofDigits]
  | case4 base steps digits _ _ ih => rw [ih, ofDigits_pairDigits]

theorem readDigits?_eq (base value : Nat) (text : List Char) :
    readDigits? base value text = (text.mapM (digitBelow? base)).map fun digits =>
      digits.foldl (fun value digit => value * base + digit) value := by
  induction text generalizing value with
  | nil => rfl
  | cons c rest ih =>
      rw [readDigits?, List.mapM_cons]
      cases digitBelow? base c with
      | none => rfl
      | some digit =>
          refine (ih (value * base + digit)).trans ?_
          cases rest.mapM (digitBelow? base) <;> rfl

/-- Digits are read one after another. -/
theorem readNat?_eq (base : Nat) (text : List Char) :
    readNat? base text = if text.isEmpty then none else readDigits? base 0 text := by
  simp only [readNat?, readDigits?_eq, gatherDigits_eq, ofDigits, List.foldr_reverse]

/-- The integer that is written here, with a sign or without. -/
def readInt? (base : Nat) : List Char → Option Int
  | '-' :: digits => (readNat? base digits).map fun n => -(n : Int)
  | '+' :: digits => (readNat? base digits).map fun n => (n : Int)
  | digits => (readNat? base digits).map fun n => (n : Int)

/-- The integer of 64 bits that is written here. -/
def readInt64? (base : Nat) (text : List Char) : Option Int64 :=
  (readInt? base text).bind exactInt64?

/-- The position or size that is written here: an integer below two to the power of 64, with a plus
sign or without. -/
def readSize? (text : List Char) : Option Nat :=
  let digits := match text with
    | '+' :: rest => rest
    | _ => text
  (readNat? 10 digits).filter (· < wordBound)

/-- The text of an integer in base ten. -/
def decimalText (n : Int) : List Char :=
  if n < 0 then '-' :: Nat.toDigits 10 n.natAbs else Nat.toDigits 10 n.natAbs

end Stencil.Number
