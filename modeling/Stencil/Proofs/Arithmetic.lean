import Mathlib.Data.Rat.Floor
import Mathlib.Tactic.Linarith
import Stencil.Builtin

/-!
# Integer arithmetic

Two integers have an exact sum, difference and product, and where it has 64 bits it is what the
operators give; where it has not, they overflow. A quotient is the greatest integer that is no more
than the exact quotient, and a remainder is what such a quotient leaves. Neither is computed so: the
machine rounds towards zero, and its quotient and remainder are mended where the signs of the
operands differ. Mending overflows nowhere, because it only happens after a division that leaves
something, so that the divisor is neither one nor minus one.

## Main results

* `floor_div_eq_iff`: the quotient rounded down is told by what it leaves.
* `mendsWithin`: no step on the way to a quotient or a remainder overflows.
* `floorQuotient_eq`, `toInt_floorModulo`: both are the exact ones.
* `integer_arithmetic_is_exact`: the operators and functions on values, truth values among them.
-/

namespace Stencil

open Stencil.Number

/-! ## Outcomes -/

/-- The integer has 64 bits. -/
def FitsInt64 (n : Int) : Prop := -(int64Bound : Int) ≤ n ∧ n < int64Bound

/-- The outcome is this integer where it has 64 bits, and an overflow where it has not. -/
structure IsExact (outcome : Except Fault Value) (n : Int) : Prop where
  fits : FitsInt64 n → ∃ result : Int64, result.toInt = n ∧ outcome = .ok (.int result)
  overflows : ¬ FitsInt64 n → outcome = .error .overflow

theorem fitsInt64_toInt (a : Int64) : FitsInt64 a.toInt :=
  ⟨a.le_toInt, a.toInt_lt⟩

/-- An integer of 64 bits is its own remainder. -/
theorem bmod_of_fits {n : Int} (h : FitsInt64 n) : n.bmod (2 ^ 64) = n := by
  obtain ⟨hLow, hHigh⟩ := h
  simp only [int64Bound] at hLow hHigh
  exact Int.bmod_eq_of_le hLow hHigh

theorem fitInt_of_fits {n : Int} (h : FitsInt64 n) : fitInt n = .ok (Int64.ofInt n) := by
  rw [fitInt, exactInt64?, if_pos (show _ ∧ _ from h)]

theorem fitInt_of_not_fits {n : Int} (h : ¬ FitsInt64 n) : fitInt n = .error .overflow := by
  rw [fitInt, exactInt64?, if_neg (show ¬ (_ ∧ _) from h)]

theorem isExact_fitInt (n : Int) : IsExact (.int <$> fitInt n) n := by
  constructor
  · intro h
    exact ⟨Int64.ofInt n, toInt_ofInt_of_fits h.1 h.2, by rw [fitInt_of_fits h]; rfl⟩
  · intro h
    rw [fitInt_of_not_fits h]
    rfl

/-! ## Quotients and what they leave -/

/-- The remainder goes with the divisor: it lies between zero and the divisor, which it does not
reach. -/
def IsFloorRemainder (r b : Int) : Prop := (0 ≤ r ∧ r < b) ∨ (b < r ∧ r ≤ 0)

/-- The quotient rounded down is told by what it leaves. -/
theorem floor_div_eq_iff {a b : Int} (hb : b ≠ 0) (q : Int) :
    ⌊(a : ℚ) / b⌋ = q ↔ IsFloorRemainder (a - b * q) b := by
  rw [Int.floor_eq_iff]
  rcases Int.lt_or_gt_of_ne hb with hNegative | hPositive
  · have hb' : (b : ℚ) < 0 := by exact_mod_cast hNegative
    rw [le_div_iff_of_neg hb', div_lt_iff_of_neg hb']
    constructor
    · rintro ⟨hLow, hHigh⟩
      have hLow' : a ≤ q * b := by exact_mod_cast hLow
      have hHigh' : (q + 1) * b < a := by exact_mod_cast hHigh
      right
      constructor <;> linarith
    · rintro (⟨hZero, hLess⟩ | ⟨hLess, hZero⟩)
      · omega
      · have hLow : a ≤ q * b := by linarith
        have hHigh : (q + 1) * b < a := by linarith
        exact ⟨by exact_mod_cast hLow, by exact_mod_cast hHigh⟩
  · have hb' : (0 : ℚ) < b := by exact_mod_cast hPositive
    rw [le_div_iff₀ hb', div_lt_iff₀ hb']
    constructor
    · rintro ⟨hLow, hHigh⟩
      have hLow' : q * b ≤ a := by exact_mod_cast hLow
      have hHigh' : a < (q + 1) * b := by exact_mod_cast hHigh
      left
      constructor <;> linarith
    · rintro (⟨hZero, hLess⟩ | ⟨hLess, hZero⟩)
      · have hLow : q * b ≤ a := by linarith
        have hHigh : a < (q + 1) * b := by linarith
        exact ⟨by exact_mod_cast hLow, by exact_mod_cast hHigh⟩
      · omega

/-- What the machine's quotient leaves is smaller than the divisor, and has the sign of the
dividend. -/
theorem tmod_bounds (a : Int) {b : Int} (hb : b ≠ 0) :
    (a.tmod b).natAbs < b.natAbs ∧ (0 ≤ a → 0 ≤ a.tmod b) ∧ (a ≤ 0 → a.tmod b ≤ 0) := by
  refine ⟨?_, fun h => Int.tmod_nonneg b h, fun h => ?_⟩
  · rw [Int.natAbs_tmod]
    exact Nat.mod_lt _ (by omega)
  · have hNegative := Int.tmod_nonneg b (Int.neg_nonneg_of_nonpos h)
    rw [Int.neg_tmod] at hNegative
    omega

/-- A quotient by anything but one and minus one is at most half of the dividend. -/
theorem natAbs_tdiv_le_half (a : Int) {b : Int} (hb : 2 ≤ b.natAbs) :
    (a.tdiv b).natAbs ≤ a.natAbs / 2 := by
  rw [Int.natAbs_tdiv]
  exact Nat.div_le_div_left hb (by decide)

/-- The division leaves something and the signs of the operands differ. The machine's quotient is
one too large then, and its remainder lies on the wrong side of zero. -/
def NeedsMending (a b : Int) : Prop := a.tmod b ≠ 0 ∧ (a < 0 ↔ 0 ≤ b)

section Mending

variable {a b : Int} (hb : b ≠ 0)

include hb in
theorem floor_div_of_mending (h : NeedsMending a b) : ⌊(a : ℚ) / b⌋ = a.tdiv b - 1 := by
  obtain ⟨hNonzero, hSigns⟩ := h
  obtain ⟨hLess, hUp, hDown⟩ := tmod_bounds a hb
  have hLeaves : a - b * (a.tdiv b - 1) = a.tmod b + b := by
    have hDivision := Int.mul_tdiv_add_tmod a b
    linarith
  rw [floor_div_eq_iff hb, hLeaves]
  by_cases ha : a < 0
  · left
    omega
  · right
    omega

include hb in
theorem floor_div_of_not_mending (h : ¬ NeedsMending a b) : ⌊(a : ℚ) / b⌋ = a.tdiv b := by
  obtain ⟨hLess, hUp, hDown⟩ := tmod_bounds a hb
  have hLeaves : a - b * a.tdiv b = a.tmod b := by
    have hDivision := Int.mul_tdiv_add_tmod a b
    linarith
  rw [floor_div_eq_iff hb, hLeaves]
  by_cases hZero : a.tmod b = 0
  · rw [hZero, IsFloorRemainder]
    omega
  · have hSigns : ¬ (a < 0 ↔ 0 ≤ b) := fun hSigns => h ⟨hZero, hSigns⟩
    rw [IsFloorRemainder]
    omega

include hb in
theorem two_le_of_mending (h : NeedsMending a b) : 2 ≤ b.natAbs := by
  have hLess := (tmod_bounds a hb).1
  have hNonzero := h.1
  omega

end Mending

/-! ## The steps of the machine -/

/-- Each step of the machine on the way from the quotient rounded towards zero to the one rounded
down, and from the one remainder to the other, gives the exact integer. -/
structure MendsWithin (a b : Int64) : Prop where
  left : (a % b).toInt = a.toInt.tmod b.toInt
  lowered : NeedsMending a.toInt b.toInt → ∀ quotient : Int64,
    quotient.toInt = a.toInt.tdiv b.toInt → (quotient - 1).toInt = quotient.toInt - 1
  raised : NeedsMending a.toInt b.toInt → (a % b + b).toInt = (a % b).toInt + b.toInt

section Steps

variable {a b : Int64} (hb : b ≠ 0)

include hb in
theorem toInt_ne_zero : b.toInt ≠ 0 := fun hZero => hb (Int64.toInt_inj.1 hZero)

include hb in
/-- No step on the way to a quotient or a remainder overflows. -/
theorem mendsWithin : MendsWithin a b := by
  have hNonzero := toInt_ne_zero hb
  obtain ⟨hLess, hUp, hDown⟩ := tmod_bounds a.toInt hNonzero
  obtain ⟨haLow, haHigh⟩ := fitsInt64_toInt a
  obtain ⟨hbLow, hbHigh⟩ := fitsInt64_toInt b
  refine ⟨Int64.toInt_mod a b, ?_, ?_⟩
  · intro hMending quotient hQuotient
    have hHalf := natAbs_tdiv_le_half a.toInt (two_le_of_mending hNonzero hMending)
    rw [← hQuotient] at hHalf
    rw [Int64.toInt_sub]
    refine bmod_of_fits ?_
    show _ ≤ quotient.toInt - 1 ∧ quotient.toInt - 1 < _
    simp only [int64Bound] at *
    omega
  · rintro ⟨hLeft, hSigns⟩
    rw [Int64.toInt_add]
    refine bmod_of_fits ?_
    rw [Int64.toInt_mod]
    -- The two summands have different signs.
    show _ ≤ _ ∧ _ < _
    omega

omit hb in
theorem lt_zero_iff (a : Int64) : a < 0 ↔ a.toInt < 0 := Int64.lt_iff_toInt_lt

theorem signs_differ_iff (a b : Int64) :
    ((a < 0) != (b < 0)) = true ↔ (a.toInt < 0 ↔ 0 ≤ b.toInt) := by
  simp only [bne_iff_ne, ne_eq, decide_eq_decide, lt_zero_iff]
  omega

theorem mod_ne_zero_iff (a b : Int64) : (a % b != 0) = true ↔ a.toInt.tmod b.toInt ≠ 0 := by
  rw [bne_iff_ne, ne_eq, ← Int64.toInt_inj, Int64.toInt_mod]
  rfl

/-- The quotient is mended by a look at the signs of the operands. -/
theorem quotient_test_iff (a b : Int64) :
    (a % b != 0 && (a < 0) != (b < 0)) = true ↔ NeedsMending a.toInt b.toInt := by
  rw [Bool.and_eq_true, mod_ne_zero_iff, signs_differ_iff, NeedsMending]

include hb in
/-- The remainder is mended by a look at its own sign, which is the one of the dividend. -/
theorem remainder_test_iff :
    (a % b != 0 && (a % b < 0) != (b < 0)) = true ↔ NeedsMending a.toInt b.toInt := by
  obtain ⟨-, hUp, hDown⟩ := tmod_bounds a.toInt (toInt_ne_zero hb)
  rw [Bool.and_eq_true, mod_ne_zero_iff, signs_differ_iff, Int64.toInt_mod, NeedsMending]
  omega

include hb in
/-- The quotient of the machine has 64 bits, but for the lowest integer divided by minus one. -/
theorem fitsInt64_tdiv_iff :
    FitsInt64 (a.toInt.tdiv b.toInt) ↔ ¬ (a = Int64.minValue ∧ b = -1) := by
  have hNonzero := toInt_ne_zero hb
  obtain ⟨haLow, haHigh⟩ := fitsInt64_toInt a
  rw [← Int64.toInt_inj, ← Int64.toInt_inj (y := -1)]
  show _ ≤ _ ∧ _ < _ ↔ ¬ (a.toInt = -(int64Bound : Int) ∧ b.toInt = -1)
  by_cases hOne : b.toInt.natAbs = 1
  · rcases (show b.toInt = 1 ∨ b.toInt = -1 by omega) with h | h
    · rw [h, Int.tdiv_one]
      omega
    · rw [h, Int.tdiv_neg, Int.tdiv_one]
      omega
  · have hHalf := natAbs_tdiv_le_half a.toInt (b := b.toInt) (by omega)
    omega

include hb in
/-- The quotient rounded down has 64 bits where the one of the machine has. -/
theorem fitsInt64_floor_iff :
    FitsInt64 ⌊(a.toInt : ℚ) / b.toInt⌋ ↔ FitsInt64 (a.toInt.tdiv b.toInt) := by
  have hNonzero := toInt_ne_zero hb
  by_cases hMending : NeedsMending a.toInt b.toInt
  · have hTwo := two_le_of_mending hNonzero hMending
    have hHalf := natAbs_tdiv_le_half a.toInt hTwo
    obtain ⟨haLow, haHigh⟩ := fitsInt64_toInt a
    rw [floor_div_of_mending hNonzero hMending, FitsInt64, FitsInt64]
    simp only [int64Bound] at *
    omega
  · rw [floor_div_of_not_mending hNonzero hMending]

include hb in
/-- A quotient is the exact one rounded down. -/
theorem isExact_floorQuotient :
    IsExact (.int <$> floorQuotient a b) ⌊(a.toInt : ℚ) / b.toInt⌋ := by
  have hNonzero := toInt_ne_zero hb
  constructor
  · intro h
    have hFits := (fitsInt64_floor_iff hb).1 h
    have hQuotient := toInt_ofInt_of_fits hFits.1 hFits.2
    rw [floorQuotient, fitInt_of_fits hFits]
    by_cases hMending : NeedsMending a.toInt b.toInt
    · refine ⟨Int64.ofInt (a.toInt.tdiv b.toInt) - 1, ?_, ?_⟩
      · rw [(mendsWithin hb).lowered hMending _ hQuotient, hQuotient,
          floor_div_of_mending hNonzero hMending]
      · have hTest := (quotient_test_iff a b).2 hMending
        simp only [bind, Except.bind, hTest, if_true]
        rfl
    · refine ⟨Int64.ofInt (a.toInt.tdiv b.toInt), ?_, ?_⟩
      · rw [hQuotient, floor_div_of_not_mending hNonzero hMending]
      · have hTest := mt (quotient_test_iff a b).1 hMending
        simp only [bind, Except.bind, hTest]
        rfl
  · intro h
    rw [floorQuotient, fitInt_of_not_fits (mt (fitsInt64_floor_iff hb).2 h)]
    rfl

include hb in
/-- A remainder is what the quotient rounded down leaves. -/
theorem toInt_floorModulo :
    (floorModulo a b).toInt = a.toInt - b.toInt * ⌊(a.toInt : ℚ) / b.toInt⌋ := by
  have hNonzero := toInt_ne_zero hb
  have hDivision := Int.mul_tdiv_add_tmod a.toInt b.toInt
  have hSteps : MendsWithin a b := mendsWithin hb
  rw [floorModulo]
  by_cases hMending : NeedsMending a.toInt b.toInt
  · rw [if_pos ((remainder_test_iff hb).2 hMending), hSteps.raised hMending, hSteps.left,
      floor_div_of_mending hNonzero hMending]
    linarith
  · rw [if_neg (mt (remainder_test_iff hb).1 hMending), hSteps.left,
      floor_div_of_not_mending hNonzero hMending]
    linarith

example : floorQuotient (-7) 2 = .ok (-4) ∧ floorModulo (-7) 2 = 1 := ⟨rfl, rfl⟩

end Steps

/-! ## Operators and functions -/

theorem numeric?_of_asInt? {value : Value} {a : Int64} (h : value.asInt? = some a) :
    value.numeric? = some (.int a) := by
  cases value with
  | int i => exact congrArg (Option.map Numeric.int) h
  | bool b => exact congrArg (Option.map Numeric.int) h
  | _ => cases h

theorem wantInt_of_asInt? {value : Value} {a : Int64} (h : value.asInt? = some a) (role : String) :
    value.wantInt role = .ok a := by
  rw [Value.wantInt, h]

/-- The function takes this number of arguments, and no other. -/
theorem check_ofList {values : List Value} {count : Nat} (h : values.length = count)
    (function : String) : (Arguments.ofList values).check function count (some count) = .ok () := by
  subst h
  have hCount : ¬ (values.length < values.length ∨
      (some values.length).any (· < values.length)) := by simp
  exact if_neg hCount

/-- What the operators for division give for two integers of which the second is not zero. -/
structure DividesExactly (left right : Value) (a b : Int64) : Prop where
  quotient : IsExact (BinaryOp.floorDivide.apply left right) ⌊(a.toInt : ℚ) / b.toInt⌋
  fits_iff : FitsInt64 ⌊(a.toInt : ℚ) / b.toInt⌋ ↔ ¬ (a = Int64.minValue ∧ b = -1)
  remainder : ∃ r : Int64, BinaryOp.modulo.apply left right = .ok (.int r) ∧
    r.toInt = a.toInt - b.toInt * ⌊(a.toInt : ℚ) / b.toInt⌋ ∧
    (r = 0 ∨ (r < 0 ↔ b < 0)) ∧ r.toInt.natAbs < b.toInt.natAbs
  steps : MendsWithin a b

section Values

variable {left right : Value} {a b : Int64} (hLeft : left.asInt? = some a)
  (hRight : right.asInt? = some b)

include hLeft hRight in
theorem apply_of_asInt? (op : BinaryOp) : op.apply left right = computeInts op a b := by
  unfold BinaryOp.apply
  rw [numeric?_of_asInt? hLeft, numeric?_of_asInt? hRight]
  rfl

include hLeft in
theorem isExact_negative : IsExact (UnaryOp.negative.apply left) (-a.toInt) := by
  have hApply : UnaryOp.negative.apply left = .int <$> fitInt (-a.toInt) := by
    unfold UnaryOp.apply
    rw [numeric?_of_asInt? hLeft]
  rw [hApply]
  exact isExact_fitInt _

include hLeft in
theorem isExact_absolute : IsExact (Builtin.compute "abs" (.ofList [left])) a.toInt.natAbs := by
  have hCompute : Builtin.compute "abs" (.ofList [left]) = .int <$> fitInt a.toInt.natAbs := by
    have hCheck : (Arguments.ofList [left]).check "abs" 1 (some 1) = .ok () := check_ofList rfl _
    have hArgument : argument (.ofList [left]) 0 = left := rfl
    rw [Builtin.compute]
    simp only [Builtin.absolute, hCheck, hArgument, bind, Except.bind]
    cases left with
    | int i => simp only [hLeft]
    | bool b => simp only [hLeft]
    | _ => cases hLeft
  rw [hCompute]
  exact isExact_fitInt _

include hLeft hRight in
theorem dividesExactly (hb : b ≠ 0) : DividesExactly left right a b := by
  have hFloor : IsFloorRemainder (floorModulo a b).toInt b.toInt := by
    rw [toInt_floorModulo hb, ← floor_div_eq_iff (toInt_ne_zero hb)]
  refine ⟨?_, (fitsInt64_floor_iff hb).trans (fitsInt64_tdiv_iff hb), ?_, mendsWithin hb⟩
  · rw [apply_of_asInt? hLeft hRight, computeInts, if_neg hb]
    exact isExact_floorQuotient hb
  · refine ⟨floorModulo a b, ?_, toInt_floorModulo hb, ?_, ?_⟩
    · rw [apply_of_asInt? hLeft hRight, computeInts, if_neg hb]
    · rw [lt_zero_iff, lt_zero_iff, ← Int64.toInt_inj]
      show (floorModulo a b).toInt = 0 ∨ _
      rcases hFloor with h | h <;> omega
    · rcases hFloor with h | h <;> omega

include hLeft hRight in
/-- A division by zero is refused, and no other. -/
theorem divides_by_zero_iff :
    (BinaryOp.floorDivide.apply left right = .error .zeroDivision ↔ b = 0) ∧
      (BinaryOp.modulo.apply left right = .error .zeroDivision ↔ b = 0) := by
  by_cases hb : b = 0
  · rw [apply_of_asInt? hLeft hRight, apply_of_asInt? hLeft hRight, computeInts, computeInts,
      if_pos hb, if_pos hb]
    exact ⟨iff_of_true rfl hb, iff_of_true rfl hb⟩
  · have hDivides := dividesExactly hLeft hRight hb
    constructor
    · refine iff_of_false (fun h => ?_) hb
      by_cases hFits : FitsInt64 ⌊(a.toInt : ℚ) / b.toInt⌋
      · obtain ⟨q, -, hq⟩ := hDivides.quotient.fits hFits
        rw [hq] at h
        cases h
      · rw [hDivides.quotient.overflows hFits] at h
        cases h
    · obtain ⟨r, hr, -⟩ := hDivides.remainder
      refine iff_of_false (fun h => ?_) hb
      rw [hr] at h
      cases h

/-- A quotient and its remainder are the results of the two operators, or the first fault. -/
theorem compute_divmod (left right : Value) :
    Builtin.compute "divmod" (.ofList [left, right]) =
      match BinaryOp.floorDivide.apply left right, BinaryOp.modulo.apply left right with
      | .error fault, _ => .error fault
      | .ok _, .error fault => .error fault
      | .ok q, .ok r => .ok (.ofList [q, r]) := by
  have hCheck : (Arguments.ofList [left, right]).check "divmod" 2 (some 2) = .ok () :=
    check_ofList rfl _
  rw [Builtin.compute]
  simp only [Builtin.quotient, hCheck]
  show (do
    let quotient ← BinaryOp.floorDivide.apply left right
    let remainder ← BinaryOp.modulo.apply left right
    return .ofList [quotient, remainder] : Except Fault Value) = _
  cases BinaryOp.floorDivide.apply left right with
  | error fault => rfl
  | ok q =>
      cases BinaryOp.modulo.apply left right with
      | error fault => rfl
      | ok r => rfl

include hLeft hRight in
/-- Arithmetic on integers of 64 bits is exact or refused, truth values counting as one and zero,
and no step on the way overflows. -/
theorem integer_arithmetic_is_exact :
    IsExact (BinaryOp.add.apply left right) (a.toInt + b.toInt) ∧
    IsExact (BinaryOp.subtract.apply left right) (a.toInt - b.toInt) ∧
    IsExact (BinaryOp.multiply.apply left right) (a.toInt * b.toInt) ∧
    IsExact (UnaryOp.negative.apply left) (-a.toInt) ∧
    IsExact (Builtin.compute "abs" (.ofList [left])) a.toInt.natAbs ∧
    (BinaryOp.floorDivide.apply left right = .error .zeroDivision ↔ b = 0) ∧
    (BinaryOp.modulo.apply left right = .error .zeroDivision ↔ b = 0) ∧
    (b ≠ 0 → DividesExactly left right a b) ∧
    Builtin.compute "divmod" (.ofList [left, right]) =
      match BinaryOp.floorDivide.apply left right, BinaryOp.modulo.apply left right with
      | .error fault, _ => .error fault
      | .ok _, .error fault => .error fault
      | .ok q, .ok r => .ok (.ofList [q, r]) := by
  obtain ⟨hQuotient, hRemainder⟩ := divides_by_zero_iff hLeft hRight
  refine ⟨?_, ?_, ?_, isExact_negative hLeft, isExact_absolute hLeft, hQuotient, hRemainder,
    dividesExactly hLeft hRight, compute_divmod left right⟩
  · rw [apply_of_asInt? hLeft hRight]
    exact isExact_fitInt _
  · rw [apply_of_asInt? hLeft hRight]
    exact isExact_fitInt _
  · rw [apply_of_asInt? hLeft hRight]
    exact isExact_fitInt _

end Values

/-- The one quotient that has no 64 bits: it overflows, and so does the pair, but nothing is left.
-/
theorem lowest_by_minus_one :
    (Value.int Int64.minValue).asInt? = some Int64.minValue ∧
    (Value.int (-1)).asInt? = some (-1) ∧
    BinaryOp.floorDivide.apply (.int Int64.minValue) (.int (-1)) = .error .overflow ∧
    BinaryOp.modulo.apply (.int Int64.minValue) (.int (-1)) = .ok (.int 0) ∧
    Builtin.compute "divmod" (.ofList [.int Int64.minValue, .int (-1)]) = .error .overflow := by
  have hLeft : (Value.int Int64.minValue).asInt? = some Int64.minValue := rfl
  have hRight : (Value.int (-1)).asInt? = some (-1) := rfl
  obtain ⟨-, -, -, -, -, -, -, hDivides, hPair⟩ := integer_arithmetic_is_exact hLeft hRight
  have hExact := hDivides (by decide)
  have hQuotient := hExact.quotient.overflows fun hFits => hExact.fits_iff.1 hFits ⟨rfl, rfl⟩
  obtain ⟨r, hRemainder, -, -, hLess⟩ := hExact.remainder
  have hZero : r = 0 := Int64.toInt_inj.1 (Int.natAbs_eq_zero.1 (Nat.lt_one_iff.1 hLess))
  refine ⟨hLeft, hRight, hQuotient, hZero ▸ hRemainder, ?_⟩
  rw [hPair, hQuotient]

end Stencil
