import Stencil.Execution
import Stencil.Proofs.Arithmetic

/-!
# Integer powers

The power of an integer is the exact one where that has 64 bits, and an overflow where it has not,
as long as the exponent has 32 bits. A longer exponent is refused before the base is looked at.
That is the right answer for every base beyond one, whose power has no 64 bits by then. The powers
of minus one, zero and one are small for every exponent; theirs are refused all the same.

## Main results

* `power?_eq`: which powers there are.
* `isExact_power_iff`: where the operator is exact, and `compute_pow`: so is the function.
* `perform_augmented`: an assignment with an operator sets the variable to what the operator gives.
-/

namespace Stencil

open Stencil.Number

/-! ## Powers of integers -/

/-- A power of anything but minus one, zero and one outgrows 64 bits. -/
theorem not_fitsInt64_pow {a : Int} {n : Nat} (ha : 2 ≤ a.natAbs) (hn : 64 ≤ n) :
    ¬ FitsInt64 (a ^ n) := by
  have hPower : 2 ^ 64 ≤ (a ^ n).natAbs := by
    rw [Int.natAbs_pow]
    calc 2 ^ 64 ≤ 2 ^ n := Nat.pow_le_pow_right (by decide) hn
      _ ≤ a.natAbs ^ n := Nat.pow_le_pow_left ha n
  rintro ⟨hLow, hHigh⟩
  simp only [int64Bound] at hLow hHigh
  omega

/-- The powers of minus one, zero and one. -/
theorem pow_of_natAbs_le_one {a : Int} (ha : a.natAbs ≤ 1) (n : Nat) :
    a ^ n = if n = 0 then 1 else if n % 2 = 1 then a else a * a := by
  rcases (show a = 0 ∨ a = 1 ∨ a = -1 by omega) with rfl | rfl | rfl
  · by_cases hn : n = 0
    · rw [hn, if_pos rfl, pow_zero]
    · rw [zero_pow hn, if_neg hn]
      split <;> rfl
  · rw [one_pow]
    split
    · rfl
    · split <;> rfl
  · by_cases hOdd : n % 2 = 1
    · rw [if_neg (by omega), if_pos hOdd, Odd.neg_one_pow (Nat.odd_iff.2 hOdd)]
    · have hEven : Even n := Nat.even_iff.2 (by omega)
      rw [hEven.neg_one_pow, if_neg hOdd]
      split <;> rfl

/-- The power is there when its exponent has 32 bits and it has 64 itself. -/
theorem power?_eq (a : Int) (n : Nat) :
    power? a n = if n < 2 * int32Bound then exactInt64? (a ^ n) else none := by
  rw [power?]
  by_cases hLong : 2 * int32Bound ≤ n
  · rw [if_pos hLong, if_neg (Nat.not_lt.2 hLong)]
  rw [if_neg hLong, if_pos (Nat.lt_of_not_le hLong)]
  by_cases hSmall : a.natAbs ≤ 1
  · rw [if_pos hSmall, pow_of_natAbs_le_one hSmall]
  rw [if_neg hSmall]
  by_cases hn : n < 64
  · rw [if_pos hn]
    rfl
  · have hOut := not_fitsInt64_pow (a := a) (n := n) (by omega) (by omega)
    rw [if_neg hn, exactInt64?, if_neg (show ¬ (_ ∧ _) from hOut)]

theorem fitsInt64_of_natAbs_le_one {a : Int} (ha : a.natAbs ≤ 1) (n : Nat) :
    FitsInt64 (a ^ n) := by
  have hOne : (a ^ n).natAbs ≤ 1 := by
    rw [Int.natAbs_pow]
    exact (Nat.pow_le_pow_left ha n).trans (Nat.one_pow n).le
  rw [FitsInt64]
  simp only [int64Bound]
  omega

/-! ## The operator, the function and the assignment -/

section Values

variable {left right : Value} {a b : Int64} (hLeft : left.asInt? = some a)
  (hRight : right.asInt? = some b) (hb : 0 ≤ b.toInt)

include hLeft hRight hb in
theorem apply_power : BinaryOp.power.apply left right =
    if b.toInt < 2 * int32Bound then .int <$> fitInt (a.toInt ^ b.toInt.toNat)
    else .error .overflow := by
  have hNonnegative : ¬ b < 0 := by
    rw [lt_zero_iff]
    omega
  rw [apply_of_asInt? hLeft hRight, computeInts, if_neg hNonnegative, power?_eq]
  by_cases hShort : b.toInt < 2 * int32Bound
  · rw [if_pos hShort, if_pos (by omega), fitInt]
    cases exactInt64? (a.toInt ^ b.toInt.toNat) <;> rfl
  · rw [if_neg hShort, if_neg (by omega)]

include hLeft hRight hb in
/-- A power is exact or refused as it should be, but for small bases with long exponents. -/
theorem isExact_power_iff :
    IsExact (BinaryOp.power.apply left right) (a.toInt ^ b.toInt.toNat) ↔
      ¬ (a.toInt.natAbs ≤ 1 ∧ 2 * (int32Bound : Int) ≤ b.toInt) := by
  rw [apply_power hLeft hRight hb]
  by_cases hShort : b.toInt < 2 * int32Bound
  · rw [if_pos hShort]
    exact iff_of_true (isExact_fitInt _) (by omega)
  rw [if_neg hShort]
  constructor
  · rintro hExact ⟨hSmall, -⟩
    obtain ⟨c, -, hc⟩ := hExact.fits (fitsInt64_of_natAbs_le_one hSmall _)
    cases hc
  · intro h
    have hBase : 2 ≤ a.toInt.natAbs := by omega
    have hLong : 64 ≤ b.toInt.toNat := by
      simp only [int32Bound] at hShort
      omega
    exact ⟨fun hFits => absurd hFits (not_fitsInt64_pow hBase hLong), fun _ => rfl⟩

example : BinaryOp.power.apply (.int 1) (.int 4294967296) = .error .overflow := rfl

end Values

/-- The function is the operator. -/
theorem compute_pow (left right : Value) :
    Builtin.compute "pow" (.ofList [left, right]) = BinaryOp.power.apply left right := by
  have hCheck : (Arguments.ofList [left, right]).check "pow" 2 (some 2) = .ok () :=
    check_ofList rfl _
  rw [Builtin.compute]
  simp only [Builtin.power, hCheck]
  rfl

/-! ## Assignments -/

/-- A run carries on with the result of its first step, in the store that this step leaves. -/
theorem Run.perform_bind {α β : Type} {action : Run α} (next : α → Run β) {setting : Setting}
    {store after : Store} {result : α} (h : action.perform setting store = (.ok result, after)) :
    (action >>= next).perform setting store = (next result).perform setting after := by
  have hStep : action setting store = .ok result after := by
    unfold Run.perform at h
    cases hRun : (action.run setting).run store with
    | ok found left =>
        rw [hRun] at h
        cases h
        exact hRun
    | error cause left =>
        rw [hRun] at h
        cases h
  show Run.perform (fun setting => EStateM.bind (action setting) fun x => next x setting) _ _ = _
  simp only [Run.perform, ReaderT.run, EStateM.run, EStateM.bind, hStep]

/-- An assignment with an operator sets the variable to what the operator gives for its value and
the operand, or stops with the fault of the operator and sets nothing. -/
theorem perform_augmented {services : Services} {scene : Scene} {out : Rendering Value}
    {name : String} {value : Expr} {left right : Value} {setting : Setting}
    {store looked read : Store} (op : BinaryOp)
    (hLookup : (scene.lookup out name).perform setting store = (.ok left, looked))
    (hValue : (value.evaluate services scene out).perform setting looked = (.ok right, read)) :
    ((Statement.augmented name op value).execute services scene out).perform setting store =
      match op.apply left right with
      | .ok result => (Run.define scene.frame name result).perform setting read
      | .error fault => (.error (.failure (.evaluation fault)), read) := by
  rw [Statement.execute, Run.perform_bind _ hLookup, Run.perform_bind _ hValue]
  cases op.apply left right with
  | ok result => rfl
  | error fault => rfl

end Stencil
