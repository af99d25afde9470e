import Stencil.Proofs.Arithmetic
import Stencil.Proofs.Filling
import Stencil.Proofs.Layout.Joining
import Stencil.Proofs.Writing.Lexing

/-!
# Padded integers

An integer is written with a sign, digits in one of three bases, and padding: blanks before the sign
or after the digits, or zeros between the two. Zeros in front do not change a number, and blanks are
taken off before a number is read. So whatever the flags and the width say, the text is read back as
the integer. This holds of the lowest integer too, whose magnitude has no 64 bits, because the sign
is put before the digits of the magnitude.

## Main results

* `readNat?_integerParts`: the digits are read back in each base, with zeros before them.
* `padNumber_eq`: the form of a padded number.
* `Format.percent_integer`: what a conversion of an integer gives.
* `integers_read_back`: the texts of an integer are read back.
-/

namespace Stencil

open Stencil.Text Stencil.Number

/-! ## Digits -/

/-- What each character of a list passes is tested along the list, not over all characters. -/
theorem forall_mem_of_all {p : Char → Prop} [DecidablePred p] {chars : List Char}
    (h : chars.all (fun c => decide (p c)) = true) : ∀ c ∈ chars, p c := by
  intro c hc
  exact of_decide_eq_true (List.all_eq_true.1 h c hc)

/-- What holds of each digit holds of the digits of a number. -/
theorem forall_mem_toDigits {base : Nat} (hBase : 1 < base) {p : Char → Prop}
    (h : ∀ digit < base, p digit.digitChar) (n : Nat) : ∀ c ∈ Nat.toDigits base n, p c := by
  induction n using Nat.strongRecOn with
  | ind n ih =>
      rw [Nat.toDigits_eq_if hBase]
      by_cases hSmall : n < base
      · rw [if_pos hSmall]
        intro c hc
        rw [List.mem_singleton.1 hc]
        exact h n hSmall
      · rw [if_neg hSmall]
        intro c hc
        rcases List.mem_append.1 hc with hc | hc
        · exact ih (n / base) (Nat.div_lt_self (by omega) hBase) c hc
        · rw [List.mem_singleton.1 hc]
          exact h _ (Nat.mod_lt n (by omega))

theorem readNat?_toDigits {base : Nat} (hBase : 1 < base)
    (hDigits : ∀ digit < base, digitBelow? base digit.digitChar = some digit) (n : Nat) :
    readNat? base (Nat.toDigits base n) = some n := by
  have hRead := readDigits?_toDigits hBase id hDigits n
  rw [List.map_id] at hRead
  rw [readNat?_eq, if_neg (by simp), hRead]

theorem readDigits?_zeros {base : Nat} (hBase : 0 < base) (zeros : Nat) (digits : List Char) :
    readDigits? base 0 (List.replicate zeros '0' ++ digits) = readDigits? base 0 digits := by
  induction zeros with
  | zero => rfl
  | succ zeros ih =>
      have hZero : digitBelow? base '0' = some 0 := by simp [digitBelow?, digitValue?, hBase]
      rw [List.replicate_succ, List.cons_append, readDigits?, hZero]
      simpa using ih

/-- A digit is no blank, no sign and no underscore. -/
theorem plain_of_digitValue? {c : Char} (h : (digitValue? c).isSome = true) :
    isBlank c = false ∧ c ≠ '-' ∧ c ≠ '+' ∧ c ≠ '_' := by
  have hNot {d : Char} (hd : digitValue? d = none) : c ≠ d := by
    rintro rfl
    rw [hd] at h
    cases h
  refine ⟨?_, hNot (by decide), hNot (by decide), hNot (by decide)⟩
  have hRange : 48 ≤ c.toNat ∧ c.toNat ≤ 122 := by
    have hBetween {low high : Char} (h : low ≤ c ∧ c ≤ high) :
        low.toNat ≤ c.toNat ∧ c.toNat ≤ high.toNat := h
    unfold digitValue? at h
    by_cases hDigit : '0' ≤ c ∧ c ≤ '9'
    · have hCode := hBetween hDigit
      exact ⟨hCode.1, Nat.le_trans hCode.2 (by decide)⟩
    by_cases hSmall : 'a' ≤ c ∧ c ≤ 'z'
    · have hCode := hBetween hSmall
      exact ⟨Nat.le_trans (by decide) hCode.1, hCode.2⟩
    by_cases hCapital : 'A' ≤ c ∧ c ≤ 'Z'
    · have hCode := hBetween hCapital
      exact ⟨Nat.le_trans (by decide) hCode.1, Nat.le_trans hCode.2 (by decide)⟩
    · rw [if_neg hDigit, if_neg hSmall, if_neg hCapital] at h
      cases h
  have hSpace : c ≠ ' ' := by
    rintro rfl
    exact absurd hRange.1 (by decide)
  simp only [isBlank, Bool.or_eq_false_iff, beq_eq_false_iff_ne, Bool.and_eq_false_iff,
    decide_eq_false_iff_not]
  exact ⟨⟨hSpace, .inr (by omega)⟩, .inl (by omega)⟩

theorem digitValue?_of_readDigits? {base value n : Nat} {digits : List Char}
    (h : readDigits? base value digits = some n) : ∀ c ∈ digits, (digitValue? c).isSome = true := by
  induction digits generalizing value with
  | nil => simp
  | cons c rest ih =>
      rw [readDigits?] at h
      cases hDigit : digitBelow? base c with
      | none =>
          rw [hDigit] at h
          cases h
      | some digit =>
          rw [hDigit] at h
          have hSome : digitValue? c = some digit := (Option.filter_eq_some_iff.1 hDigit).1
          intro d hd
          rcases List.mem_cons.1 hd with rfl | hd
          · rw [hSome]
            rfl
          · exact ih h d hd

/-! ## Signs and blanks -/

/-- Blanks on either side of a text are taken off. -/
theorem trim_between_blanks {text : List Char} (h : trim text = text) (hSome : text ≠ [])
    (before after : Nat) :
    trim (List.replicate before ' ' ++ text ++ List.replicate after ' ') = text := by
  have hBlank (count : Nat) : ∀ c ∈ List.replicate count ' ', isBlank c = true := by
    intro c hc
    rw [List.eq_of_mem_replicate hc]
    decide
  obtain ⟨c, rest, rfl⟩ := List.exists_cons_of_ne_nil hSome
  have hFirst : isBlank c = false := (trim_eq_self_iff.1 h).1 c rfl
  have hStart : trimStart (List.replicate before ' ' ++ (c :: rest) ++ List.replicate after ' ') =
      (c :: rest) ++ List.replicate after ' ' := by
    rw [trimStart, List.append_assoc, List.dropWhile_append_of_pos (hBlank before)]
    exact dropWhile_eq_self fun d hd => by
      rw [← Option.some_inj.1 hd]
      exact hFirst
  rw [trim, hStart, trimEnd, List.reverse_append, List.reverse_replicate,
    List.dropWhile_append_of_pos (hBlank after)]
  exact trimEnd_eq_self h

/-- A sign: a minus, or a plus or nothing. -/
inductive IsSign : Bool → List Char → Prop
  | minus : IsSign true ['-']
  | plus : IsSign false ['+']
  | none : IsSign false []

theorem IsSign.plain {negative : Bool} {mark : List Char} (h : IsSign negative mark) :
    ∀ c ∈ mark, isBlank c = false ∧ c ≠ '_' := by
  cases h with
  | minus => exact forall_mem_of_all (by decide)
  | plus => exact forall_mem_of_all (by decide)
  | none => nofun

section Signed

variable {i : Int64} {base : Nat} {negative : Bool} {mark digits : List Char}
  (hDigits : readNat? base digits = some i.toInt.natAbs)

include hDigits

theorem digits_ne_nil : digits ≠ [] := by
  rintro rfl
  cases hDigits

theorem plain_of_mem_digits {c : Char} (hc : c ∈ digits) :
    isBlank c = false ∧ c ≠ '-' ∧ c ≠ '+' ∧ c ≠ '_' := by
  have hSome := digits_ne_nil hDigits
  rw [readNat?_eq, if_neg (by simpa using hSome)] at hDigits
  exact plain_of_digitValue? (digitValue?_of_readDigits? hDigits c hc)

/-- Digits without a sign are read as they are. -/
theorem readInt?_digits : readInt? base digits = some (i.toInt.natAbs : Int) := by
  unfold readInt?
  split
  · exact absurd rfl (plain_of_mem_digits hDigits (List.mem_cons_self ..)).2.1
  · exact absurd rfl (plain_of_mem_digits hDigits (List.mem_cons_self ..)).2.2.1
  · rw [hDigits]
    rfl

variable (hMark : IsSign negative mark) (hNegative : negative = decide (i.toInt < 0))

include hMark hNegative

/-- A sign and the digits of the magnitude are the integer. -/
theorem readInt64?_signed : readInt64? base (mark ++ digits) = some i := by
  have hRead : readInt? base (mark ++ digits) = some i.toInt := by
    cases hMark with
    | minus =>
        have hAbs : i.toInt = -(i.toInt.natAbs : Int) := by
          have hLess := of_decide_eq_true hNegative.symm
          omega
        rw [List.singleton_append, readInt?, hDigits, hAbs, Int.natAbs_neg, Int.natAbs_natCast]
        rfl
    | plus =>
        have hAbs : i.toInt = (i.toInt.natAbs : Int) := by
          have hNot := of_decide_eq_false hNegative.symm
          omega
        rw [List.singleton_append, readInt?, hDigits, hAbs, Int.natAbs_natCast]
        rfl
    | none =>
        have hAbs : (i.toInt.natAbs : Int) = i.toInt := by
          have hNot := of_decide_eq_false hNegative.symm
          omega
        rw [List.nil_append, readInt?_digits hDigits, hAbs]
  rw [readInt64?, hRead, Option.bind_some]
  exact exactInt64?_eq_some_iff.2 rfl

/-- They are read between blanks as well. -/
theorem readInt64?_padded (before after : Nat) :
    readInt64? base ((trim (List.replicate before ' ' ++ (mark ++ digits) ++
      List.replicate after ' ')).filter (· != '_')) = some i := by
  have hSome : mark ++ digits ≠ [] := by simp [digits_ne_nil hDigits]
  have hPlain : ∀ c ∈ mark ++ digits, isBlank c = false ∧ c ≠ '_' := by
    intro c hc
    rcases List.mem_append.1 hc with hc | hc
    · exact hMark.plain c hc
    · have hDigit := plain_of_mem_digits hDigits hc
      exact ⟨hDigit.1, hDigit.2.2.2⟩
  have hTrim : trim (mark ++ digits) = mark ++ digits :=
    trim_eq_self_iff.2 ⟨fun c hc => (hPlain c (List.mem_of_head? hc)).1,
      fun c hc => (hPlain c (List.mem_of_getLast? hc)).1⟩
  have hFilter : (mark ++ digits).filter (· != '_') = mark ++ digits :=
    List.filter_eq_self.2 fun c hc => bne_iff_ne.2 (hPlain c hc).2
  rw [trim_between_blanks hTrim hSome, hFilter, readInt64?_signed hDigits hMark hNegative]

end Signed

namespace Format

/-- The base of a conversion letter. -/
def baseOf (letter : Char) : Nat :=
  if letter = 'o' then 8 else if letter = 'x' ∨ letter = 'X' then 16 else 10

theorem baseOf_bounds (letter : Char) : 2 ≤ baseOf letter ∧ baseOf letter ≤ 36 := by
  unfold baseOf
  split
  · decide
  · split <;> decide

/-- The digits of an integer, with zeros before them, are read as its magnitude. -/
theorem readNat?_integerParts (i : Int64) (letter : Char) (zeros : Nat) :
    readNat? (baseOf letter) (List.replicate zeros '0' ++ (integerParts i letter false).digits) =
      some i.toInt.natAbs := by
  have hForm : ∃ form : Char → Char, (integerParts i letter false).digits =
      (Nat.toDigits (baseOf letter) i.toInt.natAbs).map form ∧ 1 < baseOf letter ∧
      ∀ digit < baseOf letter, digitBelow? (baseOf letter) (form digit.digitChar) = some digit := by
    unfold integerParts
    split
    · exact ⟨id, by simp [baseOf], by decide, by decide⟩
    · exact ⟨id, by simp [baseOf], by decide, by decide⟩
    · exact ⟨Char.toUpper, by simp [baseOf, raise], by decide, by decide⟩
    · rename_i hOctal hSmall hCapital
      have hTen : baseOf letter = 10 := by
        rw [baseOf, if_neg hOctal, if_neg (not_or.2 ⟨hSmall, hCapital⟩)]
      rw [hTen]
      exact ⟨id, by simp, by decide, by decide⟩
  obtain ⟨form, hDigits, hBase, hForm⟩ := hForm
  have hRead := readDigits?_toDigits hBase form hForm i.toInt.natAbs
  rw [readNat?_eq, if_neg (by simp [hDigits]), readDigits?_zeros (by omega), hDigits, hRead]

/-! ## Padding -/

/-- A padded number is a sign, zeros and digits between blanks. -/
theorem padNumber_eq (flags : NumberFlags) (width : Nat) {number : NumberParts}
    (hBase : number.base = []) : ∃ before mark zeros after,
      padNumber flags width number = List.replicate before ' ' ++
        (mark ++ (List.replicate zeros '0' ++ number.digits)) ++ List.replicate after ' ' ∧
      IsSign number.negative mark := by
  -- the blank in the place of a sign is one more blank before the digits
  have hSign : ∃ blanks mark, signFor flags number.negative = List.replicate blanks ' ' ++ mark ∧
      IsSign number.negative mark := by
    rw [signFor]
    by_cases hNegative : number.negative = true
    · rw [if_pos hNegative, hNegative]
      exact ⟨0, ['-'], rfl, .minus⟩
    · rw [Bool.not_eq_true] at hNegative
      rw [hNegative, if_neg Bool.false_ne_true]
      by_cases hPlus : flags.plus = true
      · rw [if_pos hPlus]
        exact ⟨0, ['+'], rfl, .plus⟩
      · rw [if_neg hPlus]
        by_cases hSpace : flags.space = true
        · rw [if_pos hSpace]
          exact ⟨1, [], rfl, .none⟩
        · rw [if_neg hSpace]
          exact ⟨0, [], rfl, .none⟩
  obtain ⟨blanks, mark, hSign, hMark⟩ := hSign
  simp only [padNumber, hSign, hBase, List.append_nil]
  generalize width - _ = fill
  by_cases hLeft : flags.left = true
  · rw [if_pos hLeft]
    exact ⟨blanks, mark, 0, fill, by simp, hMark⟩
  rw [if_neg hLeft]
  by_cases hZero : flags.zero = true
  · rw [if_pos hZero]
    exact ⟨blanks, mark, fill, 0, by simp, hMark⟩
  · rw [if_neg hZero]
    exact ⟨fill + blanks, mark, 0, 0, by simp [← List.replicate_append_replicate], hMark⟩

/-- However an integer is padded, it is read back. -/
theorem readInt64?_padNumber (flags : NumberFlags) (width : Nat) (i : Int64) (letter : Char) :
    readInt64? (baseOf letter)
      ((trim (padNumber flags width (integerParts i letter false))).filter (· != '_')) =
        some i := by
  have hBase : (integerParts i letter false).base = [] := rfl
  obtain ⟨before, mark, zeros, after, hText, hMark⟩ := padNumber_eq flags width hBase
  rw [hText]
  exact readInt64?_padded (readNat?_integerParts i letter zeros) hMark rfl before after

/-! ## Conversions -/

theorem dropWhile_append_noHead {p : Char → Bool} (text : List Char) {more : List Char}
    (hText : ∀ c ∈ text, p c = true) (hMore : NoHead p more) :
    (text ++ more).dropWhile p = more := by
  rw [List.dropWhile_append_of_pos hText]
  exact dropWhile_eq_self hMore

/-- The letters of the conversions that take an integer and are written with its digits. -/
def integerLetters : List Char := ['d', 'x', 'X', 'o']

theorem readKey?_of_noHead {text : List Char} (h : ∀ c ∈ text.head?, c ≠ '(') :
    readKey? text = some (none, text) := by
  unfold readKey?
  split
  · exact absurd rfl (h '(' rfl)
  · rfl

theorem readDigits_append {digits more : List Char} (hDigits : ∀ c ∈ digits, isDecimal c = true)
    (hMore : NoHead isDecimal more) :
    readDigits (digits ++ more) = (if digits.isEmpty then none else some digits, more) := by
  simp only [readDigits, takeWhile_append_noHead digits hDigits hMore,
    dropWhile_append_noHead digits hDigits hMore]

theorem readPrecision_of_noHead {text : List Char} (h : ∀ c ∈ text.head?, c ≠ '.') :
    readPrecision text = (none, text) := by
  unfold readPrecision
  split
  · exact absurd rfl (h '.' rfl)
  · rfl

/-- A conversion is read from flags, the digits of a width, and a letter. -/
theorem readConversion?_eq {flags digits : List Char} {letter : Char}
    (hFlags : ∀ c ∈ flags, flagChars.contains c = true)
    (hDigits : ∀ c ∈ digits, isDecimal c = true)
    (hStop : NoHead flagChars.contains (digits ++ [letter])) (hLetter : letter ∈ integerLetters) :
    readConversion? (flags ++ (digits ++ [letter])) =
      some (⟨none, flags, if digits.isEmpty then none else some digits, none, letter⟩, []) := by
  have hKnown : ∀ letter ∈ integerLetters, isDecimal letter = false ∧ letter ≠ '(' ∧ letter ≠ '.' ∧
      conversionLetters.contains letter = true := forall_mem_of_all (by decide)
  obtain ⟨hDecimal, hBracket, hPoint, hContains⟩ := hKnown letter hLetter
  have hKey : readKey? (flags ++ (digits ++ [letter])) =
    some (none, flags ++ (digits ++ [letter])) := by
    refine readKey?_of_noHead ?_
    intro c hc
    have hMem := List.mem_of_head? hc
    rintro rfl
    rw [List.mem_append, List.mem_append, List.mem_singleton] at hMem
    rcases hMem with hMem | hMem | hMem
    · exact absurd (hFlags _ hMem) (by decide)
    · exact absurd (hDigits _ hMem) (by decide)
    · exact hBracket hMem.symm
  have hWidth : readDigits (digits ++ [letter]) =
      (if digits.isEmpty then none else some digits, [letter]) :=
    readDigits_append hDigits (.cons hDecimal [])
  have hPrecision : readPrecision [letter] = (none, [letter]) := by
    refine readPrecision_of_noHead ?_
    intro c hc
    cases hc
    exact hPoint
  simp only [readConversion?, hKey, takeWhile_append_noHead flags hFlags hStop,
    dropWhile_append_noHead flags hFlags hStop, hWidth, hPrecision, hContains, if_true]

/-- An integer stands for itself, and a truth value for one or zero. -/
theorem int_or_bool_of_asInt? {value : Value} {i : Int64} (h : value.asInt? = some i) :
    value = .int i ∨ ∃ b : Bool, value = .bool b ∧ (if b then 1 else 0) = i := by
  cases value with
  | int j => exact .inl (congrArg Value.int (Option.some_inj.1 h))
  | bool b => exact .inr ⟨b, rfl, Option.some_inj.1 h⟩
  | _ => cases h

theorem convert_integer {value : Value} {i : Int64} (hValue : value.asInt? = some i) {letter : Char}
    (hLetter : letter ∈ integerLetters) (flags : NumberFlags) (width : Nat) :
    convert value letter flags width none =
      .ok (padNumber flags width (integerParts i letter flags.alternate)) := by
  have hInteger : integerOf letter value = .ok i := by
    rcases int_or_bool_of_asInt? hValue with rfl | ⟨b, rfl, rfl⟩ <;> rfl
  have hConvert : convert value letter flags width none =
      (do
        let i ← integerOf letter value
        return padNumber flags width (integerParts i letter flags.alternate)) := by
    simp only [integerLetters, List.mem_cons, List.not_mem_nil, or_false] at hLetter
    rcases hLetter with rfl | rfl | rfl | rfl <;> rfl
  rw [hConvert, hInteger]
  rfl

/-- A text that is one conversion gives the padded integer. -/
theorem percent_integer {value : Value} {i : Int64} (hValue : value.asInt? = some i)
    {text flags : List Char} {digits : Option (List Char)} {letter : Char} {width : Option Nat}
    (hRead : readConversion? text = some (⟨none, flags, digits, none, letter⟩, []))
    (hLetter : letter ∈ integerLetters) (hWidth : fieldSize "width" digits = .ok width) :
    percent ('%' :: text) value =
      .ok (padNumber (.ofChars flags) (width.getD 0)
        (integerParts i letter (flags.contains '#'))) := by
  have hSingle : percent ('%' :: text) value =
      percentFrom value [] ⟨[value], false⟩ [] ('%' :: text) := by
    rcases int_or_bool_of_asInt? hValue with rfl | ⟨b, rfl, rfl⟩ <;> rfl
  have hServes : servesNames value = false := by
    rcases int_or_bool_of_asInt? hValue with rfl | ⟨b, rfl, rfl⟩ <;> rfl
  have hApply : (Conversion.mk none flags digits none letter).apply value ⟨[value], false⟩ =
      .ok (padNumber (.ofChars flags) (width.getD 0) (integerParts i letter (flags.contains '#')),
        ⟨[], false⟩) := by
    have hSign : letter ≠ '%' := by
      rintro rfl
      exact absurd hLetter (by decide)
    rw [Conversion.apply, if_neg hSign, hWidth]
    show (convert value letter (.ofChars flags) (width.getD 0) none >>= fun text =>
      Except.ok (text, (⟨[], false⟩ : Supply))) = _
    rw [convert_integer hValue hLetter]
    rfl
  rw [hSingle, percentFrom_conversion hRead List.not_mem_nil, hApply]
  show percentFrom value [_, [].reverse] ⟨[], false⟩ [] [] = _
  rw [percentFrom_nil List.not_mem_nil rfl hServes]
  simp

/-! ## Widths -/

theorem head_toDigits {n : Nat} (hn : 0 < n) : ∀ c ∈ (Nat.toDigits 10 n).head?, c ≠ '0' := by
  induction n using Nat.strongRecOn with
  | ind n ih =>
      rw [Nat.toDigits_eq_if (by decide)]
      by_cases hSmall : n < 10
      · rw [if_pos hSmall]
        have hDigit : ∀ digit < 10, 0 < digit → Nat.digitChar digit ≠ '0' := by decide
        rintro c ⟨⟩
        exact hDigit n hSmall hn
      · rw [if_neg hSmall, List.head?_append, Option.or_of_isSome (by simp)]
        exact ih (n / 10) (by omega) (by omega)

theorem readSize?_toDigits {n : Nat} (hn : n < wordBound) :
    readSize? (Nat.toDigits 10 n) = some n := by
  have hRead : readNat? 10 (Nat.toDigits 10 n) = some n :=
    readNat?_toDigits (by decide) (by decide) n
  unfold readSize?
  split
  · rename_i rest hText
    have hPlain : ∀ c ∈ Nat.toDigits 10 n, c ≠ '+' :=
      forall_mem_toDigits (by decide) (by decide) n
    rw [hText] at hPlain
    exact absurd rfl (hPlain '+' (List.mem_cons_self ..))
  · simp only [hRead]
    exact Option.filter_some_pos (by simpa using hn)

theorem fieldSize_toDigits {width : Nat} (hWidth : width ≤ fieldLimit) (field : String) :
    fieldSize field (some (Nat.toDigits 10 width)) = .ok (some width) := by
  have hBound : width < wordBound := Nat.lt_of_le_of_lt hWidth (by decide)
  simp only [fieldSize, readSize?_toDigits hBound, if_pos hWidth]

/-- The text of a conversion with a width. -/
def conversionText (flags : List Char) (width : Nat) (letter : Char) : List Char :=
  '%' :: (flags ++ (Nat.toDigits 10 width ++ [letter]))

/-- The flags that are read in such a text. The digit of a width of zero is one more of them. -/
def flagsRead (flags : List Char) (width : Nat) : List Char :=
  if width = 0 then flags ++ ['0'] else flags

section Widths

variable {value : Value} {i : Int64} (hValue : value.asInt? = some i) {flags : List Char}
  (hFlags : ∀ flag ∈ flags, flag ∈ ['-', '0', '+', ' ']) {letter : Char}
  (hLetter : letter ∈ integerLetters)

include hValue hFlags hLetter

theorem percent_read {digits : List Char} {width : Option Nat}
    (hDigits : ∀ c ∈ digits, isDecimal c = true)
    (hStop : NoHead flagChars.contains (digits ++ [letter]))
    (hWidth : fieldSize "width" (if digits.isEmpty then none else some digits) = .ok width) :
    percent ('%' :: (flags ++ (digits ++ [letter]))) value =
      .ok (padNumber (.ofChars flags) (width.getD 0) (integerParts i letter false)) := by
  have hKnown : ∀ flag ∈ ['-', '0', '+', ' '], flagChars.contains flag = true :=
    forall_mem_of_all (by decide)
  have hPlain : flags.contains '#' = false := by
    rw [List.contains_eq_mem, decide_eq_false_iff_not]
    intro hMem
    exact absurd (hFlags '#' hMem) (by decide)
  have hRead := readConversion?_eq (fun c hc => hKnown c (hFlags c hc)) hDigits hStop hLetter
  rw [percent_integer hValue hRead hLetter hWidth, hPlain]

theorem percent_flags : percent ('%' :: (flags ++ [letter])) value =
    .ok (padNumber (.ofChars flags) 0 (integerParts i letter false)) := by
  have hNotFlag : ∀ letter ∈ integerLetters, flagChars.contains letter = false :=
    forall_mem_of_all (by decide)
  have hStop : NoHead flagChars.contains ([] ++ [letter]) := .cons (hNotFlag letter hLetter) []
  have hNone : ∀ c ∈ ([] : List Char), isDecimal c = true := nofun
  have hPercent := percent_read hValue hFlags hLetter hNone hStop rfl
  exact hPercent

theorem percent_width {width : Nat} (hWidth : width ≤ fieldLimit) :
    percent (conversionText flags width letter) value =
      .ok (padNumber (.ofChars (flagsRead flags width)) width (integerParts i letter false)) := by
  by_cases hZero : width = 0
  · have hMore : ∀ flag ∈ flags ++ ['0'], flag ∈ ['-', '0', '+', ' '] := by
      intro flag hFlag
      rcases List.mem_append.1 hFlag with hFlag | hFlag
      · exact hFlags flag hFlag
      · rw [List.mem_singleton.1 hFlag]
        decide
    have hText : conversionText flags 0 letter = '%' :: (flags ++ ['0'] ++ [letter]) := by
      simp [conversionText]
    rw [hZero, hText, percent_flags hValue hMore hLetter]
    rfl
  · have hDecimal : ∀ c ∈ Nat.toDigits 10 width, isDecimal c = true :=
      forall_mem_toDigits (by decide) (by decide) width
    have hPlain : ∀ c ∈ Nat.toDigits 10 width, c ≠ '0' → flagChars.contains c = false :=
      forall_mem_toDigits (by decide) (by decide) width
    have hStop : NoHead flagChars.contains (Nat.toDigits 10 width ++ [letter]) := by
      intro c hc
      rw [List.head?_append, Option.or_of_isSome (by simp)] at hc
      exact hPlain c (List.mem_of_head? hc) (head_toDigits (Nat.pos_of_ne_zero hZero) c hc)
    have hSize : fieldSize "width" (if (Nat.toDigits 10 width).isEmpty then none
        else some (Nat.toDigits 10 width)) = .ok (some width) := by
      rw [if_neg (by simp), fieldSize_toDigits hWidth]
    rw [flagsRead, if_neg hZero]
    have hPercent := percent_read hValue hFlags hLetter hDecimal hStop hSize
    exact hPercent

end Widths

end Format

/-! ## Reading texts back -/

theorem cut_eq_none {needle text : List Char} {c : Char} (hc : c ∈ needle) (h : c ∉ text) :
    cut needle text = none := by
  cases hCut : cut needle text with
  | none => rfl
  | some parts =>
      obtain ⟨before, after⟩ := parts
      have hMem : c ∈ before ++ needle ++ after :=
        List.mem_append_left after (List.mem_append_right before hc)
      rw [append_of_cut hCut] at hMem
      exact absurd hMem h

/-- The sign that is written before an integer. -/
def signOf (i : Int64) : List Char := if i.toInt < 0 then ['-'] else []

theorem isSign_signOf (i : Int64) : IsSign (decide (i.toInt < 0)) (signOf i) := by
  rw [signOf]
  by_cases hNegative : i.toInt < 0
  · rw [if_pos hNegative, decide_eq_true hNegative]
    exact .minus
  · rw [if_neg hNegative, decide_eq_false hNegative]
    exact .none

/-- The mark of a base is taken out from behind the sign. -/
theorem replace_mark (i : Int64) {letter : Char} {digits : List Char} (h : letter ∉ digits) :
    replace ['0', letter] [] none (signOf i ++ '0' :: letter :: digits) = signOf i ++ digits := by
  have hCut : cut ['0', letter] (signOf i ++ '0' :: letter :: digits) =
    some (signOf i, digits) := by
    rw [cut_eq, signOf]
    by_cases hNegative : i.toInt < 0
    · simp [hNegative, cutFrom]
    · simp [hNegative, cutFrom]
  have hNone : cut ['0', letter] digits = none := cut_eq_none (c := letter) (by simp) h
  obtain ⟨budget, hBudget⟩ : ∃ budget,
      (signOf i ++ '0' :: letter :: digits).length + 1 = budget + 1 + 1 :=
    ⟨_, by rw [List.length_append, List.length_cons, ← Nat.add_assoc]⟩
  have hPieces : splitOn ['0', letter] none (signOf i ++ '0' :: letter :: digits) =
      [signOf i, digits] := by
    rw [splitOn, hBudget, splitWithin, if_neg (by simp), hCut]
    simp only [Option.map_none]
    rw [splitWithin, if_neg (by simp), hNone]
    rfl
  rw [replace, if_neg (by simp), hPieces]
  simp [List.intercalate]

/-- What `int` makes of a text in a base. Without a base that is ten. -/
theorem compute_int {text : List Char} {base : Nat} {b i : Int64} (hBase : b.toInt = base)
    (hBounds : 2 ≤ base ∧ base ≤ 36)
    (h : readInt64? base ((trim text).filter (· != '_')) = some i) :
    Builtin.compute "int" (.ofList [.ofChars text, .int b]) = .ok (.int i) := by
  have hRange : ¬ (b.toInt < 2 ∨ 36 < b.toInt) := by omega
  rw [← String.toList_ofList (l := text)] at h
  show ite (b.toInt < 2 ∨ 36 < b.toInt) _ _ = _
  rw [if_neg hRange]
  simp only [hBase, Int.toNat_natCast]
  rw [h]
  rfl

theorem compute_int_ten (text : List Char) : Builtin.compute "int" (.ofList [.ofChars text]) =
    Builtin.compute "int" (.ofList [.ofChars text, .int 10]) := rfl

theorem digitsIn_eq (base : Nat) (mark : List Char) (name : String) (n : Int64) :
    Builtin.digitsIn base mark name (.ofList [.int n]) =
      .ok (.ofChars (signOf n ++ (mark ++ Nat.toDigits base n.toInt.natAbs))) := by
  have hValue : Builtin.digitsIn base mark name (.ofList [.int n]) =
      .ok (.ofChars (if n < 0 then '-' :: (mark ++ Nat.toDigits base n.toInt.natAbs)
        else mark ++ Nat.toDigits base n.toInt.natAbs)) := rfl
  rw [hValue, signOf]
  simp only [lt_zero_iff]
  by_cases hNegative : n.toInt < 0
  · rw [if_pos hNegative, if_pos hNegative, List.singleton_append]
  · rw [if_neg hNegative, if_neg hNegative, List.nil_append]

theorem int_of_decimal (n : Int64) :
    Builtin.compute "int" (.ofList [.ofChars (decimalText n.toInt)]) = .ok (.int n) := by
  have hText : decimalText n.toInt = signOf n ++ Nat.toDigits 10 n.toInt.natAbs := by
    rw [decimalText, signOf]
    split <;> rfl
  have hRead : readNat? 10 (Nat.toDigits 10 n.toInt.natAbs) = some n.toInt.natAbs :=
    readNat?_toDigits (by decide) (by decide) _
  have hSigned := readInt64?_padded hRead (isSign_signOf n) rfl 0 0
  rw [List.replicate_zero, List.nil_append, List.append_nil, ← hText] at hSigned
  rw [compute_int_ten]
  exact compute_int rfl (by decide) hSigned

/-- The digits of an integer behind the mark of their base are read back when the mark is taken
out. -/
theorem integer_of_marked (base : Nat) (letter : Char) (n : Int64) (hBase : 1 < base ∧ base ≤ 36)
    (hDigits : ∀ digit < base, digitBelow? base digit.digitChar = some digit ∧
      digit.digitChar ≠ letter) (name : String) :
    ∃ text digits, Builtin.digitsIn base ['0', letter] name (.ofList [.int n]) = .ok text ∧
      callMethod text "replace" (.ofList [.ofChars ['0', letter], .ofString ""]) = .ok digits ∧
      Builtin.compute "int" (.ofList [digits, .int (Int64.ofNat base)]) = .ok (.int n) := by
  have hOther : ∀ c ∈ Nat.toDigits base n.toInt.natAbs, c ≠ letter :=
    forall_mem_toDigits hBase.1 (fun digit h => (hDigits digit h).2) _
  have hReplace : callMethod
      (.ofChars (signOf n ++ (['0', letter] ++ Nat.toDigits base n.toInt.natAbs))) "replace"
      (.ofList [.ofChars ['0', letter], .ofString ""]) =
        .ok (.ofChars (signOf n ++ Nat.toDigits base n.toInt.natAbs)) := by
    show Except.ok (Value.ofChars (replace (String.ofList ['0', letter]).toList "".toList none
      (String.ofList _).toList)) = _
    simp only [String.toList_ofList]
    exact congrArg (Except.ok ∘ Value.ofChars) (replace_mark n fun hMem => hOther letter hMem rfl)
  have hRead := readNat?_toDigits hBase.1 (fun digit h => (hDigits digit h).1) n.toInt.natAbs
  have hSigned := readInt64?_padded hRead (isSign_signOf n) rfl 0 0
  rw [List.replicate_zero, List.nil_append, List.append_nil] at hSigned
  have hBound : (Int64.ofNat base).toInt = base := Int64.toInt_ofNat_of_lt (by omega)
  exact ⟨_, _, digitsIn_eq base _ name n, hReplace, compute_int hBound hBase hSigned⟩

open Format

/-- The texts of an integer are read back as the integer: the decimal one, the one with the mark of
a base when the mark is taken out, and each padded one, which is as wide as asked or as wide as it
is without padding. -/
theorem integers_read_back (n : Int64) {flags : List Char}
    (hFlags : ∀ flag ∈ flags, flag ∈ ['-', '0', '+', ' ']) {width : Nat} (hWidth : width ≤ 10000)
    {letter : Char} (hLetter : letter ∈ ['d', 'x', 'X', 'o']) :
    (∃ text, Builtin.compute "str" (.ofList [.int n]) = .ok text ∧
      Builtin.compute "int" (.ofList [text]) = .ok (.int n)) ∧
    (∃ text digits, Builtin.compute "hex" (.ofList [.int n]) = .ok text ∧
      callMethod text "replace" (.ofList [.ofString "0x", .ofString ""]) = .ok digits ∧
      Builtin.compute "int" (.ofList [digits, .int 16]) = .ok (.int n)) ∧
    (∃ text digits, Builtin.compute "oct" (.ofList [.int n]) = .ok text ∧
      callMethod text "replace" (.ofList [.ofString "0o", .ofString ""]) = .ok digits ∧
      Builtin.compute "int" (.ofList [digits, .int 8]) = .ok (.int n)) ∧
    ∃ plain padded : List Char,
      BinaryOp.modulo.apply (.ofChars ('%' :: (flags ++ [letter]))) (.int n) =
        .ok (.ofChars plain) ∧
      BinaryOp.modulo.apply (.ofChars (conversionText flags width letter)) (.int n) =
        .ok (.ofChars padded) ∧
      padded.length = max width plain.length ∧
      Builtin.compute "int" (.ofList [.ofChars padded, .int (Int64.ofNat (baseOf letter))]) =
        .ok (.int n) := by
  have hOperator (text : List Char) : BinaryOp.modulo.apply (.ofChars text) (.int n) =
      .ofChars <$> percent text (.int n) := by
    show Value.ofChars <$> percent (String.ofList text).toList (.int n) = _
    rw [String.toList_ofList]
  have hPlain : BinaryOp.modulo.apply (.ofChars ('%' :: (flags ++ [letter]))) (.int n) =
      .ok (.ofChars (padNumber (.ofChars flags) 0 (integerParts n letter false))) := by
    rw [hOperator, percent_flags rfl hFlags hLetter]
    rfl
  have hPadded : BinaryOp.modulo.apply (.ofChars (conversionText flags width letter)) (.int n) =
      .ok (.ofChars (padNumber (.ofChars (flagsRead flags width)) width
        (integerParts n letter false))) := by
    rw [hOperator, percent_width rfl hFlags hLetter hWidth]
    rfl
  -- a zero before the width is no part of the sign
  have hSign : signFor (.ofChars (flagsRead flags width)) = signFor (.ofChars flags) := by
    funext negative
    unfold flagsRead
    split <;> simp [signFor, NumberFlags.ofChars]
  have hBase : 2 ≤ baseOf letter ∧ baseOf letter ≤ 36 := baseOf_bounds letter
  have hBound : (Int64.ofNat (baseOf letter)).toInt = baseOf letter :=
    Int64.toInt_ofNat_of_lt (by omega)
  constructor
  · exact ⟨.ofChars (decimalText n.toInt), rfl, int_of_decimal n⟩
  constructor
  · exact integer_of_marked 16 'x' n (by decide) (by decide) "hex"
  constructor
  · exact integer_of_marked 8 'o' n (by decide) (by decide) "oct"
  · refine ⟨_, _, hPlain, hPadded, ?_, ?_⟩
    · rw [length_padNumber, length_padNumber, hSign, Nat.zero_max]
    · exact compute_int hBound hBase (readInt64?_padNumber _ width n letter)

theorem lowest_integer_reads_back : ∃ padded : List Char,
    BinaryOp.modulo.apply (.ofString "%-20x") (.int Int64.minValue) = .ok (.ofChars padded) ∧
    Builtin.compute "int" (.ofList [.ofChars padded, .int 16]) = .ok (.int Int64.minValue) := by
  have hFlags : ∀ flag ∈ ['-'], flag ∈ ['-', '0', '+', ' '] := forall_mem_of_all (by decide)
  have hWidth : 20 ≤ 10000 := by decide
  have hLetter : 'x' ∈ ['d', 'x', 'X', 'o'] := by decide
  obtain ⟨-, -, -, plain, padded, hPlain, hPadded, hLength, hInt⟩ :=
    integers_read_back Int64.minValue hFlags hWidth hLetter
  exact ⟨padded, hPadded, hInt⟩

end Stencil
