import Stencil.Proofs.Padding

/-!
# Fields of integers

A field in braces and a conversion with a percent sign pad an integer each in its own way. With a
letter and a zero they agree. With a letter alone a field is padded on the side that the kind of its
value asks for: before an integer, as a conversion is, but behind a truth value, as a conversion
with a minus is. Without a letter the zero of a specification is read and not used, so there are
blanks before the integer where a conversion with a zero has zeros.

## Main results

* `Spec.read?_width`: a specification of a zero, a width and a letter is read.
* `applySpec_letter`, `applySpec_plain`: how such a specification pads.
* `fields_are_conversions`, `plain_fields_are_conversions`: the conversions that these fields are.
* `conversions_alike_iff`: only without padding are two of these conversions equal.
-/

namespace Stencil.Format

open Stencil.Text Stencil.Number

/-! ## Specifications of a width -/

theorem readAlignment_of_plain {text : List Char} (h : ∀ c ∈ text, Alignment.ofChar? c = none) :
    readAlignment text = (none, none, text) := by
  unfold readAlignment
  split
  · rfl
  · rename_i c
    rw [h c (by simp)]
  · rename_i c d rest
    rw [h c (by simp), h d (by simp), ite_self]

/-- A zero or nothing, a width, and a letter or nothing. -/
def widthSpec (zero : Bool) (width : Nat) (letter : Option Char) : List Char :=
  (if zero then ['0'] else []) ++ (Nat.toDigits 10 width ++ letter.toList)

/-- What holds of each digit and letter holds of such a text. -/
theorem forall_mem_widthSpec {p : Char → Prop} (hDigits : ∀ digit < 10, p digit.digitChar)
    (hKnown : ∀ c ∈ ['d', 'x', 'X'], p c) (zero : Bool) (width : Nat) {letter : Option Char}
    (hLetter : ∀ c ∈ letter, c ∈ ['d', 'x', 'X']) : ∀ c ∈ widthSpec zero width letter, p c := by
  intro c hc
  rw [widthSpec, List.mem_append, List.mem_append] at hc
  rcases hc with hc | hc | hc
  · cases zero with
    | false => cases hc
    | true =>
        rw [List.mem_singleton.1 hc]
        exact hDigits 0 (by decide)
  · exact forall_mem_toDigits (by decide) hDigits width c hc
  · exact hKnown c (hLetter c (Option.mem_toList.1 hc))

theorem close_not_mem_widthSpec (zero : Bool) (width : Nat) {letter : Option Char}
    (hLetter : ∀ c ∈ letter, c ∈ ['d', 'x', 'X']) : '\x7d' ∉ widthSpec zero width letter := by
  have hOther : ∀ c ∈ widthSpec zero width letter, c ≠ '\x7d' :=
    forall_mem_widthSpec (by decide) (forall_mem_of_all (by decide)) zero width hLetter
  intro hMem
  exact hOther '\x7d' hMem rfl

theorem Spec.read?_width (zero : Bool) {width : Nat} (hPositive : 0 < width)
    {letter : Option Char} (hLetter : ∀ c ∈ letter, c ∈ ['d', 'x', 'X']) :
    Spec.read? (widthSpec zero width letter) =
      some ⟨none, none, zero, some (Nat.toDigits 10 width), none, letter⟩ := by
  have hDecimal : ∀ c ∈ Nat.toDigits 10 width, isDecimal c = true :=
    forall_mem_toDigits (by decide) (by decide) width
  have hPlain : ∀ c ∈ widthSpec zero width letter, Alignment.ofChar? c = none :=
    forall_mem_widthSpec (by decide) (forall_mem_of_all (by decide)) zero width hLetter
  have hKnown : ∀ c ∈ ['d', 'x', 'X'], isDecimal c = false ∧ c ≠ '.' ∧
      specLetters.contains c = true := forall_mem_of_all (by decide)
  -- a width starts with no zero, so a zero is the one before it
  have hZero : ((widthSpec zero width letter).head? == some '0') = zero := by
    cases zero with
    | true => rfl
    | false =>
        rw [widthSpec, if_neg Bool.false_ne_true, List.nil_append, List.head?_append,
          Option.or_of_isSome (by simp), beq_eq_false_iff_ne]
        intro hHead
        exact head_toDigits hPositive '0' hHead rfl
  have hRest : (if zero then (widthSpec zero width letter).tail else widthSpec zero width letter) =
      Nat.toDigits 10 width ++ letter.toList := by
    cases zero <;> rfl
  have hWidth : readDigits (Nat.toDigits 10 width ++ letter.toList) =
      (some (Nat.toDigits 10 width), letter.toList) := by
    have hStop : NoHead isDecimal letter.toList := by
      intro c hc
      rw [Option.head?_toList] at hc
      exact (hKnown c (hLetter c hc)).1
    rw [readDigits_append hDecimal hStop, if_neg (by simp)]
  have hPrecision : readPrecision letter.toList = (none, letter.toList) := by
    refine readPrecision_of_noHead ?_
    intro c hc
    rw [Option.head?_toList] at hc
    exact (hKnown c (hLetter c hc)).2.1
  simp only [Spec.read?, readAlignment_of_plain hPlain, hZero, hRest, hWidth, hPrecision]
  cases letter with
  | none => rfl
  | some c =>
      simp only [Option.toList_some]
      rw [if_pos (hKnown c (hLetter c rfl)).2.2]

/-! ## Padding on one side -/

theorem align_right (width : Nat) (number : NumberParts) :
    align .right ' ' width (padNumber .none 0 number) = padNumber .none width number := by
  simp [align, padNumber, NumberFlags.none, signFor, Nat.add_assoc]

theorem align_left (width : Nat) (number : NumberParts) :
    align .left ' ' width (padNumber .none 0 number) =
      padNumber { NumberFlags.none with left := true } width number := by
  simp [align, padNumber, NumberFlags.none, signFor, Nat.add_assoc]

/-- How a field with a letter pads a value. -/
def fieldFlags (zero : Bool) (value : Value) : NumberFlags :=
  if zero then { NumberFlags.none with zero := true }
  else { NumberFlags.none with left := !isNumber value }

/-- Where no alignment is given, the kind of the value says where the blanks go. -/
theorem align_default (value : Value) (width : Nat) (number : NumberParts) :
    align (if isNumber value then .right else .left) ' ' width (padNumber .none 0 number) =
      padNumber (fieldFlags false value) width number := by
  cases hNumber : isNumber value with
  | true => simp [align_right, fieldFlags, hNumber]; rfl
  | false => simp [align_left, fieldFlags, hNumber]

section Letters

variable {value : Value} {i : Int64} (hValue : value.asInt? = some i) {width : Nat}
  (hPositive : 0 < width) (hWidth : width ≤ fieldLimit)

include hPositive hWidth

include hValue in
/-- What a specification with a letter gives. -/
theorem applySpec_letter (zero : Bool) {letter : Char} (hLetter : letter ∈ ['d', 'x', 'X']) :
    applySpec (widthSpec zero width (some letter)) value =
      .ok (padNumber (fieldFlags zero value) width (integerParts i letter false)) := by
  have hLetters : ∀ c ∈ some letter, c ∈ ['d', 'x', 'X'] := by
    intro c hc
    cases hc
    exact hLetter
  have hRead := Spec.read?_width zero hPositive hLetters
  have hSome : (widthSpec zero width (some letter)).isEmpty = false := by simp [widthSpec]
  have hNumber : specNumber value letter none = .ok (integerParts i letter false) := by
    simp only [List.mem_cons, List.not_mem_nil, or_false] at hLetter
    rw [specNumber, if_pos hLetter, wantInt_of_asInt? hValue]
    rfl
  have hApply : (Spec.mk none none zero (some (Nat.toDigits 10 width)) none (some letter)).apply
      value = (do
        let number ← specNumber value letter none
        if zero then return padNumber { NumberFlags.none with zero := true } width number
        return align (if isNumber value then .right else .left) ' ' width
          (padNumber .none 0 number)) := by
    have hField := fieldSize_toDigits hWidth "width"
    simp only [List.mem_cons, List.not_mem_nil, or_false] at hLetter
    rcases hLetter with rfl | rfl | rfl
    all_goals
      simp only [Spec.apply, hField]
      cases zero <;> rfl
  rw [applySpec, hSome, if_neg Bool.false_ne_true, hRead]
  simp only [hApply, hNumber]
  cases zero with
  | true => rfl
  | false => exact congrArg Except.ok (align_default value width _)

/-- Without a letter the zero changes nothing. -/
theorem applySpec_plain (zero : Bool) (i : Int64) :
    applySpec (widthSpec zero width none) (.int i) =
      .ok (padNumber .none width (integerParts i 'd' false)) := by
  have hLetters : ∀ c ∈ (none : Option Char), c ∈ ['d', 'x', 'X'] := nofun
  have hRead := Spec.read?_width zero hPositive hLetters
  have hSome : (widthSpec zero width none).isEmpty = false := by simp [widthSpec]
  have hText : (Value.int i).text.toList = padNumber .none 0 (integerParts i 'd' false) := by
    have hCode : (Value.int i).text = String.ofList (decimalText i.toInt) := rfl
    rw [hCode, String.toList_ofList, decimalText]
    by_cases hNegative : i.toInt < 0
    · simp [hNegative, padNumber, signFor, integerParts, NumberFlags.none]
    · simp [hNegative, padNumber, signFor, integerParts, NumberFlags.none]
  have hApply : (Spec.mk none none zero (some (Nat.toDigits 10 width)) none none).apply
      (.int i) = .ok (align .right ' ' width (Value.int i).text.toList) := by
    have hField := fieldSize_toDigits hWidth "width"
    simp only [Spec.apply, hField]
    rfl
  rw [applySpec, hSome, if_neg Bool.false_ne_true, hRead]
  simp only [hApply, hText, align_right]

end Letters

example : applySpec "05".toList (.int 42) = .ok "   42".toList := by decide

/-! ## What stands in front -/

section Sides

variable {flags : NumberFlags} (hSign : flags.plus = false ∧ flags.space = false)
  (hSide : flags.left = true ∨ flags.zero = true)

include hSign hSide

/-- Blanks behind a number and zeros in it leave its sign or its first digit at the front. -/
theorem head_padNumber (width : Nat) (i : Int64) (letter : Char) :
    ∀ c ∈ (padNumber flags width (integerParts i letter false)).head?, c ≠ ' ' := by
  have hFront : ∃ zeros after, padNumber flags width (integerParts i letter false) =
      signFor flags (integerParts i letter false).negative ++
        ((List.replicate zeros '0' ++ (integerParts i letter false).digits) ++
          List.replicate after ' ') := by
    have hBase : (integerParts i letter false).base = [] := rfl
    simp only [padNumber, hBase]
    generalize width - _ = fill
    by_cases hLeft : flags.left = true
    · exact ⟨0, fill, by simp [hLeft]⟩
    · have hZero : flags.zero = true := hSide.resolve_left hLeft
      exact ⟨fill, 0, by simp [hLeft, hZero]⟩
  obtain ⟨zeros, after, hText⟩ := hFront
  have hDigits := readNat?_integerParts i letter zeros
  have hMark : ∀ c ∈ signFor flags (integerParts i letter false).negative, c ≠ ' ' := by
    rw [signFor, hSign.1, hSign.2]
    cases (integerParts i letter false).negative with
    | true => exact forall_mem_of_all (by decide)
    | false =>
        intro c hc
        cases hc
  have hPlain : ∀ c ∈ List.replicate zeros '0' ++ (integerParts i letter false).digits,
      c ≠ ' ' := by
    intro c hc
    rintro rfl
    exact absurd (plain_of_mem_digits hDigits hc).1 (by decide)
  have hSome : (List.replicate zeros '0' ++ (integerParts i letter false).digits).head?.isSome := by
    rw [List.isSome_head?]
    exact digits_ne_nil hDigits
  intro c hc
  rw [hText, List.head?_append, List.head?_append, Option.or_of_isSome hSome] at hc
  rcases Option.or_eq_some_iff.1 hc with hc | hc
  · exact hMark c (List.mem_of_head? hc)
  · exact hPlain c (List.mem_of_head? hc.2)

/-- Padding with blanks before a number differs from each other padding as soon as there is any. -/
theorem padNumber_eq_blanks_iff (width : Nat) (i : Int64) (letter : Char) :
    padNumber flags width (integerParts i letter false) =
        padNumber .none width (integerParts i letter false) ↔
      width ≤ (padNumber .none 0 (integerParts i letter false)).length := by
  have hEqual : signFor flags (integerParts i letter false).negative =
      signFor .none (integerParts i letter false).negative := by
    rw [signFor, signFor, hSign.1, hSign.2]
    rfl
  rw [length_padNumber, Nat.zero_max]
  constructor
  · intro hSame
    by_contra hMore
    have hHead := head_padNumber hSign hSide width i letter
    rw [hSame] at hHead
    -- there is a blank at the front
    obtain ⟨fill, hFill⟩ :=
      Nat.exists_eq_succ_of_ne_zero (Nat.sub_ne_zero_of_lt (Nat.lt_of_not_le hMore))
    simp only [padNumber] at hHead
    rw [hFill] at hHead
    exact hHead ' ' rfl rfl
  · intro hWidth
    have hFill : width - ((signFor .none (integerParts i letter false).negative).length +
        (integerParts i letter false).base.length + (integerParts i letter false).digits.length) =
          0 :=
      Nat.sub_eq_zero_of_le hWidth
    simp only [padNumber, hEqual, hFill]
    simp

end Sides

/-! ## Fields -/

/-- A text that is one field, for the next argument. -/
def fieldText (zero : Bool) (width : Nat) (letter : Option Char) : List Char :=
  '\x7b' :: ':' :: (widthSpec zero width letter ++ ['\x7d'])

/-- A field for the next argument is read with what stands behind its colon. -/
theorem bracePieces_field {spec : List Char} (h : '\x7d' ∉ spec) :
    bracePieces [] ('\x7b' :: ':' :: (spec ++ ['\x7d'])) =
      [.text [], .field ⟨.next, [], spec⟩, .text []] := by
  have hInside : ∀ c ∈ ':' :: spec, (c != '\x7d') = true := by
    intro c hc
    rw [bne_iff_ne]
    rintro rfl
    rcases List.mem_cons.1 hc with hc | hc
    · exact absurd hc (by decide)
    · exact h hc
  have hEnd : NoHead (· != '\x7d') ['\x7d'] := .cons (by decide) []
  have hTake : (':' :: (spec ++ ['\x7d'])).takeWhile (· != '\x7d') = ':' :: spec :=
    takeWhile_append_noHead (':' :: spec) hInside hEnd
  have hDrop : (':' :: (spec ++ ['\x7d'])).dropWhile (· != '\x7d') = ['\x7d'] :=
    dropWhile_append_noHead (':' :: spec) hInside hEnd
  have hField : Field.read (':' :: spec) = ⟨.next, [], spec⟩ := by
    rfl
  rw [bracePieces]
  · split
    · rename_i hNone
      rw [hDrop] at hNone
      cases hNone
    · rename_i after hSome
      rw [hDrop] at hSome
      cases hSome
      rw [hTake, hField, bracePieces]
      rfl
  · intro rest hRest
    cases hRest

theorem brace_field {access : Value → String → Run Value} {value : Value} {spec text : List Char}
    (h : '\x7d' ∉ spec) (hText : applySpec spec value = .ok text) :
    brace access ('\x7b' :: ':' :: (spec ++ ['\x7d'])) (.ofList [value]) =
      (pure (.ofChars text) : Run Value) := by
  have hFind : FieldSource.find .next (.ofList [value]) 0 = .ok (value, 1) := rfl
  rw [brace, bracePieces_field h]
  simp only [fillBraces, hFind]
  show Value.ofChars <$> ((liftM (applySpec spec value) : Run (List Char)) >>= fun text =>
    fillBraces access (.ofList [value]) [text, []] 1 [.text []]) = _
  rw [hText]
  show (pure (.ofChars [[], text, []].flatten) : Run Value) = _
  simp

section Conversions

variable (access : Value → String → Run Value) {width : Nat} (hPositive : 0 < width)
  (hWidth : width ≤ 10000)

include hPositive hWidth

/-- A field with a letter and a zero is the conversion with the zero. Without the zero it is the
conversion with no flag for an integer, and the one with a minus for a truth value. -/
theorem fields_are_conversions {value : Value} {i : Int64} (hValue : value.asInt? = some i)
    (zero : Bool) {letter : Char} (hLetter : letter ∈ ['d', 'x', 'X']) :
    brace access (fieldText zero width (some letter)) (.ofList [value]) =
      Run.ofEvaluation (.ofChars <$> percent (conversionText
        (if zero then ['0'] else if isNumber value then [] else ['-']) width letter) value) := by
  have hLetters : ∀ c ∈ some letter, c ∈ ['d', 'x', 'X'] := by
    intro c hc
    cases hc
    exact hLetter
  have hClose := close_not_mem_widthSpec zero width hLetters
  have hKnown : ∀ c ∈ ['d', 'x', 'X'], c ∈ integerLetters := forall_mem_of_all (by decide)
  have hFlags : fieldFlags zero value =
      .ofChars (if zero then ['0'] else if isNumber value then [] else ['-']) := by
    cases zero <;> cases hNumber : isNumber value <;> simp [fieldFlags, hNumber] <;> rfl
  have hChars : ∀ flag ∈ if zero then ['0'] else if isNumber value then [] else ['-'],
      flag ∈ ['-', '0', '+', ' '] := by
    cases zero <;> cases isNumber value <;> exact forall_mem_of_all (by decide)
  rw [percent_width hValue hChars (hKnown letter hLetter) hWidth, flagsRead,
    if_neg (Nat.ne_of_gt hPositive), ← hFlags]
  exact brace_field hClose (applySpec_letter hValue hPositive hWidth zero hLetter)

/-- A field of an integer without a letter is the conversion with no flag, and a zero changes
nothing. -/
theorem plain_fields_are_conversions (zero : Bool) (i : Int64) :
    brace access (fieldText zero width none) (.ofList [.int i]) =
      Run.ofEvaluation (.ofChars <$> percent (conversionText [] width 'd') (.int i)) := by
  have hLetters : ∀ c ∈ (none : Option Char), c ∈ ['d', 'x', 'X'] := nofun
  have hClose := close_not_mem_widthSpec zero width hLetters
  have hValue : (Value.int i).asInt? = some i := rfl
  have hFlags : ∀ flag ∈ ([] : List Char), flag ∈ ['-', '0', '+', ' '] := nofun
  rw [percent_width hValue hFlags (by decide) hWidth, flagsRead, if_neg (Nat.ne_of_gt hPositive)]
  exact brace_field hClose (applySpec_plain hPositive hWidth zero i)

/-- A conversion with a minus or a zero is the one with no flag only where there is nothing to pad,
so a field that is one of them is no other one elsewhere. -/
theorem conversions_alike_iff {value : Value} {i : Int64} (hValue : value.asInt? = some i)
    {flag : Char} (hFlag : flag ∈ ['-', '0']) {letter : Char} (hLetter : letter ∈ integerLetters) :
    percent (conversionText [flag] width letter) value =
        percent (conversionText [] width letter) value ↔
      width ≤ (padNumber .none 0 (integerParts i letter false)).length := by
  have hSign : ∀ flag ∈ ['-', '0'], (NumberFlags.ofChars [flag]).plus = false ∧
      (NumberFlags.ofChars [flag]).space = false := forall_mem_of_all (by decide)
  have hSide : ∀ flag ∈ ['-', '0'], (NumberFlags.ofChars [flag]).left = true ∨
      (NumberFlags.ofChars [flag]).zero = true := forall_mem_of_all (by decide)
  have hKnown : ∀ flag ∈ ['-', '0'], flag ∈ ['-', '0', '+', ' '] := forall_mem_of_all (by decide)
  have hOne : ∀ c ∈ [flag], c ∈ ['-', '0', '+', ' '] := by
    intro c hc
    rw [List.mem_singleton.1 hc]
    exact hKnown flag hFlag
  have hNone : ∀ c ∈ ([] : List Char), c ∈ ['-', '0', '+', ' '] := nofun
  rw [percent_width hValue hOne hLetter hWidth, percent_width hValue hNone hLetter hWidth,
    flagsRead,
    flagsRead, if_neg (Nat.ne_of_gt hPositive), if_neg (Nat.ne_of_gt hPositive), Except.ok.injEq]
  exact padNumber_eq_blanks_iff (hSign flag hFlag) (hSide flag hFlag) width i letter

end Conversions

end Stencil.Format
