import Stencil.Proofs.Tiling
import Stencil.Proofs.Writing.Literals

/-!
# Decoding strings

Two readers look at a string. The first one finds where the token ends: it passes over whatever is
behind a backslash and stops at the quotes that are those of the start. The second one takes the
token apart again: the letter in front, the quotes, and the body between them, which it decodes.
They agree on every token, so decoding never meets a string without its quotes.

A body is decoded piece by piece. Most characters stand for themselves; a backslash makes a piece
with what is behind it: with a letter for a character that is hard to write, with a newline, which
is left out, or with the digits of the code of a character. A backslash before anything else is kept
as it is.

Which digits write a code is a parameter of this grammar, since decoding takes more of them than it
should. The digits are read as a number, and a number may have a sign: a plus sign passes for the
first digit, and the code has one digit too few.

## Main results

* `codeEscape?_eq_some_iff`: which digits name which character.
* `decodes_or_breaks`: a body is made of pieces, up to its end or up to an escape without a code.
* `isDecodedBy_unescape`: decoding a body gives what its pieces stand for, or the first escape that
  has no code.
* `IsDecodedBy.hexadecimal`: without a plus sign, the codes are the hexadecimal ones.
* `isStringToken_of_mem`: a string token has its quotes at both ends.
* `decodeString_eq`: decoding a token is decoding its body.
* `string_tokens_decode`: what every string token is decoded to.
* `plus_sign_is_no_digit`: the escape with a plus sign, which has too few digits.
-/

namespace Stencil

open Stencil.Text Stencil.Number

/-! ## Codes of characters -/

/-- The number that hexadecimal digits write. -/
def codeOf (digits : List Char) : Nat :=
  digits.foldl (fun code c => code * 16 + (digitValue? c).getD 0) 0

/-- So many hexadecimal digits write the code of the character. -/
structure IsHexCode (width : Nat) (digits : List Char) (c : Char) : Prop where
  length_eq : digits.length = width
  isHexDigit : ∀ digit ∈ digits, isHexDigit digit = true
  toNat_eq : c.toNat = codeOf digits

/-- The digits, or those behind a plus sign in the place of the first one, write the code of the
character. -/
inductive IsReadCode (width : Nat) : List Char → Char → Prop
  | plain {digits : List Char} {c : Char} (h : IsHexCode width digits c) : IsReadCode width digits c
  | signed {digits : List Char} {c : Char} (h : IsHexCode (width - 1) digits c) :
      IsReadCode width ('+' :: digits) c

theorem isHexDigit_eq (c : Char) : isHexDigit c = decide
    ('0' ≤ c ∧ c ≤ '9' ∨ 'a' ≤ c ∧ c ≤ 'f' ∨ 'A' ≤ c ∧ c ≤ 'F') := by
  rw [Bool.eq_iff_iff]
  simp only [isHexDigit, Char.isDigit, Bool.or_eq_true, Bool.and_eq_true, decide_eq_true_eq,
    Char.le_def, or_assoc]

theorem digitBelow?_sixteen (c : Char) :
    digitBelow? 16 c = if isHexDigit c then some ((digitValue? c).getD 0) else none := by
  have hLe (a b : Char) : a ≤ b ↔ a.toNat ≤ b.toNat := UInt32.le_iff_toNat_le
  have h0 : '0'.toNat = 48 := rfl
  have h9 : '9'.toNat = 57 := rfl
  have ha : 'a'.toNat = 97 := rfl
  have hf : 'f'.toNat = 102 := rfl
  have hz : 'z'.toNat = 122 := rfl
  have hA : 'A'.toNat = 65 := rfl
  have hF : 'F'.toNat = 70 := rfl
  have hZ : 'Z'.toNat = 90 := rfl
  simp only [digitBelow?, digitValue?, isHexDigit_eq, hLe, h0, h9, ha, hf, hz, hA, hF, hZ,
    decide_eq_true_eq]
  grind [Option.filter]

theorem readDigits?_sixteen (value : Nat) (digits : List Char) :
    readDigits? 16 value digits = if digits.all isHexDigit then
      some (digits.foldl (fun code c => code * 16 + (digitValue? c).getD 0) value) else none := by
  induction digits generalizing value with
  | nil => rfl
  | cons c rest ih =>
      rw [readDigits?, digitBelow?_sixteen, List.all_cons, List.foldl_cons]
      by_cases hc : isHexDigit c = true
      · rw [if_pos hc, hc, Bool.true_and]
        exact ih _
      · rw [if_neg hc, (Bool.not_eq_true _).mp hc]
        rfl

theorem charOfCode?_eq_some_iff {code : Nat} {c : Char} :
    charOfCode? code = some c ↔ c.toNat = code := by
  unfold charOfCode?
  rw [Option.ite_none_right_eq_some, Option.some.injEq]
  constructor
  · rintro ⟨hValid, rfl⟩
    have hChar : Char.ofNat code = Char.ofNatAux code hValid := dif_pos hValid
    rw [hChar]
    rfl
  · rintro rfl
    exact ⟨c.valid, Char.ofNat_toNat c⟩

theorem readNat?_sixteen {digits : List Char} (hSome : digits ≠ []) :
    readNat? 16 digits = if digits.all isHexDigit then some (codeOf digits) else none := by
  rw [readNat?_eq, if_neg (by simpa using hSome), readDigits?_sixteen]
  rfl

theorem byteLength_of_all {digits : List Char} (h : digits.all isHexDigit = true) :
    byteLength digits = digits.length :=
  byteLength_of_forall fun c hc => lt_of_isHexDigit (List.all_eq_true.1 h c hc)

/-- Digits that are as many bytes as they should be name a character when they write its code. -/
theorem isHexCode_iff {width : Nat} (hWidth : width ≠ 0) {digits : List Char} {c : Char} :
    IsHexCode width digits c ↔
      byteLength digits = width ∧ (readNat? 16 digits).bind charOfCode? = some c := by
  constructor
  · rintro ⟨hLength, hHex, hCode⟩
    have hAll := List.all_eq_true.2 hHex
    have hSome : digits ≠ [] := fun h => hWidth (by rw [← hLength, h]; rfl)
    refine ⟨(byteLength_of_all hAll).trans hLength, ?_⟩
    rw [readNat?_sixteen hSome, if_pos hAll]
    exact charOfCode?_eq_some_iff.2 hCode
  · rintro ⟨hLength, hRead⟩
    have hSome : digits ≠ [] := fun h => hWidth (by rw [← hLength, h]; rfl)
    rw [readNat?_sixteen hSome] at hRead
    by_cases hAll : digits.all isHexDigit = true
    · rw [if_pos hAll] at hRead
      exact ⟨(byteLength_of_all hAll).symm.trans hLength, List.all_eq_true.1 hAll,
        charOfCode?_eq_some_iff.1 hRead⟩
    · rw [if_neg hAll] at hRead
      cases hRead

theorem codeEscape?_eq_some_iff {width : Nat} (hWidth : 2 ≤ width) {digits : List Char} {c : Char} :
    codeEscape? width digits = some c ↔ IsReadCode width digits c := by
  have hPlus : '+'.utf8Size = 1 := rfl
  unfold codeEscape?
  rw [Option.ite_none_right_eq_some]
  constructor
  · rintro ⟨hLength, hRead⟩
    split at hRead
    · rename_i number
      rw [byteLength_cons, hPlus] at hLength
      exact .signed ((isHexCode_iff (by omega)).2 ⟨by omega, hRead⟩)
    · exact .plain ((isHexCode_iff (by omega)).2 ⟨hLength, hRead⟩)
  · rintro (h | h)
    · obtain ⟨hLength, hRead⟩ := (isHexCode_iff (by omega)).1 h
      refine ⟨hLength, ?_⟩
      split
      · rename_i number
        cases h.isHexDigit '+' (List.mem_cons_self ..)
      · exact hRead
    · obtain ⟨hLength, hRead⟩ := (isHexCode_iff (by omega)).1 h
      refine ⟨?_, hRead⟩
      rw [byteLength_cons, hPlus]
      omega

/-! ## Pieces of a body -/

section Grammar

/-- A piece of a body and what it stands for, where the codes of characters are written like this.
-/
inductive IsPiece (IsCode : Nat → List Char → Char → Prop) : List Char → List Char → Prop
  | plain {c : Char} (h : c ≠ '\\') : IsPiece IsCode [c] [c]
  | newline : IsPiece IsCode ['\\', '\n'] []
  | letter {c d : Char} (h : simpleEscape? c = some d) : IsPiece IsCode ['\\', c] [d]
  | code {c d : Char} {width : Nat} {digits : List Char} (hWidth : codeEscapeWidth? c = some width)
      (h : IsCode width digits d) : IsPiece IsCode ('\\' :: c :: digits) [d]
  | other {c : Char} (hNewline : c ≠ '\n') (hLetter : simpleEscape? c = none)
      (hWidth : codeEscapeWidth? c = none) : IsPiece IsCode ['\\', c] ['\\', c]

/-- The body is made of pieces that stand for this together. -/
inductive Decodes (IsCode : Nat → List Char → Char → Prop) : List Char → List Char → Prop
  | nil : Decodes IsCode [] []
  | cons {piece rest front back : List Char} (hPiece : IsPiece IsCode piece front)
      (hRest : Decodes IsCode rest back) : Decodes IsCode (piece ++ rest) (front ++ back)

/-- After pieces there is an escape with this letter that no digits of a code follow. -/
def Breaks (IsCode : Nat → List Char → Char → Prop) (c : Char) (body : List Char) : Prop :=
  ∃ before decoded rest width, body = before ++ '\\' :: c :: rest ∧
    Decodes IsCode before decoded ∧ codeEscapeWidth? c = some width ∧
    ∀ digits d, digits <+: rest → ¬ IsCode width digits d

/-- The result is what the pieces of the body stand for, or the letter of the first escape without
a code. -/
structure IsDecodedBy (IsCode : Nat → List Char → Char → Prop) (body : List Char)
    (result : Except LiteralFault (List Char)) : Prop where
  ok_iff : ∀ decoded, result = .ok decoded ↔ Decodes IsCode body decoded
  error_iff : ∀ fault, result = .error fault ↔ ∃ c, fault = .escape c ∧ Breaks IsCode c body

/-! ### The grammar does not look behind the body -/

variable {IsCode IsOther : Nat → List Char → Char → Prop} {body decoded : List Char}

theorem IsPiece.mono {piece front : List Char} (h : IsPiece IsCode piece front)
    (hCodes : ∀ width digits d, digits ⊆ piece → IsCode width digits d → IsOther width digits d) :
    IsPiece IsOther piece front := by
  cases h with
  | plain h => exact .plain h
  | newline => exact .newline
  | letter h => exact .letter h
  | code hWidth h =>
      refine .code hWidth (hCodes _ _ _ ?_ h)
      exact fun digit hDigit => List.mem_cons_of_mem _ (List.mem_cons_of_mem _ hDigit)
  | other hNewline hLetter hWidth => exact .other hNewline hLetter hWidth

theorem Decodes.mono (h : Decodes IsCode body decoded)
    (hCodes : ∀ width digits d, digits ⊆ body → IsCode width digits d → IsOther width digits d) :
    Decodes IsOther body decoded := by
  induction h with
  | nil => exact .nil
  | cons hPiece _ ih =>
      refine .cons (hPiece.mono fun width digits d hDigits => ?_)
        (ih fun width digits d hDigits => ?_)
      · exact hCodes width digits d fun _ hc => List.mem_append_left _ (hDigits hc)
      · exact hCodes width digits d fun _ hc => List.mem_append_right _ (hDigits hc)

theorem Breaks.mono {c : Char} (h : Breaks IsCode c body)
    (hCodes : ∀ width digits d, digits ⊆ body →
      (IsCode width digits d ↔ IsOther width digits d)) : Breaks IsOther c body := by
  obtain ⟨before, decoded, rest, width, rfl, hBefore, hWidth, hNone⟩ := h
  refine ⟨before, decoded, rest, width, rfl, ?_, hWidth, fun digits d hPrefix hCode => ?_⟩
  · exact hBefore.mono fun width digits d hDigits =>
      (hCodes width digits d fun _ hc => List.mem_append_left _ (hDigits hc)).1
  · refine hNone digits d hPrefix ((hCodes width digits d fun digit hDigit => ?_).2 hCode)
    have hRest := hPrefix.subset hDigit
    simp [hRest]

/-- The codes of a body are those that can be written with its characters. -/
theorem IsDecodedBy.congr {result : Except LiteralFault (List Char)}
    (h : IsDecodedBy IsCode body result)
    (hCodes : ∀ width digits d, digits ⊆ body →
      (IsCode width digits d ↔ IsOther width digits d)) : IsDecodedBy IsOther body result where
  ok_iff decoded := (h.ok_iff decoded).trans
    ⟨fun hDecodes => hDecodes.mono fun width digits d hDigits => (hCodes width digits d hDigits).1,
      fun hDecodes => hDecodes.mono fun width digits d hDigits => (hCodes width digits d hDigits).2⟩
  error_iff fault := (h.error_iff fault).trans <| exists_congr fun _ => and_congr_right fun _ =>
    ⟨fun hBreaks => hBreaks.mono hCodes,
      fun hBreaks => hBreaks.mono fun width digits d hDigits =>
        (hCodes width digits d hDigits).symm⟩

/-! ### A body is made of pieces, as far as there are codes -/

theorem Breaks.append {piece front : List Char} (hPiece : IsPiece IsCode piece front) {c : Char}
    (h : Breaks IsCode c body) : Breaks IsCode c (piece ++ body) := by
  obtain ⟨before, decoded, rest, width, rfl, hBefore, hWidth, hNone⟩ := h
  exact ⟨piece ++ before, front ++ decoded, rest, width, (List.append_assoc ..).symm,
    .cons hPiece hBefore, hWidth, hNone⟩

theorem Inside.tail {plain : Char → Prop} {c : Char} {rest : List Char}
    (h : Inside plain (c :: rest)) (hc : c ≠ '\\') : Inside plain rest := by
  cases h with
  | escaped => exact absurd rfl hc
  | plain _ hRest => exact hRest

theorem Inside.of_append {plain : Char → Prop} {front back : List Char}
    (h : Inside plain (front ++ back)) (hFront : '\\' ∉ front) : Inside plain back := by
  induction front with
  | nil => exact h
  | cons c rest ih =>
      rw [List.mem_cons, not_or] at hFront
      exact ih (h.tail (Ne.symm hFront.1)) hFront.2

/-- Where no backslash is the last character for itself, there are pieces up to the end of the body
or up to an escape without a code. -/
theorem decodes_or_breaks
    (hCodes : ∀ width digits d, IsCode width digits d → '\\' ∉ digits)
    (h : Inside (· ≠ '\\') body) :
    (∃ decoded, Decodes IsCode body decoded) ∨ ∃ c, Breaks IsCode c body := by
  induction hLength : body.length using Nat.strongRecOn generalizing body with
  | ind length ih =>
      subst hLength
      have hStep {piece front rest : List Char} (hPiece : IsPiece IsCode piece front)
          (hBody : body = piece ++ rest) (hRest : Inside (· ≠ '\\') rest)
          (hShorter : rest.length < body.length) :
          (∃ decoded, Decodes IsCode body decoded) ∨ ∃ c, Breaks IsCode c body := by
        rw [hBody]
        rcases ih _ hShorter hRest rfl with ⟨decoded, hDecodes⟩ | ⟨c, hBreaks⟩
        · exact .inl ⟨_, .cons hPiece hDecodes⟩
        · exact .inr ⟨c, hBreaks.append hPiece⟩
      cases h with
      | nil => exact .inl ⟨[], .nil⟩
      | @plain c rest hc hRest => exact hStep (.plain hc) rfl hRest (Nat.lt_succ_self _)
      | @escaped c rest hRest =>
          have hShorter : rest.length < ('\\' :: c :: rest).length := by
            simp only [List.length_cons]
            omega
          by_cases hNewline : c = '\n'
          · subst hNewline
            exact hStep .newline rfl hRest hShorter
          cases hLetter : simpleEscape? c with
          | some d => exact hStep (.letter hLetter) rfl hRest hShorter
          | none =>
              cases hWidth : codeEscapeWidth? c with
              | none => exact hStep (.other hNewline hLetter hWidth) rfl hRest hShorter
              | some width =>
                  by_cases hCode : ∃ digits d, digits <+: rest ∧ IsCode width digits d
                  · obtain ⟨digits, d, ⟨after, rfl⟩, hCode⟩ := hCode
                    refine hStep (.code hWidth hCode) rfl
                      (hRest.of_append (hCodes _ _ _ hCode)) ?_
                    simp only [List.length_cons, List.length_append]
                    omega
                  · refine .inr ⟨c, [], [], rest, width, rfl, .nil, hWidth, ?_⟩
                    exact fun digits d hPrefix hIs => hCode ⟨digits, d, hPrefix, hIs⟩

end Grammar

/-! ## Decoding -/

theorem two_le_codeEscapeWidth {c : Char} {width : Nat} (h : codeEscapeWidth? c = some width) :
    2 ≤ width := by
  unfold codeEscapeWidth? at h
  split at h
  all_goals cases h
  all_goals decide

theorem simpleEscape?_of_width {c : Char} {width : Nat} (h : codeEscapeWidth? c = some width) :
    simpleEscape? c = none := by
  unfold codeEscapeWidth? at h
  split at h
  all_goals first | rfl | cases h

theorem unescape_escape {c : Char} (h : c ≠ '\n') (rest : List Char) :
    unescape ('\\' :: c :: rest) =
      match simpleEscape? c, codeEscapeWidth? c with
      | some decoded, _ => (decoded :: ·) <$> unescape rest
      | none, some width =>
          match codeEscape? width (rest.take width) with
          | some decoded => (decoded :: ·) <$> unescape (rest.drop width)
          | none => .error (.escape c)
      | none, none => (['\\', c] ++ ·) <$> unescape rest :=
  unescape.eq_4 c rest h

theorem IsReadCode.length_eq {width : Nat} (hWidth : 2 ≤ width) {digits : List Char} {c : Char}
    (h : IsReadCode width digits c) : digits.length = width := by
  cases h with
  | plain h => exact h.length_eq
  | signed h =>
      rw [List.length_cons, h.length_eq]
      omega

/-- Decoding goes on behind a piece. -/
theorem IsPiece.unescape_append {piece front : List Char} (h : IsPiece IsReadCode piece front)
    (rest : List Char) : unescape (piece ++ rest) = (front ++ ·) <$> unescape rest := by
  cases h with
  | plain hc => exact unescape_cons hc rest
  | newline =>
      show unescape ('\\' :: '\n' :: rest) = _
      rw [unescape]
      exact (id_map _).symm
  | @letter c d hLetter =>
      have hc : c ≠ '\n' := by
        rintro rfl
        cases hLetter
      exact (unescape_escape hc rest).trans (by rw [hLetter]; rfl)
  | @code c d width digits hWidth hCode =>
      have hc : c ≠ '\n' := by
        rintro rfl
        cases hWidth
      have hTwo := two_le_codeEscapeWidth hWidth
      have hLength := hCode.length_eq hTwo
      refine (unescape_escape hc (digits ++ rest)).trans ?_
      rw [simpleEscape?_of_width hWidth, hWidth]
      simp only [← hLength, List.take_left, List.drop_left]
      rw [hLength, (codeEscape?_eq_some_iff hTwo).2 hCode]
      rfl
  | other hNewline hLetter hWidth =>
      exact (unescape_escape hNewline rest).trans (by rw [hLetter, hWidth])

theorem Decodes.unescape_append {body decoded : List Char} (h : Decodes IsReadCode body decoded)
    (rest : List Char) : unescape (body ++ rest) = (decoded ++ ·) <$> unescape rest := by
  induction h with
  | nil => exact (id_map _).symm
  | cons hPiece _ ih =>
      rw [List.append_assoc, hPiece.unescape_append, ih]
      cases unescape rest with
      | ok behind => exact congrArg Except.ok (List.append_assoc ..).symm
      | error fault => rfl

theorem Decodes.unescape_eq {body decoded : List Char} (h : Decodes IsReadCode body decoded) :
    unescape body = .ok decoded := by
  have hWhole := h.unescape_append []
  rw [List.append_nil, unescape] at hWhole
  rw [hWhole]
  exact congrArg Except.ok (List.append_nil _)

theorem Breaks.unescape_eq {c : Char} {body : List Char} (h : Breaks IsReadCode c body) :
    unescape body = .error (.escape c) := by
  obtain ⟨before, decoded, rest, width, rfl, hBefore, hWidth, hNone⟩ := h
  have hc : c ≠ '\n' := by
    rintro rfl
    cases hWidth
  have hCode : codeEscape? width (rest.take width) = none := by
    rw [Option.eq_none_iff_forall_ne_some]
    exact fun d hd => hNone _ d (List.take_prefix _ _)
      ((codeEscape?_eq_some_iff (two_le_codeEscapeWidth hWidth)).1 hd)
  rw [hBefore.unescape_append, unescape_escape hc, simpleEscape?_of_width hWidth, hWidth]
  simp only [hCode]
  rfl

theorem IsReadCode.backslash_notMem {width : Nat} {digits : List Char} {c : Char}
    (h : IsReadCode width digits c) : '\\' ∉ digits := by
  have hNot : isHexDigit '\\' = false := by decide
  have hHex {width : Nat} {digits : List Char} (h : IsHexCode width digits c) : '\\' ∉ digits :=
    fun hMem => Bool.false_ne_true (hNot.symm.trans (h.isHexDigit _ hMem))
  cases h with
  | plain h => exact hHex h
  | signed h =>
      rw [List.mem_cons, not_or]
      exact ⟨by decide, hHex h⟩

/-- Decoding a body gives what its pieces stand for, or the letter of the first escape without a
code. -/
theorem isDecodedBy_unescape {body : List Char} (h : Inside (· ≠ '\\') body) :
    IsDecodedBy IsReadCode body (unescape body) := by
  have hCases : (∃ decoded, Decodes IsReadCode body decoded) ∨ ∃ c, Breaks IsReadCode c body :=
    decodes_or_breaks (fun _ _ _ => IsReadCode.backslash_notMem) h
  constructor
  case ok_iff =>
    refine fun decoded => ⟨fun hOk => ?_, Decodes.unescape_eq⟩
    rcases hCases with ⟨found, hDecodes⟩ | ⟨c, hBreaks⟩
    · obtain rfl := Except.ok.inj (hDecodes.unescape_eq.symm.trans hOk)
      exact hDecodes
    · cases hBreaks.unescape_eq.symm.trans hOk
  case error_iff =>
    refine fun fault => ⟨fun hError => ?_, ?_⟩
    · rcases hCases with ⟨found, hDecodes⟩ | ⟨c, hBreaks⟩
      · cases hDecodes.unescape_eq.symm.trans hError
      · exact ⟨c, (Except.error.inj (hBreaks.unescape_eq.symm.trans hError)).symm, hBreaks⟩
    · rintro ⟨c, rfl, hBreaks⟩
      exact hBreaks.unescape_eq

/-- Without a plus sign, the codes are the hexadecimal ones. -/
theorem IsDecodedBy.hexadecimal {body : List Char} {result : Except LiteralFault (List Char)}
    (h : IsDecodedBy IsReadCode body result) (hPlus : '+' ∉ body) :
    IsDecodedBy IsHexCode body result := by
  refine h.congr fun width digits d hDigits => ⟨fun hCode => ?_, .plain⟩
  cases hCode with
  | plain h => exact h
  | signed h => exact absurd (hDigits (List.mem_cons_self ..)) hPlus

/-! ## String tokens -/

/-- A string as it is written: a letter or none, one quote or three, the body, and the same quotes
again. -/
inductive IsStringToken (opening : Opening) (body : List Char) : List Char → Prop
  | short (h : Inside (fun c => c ≠ '\\' ∧ c ≠ '\n' ∧ c ≠ opening.quote) body) :
      IsStringToken opening body (opening.letters ++ opening.quote :: (body ++ [opening.quote]))
  | long (h : Inside (· ≠ '\\') body) :
      IsStringToken opening body (opening.letters ++
        opening.quote :: opening.quote :: opening.quote ::
          (body ++ [opening.quote, opening.quote, opening.quote]))

/-- Does the letter in front say that backslashes mean nothing? -/
def Opening.isRaw (opening : Opening) : Bool :=
  opening.letters.contains 'r' || opening.letters.contains 'R'

theorem isStringToken_of_quotedLength {opening : Opening} {rest : List Char} {length : Nat}
    (h : quotedLength (opening.quote :: rest) = some length) : ∃ body,
      IsStringToken opening body (opening.letters ++ (opening.quote :: rest).take length) := by
  rw [quotedLength] at h
  split at h
  · rename_i hTwo
    obtain ⟨inner, hInner, rfl⟩ := Option.map_eq_some_iff.1 h
    obtain ⟨body, after, hDrop, hBody, rfl⟩ := exists_of_closeLong hInner
    have hSplit := List.take_append_drop 2 rest
    rw [hTwo, hDrop] at hSplit
    subst hSplit
    have hToken : (body ++ opening.quote :: opening.quote :: opening.quote :: after).take
        (body.length + 3) = body ++ [opening.quote, opening.quote, opening.quote] :=
      List.take_length_add_append 3
    refine ⟨body, ?_⟩
    have hLong : IsStringToken opening body _ := .long hBody
    rw [← hToken] at hLong
    exact hLong
  · obtain ⟨inner, hInner, rfl⟩ := Option.map_eq_some_iff.1 h
    obtain ⟨body, after, rfl, hBody, rfl⟩ := exists_of_closeOnLine hInner
    have hToken : (body ++ opening.quote :: after).take (body.length + 1) =
        body ++ [opening.quote] := List.take_length_add_append 1
    refine ⟨body, ?_⟩
    have hShort : IsStringToken opening body _ := .short hBody
    rw [← hToken] at hShort
    exact hShort

theorem isStringToken_of_lexeme {reading : QuoteReading} {c : Char} {rest : List Char}
    {length : Nat} (h : lexeme reading (c :: rest) = some (.string, length)) :
    ∃ opening body, IsStringToken opening body (c :: rest.take (length - 1)) := by
  obtain ⟨letters, inner, hMark, hInner, rfl⟩ := lexeme_string h
  obtain ⟨opening, others, hText, rfl⟩ := Opening.exists_of_stringMark? hMark
  rw [hText, List.drop_left] at hInner
  have hPositive := quotedLength_pos hInner
  rw [take_of_pos (by omega), hText, List.take_length_add_append]
  exact ⟨opening, isStringToken_of_quotedLength hInner⟩

/-- A string token has its quotes at both ends. -/
theorem isStringToken_of_mem (reading : QuoteReading) (start : Nat) (text : List Char) :
    ∀ t ∈ (scanFrom reading start text).tokens, t.kind = .string →
      ∃ opening body, IsStringToken opening body t.text := by
  fun_induction scanFrom reading start text with
  | case1 => exact List.forall_mem_nil _
  | case2 => exact List.forall_mem_nil _
  | case3 start c rest kind length hLexeme token after ih =>
      refine List.forall_mem_cons.2 ⟨fun hKind => ?_, ih⟩
      obtain rfl : kind = .string := hKind
      exact isStringToken_of_lexeme hLexeme

/-! ## Taking a token apart -/

section Tokens

variable {opening : Opening} {body text : List Char}

theorem Inside.mono {plain other : Char → Prop} (h : Inside plain body)
    (hOther : ∀ c, plain c → other c) : Inside other body := by
  induction h with
  | nil => exact .nil
  | escaped c _ ih => exact .escaped c ih
  | plain hc _ ih => exact .plain (hOther _ hc) ih

theorem IsStringToken.inside (h : IsStringToken opening body text) : Inside (· ≠ '\\') body := by
  cases h with
  | short h => exact h.mono fun c hc => hc.1
  | long h => exact h

theorem Opening.isQuote_eq_false (opening : Opening) :
    ∀ c ∈ opening.letters, isQuote c = false := by
  intro c hc
  have hEach : ∀ mark ∈ ['r', 'R', 'u', 'U', 'b', 'B'], isQuote mark = false := by
    simp [isQuote]
  exact hEach c (List.contains_iff_mem.1 (opening.marks c hc))

/-- The first quote of a token is the one it starts with. -/
theorem Opening.split (opening : Opening) (rest : List Char) :
    (opening.letters ++ opening.quote :: rest).takeWhile (!isQuote ·) = opening.letters ∧
    (opening.letters ++ opening.quote :: rest).dropWhile (!isQuote ·) = opening.quote :: rest ∧
    (opening.letters ++ opening.quote :: rest).any isQuote = true := by
  have hLetters : ∀ c ∈ opening.letters, (!isQuote c) = true := fun c hc => by
    rw [opening.isQuote_eq_false c hc]
    rfl
  have hQuote := opening.isQuote_quote
  refine ⟨?_, ?_, ?_⟩
  · rw [List.takeWhile_append_of_pos hLetters]
    simp [hQuote]
  · rw [List.dropWhile_append_of_pos hLetters]
    simp [hQuote]
  · simp [hQuote]

/-- How many quotes a string starts with. -/
def quoteWidth : List Char → Nat
  | a :: b :: c :: _ => if isQuote a ∧ a = b ∧ b = c then 3 else 1
  | _ => 1

/-- A body without its quote does not start with two more quotes. -/
theorem quoteWidth_short
    (h : Inside (fun c => c ≠ '\\' ∧ c ≠ '\n' ∧ c ≠ opening.quote) body) :
    quoteWidth (opening.quote :: (body ++ [opening.quote])) = 1 := by
  have hHead : ∀ c ∈ body.head?, opening.quote ≠ c := by
    cases h with
    | nil => exact nofun
    | escaped c _ => exact fun d hd => Option.mem_some.1 hd ▸ (quote_ne opening.isQuote_quote).1
    | plain hc _ => exact fun d hd => Option.mem_some.1 hd ▸ Ne.symm hc.2.2
  rcases body with _ | ⟨b, others⟩
  · rfl
  · obtain ⟨c, rest, hRest⟩ := List.exists_cons_of_ne_nil
      (show others ++ [opening.quote] ≠ [] by simp)
    rw [List.cons_append, hRest, quoteWidth, if_neg fun hSame => hHead b rfl hSame.2.1]

theorem decodeString_of_split {quoted : List Char} {width : Nat}
    (hSplit : quoted = opening.quote :: quoted.tail) (hWidth : quoteWidth quoted = width)
    (hLong : 2 * width ≤ byteLength quoted)
    (hBody : (quoted.drop width).take (quoted.length - 2 * width) = body) :
    decodeString (opening.letters ++ quoted) =
      if opening.isRaw then .ok body else unescape body := by
  obtain ⟨hTake, hDrop, hAny⟩ := opening.split quoted.tail
  rw [← hSplit] at hTake hDrop hAny
  unfold decodeString
  simp only [hAny, hTake, hDrop, if_true]
  show (if byteLength quoted < 2 * quoteWidth quoted then _ else
    if opening.isRaw then
      .ok ((quoted.drop (quoteWidth quoted)).take (quoted.length - 2 * quoteWidth quoted))
    else
      unescape ((quoted.drop (quoteWidth quoted)).take (quoted.length - 2 * quoteWidth quoted))) = _
  rw [hWidth, if_neg (Nat.not_lt.2 hLong), hBody]

/-- Decoding a token is decoding its body, unless it is raw. -/
theorem decodeString_eq (h : IsStringToken opening body text) :
    decodeString text = if opening.isRaw then .ok body else unescape body := by
  have hSize := utf8Size_of_lt (lt_of_isQuote opening.isQuote_quote)
  cases h with
  | short h =>
      refine decodeString_of_split rfl (quoteWidth_short h) ?_ (by simp)
      simp only [byteLength_cons, byteLength_append, hSize]
      omega
  | long h =>
      have hWidth (rest : List Char) :
          quoteWidth (opening.quote :: opening.quote :: opening.quote :: rest) = 3 := by
        simp [quoteWidth, opening.isQuote_quote]
      refine decodeString_of_split rfl (hWidth _) ?_ (by simp)
      simp only [byteLength_cons, byteLength_append, hSize]
      omega

end Tokens

/-- Every string token is decoded. The body of a raw one is left as it is. The escapes of another
one stand for characters as they should, where a code may have a plus sign for its first digit; the
only fault is an escape without a code. -/
theorem string_tokens_decode (reading : QuoteReading) (text : List Char) :
    ∀ t ∈ (scan reading text).tokens, t.kind = .string → ∃ opening body,
      IsStringToken opening body t.text ∧ decodeString t.text ≠ .error .string ∧
      (opening.isRaw = true → decodeString t.text = .ok body) ∧
      (opening.isRaw = false → IsDecodedBy IsReadCode body (decodeString t.text) ∧
        ('+' ∉ body → IsDecodedBy IsHexCode body (decodeString t.text))) := by
  intro t hMem hKind
  obtain ⟨opening, body, hToken⟩ := isStringToken_of_mem reading 0 text t hMem hKind
  have hDecoded := isDecodedBy_unescape hToken.inside
  refine ⟨opening, body, hToken, ?_⟩
  rw [decodeString_eq hToken]
  cases opening.isRaw with
  | true => exact ⟨nofun, fun _ => rfl, nofun⟩
  | false =>
      refine ⟨fun hError => ?_, nofun, fun _ => ⟨hDecoded, hDecoded.hexadecimal⟩⟩
      obtain ⟨c, hFault, -⟩ := (hDecoded.error_iff .string).1 hError
      cases hFault

/-- A plus sign is no hexadecimal digit, and yet it passes for one. -/
theorem plus_sign_is_no_digit :
    (scan .strict "'\\x+1'".toList).tokens = [⟨.string, "'\\x+1'".toList, 0⟩] ∧
    decodeString "'\\x+1'".toList = .ok [Char.ofNat 1] ∧
    Breaks IsHexCode 'x' "\\x+1".toList ∧
    ¬ IsDecodedBy IsHexCode "\\x+1".toList (decodeString "'\\x+1'".toList) := by
  have hBreaks : Breaks IsHexCode 'x' "\\x+1".toList := by
    refine ⟨[], [], ['+', '1'], 2, rfl, .nil, rfl, fun digits d hPrefix hCode => ?_⟩
    have hWhole := hPrefix.eq_of_length hCode.length_eq
    have hPlus := hCode.isHexDigit '+' (hWhole ▸ List.mem_cons_self)
    cases hPlus
  have hDigit : ∀ digit ∈ ['1'], isHexDigit digit = true := List.forall_mem_singleton.2 (by decide)
  have hCode : IsReadCode 2 ['+', '1'] (Char.ofNat 1) := .signed ⟨rfl, hDigit, rfl⟩
  have hDecodes : Decodes IsReadCode "\\x+1".toList [Char.ofNat 1] :=
    .cons (.code rfl hCode) .nil
  have hDecoded : decodeString "'\\x+1'".toList = .ok [Char.ofNat 1] :=
    hDecodes.unescape_eq
  refine ⟨by decide +kernel, hDecoded, hBreaks, fun h => ?_⟩
  have hError := (h.error_iff _).2 ⟨'x', rfl, hBreaks⟩
  cases hDecoded.symm.trans hError

end Stencil
