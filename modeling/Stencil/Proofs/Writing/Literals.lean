import Stencil.Proofs.Quoting.Lexing
import Stencil.Proofs.Writing.Words

/-!
# Reading constants back

The decimal text of an integer is one token, and so is a text in quotes; what the tokens stand for
is what was written. A text in quotes holds no quote of its own kind without a backslash before it,
so neither the scanner nor the decoder takes a quote in it for its end.

## Main results

* `readNumber_decimalText`: the integer that is not negative and its decimal text.
* `decodeString_quoteChars`: a text in quotes stands for the text.
* `lexeme_quoteChars`: a text in quotes is one token.
-/

namespace Stencil

open Stencil.Text Stencil.Number

/-! ## Integers -/

theorem readDigits?_append (base value : Nat) (first rest : List Char) :
    readDigits? base value (first ++ rest) =
      (readDigits? base value first).bind fun value => readDigits? base value rest := by
  induction first generalizing value with
  | nil => rfl
  | cons c others ih =>
      rw [List.cons_append, readDigits?, readDigits?]
      cases digitBelow? base c with
      | none => rfl
      | some digit => exact ih _

/-- The digits of a number are read back, in any form that keeps the value of each digit. -/
theorem readDigits?_toDigits {base : Nat} (hBase : 1 < base) (form : Char → Char)
    (hForm : ∀ digit < base, digitBelow? base (form digit.digitChar) = some digit) (n : Nat) :
    readDigits? base 0 ((Nat.toDigits base n).map form) = some n := by
  induction n using Nat.strongRecOn with
  | ind n ih =>
      rw [Nat.toDigits_eq_if hBase]
      by_cases hSmall : n < base
      · rw [if_pos hSmall, List.map_singleton, readDigits?, hForm n hSmall]
        simp [readDigits?]
      · have hLess : n / base < n := Nat.div_lt_self (by omega) hBase
        rw [if_neg hSmall, List.map_append, readDigits?_append, ih (n / base) hLess,
          Option.bind_some, List.map_singleton, readDigits?, hForm _ (Nat.mod_lt n (by omega))]
        simp only [readDigits?, Option.some.injEq]
        rw [Nat.mul_comm]
        exact Nat.div_add_mod n base

theorem isDigit_of_mem_decimalText {n : Int} (h : 0 ≤ n) {c : Char} (hc : c ∈ decimalText n) :
    c.isDigit = true := by
  rw [decimalText, if_neg (by omega)] at hc
  exact Nat.isDigit_of_mem_toDigits (by decide) (by decide) hc

theorem decimalText_ne_nil {n : Int} (h : 0 ≤ n) : decimalText n ≠ [] := by
  rw [decimalText, if_neg (by omega)]
  exact Nat.toDigits_ne_nil

theorem ne_of_isDigit {c d : Char} (h : c.isDigit = true) (hd : d.isDigit = false) : c ≠ d := by
  rintro rfl
  rw [h] at hd
  cases hd

theorem toLower_of_isDigit {c : Char} (h : c.isDigit = true) : c.toLower = c := by
  simp only [Char.isDigit, Bool.and_eq_true, decide_eq_true_eq] at h
  refine dif_neg fun hUpper => ?_
  have hLow : 'A'.val ≤ '9'.val := UInt32.le_trans hUpper.1 h.2
  exact absurd hLow (by decide)

/-- Digits are their own lower case, and no underscore is among them. -/
theorem lower_of_digits {text : List Char} (h : ∀ c ∈ text, c.isDigit = true) :
    (text.filter (· != '_')).map Char.toLower = text := by
  have hFilter : text.filter (· != '_') = text :=
    List.filter_eq_self.2 fun c hc => bne_iff_ne.2 (ne_of_isDigit (h c hc) (by decide))
  rw [hFilter]
  conv => rhs; rw [← List.map_id text]
  exact List.map_congr_left fun c hc => toLower_of_isDigit (h c hc)

theorem markedBase?_of_digits {text : List Char} (h : ∀ c ∈ text, c.isDigit = true) :
    markedBase? text = none := by
  have hMark {c d : Char} {rest : List Char} (hd : d.isDigit = false) : text ≠ c :: d :: rest := by
    rintro rfl
    exact ne_of_isDigit (h d (by simp)) hd rfl
  unfold markedBase?
  split
  · exact absurd rfl (hMark (by decide))
  · exact absurd rfl (hMark (by decide))
  · exact absurd rfl (hMark (by decide))
  · rfl

theorem readInt?_of_digits {text : List Char} (h : ∀ c ∈ text, c.isDigit = true) (base : Nat) :
    readInt? base text = (readNat? base text).map Int.ofNat := by
  unfold readInt?
  split
  · exact absurd rfl (ne_of_isDigit (h '-' (by simp)) (by decide))
  · exact absurd rfl (ne_of_isDigit (h '+' (by simp)) (by decide))
  · cases readNat? base text <;> rfl

/-- The decimal text of an integer that is not negative stands for it. -/
theorem readNumber_decimalText {value : Int64} (h : 0 ≤ value.toInt) :
    readNumber (decimalText value.toInt) = .ok (.int value) := by
  have hDigits : ∀ c ∈ decimalText value.toInt, c.isDigit = true :=
    fun c => isDigit_of_mem_decimalText h
  have hNot {c : Char} (hc : c.isDigit = false) : (decimalText value.toInt).contains c = false := by
    simp only [List.contains_eq_mem, decide_eq_false_iff_not]
    exact fun hMem => ne_of_isDigit (hDigits c hMem) hc rfl
  have hRead : readInt64? 10 (decimalText value.toInt) = some value := by
    have hNat : readNat? 10 (decimalText value.toInt) = some value.toInt.natAbs := by
      have hDigits := readDigits?_toDigits (by decide) id (by decide : ∀ digit < 10, _)
        value.toInt.natAbs
      rw [List.map_id] at hDigits
      rw [readNat?_eq, if_neg (by simpa using decimalText_ne_nil h), decimalText, if_neg (by omega),
        hDigits]
    have hAbs : value.toInt = (value.toInt.natAbs : Int) := (Int.natAbs_of_nonneg h).symm
    rw [readInt64?, readInt?_of_digits hDigits, hNat, Option.map_some, Option.bind_some]
    exact exactInt64?_eq_some_iff.2 hAbs
  have hPoint := hNot (show '.'.isDigit = false by decide)
  have hExponent := hNot (show 'e'.isDigit = false by decide)
  unfold readNumber
  simp only [lower_of_digits hDigits, markedBase?_of_digits hDigits, hPoint, hExponent, hRead,
    Bool.or_false, Bool.false_eq_true, if_false]

/-! ## Texts in quotes -/

/-- The text between the quotes, in quotes of this kind. -/
def quotedBody (quote : Char) (text : List Char) : List Char := text.flatMap (quoteChar quote)

theorem quoteChars_eq (text : List Char) :
    quoteChars text = quoteFor text :: (quotedBody (quoteFor text) text ++ [quoteFor text]) := rfl

theorem quoteFor_eq (text : List Char) : quoteFor text = '\'' ∨ quoteFor text = '"' := by
  unfold quoteFor
  split
  · exact Or.inr rfl
  · exact Or.inl rfl

theorem isQuote_quoteFor (text : List Char) : isQuote (quoteFor text) = true := by
  rcases quoteFor_eq text with h | h <;> rw [h] <;> rfl

/-- A character that is written with a backslash has a letter for it, or stands for itself. -/
theorem quoteChar_cases (quote c : Char) :
    (∃ letter, quoteChar quote c = ['\\', letter] ∧ letter ≠ '\n' ∧
      (simpleEscape? letter = some c ∨ (letter = c ∧ c = quote))) ∨
    (quoteChar quote c = [c] ∧ c ≠ '\\' ∧ c ≠ '\n' ∧ c ≠ quote) := by
  unfold quoteChar
  split
  · exact Or.inl ⟨'\\', rfl, by decide, Or.inl rfl⟩
  · exact Or.inl ⟨'n', rfl, by decide, Or.inl rfl⟩
  · exact Or.inl ⟨'r', rfl, by decide, Or.inl rfl⟩
  · exact Or.inl ⟨'t', rfl, by decide, Or.inl rfl⟩
  · rename_i hEscape hNewline hReturn hTab
    split
    · rename_i hQuote
      exact Or.inl ⟨c, rfl, hNewline, Or.inr ⟨rfl, hQuote⟩⟩
    · rename_i hQuote
      exact Or.inr ⟨rfl, hEscape, hNewline, hQuote⟩

/-- What stands between the quotes does not start with the quote. -/
theorem head_quotedBody (quote : Char) (hQuote : quote ≠ '\\') (text : List Char) :
    (quotedBody quote text).head? ≠ some quote := by
  cases text with
  | nil => simp [quotedBody]
  | cons c rest =>
      rcases quoteChar_cases quote c with ⟨letter, hChar, -⟩ | ⟨hChar, -, -, hNe⟩
      · simp [quotedBody, hChar, hQuote.symm]
      · simp [quotedBody, hChar, hNe]

/-- The quote after the text is the first one that closes it. -/
theorem closeOnLine_quotedBody {quote : Char} (hQuote : quote ≠ '\\' ∧ quote ≠ '\n')
    (text more : List Char) :
    closeOnLine quote (quotedBody quote text ++ quote :: more) =
      some ((quotedBody quote text).length + 1) := by
  induction text with
  | nil =>
      show closeOnLine quote (quote :: more) = some 1
      rw [closeOnLine_cons hQuote.1 hQuote.2, if_pos rfl]
  | cons c rest ih =>
      have hBody : quotedBody quote (c :: rest) = quoteChar quote c ++ quotedBody quote rest := rfl
      rcases quoteChar_cases quote c with ⟨letter, hChar, -⟩ | ⟨hChar, hEscape, hNewline, hNe⟩
      · rw [hBody, hChar]
        show closeOnLine quote ('\\' :: letter :: (quotedBody quote rest ++ quote :: more)) = _
        rw [closeOnLine, ih]
        simp
      · rw [hBody, hChar]
        show closeOnLine quote (c :: (quotedBody quote rest ++ quote :: more)) = _
        rw [closeOnLine_cons hEscape hNewline, if_neg hNe, ih]
        simp

theorem unescape_cons {c : Char} (h : c ≠ '\\') (rest : List Char) :
    unescape (c :: rest) = (c :: ·) <$> unescape rest := by
  rw [unescape]
  · exact fun hEnd _ => h hEnd
  · exact fun _ hNewline _ => h hNewline
  · exact fun _ _ hEscape _ => h hEscape

/-- Decoding gives back what was written with backslashes. -/
theorem unescape_quotedBody {quote : Char} (hQuote : quote = '\'' ∨ quote = '"')
    (text : List Char) : unescape (quotedBody quote text) = .ok text := by
  induction text with
  | nil => show unescape [] = _; rw [unescape]
  | cons c rest ih =>
      have hBody : quotedBody quote (c :: rest) = quoteChar quote c ++ quotedBody quote rest := rfl
      rcases quoteChar_cases quote c with ⟨letter, hChar, hNewline, hLetter⟩ |
        ⟨hChar, hEscape, -, -⟩
      · have hSimple : simpleEscape? letter = some c := by
          rcases hLetter with hLetter | ⟨rfl, rfl⟩
          · exact hLetter
          · rcases hQuote with rfl | rfl <;> rfl
        rw [hBody, hChar]
        show unescape ('\\' :: letter :: quotedBody quote rest) = _
        rw [unescape]
        · simp only [hSimple, ih]
          rfl
        · exact hNewline
      · rw [hBody, hChar]
        show unescape (c :: quotedBody quote rest) = _
        rw [unescape_cons hEscape, ih]
        rfl

theorem quoteFor_ne (text : List Char) : quoteFor text ≠ '\\' ∧ quoteFor text ≠ '\n' := by
  rcases quoteFor_eq text with h | h <;> rw [h] <;> decide

/-- The quotes around a text are single ones: after the first one comes the last one, or no quote of
that kind. -/
theorem quoteChars_shape (text : List Char) :
    quoteChars text = [quoteFor text, quoteFor text] ∨
      ∃ b c rest, quoteChars text = quoteFor text :: b :: c :: rest ∧ quoteFor text ≠ b := by
  rw [quoteChars_eq]
  have hHead := head_quotedBody (quoteFor text) (quoteFor_ne text).1 text
  cases hBody : quotedBody (quoteFor text) text with
  | nil => exact Or.inl rfl
  | cons b others =>
      obtain ⟨c, rest, hRest⟩ := List.exists_cons_of_ne_nil
        (show others ++ [quoteFor text] ≠ [] by simp)
      refine Or.inr ⟨b, c, rest, by rw [List.cons_append, hRest], fun hEq => ?_⟩
      rw [hBody, ← hEq] at hHead
      exact hHead rfl

theorem two_le_byteLength_quoteChars (text : List Char) : 2 ≤ byteLength (quoteChars text) := by
  have hSize := Char.utf8Size_pos (quoteFor text)
  rw [quoteChars_eq, byteLength_cons, byteLength_append, byteLength_cons]
  omega

/-- A text in quotes stands for the text. -/
theorem decodeString_quoteChars (text : List Char) : decodeString (quoteChars text) = .ok text := by
  have hIsQuote := isQuote_quoteFor text
  have hAny : (quoteChars text).any isQuote = true := by
    simp [quoteChars_eq, hIsQuote]
  have hDrop : (quoteChars text).dropWhile (!isQuote ·) = quoteChars text := by
    rw [quoteChars_eq, List.dropWhile_cons_of_neg (by simp [hIsQuote])]
  have hTake : (quoteChars text).takeWhile (!isQuote ·) = [] := by
    rw [quoteChars_eq, List.takeWhile_cons_of_neg (by simp [hIsQuote])]
  have hInner : ((quoteChars text).drop 1).take ((quoteChars text).length - 2 * 1) =
      quotedBody (quoteFor text) text := by
    rw [quoteChars_eq]
    simp
  have hLong := two_le_byteLength_quoteChars text
  have hDecode : decodeString (quoteChars text) =
      unescape (((quoteChars text).drop 1).take ((quoteChars text).length - 2 * 1)) := by
    unfold decodeString
    simp only [hAny, if_true, hDrop, hTake]
    rcases quoteChars_shape text with hShape | ⟨b, c, rest, hShape, hNe⟩
    · rw [hShape] at hLong ⊢
      exact if_neg (Nat.not_lt.2 hLong)
    · rw [hShape] at hLong ⊢
      simp only [hNe, false_and, and_false, if_false]
      exact if_neg (by omega)
  rw [hDecode, hInner]
  exact unescape_quotedBody (quoteFor_eq text) text

/-- A text in quotes is one token, unless another quote follows. -/
theorem lexeme_quoteChars (text more : List Char) (hMore : more.head? ≠ some (quoteFor text)) :
    lexeme .strict (quoteChars text ++ more) = some (.string, (quoteChars text).length) := by
  have hIsQuote := isQuote_quoteFor text
  have hText : quoteChars text ++ more =
      quoteFor text :: (quotedBody (quoteFor text) text ++ quoteFor text :: more) := by
    rw [quoteChars_eq]
    simp
  have hShort : (quotedBody (quoteFor text) text ++ quoteFor text :: more).take 2 ≠
      [quoteFor text, quoteFor text] := by
    have hHead := head_quotedBody (quoteFor text) (quoteFor_ne text).1 text
    cases hBody : quotedBody (quoteFor text) text with
    | nil =>
        cases more with
        | nil => simp
        | cons d others => simpa using hMore
    | cons b others =>
        rw [hBody] at hHead
        intro hEq
        exact hHead (congrArg some (List.cons.inj hEq).1)
  have hQuoted : quotedLength (quoteFor text :: (quotedBody (quoteFor text) text ++
      quoteFor text :: more)) = some (quoteChars text).length := by
    rw [quotedLength, if_neg hShort, closeOnLine_quotedBody (quoteFor_ne text)]
    simp [quoteChars_eq]
  have hMark : stringMark? (quoteFor text :: (quotedBody (quoteFor text) text ++
      quoteFor text :: more)) = some 0 := by
    simp only [stringMark?, hIsQuote, if_true]
  rw [hText]
  simp only [lexeme, hMark, List.drop_zero, hQuoted, Nat.zero_add]
  rcases quoteFor_eq text with h | h <;> simp [h]

end Stencil
