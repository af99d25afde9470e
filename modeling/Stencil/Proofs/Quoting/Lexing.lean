import Stencil.Token

/-!
# Code before a stop

No lexeme goes on over a closing round bracket, a colon, a sigil or a newline, so code that stands
before one is cut into the same tokens as the code alone. Two lexemes are the exception: a comment
goes on to the end of its line, and a quote that is open takes in what follows. Code without
comments that a strict reading accepts has neither.

## Main results

* `lexeme_append_stop`: the first lexeme is the same before a stop.
* `scanFrom_append_stop`: and so are all tokens, but for their offsets.
-/

namespace Stencil

open Stencil.Text

/-- A character that no lexeme goes on over. -/
def IsStop (c : Char) : Prop := c = ')' ∨ c = ':' ∨ c = '$' ∨ c = '\n'

/-- A test fails on every stop when it fails on each of them. -/
theorem IsStop.elim {p : Char → Bool} {stop : Char} (h : IsStop stop)
    (hp : p ')' = false ∧ p ':' = false ∧ p '$' = false ∧ p '\n' = false) : p stop = false := by
  rcases h with rfl | rfl | rfl | rfl
  · exact hp.1
  · exact hp.2.1
  · exact hp.2.2.1
  · exact hp.2.2.2

variable {stop : Char} (hStop : IsStop stop) (more : List Char)

/-! ## Runs of characters -/

theorem takeWhile_append_stop {p : Char → Bool} (hp : p stop = false) (text : List Char) :
    (text ++ stop :: more).takeWhile p = text.takeWhile p := by
  induction text with
  | nil => simp [hp]
  | cons c rest ih =>
      rw [List.cons_append, List.takeWhile_cons, List.takeWhile_cons, ih]

include hStop in
theorem nameLength_append_stop (text : List Char) :
    nameLength (text ++ stop :: more) = nameLength text := by
  rw [nameLength, takeWhile_append_stop more (hStop.elim (by decide)), nameLength]

theorem drop_append_stop {p : Char → Bool} (text : List Char) :
    (text ++ stop :: more).drop (text.takeWhile p).length =
      text.drop (text.takeWhile p).length ++ stop :: more := by
  have hLength : (text.takeWhile p).length ≤ text.length := (List.takeWhile_sublist p).length_le
  rw [List.drop_append_of_le_length hLength]

include hStop in
theorem fractionLength_append_stop (text : List Char) :
    fractionLength (text ++ stop :: more) = fractionLength text := by
  cases text with
  | nil => rcases hStop with rfl | rfl | rfl | rfl <;> rfl
  | cons c rest =>
      by_cases hPoint : c = '.'
      · have hDigits := takeWhile_append_stop more (hStop.elim (p := Char.isDigit) (by decide)) rest
        simp only [hPoint, List.cons_append, fractionLength, hDigits]
      · rw [List.cons_append, fractionLength, fractionLength]
        · intro others h
          exact hPoint (List.cons.inj h).1
        · intro others h
          exact hPoint (List.cons.inj h).1

theorem fractionLength_le (text : List Char) : fractionLength text ≤ text.length := by
  fun_cases fractionLength text with
  | case1 rest digits hZero => exact Nat.zero_le _
  | case2 rest digits hZero =>
      have hDigits : digits ≤ rest.length := (List.takeWhile_sublist Char.isDigit).length_le
      rw [List.length_cons]
      omega
  | case3 => exact Nat.zero_le _

include hStop in
theorem exponentLength_append_stop (text : List Char) :
    exponentLength (text ++ stop :: more) = exponentLength text := by
  cases text with
  | nil => rcases hStop with rfl | rfl | rfl | rfl <;> rfl
  | cons c rest =>
      have hDigits (n : Nat) (hn : n ≤ rest.length) :
          ((rest ++ stop :: more).drop n).takeWhile Char.isDigit =
            (rest.drop n).takeWhile Char.isDigit := by
        rw [List.drop_append_of_le_length hn,
          takeWhile_append_stop more (hStop.elim (by decide))]
      simp only [List.cons_append, exponentLength]
      cases rest with
      | nil => rcases hStop with rfl | rfl | rfl | rfl <;> simp
      | cons s others =>
          by_cases hSign : s = '+' ∨ s = '-'
          · simp only [List.cons_append, if_pos hSign] at hDigits ⊢
            rw [hDigits 1 (by simp)]
          · simp only [List.cons_append, if_neg hSign] at hDigits ⊢
            rw [hDigits 0 (Nat.zero_le _)]

include hStop in
theorem hasBaseMark_append_stop (text : List Char) :
    hasBaseMark (text ++ stop :: more) = hasBaseMark text := by
  rcases text with _ | ⟨c, _ | ⟨d, rest⟩⟩
  · rcases hStop with rfl | rfl | rfl | rfl <;> rfl
  · by_cases hZero : c = '0'
    · rw [hZero]
      rcases hStop with rfl | rfl | rfl | rfl <;> rfl
    · simp [hasBaseMark, hZero]
  · by_cases hZero : c = '0'
    · rw [hZero]
      rfl
    · simp [hasBaseMark, hZero]

theorem two_le_of_hasBaseMark {text : List Char} (h : hasBaseMark text = true) :
    2 ≤ text.length := by
  rcases text with _ | ⟨c, _ | ⟨d, rest⟩⟩
  · cases h
  · simp [hasBaseMark] at h
  · simp

include hStop in
theorem numberLength_append_stop (text : List Char) :
    numberLength (text ++ stop :: more) = numberLength text := by
  unfold numberLength
  rw [hasBaseMark_append_stop hStop]
  split
  · rename_i hBase
    rw [List.drop_append_of_le_length (two_le_of_hasBaseMark hBase),
      takeWhile_append_stop more (hStop.elim (by decide))]
  · simp only
    rw [takeWhile_append_stop more (hStop.elim (by decide)), drop_append_stop,
      fractionLength_append_stop hStop]
    generalize hWhole : (text.takeWhile fun c => c.isDigit || c == '_').length = whole
    have hLe : whole ≤ text.length := by
      rw [← hWhole]
      exact (List.takeWhile_sublist _).length_le
    have hFraction := fractionLength_le (text.drop whole)
    rw [List.length_drop] at hFraction
    rw [List.drop_append_of_le_length (by omega), exponentLength_append_stop hStop]

/-! ## Strings -/

theorem closeOnLine_cons {quote c : Char} (hEscape : c ≠ '\\') (hNewline : c ≠ '\n')
    (rest : List Char) :
    closeOnLine quote (c :: rest) =
      if c = quote then some 1 else (closeOnLine quote rest).map (· + 1) := by
  rw [closeOnLine]
  · exact fun h _ => hEscape h
  · exact fun _ _ h _ => hEscape h
  · exact hNewline

theorem closeLong_cons {quote c : Char} (hEscape : c ≠ '\\') (rest : List Char) :
    closeLong quote (c :: rest) =
      if c = quote ∧ rest.take 2 = [quote, quote] then some 3
      else (closeLong quote rest).map (· + 1) := by
  rw [closeLong]
  · exact fun h _ => hEscape h
  · exact fun _ _ h _ => hEscape h

/-- A character that neither ends the text nor takes the next one in is no backslash. -/
theorem ne_backslash {c : Char} {rest : List Char} (hEnd : c = '\\' → rest = [] → False)
    (hEscape : ∀ d others, c = '\\' → rest = d :: others → False) : c ≠ '\\' := by
  intro h
  cases rest with
  | nil => exact hEnd h rfl
  | cons d others => exact hEscape d others h rfl

/-- A string that is closed ends where it did, whatever follows. -/
theorem closeOnLine_append {quote : Char} {text : List Char} {length : Nat}
    (h : closeOnLine quote text = some length) (after : List Char) :
    closeOnLine quote (text ++ after) = some length := by
  induction text using closeOnLine.induct quote generalizing length with
  | case1 => cases h
  | case2 => cases h
  | case3 c rest ih =>
      rw [closeOnLine, Option.map_eq_some_iff] at h
      obtain ⟨inner, hInner, rfl⟩ := h
      rw [List.cons_append, List.cons_append, closeOnLine, ih hInner]
      rfl
  | case4 rest => cases h
  | case5 rest hEnd hEscape hNewline =>
      have hPlain := ne_backslash hEnd hEscape
      rw [closeOnLine_cons hPlain hNewline, if_pos rfl] at h
      rw [List.cons_append, closeOnLine_cons hPlain hNewline, if_pos rfl, h]
  | case6 c rest hEnd hEscape hNewline hQuote ih =>
      have hPlain := ne_backslash hEnd hEscape
      rw [closeOnLine_cons hPlain hNewline, if_neg hQuote, Option.map_eq_some_iff] at h
      obtain ⟨inner, hInner, rfl⟩ := h
      rw [List.cons_append, closeOnLine_cons hPlain hNewline, if_neg hQuote, ih hInner]
      rfl

theorem two_lt_of_closeLong {quote : Char} {text : List Char} {length : Nat}
    (h : closeLong quote text = some length) : 2 < text.length := by
  induction text using closeLong.induct quote generalizing length with
  | case1 => cases h
  | case2 => cases h
  | case3 c rest ih =>
      rw [closeLong, Option.map_eq_some_iff] at h
      obtain ⟨inner, hInner, -⟩ := h
      have hRest := ih hInner
      simp only [List.length_cons]
      omega
  | case4 c rest hEnd hEscape hQuotes =>
      have hRest := congrArg List.length hQuotes.2
      simp only [List.length_take, List.length_cons, List.length_nil] at hRest ⊢
      omega
  | case5 c rest hEnd hEscape hQuotes ih =>
      rw [closeLong_cons (ne_backslash hEnd hEscape), if_neg hQuotes, Option.map_eq_some_iff] at h
      obtain ⟨inner, hInner, -⟩ := h
      have hRest := ih hInner
      rw [List.length_cons]
      omega

/-- A long string that is closed ends where it did, whatever follows. -/
theorem closeLong_append {quote : Char} {text : List Char} {length : Nat}
    (h : closeLong quote text = some length) (after : List Char) :
    closeLong quote (text ++ after) = some length := by
  induction text using closeLong.induct quote generalizing length with
  | case1 => cases h
  | case2 => cases h
  | case3 c rest ih =>
      rw [closeLong, Option.map_eq_some_iff] at h
      obtain ⟨inner, hInner, rfl⟩ := h
      rw [List.cons_append, List.cons_append, closeLong, ih hInner]
      rfl
  | case4 c rest hEnd hEscape hQuotes =>
      have hPlain := ne_backslash hEnd hEscape
      have hLength := two_lt_of_closeLong h
      have hTake : (rest ++ after).take 2 = rest.take 2 := by
        rw [List.length_cons] at hLength
        exact List.take_append_of_le_length (by omega)
      rw [closeLong_cons hPlain, if_pos hQuotes] at h
      rw [List.cons_append, closeLong_cons hPlain, hTake, if_pos hQuotes, h]
  | case5 c rest hEnd hEscape hQuotes ih =>
      have hPlain := ne_backslash hEnd hEscape
      rw [closeLong_cons hPlain, if_neg hQuotes, Option.map_eq_some_iff] at h
      obtain ⟨inner, hInner, rfl⟩ := h
      have hLength := two_lt_of_closeLong hInner
      have hTake : (rest ++ after).take 2 = rest.take 2 :=
        List.take_append_of_le_length (by omega)
      rw [List.cons_append, closeLong_cons hPlain, hTake, if_neg hQuotes, ih hInner]
      rfl

/-- A stop does not make the two quotes after a quote. -/
theorem take_append_stop {quote : Char} (hQuote : quote ≠ stop) (rest : List Char) :
    (rest ++ stop :: more).take 2 = [quote, quote] ↔ rest.take 2 = [quote, quote] := by
  rcases rest with _ | ⟨c, _ | ⟨d, others⟩⟩
  · simp [hQuote.symm]
  · simp [hQuote.symm]
  · rfl

theorem quotedLength_append_stop {quote : Char} (hQuote : quote ≠ stop) {rest : List Char}
    {length : Nat} (h : quotedLength (quote :: rest) = some length) :
    quotedLength (quote :: (rest ++ stop :: more)) = some length := by
  rw [quotedLength] at h ⊢
  by_cases hLong : rest.take 2 = [quote, quote]
  · have hTwo : 2 ≤ rest.length := by
      have hLength := congrArg List.length hLong
      simp only [List.length_take, List.length_cons, List.length_nil] at hLength
      omega
    rw [if_pos hLong, Option.map_eq_some_iff] at h
    obtain ⟨inner, hInner, rfl⟩ := h
    rw [if_pos ((take_append_stop more hQuote rest).2 hLong),
      List.drop_append_of_le_length hTwo, closeLong_append hInner]
    rfl
  · rw [if_neg hLong, Option.map_eq_some_iff] at h
    obtain ⟨inner, hInner, rfl⟩ := h
    rw [if_neg (mt (take_append_stop more hQuote rest).1 hLong), closeOnLine_append hInner]
    rfl

include hStop in
theorem stringMark?_append_stop (c : Char) (rest : List Char) :
    stringMark? (c :: (rest ++ stop :: more)) = stringMark? (c :: rest) := by
  cases rest with
  | nil => rcases hStop with rfl | rfl | rfl | rfl <;> simp [stringMark?, isQuote]
  | cons d others => rfl

/-! ## Lexemes -/

theorem isPrefixOf_append_stop {symbol : List Char} (h : stop ∉ symbol) (text : List Char) :
    symbol.isPrefixOf (text ++ stop :: more) = symbol.isPrefixOf text := by
  induction symbol generalizing text with
  | nil => rw [List.isPrefixOf, List.isPrefixOf]
  | cons s others ih =>
      rw [List.mem_cons, not_or] at h
      cases text with
      | nil =>
          have hNot : (s == stop) = false := beq_eq_false_iff_ne.2 (Ne.symm h.1)
          simp [List.isPrefixOf, hNot]
      | cons c rest => simp only [List.cons_append, List.isPrefixOf, ih h.2]

include hStop in
theorem stop_not_mem_longOperators : ∀ symbol ∈ longOperators, stop ∉ symbol.toList := by
  rcases hStop with rfl | rfl | rfl | rfl <;> decide

include hStop in
theorem plainLexeme_append_stop (c : Char) (text : List Char) :
    plainLexeme c (text ++ stop :: more) = plainLexeme c text := by
  have hPrefix (symbols : List String) (h : ∀ symbol ∈ symbols, stop ∉ symbol.toList) :
      symbols.find? (fun symbol => symbol.toList.isPrefixOf (text ++ stop :: more)) =
        symbols.find? fun symbol => symbol.toList.isPrefixOf text := by
    induction symbols with
    | nil => rfl
    | cons symbol others ih =>
        rw [List.forall_mem_cons] at h
        rw [List.find?_cons, List.find?_cons, isPrefixOf_append_stop more h.1, ih h.2]
  simp only [plainLexeme, nameLength_append_stop hStop, numberLength_append_stop hStop,
    hPrefix longOperators (stop_not_mem_longOperators hStop)]

/-- A text that starts like a string starts with a quote, after a letter or not. -/
theorem exists_quote (hStop : IsStop stop) {c : Char} {rest : List Char} {letters : Nat}
    (h : stringMark? (c :: rest) = some letters) : ∃ quote others, quote ≠ stop ∧
      (c :: rest).drop letters = quote :: others ∧
      (c :: (rest ++ stop :: more)).drop letters = quote :: (others ++ stop :: more) := by
  have hNot {quote : Char} (hQuote : isQuote quote = true) : quote ≠ stop := by
    rintro rfl
    rw [hStop.elim (p := isQuote) (by decide)] at hQuote
    cases hQuote
  by_cases hQuote : isQuote c = true
  · simp only [stringMark?, if_pos hQuote] at h
    cases h
    exact ⟨c, rest, hNot hQuote, rfl, rfl⟩
  · cases rest with
    | nil =>
        simp only [stringMark?, if_neg hQuote] at h
        cases h
    | cons q others =>
        simp only [stringMark?, if_neg hQuote, Option.ite_none_right_eq_some,
          Bool.and_eq_true] at h
        obtain ⟨⟨-, hQuote⟩, h⟩ := h
        cases h
        exact ⟨q, others, hNot hQuote, rfl, rfl⟩

include hStop in
/-- The first lexeme of code is the same before a stop, in a lenient reading, too. -/
theorem lexeme_append_stop (reading : QuoteReading) {c : Char} {rest : List Char}
    {kind : TokenKind} {length : Nat} (h : lexeme .strict (c :: rest) = some (kind, length))
    (hComment : kind ≠ .comment) :
    lexeme reading (c :: (rest ++ stop :: more)) = some (kind, length) := by
  by_cases hBlank : c = ' ' ∨ c = '\t'
  · have hRun : ((c :: rest) ++ stop :: more).takeWhile (fun d => d == ' ' || d == '\t') =
        (c :: rest).takeWhile (fun d => d == ' ' || d == '\t') :=
      takeWhile_append_stop more (hStop.elim (by decide)) _
    rw [List.cons_append] at hRun
    simp only [lexeme, if_pos hBlank] at h ⊢
    rwa [hRun]
  by_cases hNewline : c = '\n'
  · simp only [lexeme, if_neg hBlank, if_pos hNewline] at h ⊢
    exact h
  by_cases hNumber : c = '#'
  · simp only [lexeme, if_neg hBlank, if_neg hNewline, if_pos hNumber] at h
    exact absurd (congrArg Prod.fst (Option.some.inj h)).symm hComment
  have hPlain := plainLexeme_append_stop hStop more c (c :: rest)
  simp only [lexeme, if_neg hBlank, if_neg hNewline, if_neg hNumber] at h ⊢
  rw [stringMark?_append_stop hStop]
  cases hMark : stringMark? (c :: rest) with
  | none =>
      rw [hMark] at h
      rw [← h]
      exact congrArg some hPlain
  | some letters =>
      obtain ⟨quote, others, hQuote, hDrop, hDropAfter⟩ := exists_quote more hStop hMark
      simp only [hMark, hDrop] at h
      simp only [hDropAfter]
      cases hLength : quotedLength (quote :: others) with
      | none =>
          rw [hLength] at h
          cases h
      | some inner =>
          rw [hLength] at h
          rw [quotedLength_append_stop more hQuote hLength]
          exact h

/-! ## Lengths -/

theorem exponentLength_le (text : List Char) : exponentLength text ≤ text.length := by
  rcases text with _ | ⟨c, _ | ⟨s, rest⟩⟩
  · exact Nat.zero_le _
  · simp [exponentLength]
  · have hDigits (n : Nat) (hn : n ≤ 1) : n +
        (((s :: rest).drop n).takeWhile Char.isDigit).length ≤ rest.length + 1 := by
      have hTake := (List.takeWhile_sublist (l := (s :: rest).drop n) Char.isDigit).length_le
      rw [List.length_drop, List.length_cons] at hTake
      omega
    simp only [exponentLength, List.length_cons]
    split
    · by_cases hSign : s = '+' ∨ s = '-'
      · have hOne := hDigits 1 (Nat.le_refl 1)
        simp only [if_pos hSign]
        split <;> omega
      · have hZero := hDigits 0 (Nat.zero_le 1)
        simp only [if_neg hSign]
        split <;> omega
    · exact Nat.zero_le _

theorem numberLength_le (text : List Char) : numberLength text ≤ text.length := by
  unfold numberLength
  split
  · rename_i hBase
    have hTwo := two_le_of_hasBaseMark hBase
    have hDigits : ((text.drop 2).takeWhile fun c => isHexDigit c || c == '_').length ≤
        text.length - 2 := by
      rw [← List.length_drop]
      exact (List.takeWhile_sublist _).length_le
    omega
  · have hWhole : (text.takeWhile fun c => c.isDigit || c == '_').length ≤ text.length :=
      (List.takeWhile_sublist _).length_le
    generalize (text.takeWhile fun c => c.isDigit || c == '_').length = whole at hWhole ⊢
    have hFraction := fractionLength_le (text.drop whole)
    have hExponent := exponentLength_le (text.drop (whole + fractionLength (text.drop whole)))
    simp only [List.length_drop] at hFraction hExponent ⊢
    omega

theorem closeOnLine_le {quote : Char} {text : List Char} {length : Nat}
    (h : closeOnLine quote text = some length) : length ≤ text.length := by
  induction text using closeOnLine.induct quote generalizing length with
  | case1 => cases h
  | case2 => cases h
  | case3 c rest ih =>
      rw [closeOnLine, Option.map_eq_some_iff] at h
      obtain ⟨inner, hInner, rfl⟩ := h
      exact Nat.add_le_add_right (ih hInner) 2
  | case4 rest => cases h
  | case5 rest hEnd hEscape hNewline =>
      rw [closeOnLine_cons (ne_backslash hEnd hEscape) hNewline, if_pos rfl] at h
      cases h
      exact Nat.succ_le_succ (Nat.zero_le _)
  | case6 c rest hEnd hEscape hNewline hQuote ih =>
      rw [closeOnLine_cons (ne_backslash hEnd hEscape) hNewline, if_neg hQuote,
        Option.map_eq_some_iff] at h
      obtain ⟨inner, hInner, rfl⟩ := h
      exact Nat.succ_le_succ (ih hInner)

theorem closeLong_le {quote : Char} {text : List Char} {length : Nat}
    (h : closeLong quote text = some length) : length ≤ text.length := by
  induction text using closeLong.induct quote generalizing length with
  | case1 => cases h
  | case2 => cases h
  | case3 c rest ih =>
      rw [closeLong, Option.map_eq_some_iff] at h
      obtain ⟨inner, hInner, rfl⟩ := h
      exact Nat.add_le_add_right (ih hInner) 2
  | case4 c rest hEnd hEscape hQuotes =>
      have hLength := two_lt_of_closeLong h
      rw [closeLong_cons (ne_backslash hEnd hEscape), if_pos hQuotes] at h
      cases h
      exact hLength
  | case5 c rest hEnd hEscape hQuotes ih =>
      rw [closeLong_cons (ne_backslash hEnd hEscape), if_neg hQuotes, Option.map_eq_some_iff] at h
      obtain ⟨inner, hInner, rfl⟩ := h
      exact Nat.succ_le_succ (ih hInner)

theorem quotedLength_le {text : List Char} {length : Nat} (h : quotedLength text = some length) :
    length ≤ text.length := by
  cases text with
  | nil => cases h
  | cons quote rest =>
      rw [quotedLength] at h
      split at h
      · rename_i hLong
        have hTwo := congrArg List.length hLong
        simp only [List.length_take, List.length_cons, List.length_nil] at hTwo
        rw [Option.map_eq_some_iff] at h
        obtain ⟨inner, hInner, rfl⟩ := h
        have hInner := closeLong_le hInner
        rw [List.length_drop] at hInner
        rw [List.length_cons]
        omega
      · rw [Option.map_eq_some_iff] at h
        obtain ⟨inner, hInner, rfl⟩ := h
        exact Nat.succ_le_succ (closeOnLine_le hInner)

theorem plainLexeme_le (c : Char) (rest : List Char) :
    (plainLexeme c (c :: rest)).2 ≤ rest.length + 1 := by
  unfold plainLexeme
  split
  · exact (List.takeWhile_sublist _).length_le
  split
  · exact numberLength_le (c :: rest)
  split
  · exact Nat.le_add_left 1 _
  split
  · exact Nat.le_add_left 1 _
  split
  · exact Nat.le_add_left 1 _
  split
  · rename_i symbol hFind
    have hPrefix := List.find?_some hFind
    exact (List.isPrefixOf_iff_prefix.1 hPrefix).length_le
  · exact Nat.le_add_left 1 _

/-- The lexeme that a text starts with is no longer than the text. -/
theorem lexeme_le {c : Char} {rest : List Char} {kind : TokenKind} {length : Nat}
    (h : lexeme .strict (c :: rest) = some (kind, length)) : length ≤ rest.length + 1 := by
  have hRun (p : Char → Bool) : ((c :: rest).takeWhile p).length ≤ rest.length + 1 :=
    (List.takeWhile_sublist p).length_le
  simp only [lexeme] at h
  split at h
  · cases h
    exact hRun _
  split at h
  · cases h
    exact Nat.le_add_left 1 _
  split at h
  · cases h
    exact hRun _
  split at h
  · have hPlain := plainLexeme_le c rest
    rwa [Option.some.inj h] at hPlain
  · rename_i letters hMark
    obtain ⟨quote, others, -, hDrop, -⟩ := exists_quote [] (.inl rfl) hMark
    have hLetters := congrArg List.length hDrop
    split at h
    · rename_i inner hInner
      cases h
      have hInner := quotedLength_le hInner
      simp only [List.length_drop, List.length_cons] at hInner hLetters
      omega
    · cases h
    · rename_i hReading
      cases hReading

/-! ## Tokens -/

namespace Token

/-- The token further on in a text. -/
def shift (bytes : Nat) (t : Token) : Token := { t with start := bytes + t.start }

@[simp] theorem shift_kind (bytes : Nat) (t : Token) : (t.shift bytes).kind = t.kind := rfl

@[simp] theorem shift_text (bytes : Nat) (t : Token) : (t.shift bytes).text = t.text := rfl

end Token

include hStop in
/-- Code before a stop has the tokens that it has alone, further on. -/
theorem scanFrom_append_stop (bytes : Nat) {start : Nat} {text : List Char} {tokens : List Token}
    (h : scanFrom .strict start text = ⟨tokens, none⟩)
    (hComment : ∀ t ∈ tokens, t.kind ≠ .comment) :
    ∃ after, scanFrom .strict (bytes + start) (text ++ stop :: more) =
      ⟨tokens.map (Token.shift bytes) ++ (scanFrom .strict after (stop :: more)).tokens,
        (scanFrom .strict after (stop :: more)).openQuote⟩ := by
  induction start, text using scanFrom.induct QuoteReading.strict generalizing tokens with
  | case1 start =>
      rw [scanFrom] at h
      cases h
      exact ⟨bytes + start, rfl⟩
  | case2 start c rest hLexeme =>
      rw [scanFrom, hLexeme] at h
      cases h
  | case3 start c rest kind length hLexeme =>
      rename_i token ih
      rw [scanFrom, hLexeme] at h
      simp only [Scan.mk.injEq] at h
      obtain ⟨rfl, hQuote⟩ := h
      rw [List.forall_mem_cons] at hComment
      have hLength : length - 1 ≤ rest.length := Nat.sub_le_of_le_add (lexeme_le hLexeme)
      have hTake : (rest ++ stop :: more).take (length - 1) = rest.take (length - 1) :=
        List.take_append_of_le_length hLength
      have hDrop : (rest ++ stop :: more).drop (length - 1) =
          rest.drop (length - 1) ++ stop :: more := List.drop_append_of_le_length hLength
      have hRest : scanFrom .strict token.stop (rest.drop (length - 1)) =
          ⟨(scanFrom .strict token.stop (rest.drop (length - 1))).tokens, none⟩ :=
        congrArg (Scan.mk _) hQuote
      obtain ⟨after, hAfter⟩ := ih hRest hComment.2
      refine ⟨after, ?_⟩
      rw [List.cons_append, scanFrom, lexeme_append_stop hStop more .strict hLexeme hComment.1]
      simp only [hTake, hDrop]
      have hStop : (⟨kind, c :: rest.take (length - 1), bytes + start⟩ : Token).stop =
          bytes + token.stop := Nat.add_assoc ..
      rw [hStop, hAfter]
      rfl

end Stencil
