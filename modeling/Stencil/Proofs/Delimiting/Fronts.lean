import Stencil.Proofs.Comments.Expressions
import Stencil.Proofs.Unread.Words

/-!
# The front of a text

What the first token of a text is depends on text far behind it: a quote starts a string only when
its partner follows. But what decides is either in the token or missing in all of the text, so the
text may be cut off behind a token without a change of the tokens that are left. One case is
different: of three quotes that open no long string, the first two are a string when they stand
alone.

## Main results

* `lexeme_front`: the first lexeme is the same when what follows is cut off.
* `scanFrom_front`: and so are all tokens up to there.
-/

namespace Stencil

open Stencil.Text

/-! ## Measures -/

/-- A measure that reads nothing behind what it measures: what it finds in the front of a text is
what it finds in the front alone. -/
def IsLocal (measure : List Char → Nat) : Prop :=
  ∀ front back, measure (front ++ back) ≤ front.length → measure front = measure (front ++ back)

/-- A run of characters that ends in the front of a text is a run of the front alone. -/
theorem takeWhile_front {p : Char → Bool} {front back : List Char}
    (h : ((front ++ back).takeWhile p).length ≤ front.length) :
    front.takeWhile p = (front ++ back).takeWhile p := by
  rw [List.takeWhile_append] at h ⊢
  split
  · rename_i hWhole
    rw [if_pos hWhole, List.length_append] at h
    have hNone : back.takeWhile p = [] := List.eq_nil_of_length_eq_zero (by omega)
    have hPrefix := List.takeWhile_prefix p (l := front)
    rw [hNone, List.append_nil]
    exact hPrefix.eq_of_length hWhole
  · rfl

theorem isLocal_run (p : Char → Bool) : IsLocal fun text => (text.takeWhile p).length :=
  fun _ _ h => congrArg List.length (takeWhile_front h)

/-- One measure goes on where another stops. -/
theorem IsLocal.andThen {first second : List Char → Nat} (hFirst : IsLocal first)
    (hSecond : IsLocal second) :
    IsLocal fun text => first text + second (text.drop (first text)) := by
  intro front back h
  have hLe : first (front ++ back) ≤ front.length := Nat.le_of_add_right_le h
  have hSame := hFirst front back hLe
  simp only [← hSame] at h hLe ⊢
  rw [List.drop_append_of_le_length hLe] at h ⊢
  rw [hSecond (front.drop (first front)) back]
  rw [List.length_drop]
  omega

theorem isLocal_fractionLength : IsLocal fractionLength := by
  intro front back h
  cases front with
  | nil => exact (Nat.le_zero.1 h).symm
  | cons c rest =>
      by_cases hPoint : c = '.'
      · subst hPoint
        simp only [List.cons_append, fractionLength, List.length_cons] at h ⊢
        have hRun : ((rest ++ back).takeWhile Char.isDigit).length ≤ rest.length := by
          split at h <;> omega
        rw [takeWhile_front hRun]
      · have hNone (more : List Char) : fractionLength (c :: more) = 0 := by
          rw [fractionLength]
          intro others hSame
          exact hPoint (List.cons.inj hSame).1
        rw [List.cons_append, hNone, hNone]

theorem isLocal_exponentLength : IsLocal exponentLength := by
  intro front back h
  cases front with
  | nil => exact (Nat.le_zero.1 h).symm
  | cons c rest =>
      by_cases hMark : c = 'e' ∨ c = 'E'
      · cases rest with
        | nil =>
            have hNone : exponentLength [c] = 0 := by simp [exponentLength]
            -- Behind the mark there is at least one digit, or the exponent is none.
            have hFull : exponentLength (c :: back) = 0 ∨ 1 < exponentLength (c :: back) := by
              simp only [exponentLength, if_pos hMark]
              repeat' split
              all_goals omega
            rw [List.cons_append, List.nil_append, List.length_singleton] at h
            rw [hNone, List.cons_append, List.nil_append]
            omega
        | cons s others =>
            simp only [List.cons_append, exponentLength, if_pos hMark, List.length_cons] at h ⊢
            generalize hSign : (if s = '+' ∨ s = '-' then 1 else 0) = sign at h ⊢
            have hLe : sign ≤ (s :: others).length := by
              rw [← hSign, List.length_cons]
              split <;> omega
            rw [← List.cons_append, List.drop_append_of_le_length hLe] at h ⊢
            have hRun : (((s :: others).drop sign ++ back).takeWhile Char.isDigit).length ≤
                ((s :: others).drop sign).length := by
              rw [List.length_drop, List.length_cons]
              split at h <;> omega
            rw [takeWhile_front hRun]
      · simp only [List.cons_append, exponentLength, if_neg hMark]

theorem hasBaseMark_append {front : List Char} (h : hasBaseMark front = true) (back : List Char) :
    hasBaseMark (front ++ back) = true := by
  rcases front with _ | ⟨c, _ | ⟨d, rest⟩⟩
  · cases h
  · simp [hasBaseMark] at h
  · by_cases hZero : c = '0'
    · rw [hZero] at h ⊢
      exact h
    · simp [hasBaseMark, hZero] at h

theorem isLocal_numberLength : IsLocal numberLength := by
  intro front back h
  unfold numberLength at h ⊢
  by_cases hBase : hasBaseMark (front ++ back) = true
  · rw [if_pos hBase] at h ⊢
    rcases front with _ | ⟨c, _ | ⟨d, rest⟩⟩
    · simp at h
    · simp only [List.length_singleton] at h
      omega
    · have hSame : hasBaseMark (c :: d :: rest) = true := by
        by_cases hZero : c = '0'
        · rw [hZero] at hBase ⊢
          exact hBase
        · simp [hasBaseMark, hZero] at hBase
      rw [if_pos hSame]
      simp only [List.cons_append, List.drop_succ_cons, List.drop_zero, List.length_cons] at h ⊢
      have hRun : ((rest ++ back).takeWhile fun c => isHexDigit c || c == '_').length ≤
          rest.length := by omega
      rw [takeWhile_front hRun]
  · have hNone : ¬ hasBaseMark front = true := fun h => hBase (hasBaseMark_append h back)
    have hDecimal := (isLocal_run fun c => c.isDigit || c == '_').andThen
      (isLocal_fractionLength.andThen isLocal_exponentLength) front back
    simp only [List.drop_drop, ← Nat.add_assoc] at hDecimal
    rw [if_neg hBase] at h ⊢
    rw [if_neg hNone]
    exact hDecimal h

/-! ## Strings -/

variable {quote : Char} {front back : List Char} {length : Nat}

theorem closeOnLine_pos {text : List Char} (h : closeOnLine quote text = some length) :
    0 < length := by
  have hLater {count : Nat} {inner : Option Nat} (h : inner.map (· + count.succ) = some length) :
      0 < length := by
    obtain ⟨found, -, rfl⟩ := Option.map_eq_some_iff.1 h
    exact Nat.succ_pos _
  rw [closeOnLine.eq_def] at h
  split at h
  · cases h
  · cases h
  · exact hLater h
  · cases h
  · split at h
    · cases h
      exact Nat.one_pos
    · exact hLater h

/-- A string that is closed in the front of a text is closed in the front alone. -/
theorem closeOnLine_front (h : closeOnLine quote (front ++ back) = some length)
    (hLength : length ≤ front.length) : closeOnLine quote front = some length := by
  induction front using closeOnLine.induct quote generalizing length with
  | case1 => exact absurd (closeOnLine_pos h) (Nat.not_lt.2 hLength)
  | case2 =>
      cases back with
      | nil => cases h
      | cons c rest =>
          rw [List.singleton_append, closeOnLine, Option.map_eq_some_iff] at h
          obtain ⟨inner, -, rfl⟩ := h
          rw [List.length_singleton] at hLength
          omega
  | case3 c rest ih =>
      rw [List.cons_append, List.cons_append, closeOnLine, Option.map_eq_some_iff] at h
      obtain ⟨inner, hInner, rfl⟩ := h
      rw [closeOnLine, ih hInner (Nat.le_of_add_le_add_right hLength)]
      rfl
  | case4 rest => cases h
  | case5 rest hEnd hEscape hNewline =>
      have hPlain := ne_backslash hEnd hEscape
      rw [List.cons_append, closeOnLine_cons hPlain hNewline, if_pos rfl] at h
      rw [closeOnLine_cons hPlain hNewline, if_pos rfl, h]
  | case6 c rest hEnd hEscape hNewline hQuote ih =>
      have hPlain := ne_backslash hEnd hEscape
      rw [List.cons_append, closeOnLine_cons hPlain hNewline, if_neg hQuote,
        Option.map_eq_some_iff] at h
      obtain ⟨inner, hInner, rfl⟩ := h
      rw [closeOnLine_cons hPlain hNewline, if_neg hQuote,
        ih hInner (Nat.le_of_add_le_add_right hLength)]
      rfl

theorem two_lt_closeLong {text : List Char} (h : closeLong quote text = some length) :
    2 < length := by
  induction text using closeLong.induct quote generalizing length with
  | case1 => cases h
  | case2 => cases h
  | case3 c rest ih =>
      rw [closeLong, Option.map_eq_some_iff] at h
      obtain ⟨inner, hInner, rfl⟩ := h
      exact Nat.lt_add_right 2 (ih hInner)
  | case4 c rest hEnd hEscape hQuotes =>
      rw [closeLong_cons (ne_backslash hEnd hEscape), if_pos hQuotes] at h
      cases h
      exact Nat.lt_succ_self 2
  | case5 c rest hEnd hEscape hQuotes ih =>
      rw [closeLong_cons (ne_backslash hEnd hEscape), if_neg hQuotes, Option.map_eq_some_iff] at h
      obtain ⟨inner, hInner, rfl⟩ := h
      exact Nat.lt_succ_of_lt (ih hInner)

/-- Two quotes that a text starts with are in its front when that is long enough. -/
theorem take_two_front (hLength : 2 ≤ front.length) :
    (front ++ back).take 2 = [quote, quote] ↔ front.take 2 = [quote, quote] := by
  rw [List.take_append_of_le_length hLength]

theorem take_two_append (h : front.take 2 = [quote, quote]) :
    (front ++ back).take 2 = [quote, quote] := by
  have hLength := congrArg List.length h
  simp only [List.length_take, List.length_cons, List.length_nil] at hLength
  exact (take_two_front (by omega)).2 h

theorem closeLong_front (h : closeLong quote (front ++ back) = some length)
    (hLength : length ≤ front.length) : closeLong quote front = some length := by
  induction front using closeLong.induct quote generalizing length with
  | case1 =>
      have hTwo := two_lt_closeLong h
      rw [List.length_nil] at hLength
      omega
  | case2 =>
      have hTwo := two_lt_closeLong h
      rw [List.length_singleton] at hLength
      omega
  | case3 c rest ih =>
      rw [List.cons_append, List.cons_append, closeLong, Option.map_eq_some_iff] at h
      obtain ⟨inner, hInner, rfl⟩ := h
      rw [closeLong, ih hInner (Nat.le_of_add_le_add_right hLength)]
      rfl
  | case4 c rest hEnd hEscape hQuotes =>
      have hPlain := ne_backslash hEnd hEscape
      rw [List.cons_append, closeLong_cons hPlain,
        if_pos ⟨hQuotes.1, take_two_append hQuotes.2⟩] at h
      rw [closeLong_cons hPlain, if_pos hQuotes, h]
  | case5 c rest hEnd hEscape hQuotes ih =>
      have hPlain := ne_backslash hEnd hEscape
      rw [List.length_cons] at hLength
      rw [List.cons_append, closeLong_cons hPlain] at h
      rw [closeLong_cons hPlain, if_neg hQuotes]
      split at h
      · rename_i hFull
        cases h
        exact absurd ⟨hFull.1, (take_two_front (Nat.le_of_succ_le_succ hLength)).1 hFull.2⟩ hQuotes
      · obtain ⟨inner, hInner, rfl⟩ := Option.map_eq_some_iff.1 h
        rw [ih hInner (Nat.le_of_add_le_add_right hLength)]
        rfl

theorem quotedLength_front (h : quotedLength (front ++ back) = some length)
    (hLength : length ≤ front.length) : quotedLength front = some length := by
  cases front with
  | nil => exact absurd (quotedLength_pos h) (Nat.not_lt.2 hLength)
  | cons quote rest =>
      rw [List.length_cons] at hLength
      rw [List.cons_append, quotedLength] at h
      rw [quotedLength]
      split at h
      · rename_i hTwo
        obtain ⟨inner, hInner, rfl⟩ := Option.map_eq_some_iff.1 h
        have hLe : 2 ≤ rest.length := Nat.le_trans (Nat.le_add_left 2 inner)
          (Nat.le_of_succ_le_succ hLength)
        rw [List.drop_append_of_le_length hLe] at hInner
        rw [if_pos ((take_two_front hLe).1 hTwo), closeLong_front hInner]
        · rfl
        · rw [List.length_drop]
          omega
      · rename_i hTwo
        obtain ⟨inner, hInner, rfl⟩ := Option.map_eq_some_iff.1 h
        rw [if_neg (mt take_two_append hTwo),
          closeOnLine_front hInner (Nat.le_of_add_le_add_right hLength)]
        rfl

/-- A literal is still closed when more follows, but for two quotes with nothing in between: they
may be the first of three. -/
theorem Closed.append (h : Closed quote front) (hTwo : front ≠ [quote]) (back : List Char) :
    Closed quote (front ++ back) := by
  cases h with
  | @short inside after hInside hShort =>
      rw [List.append_assoc, List.cons_append]
      refine .short hInside fun hPrefix => hShort ?_
      have hMore : inside ++ quote :: (after ++ back) = inside ++ quote :: after ++ back := by simp
      rw [hMore] at hPrefix
      refine List.prefix_of_prefix_length_le hPrefix (List.prefix_append _ back) ?_
      -- Only a quote alone has less than two characters.
      rcases inside with _ | ⟨c, inside⟩
      · rcases after with _ | ⟨d, after⟩
        · exact absurd rfl hTwo
        · simp
      · simp
        omega
  | long hInside =>
      simp only [List.cons_append, List.append_assoc]
      exact .long hInside

/-- A literal that is closed is one lexeme. -/
theorem lexeme_of_quotedLength {reading : QuoteReading} {opening : Opening} {rest : List Char}
    (h : quotedLength (opening.quote :: rest) = some length) :
    lexeme reading (opening.letters ++ opening.quote :: rest) =
      some (.string, opening.letters.length + length) := by
  have hMark := opening.stringMark? rest
  have hDrop : (opening.letters ++ opening.quote :: rest).drop opening.letters.length =
      opening.quote :: rest := List.drop_left
  obtain ⟨c, others, hText⟩ : ∃ c others, opening.letters ++ opening.quote :: rest = c :: others :=
    List.exists_cons_of_ne_nil (by simp)
  obtain ⟨hBlank, hNewline, hNumber⟩ := opening.head_ne hText.symm
  rw [hText] at hMark hDrop ⊢
  simp only [lexeme, if_neg hBlank, if_neg hNewline, if_neg hNumber, hMark, hDrop, h]

/-! ## Lexemes -/

variable {c : Char} {rest : List Char} {kind : TokenKind}

theorem find?_symbol_front {symbols : List String} (hLength : ∀ symbol,
      symbols.find? (fun symbol => symbol.toList.isPrefixOf (front ++ back)) = some symbol →
      symbol.toList.length ≤ front.length) :
    symbols.find? (fun symbol => symbol.toList.isPrefixOf front) =
      symbols.find? (fun symbol => symbol.toList.isPrefixOf (front ++ back)) := by
  induction symbols with
  | nil => rfl
  | cons symbol symbols ih =>
      rw [List.find?_cons, List.find?_cons]
      cases hFull : symbol.toList.isPrefixOf (front ++ back) with
      | true =>
          have hLe := hLength symbol (by rw [List.find?_cons, hFull])
          have hPrefix := List.prefix_of_prefix_length_le (List.isPrefixOf_iff_prefix.1 hFull)
            (List.prefix_append front back) hLe
          rw [List.isPrefixOf_iff_prefix.2 hPrefix]
      | false =>
          have hFront : symbol.toList.isPrefixOf front = false := by
            rw [← Bool.not_eq_true, List.isPrefixOf_iff_prefix] at hFull ⊢
            exact fun hPrefix => hFull (hPrefix.trans (List.prefix_append front back))
          rw [hFront]
          refine ih fun other hOther => hLength other ?_
          rw [List.find?_cons, hFull]
          exact hOther

theorem plainLexeme_front (h : (plainLexeme c (front ++ back)).2 ≤ front.length) :
    plainLexeme c front = plainLexeme c (front ++ back) := by
  unfold plainLexeme at h ⊢
  split
  · rename_i hName
    rw [if_pos hName] at h
    exact congrArg (Prod.mk _) (isLocal_run continuesName front back h)
  rename_i hName
  rw [if_neg hName] at h
  split
  · rename_i hDigit
    rw [if_pos hDigit] at h
    exact congrArg (Prod.mk _) (isLocal_numberLength front back h)
  rename_i hDigit
  rw [if_neg hDigit] at h
  split
  · rfl
  rename_i hOpening
  rw [if_neg hOpening] at h
  split
  · rfl
  rename_i hClosing
  rw [if_neg hClosing] at h
  split
  · rfl
  rename_i hDot
  rw [if_neg hDot] at h
  rw [find?_symbol_front fun symbol hFull => by rwa [hFull] at h]

theorem stringMark?_front (h : stringMark? (c :: (rest ++ back)) = none) :
    stringMark? (c :: rest) = none := by
  rw [stringMark?.eq_def] at h ⊢
  cases rest with
  | nil =>
      simp only at h ⊢
      split at h
      · cases h
      · rename_i hQuote
        rw [if_neg hQuote]
  | cons d others => exact h

theorem lexeme_stringMark (h : isStringMark c = true) : lexeme .lenient [c] = some (.name, 1) := by
  have hStarts : ['r', 'R', 'u', 'U', 'b', 'B'].all startsName = true := by decide
  have hName : IsNameText [c] :=
    ⟨c, [], rfl, List.all_eq_true.1 hStarts c (List.contains_iff_mem.1 h), List.forall_mem_nil _⟩
  have hLexeme : lexeme .strict ([c] ++ []) = some (.name, 1) := lexeme_name hName nofun
  exact lexeme_lenient hLexeme

/-- A text that starts with the opening of a literal is cut off behind it or in it. -/
theorem Opening.cutOff (opening : Opening) {others : List Char}
    (h : c :: (rest ++ back) = opening.letters ++ opening.quote :: others) :
    (∃ inner, c :: rest = opening.letters ++ opening.quote :: inner ∧ others = inner ++ back) ∨
      isStringMark c = true ∧ rest = [] ∧ opening.letters = [c] := by
  obtain ⟨letters, quote, hLetters, hMarks, hQuote⟩ := opening
  rcases letters with _ | ⟨d, _ | ⟨e, letters⟩⟩
  · cases h
    exact .inl ⟨rest, rfl, rfl⟩
  · cases rest with
    | nil =>
        cases h
        exact .inr ⟨hMarks c List.mem_cons_self, rfl, rfl⟩
    | cons d inner =>
        cases h
        exact .inl ⟨inner, rfl, rfl⟩
  · simp at hLetters

section Front

variable (hLength : length - 1 ≤ rest.length) (hLast : kind = .blank ∨ rest.length ≤ length - 1 ∨
  ∀ last ∈ rest.getLast?, isQuote last = false)

include hLength hLast in
/-- A literal, or what is read in its place when it is not closed. -/
theorem lexeme_front_opening (opening : Opening) {others : List Char}
    (hText : c :: (rest ++ back) = opening.letters ++ opening.quote :: others)
    (h : lexeme .lenient (c :: (rest ++ back)) = some (kind, length)) :
    lexeme .lenient (c :: rest) = some (kind, length) := by
  rw [hText] at h
  cases hQuoted : quotedLength (opening.quote :: others) with
  | some found =>
      rw [lexeme_of_quotedLength hQuoted, Option.some_inj, Prod.mk.injEq] at h
      obtain ⟨rfl, rfl⟩ := h
      have hPos := quotedLength_pos hQuoted
      rcases opening.cutOff hText with ⟨inner, hFront, rfl⟩ | ⟨-, rfl, hLetters⟩
      · have hCount := congrArg List.length hFront
        rw [← List.cons_append] at hQuoted
        rw [List.length_append, List.length_cons, List.length_cons] at hCount
        rw [hFront, lexeme_of_quotedLength (quotedLength_front hQuoted _)]
        rw [List.length_cons]
        omega
      · rw [hLetters, List.length_singleton, List.length_nil] at hLength
        omega
  | none =>
      have hOpen : ¬ Closed opening.quote others := by
        rw [← isSome_quotedLength_iff opening.isQuote_quote, hQuoted]
        exact nofun
      rw [lexeme_of_not_closed hOpen, Option.some_inj, Prod.mk.injEq] at h
      obtain ⟨rfl, rfl⟩ := h
      rcases opening.cutOff hText with ⟨inner, hFront, rfl⟩ | ⟨hMark, rfl, hLetters⟩
      · have hInner : inner ≠ [opening.quote] := by
          rintro rfl
          obtain ⟨before, hRest⟩ : ∃ before, rest = before ++ [opening.quote] := by
            cases hLetters : opening.letters with
            | nil =>
                rw [hLetters] at hFront
                exact ⟨[], (List.cons.inj hFront).2⟩
            | cons d letters =>
                rw [hLetters] at hFront
                exact ⟨letters ++ [opening.quote], by simpa using (List.cons.inj hFront).2⟩
          rcases hLast with hBlank | hAlone | hPlain
          · split at hBlank <;> cases hBlank
          · simp [hRest] at hAlone
          · have hQuote := hPlain opening.quote (by simp [hRest])
            rw [opening.isQuote_quote] at hQuote
            cases hQuote
        rw [hFront, lexeme_of_not_closed fun hClosed => hOpen (hClosed.append hInner back)]
      · rw [lexeme_stringMark hMark, hLetters]
        rfl

include hLength hLast in
/-- The first lexeme of a text is that of its front, too, when the front goes that far. It may not
be the first of two quotes that the front ends with. -/
theorem lexeme_front (h : lexeme .lenient (c :: (rest ++ back)) = some (kind, length)) :
    lexeme .lenient (c :: rest) = some (kind, length) := by
  have hRun (p : Char → Bool) (hFull : ((c :: (rest ++ back)).takeWhile p).length = length) :
      ((c :: rest).takeWhile p).length = length := by
    have hSame : (c :: rest).takeWhile p = (c :: rest ++ back).takeWhile p := by
      refine takeWhile_front ?_
      rw [List.cons_append, hFull, List.length_cons]
      omega
    rw [hSame]
    exact hFull
  by_cases hBlank : c = ' ' ∨ c = '\t'
  · simp only [lexeme, if_pos hBlank, Option.some_inj, Prod.mk.injEq] at h ⊢
    exact ⟨h.1, hRun _ h.2⟩
  by_cases hNewline : c = '\n'
  · simp only [lexeme, if_neg hBlank, if_pos hNewline] at h ⊢
    exact h
  by_cases hNumber : c = '#'
  · simp only [lexeme, if_neg hBlank, if_neg hNewline, if_pos hNumber, Option.some_inj,
      Prod.mk.injEq] at h ⊢
    exact ⟨h.1, hRun _ h.2⟩
  cases hMark : stringMark? (c :: (rest ++ back)) with
  | none =>
      simp only [lexeme, if_neg hBlank, if_neg hNewline, if_neg hNumber, hMark,
        Option.some_inj] at h
      simp only [lexeme, if_neg hBlank, if_neg hNewline, if_neg hNumber, stringMark?_front hMark]
      have hPlain : plainLexeme c (c :: rest) = plainLexeme c (c :: rest ++ back) := by
        refine plainLexeme_front ?_
        rw [List.cons_append, h, List.length_cons]
        omega
      rw [hPlain, List.cons_append, h]
  | some letters =>
      obtain ⟨opening, others, hText, -⟩ := Opening.exists_of_stringMark? hMark
      exact lexeme_front_opening hLength hLast opening hText h

end Front

/-! ## Tokens -/

theorem lexeme_lenient_le (h : lexeme .lenient (c :: rest) = some (kind, length)) :
    length ≤ rest.length + 1 := by
  cases hStrict : lexeme .strict (c :: rest) with
  | some found =>
      have hSame := lexeme_lenient hStrict
      rw [h] at hSame
      cases hSame
      exact lexeme_le hStrict
  | none =>
      obtain ⟨opening, others, hText, hOpen⟩ := (lexeme_strict_eq_none_iff c rest).1 hStrict
      rw [hText, lexeme_of_not_closed hOpen] at h
      cases h
      exact Nat.le_add_left 1 _

variable {start : Nat} {text : List Char} {t : Token} {tokens others : List Token}

/-- The first token of a text and what the others are read from. -/
theorem exists_of_scanFrom_cons (h : (scanFrom .lenient start text).tokens = t :: others) :
    ∃ c rest length, text = c :: rest ∧ lexeme .lenient (c :: rest) = some (t.kind, length) ∧
      t = ⟨t.kind, c :: rest.take (length - 1), start⟩ ∧
      (scanFrom .lenient t.stop (rest.drop (length - 1))).tokens = others := by
  cases text with
  | nil =>
      rw [scanFrom] at h
      cases h
  | cons c rest =>
      obtain ⟨⟨kind, length⟩, hLexeme⟩ := Option.isSome_iff_exists.1 (lexeme_lenient_isSome c rest)
      rw [scanFrom, hLexeme] at h
      obtain ⟨rfl, hOthers⟩ := List.cons.inj h
      exact ⟨c, rest, length, rfl, hLexeme, rfl, hOthers⟩

/-- A text may be cut off behind these tokens: they end with no quote, or there is one that stands
alone, with or without blanks before it. -/
inductive Settled : List Token → Prop
  | alone (t : Token) : Settled [t]
  | blank {t : Token} {rest : List Token} (isBlank : t.kind = .blank) (below : Settled rest) :
      Settled (t :: rest)
  | plain {tokens : List Token}
      (noQuote : ∀ last ∈ (tokens.flatMap Token.text).getLast?, isQuote last = false) :
      Settled tokens

theorem getLast?_of_append (first : List Char) {second : List Char} {last : Char}
    (h : last ∈ second.getLast?) : last ∈ (first ++ second).getLast? := by
  rw [List.getLast?_append, Option.mem_def.1 h]
  rfl

theorem Settled.tail (h : Settled (t :: tokens)) : Settled tokens := by
  cases h with
  | alone => exact .plain nofun
  | blank _ below => exact below
  | plain noQuote =>
      refine .plain fun last hLast => noQuote last ?_
      rw [List.flatMap_cons]
      exact getLast?_of_append _ hLast

/-- The tokens of a text up to a place are the tokens of what stands before that place. -/
theorem scanFrom_front (h : (scanFrom .lenient start (front ++ back)).tokens = tokens ++ others)
    (hFront : tokens.flatMap Token.text = front) (hSettled : Settled tokens) :
    (scanFrom .lenient start front).tokens = tokens := by
  induction tokens generalizing start front with
  | nil =>
      subst hFront
      rw [List.flatMap_nil, scanFrom]
  | cons t tokens ih =>
      obtain ⟨c, rest, length, hText, hLexeme, hToken, hBelow⟩ := exists_of_scanFrom_cons h
      have hPiece : (rest.take (length - 1)).length = length - 1 :=
        List.length_take_of_le (Nat.sub_le_of_le_add (lexeme_lenient_le hLexeme))
      generalize hBehind : tokens.flatMap Token.text = behind at hFront
      generalize hPart : rest.take (length - 1) = piece at hToken hPiece
      rw [List.flatMap_cons, hBehind, hToken] at hFront
      subst hFront
      -- The text behind the first token: what is left of the front, and what is cut off.
      have hRest : rest = piece ++ behind ++ back := (List.cons.inj hText).2.symm
      have hDrop : rest.drop (length - 1) = behind ++ back := by
        rw [hRest, List.append_assoc, List.drop_left' hPiece]
      rw [hDrop] at hBelow
      have hLast : t.kind = .blank ∨ (piece ++ behind).length ≤ length - 1 ∨
          ∀ last ∈ (piece ++ behind).getLast?, isQuote last = false := by
        cases hSettled with
        | alone =>
            subst hBehind
            exact .inr (.inl (by simp [hPiece]))
        | blank isBlank => exact .inl isBlank
        | plain noQuote =>
            refine .inr (.inr fun last hLast => noQuote last ?_)
            rw [List.flatMap_cons, hBehind, hToken]
            exact getLast?_of_append [c] hLast
      have hSame := lexeme_front (by rw [List.length_append]; omega) hLast (hRest ▸ hLexeme)
      show (scanFrom .lenient start (c :: (piece ++ behind))).tokens = t :: tokens
      rw [scanFrom, hSame]
      simp only [List.take_left' hPiece, List.drop_left' hPiece, ← hToken]
      rw [ih hBelow hBehind hSettled.tail]

end Stencil
