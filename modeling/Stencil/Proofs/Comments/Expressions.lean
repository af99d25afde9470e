import Stencil.Proofs.Numbering.Excerpts
import Stencil.Proofs.Tiling
import Stencil.Proofs.Variables

/-!
# Expressions before the end of a line

An expression in a line is cut out by its tokens, and the tokens are those of a lenient reading. No
token goes on over the end of a line, be it a newline or a comment behind a sigil, but for two
kinds: a comment of the grammar takes what follows, and a quote that the line leaves open is closed
by its partner behind the line. Where no quote has a partner there, an expression that does not
start with a comment is cut out as it was.

## Main results

* `lexeme_lenient_append_stop`: the first lexeme of a lenient reading is the same before a stop.
* `Inline.read_append_lineEnd`: an expression is the same before the end of its line.
* `readExpression_append_lineEnd`, `readExpression_comment`: and so is a piece, or it is a comment.
-/

namespace Stencil

open Stencil.Text

/-! ## Lexemes -/

/-- A literal is closed by what stands before characters that are no quotes. -/
theorem Closed.of_append {quote : Char} {text more : List Char} (h : Closed quote (text ++ more))
    (hMore : quote ∉ more) : Closed quote text := by
  -- The last quote that closes the literal is not in what follows.
  have hSplit {front after : List Char} (hText : text ++ more = front ++ quote :: after) :
      ∃ rest, text = front ++ quote :: rest := by
    rcases List.append_eq_append_iff.1 hText with ⟨rest, -, rfl⟩ | ⟨rest, rfl, hRest⟩
    · exact absurd (List.mem_append_right rest List.mem_cons_self) hMore
    · cases rest with
      | nil =>
          rw [List.nil_append] at hRest
          exact absurd (hRest ▸ List.mem_cons_self) hMore
      | cons c rest =>
          cases hRest
          exact ⟨rest, rfl⟩
  generalize hBoth : text ++ more = both at h
  cases h with
  | @short inside after hInside hShort =>
      obtain ⟨rest, rfl⟩ := hSplit hBoth
      refine .short hInside fun hPrefix => hShort ?_
      rw [← hBoth]
      exact hPrefix.trans (List.prefix_append _ _)
  | @long inside after hInside =>
      have hFront : quote :: quote :: (inside ++ quote :: quote :: quote :: after) =
          (quote :: quote :: (inside ++ [quote, quote])) ++ quote :: after := by simp
      obtain ⟨rest, rfl⟩ := hSplit (hBoth.trans hFront)
      have hText : quote :: quote :: (inside ++ [quote, quote]) ++ quote :: rest =
          quote :: quote :: (inside ++ quote :: quote :: quote :: rest) := by simp
      rw [hText]
      exact .long hInside

/-- The letter in front of a literal is a name of its own. -/
theorem Opening.nameLength {opening : Opening} (h : opening.letters.length ≠ 0)
    (rest : List Char) : nameLength (opening.letters ++ opening.quote :: rest) = 1 := by
  obtain ⟨letters, quote, hLength, hMarks, hQuote⟩ := opening
  have hEnd : continuesName quote = false := by
    rw [isQuote, Bool.or_eq_true, beq_iff_eq, beq_iff_eq] at hQuote
    rcases hQuote with rfl | rfl <;> decide
  have hLetters : ['r', 'R', 'u', 'U', 'b', 'B'].all continuesName = true := by decide
  rcases letters with _ | ⟨c, _ | ⟨d, others⟩⟩
  · exact absurd rfl h
  · have hMark := List.contains_iff_mem.1 (hMarks c (List.mem_singleton_self c))
    have hc := List.all_eq_true.1 hLetters c hMark
    rw [Stencil.nameLength, List.cons_append, List.nil_append, List.takeWhile_cons_of_pos hc,
      List.takeWhile_cons_of_neg (Bool.eq_false_iff.1 hEnd)]
    rfl
  · exact absurd hLength (by simp)

/-- Where a literal is not closed, its quote is an operator and the letter in front of it a name. -/
theorem lexeme_of_not_closed {opening : Opening} {rest : List Char}
    (h : ¬ Closed opening.quote rest) :
    lexeme .lenient (opening.letters ++ opening.quote :: rest) =
      some (if opening.letters.length = 0 then .operator else .name, 1) := by
  have hNone : quotedLength (opening.quote :: rest) = none := by
    rwa [← Option.not_isSome_iff_eq_none, isSome_quotedLength_iff opening.isQuote_quote]
  have hMark := opening.stringMark? rest
  have hDrop : (opening.letters ++ opening.quote :: rest).drop opening.letters.length =
      opening.quote :: rest := List.drop_left
  have hName : opening.letters.length ≠ 0 →
      Stencil.nameLength (opening.letters ++ opening.quote :: rest) = 1 :=
    fun hLetters => Opening.nameLength hLetters rest
  obtain ⟨c, others, hText⟩ : ∃ c others, opening.letters ++ opening.quote :: rest = c :: others :=
    List.exists_cons_of_ne_nil (by simp)
  obtain ⟨hBlank, hNewline, hNumber⟩ := opening.head_ne hText.symm
  rw [hText] at hMark hDrop hName ⊢
  simp only [lexeme, if_neg hBlank, if_neg hNewline, if_neg hNumber, hMark, hDrop, hNone]
  split
  · rfl
  · rename_i hLetters
    rw [hName hLetters]

variable {stop c : Char} {rest more : List Char} {kind : TokenKind} {length : Nat}

/-- The first lexeme of a lenient reading is the same before a stop, unless it is a comment or one
of its quotes stands behind the stop, too. -/
theorem lexeme_lenient_append_stop (hStop : IsStop stop)
    (hMore : ∀ quote ∈ c :: rest, isQuote quote = true → quote ∉ more)
    (h : lexeme .lenient (c :: rest) = some (kind, length)) (hComment : kind ≠ .comment) :
    lexeme .lenient (c :: (rest ++ stop :: more)) = some (kind, length) ∧
      length ≤ rest.length + 1 := by
  cases hStrict : lexeme .strict (c :: rest) with
  | some found =>
      have hSame := lexeme_lenient hStrict
      rw [h] at hSame
      cases hSame
      exact ⟨lexeme_append_stop hStop more .lenient hStrict hComment, lexeme_le hStrict⟩
  | none =>
      obtain ⟨opening, others, hText, hOpen⟩ := (lexeme_strict_eq_none_iff c rest).1 hStrict
      have hIs := opening.isQuote_quote
      have hQuote : opening.quote ∉ stop :: more := by
        intro hMem
        rcases List.mem_cons.1 hMem with hSame | hMem
        · rw [hSame, hStop.elim (p := isQuote) (by decide)] at hIs
          cases hIs
        · exact hMore _ (by simp [hText]) hIs hMem
      have hLonger : c :: (rest ++ stop :: more) =
          opening.letters ++ opening.quote :: (others ++ stop :: more) := by
        rw [← List.cons_append, hText, List.append_assoc, List.cons_append]
      rw [hText, lexeme_of_not_closed hOpen] at h
      rw [hLonger, lexeme_of_not_closed fun hClosed => hOpen (hClosed.of_append hQuote), h]
      cases h
      exact ⟨rfl, Nat.le_add_left 1 _⟩

/-! ## Ends of lines -/

/-- Nothing, or a newline. -/
def IsEnding (text : List Char) : Prop := text = [] ∨ text = ['\n']

/-- What a line ends with: a newline, or a comment with or without one. -/
inductive LineEnd : List Char → Prop
  | newline : LineEnd ['\n']
  | comment {remark ending : List Char} (oneLine : '\n' ∉ remark) (isEnding : IsEnding ending) :
      LineEnd ('$' :: '#' :: (remark ++ ending))

/-- The text in front of the end of a line. No quote stands on both sides: a quote that the line
leaves open would go on to its partner in the comment. -/
structure EndsWith (text tail : List Char) : Prop where
  oneLine : '\n' ∉ text
  lineEnd : LineEnd tail
  apart : ∀ quote ∈ text, isQuote quote = true → quote ∉ tail

theorem LineEnd.exists_stop {tail : List Char} (h : LineEnd tail) :
    ∃ stop more, tail = stop :: more ∧ IsStop stop := by
  cases h with
  | newline => exact ⟨'\n', [], rfl, .inr (.inr (.inr rfl))⟩
  | comment => exact ⟨'$', _, rfl, .inr (.inr (.inl rfl))⟩

theorem LineEnd.exists_ending {tail : List Char} (h : LineEnd tail) :
    ∃ more ending, tail = more ++ ending ∧ '\n' ∉ more ∧ IsEnding ending := by
  cases h with
  | newline => exact ⟨[], ['\n'], rfl, List.not_mem_nil, .inr rfl⟩
  | @comment remark ending hRemark hEnding =>
      exact ⟨'$' :: '#' :: remark, ending, rfl, by simp [hRemark], hEnding⟩

theorem EndsWith.newline {text : List Char} (h : '\n' ∉ text) : EndsWith text ['\n'] := by
  refine ⟨h, .newline, fun quote _ hIs hMem => ?_⟩
  rw [List.mem_singleton.1 hMem] at hIs
  cases hIs

theorem EndsWith.mono {part text tail : List Char} (h : EndsWith text tail) (hPart : part ⊆ text) :
    EndsWith part tail :=
  ⟨fun hMem => h.oneLine (hPart hMem), h.lineEnd, fun quote hMem => h.apart quote (hPart hMem)⟩

/-- A comment goes on to the end of its line. -/
theorem lexeme_comment (reading : QuoteReading) {remark ending : List Char}
    (hRemark : '\n' ∉ remark) (hEnding : IsEnding ending) :
    lexeme reading ('#' :: (remark ++ ending)) = some (.comment, remark.length + 1) := by
  have hRun : ('#' :: (remark ++ ending)).takeWhile (· != '\n') = '#' :: remark := by
    have hEach : ∀ d ∈ '#' :: remark, (d != '\n') = true :=
      List.forall_mem_cons.2 ⟨rfl, fun d hd => bne_iff_ne.2 fun hSame => hRemark (hSame ▸ hd)⟩
    rw [← List.cons_append]
    refine takeWhile_append_noHead _ hEach fun d hd => ?_
    rcases hEnding with rfl | rfl
    · cases hd
    · cases hd
      rfl
  rw [← List.length_cons, ← hRun]
  rfl

/-- Only a number sign starts a comment. -/
theorem eq_number_of_lexeme (h : lexeme .lenient (c :: rest) = some (.comment, length)) :
    c = '#' := by
  by_cases hGap : isGap c = true
  · have hBlank : c = ' ' ∨ c = '\t' := by simpa [isGap] using hGap
    rw [lexeme, if_pos hBlank] at h
    cases h
  by_cases hNewline : c = '\n'
  · subst hNewline
    cases h
  by_cases hNumber : c = '#'
  · exact hNumber
  · exact absurd rfl (lexeme_lenient_kind h (Bool.eq_false_iff.2 hGap) hNewline hNumber).2.2

/-- The first lexeme of a lenient reading is the same before the end of a line. -/
theorem lexeme_lenient_append_lineEnd {tail : List Char} (h : EndsWith (c :: rest) tail)
    (hNumber : c ≠ '#') : ∃ kind length, lexeme .lenient (c :: rest) = some (kind, length) ∧
      lexeme .lenient (c :: (rest ++ tail)) = some (kind, length) ∧ length ≤ rest.length + 1 := by
  obtain ⟨stop, more, rfl, hStop⟩ := h.lineEnd.exists_stop
  obtain ⟨⟨kind, length⟩, hLexeme⟩ := Option.isSome_iff_exists.1 (lexeme_lenient_isSome c rest)
  have hComment : kind ≠ .comment := by
    rintro rfl
    exact hNumber (eq_number_of_lexeme hLexeme)
  have hMore : ∀ quote ∈ c :: rest, isQuote quote = true → quote ∉ more :=
    fun quote hMem hIs hMore => h.apart quote hMem hIs (List.mem_cons_of_mem _ hMore)
  exact ⟨kind, length, hLexeme, lexeme_lenient_append_stop hStop hMore hLexeme hComment⟩

/-! ## Expressions before the end of a line -/

namespace Inline

theorem cut_sigil (rest : List Char) : cut '$' rest = (.operator, rest) :=
  cut_of_lexeme (lexeme_lenient (lexeme_plain (by decide) rest))

theorem cut_newline (rest : List Char) : cut '\n' rest = (.newline, rest) :=
  cut_of_lexeme (show lexeme .lenient ('\n' :: rest) = some (.newline, 1) from rfl)

theorem cut_number {remark ending : List Char} (hRemark : '\n' ∉ remark)
    (hEnding : IsEnding ending) : cut '#' (remark ++ ending) = (.comment, ending) := by
  rw [cut_of_lexeme (lexeme_comment .lenient hRemark hEnding), Nat.add_sub_cancel, List.drop_left]

variable {c innermost : Char} {outer text rest others tail : List Char}

theorem cut_suffix (c : Char) (rest : List Char) : (cut c rest).2 <:+ rest := by
  unfold cut
  split
  · exact List.drop_suffix _ _
  · exact List.suffix_rfl

theorem closeGroup_suffix (h : closeGroup innermost outer text = .ok others) :
    others <:+ text := by
  have hCut (c : Char) (rest : List Char) : (cut c rest).2 <:+ c :: rest :=
    (cut_suffix c rest).trans (List.suffix_cons c rest)
  fun_induction closeGroup innermost outer text with
  | case1 => cases h
  | case2 innermost outer c rest hOpens ih => exact (ih h).trans (hCut c rest)
  | case3 innermost c rest hOpens hCloses =>
      cases h
      exact hCut c rest
  | case4 innermost c rest hOpens hCloses next outer ih => exact (ih h).trans (hCut c rest)
  | case5 innermost outer c rest hOpens hCloses ih => exact (ih h).trans (hCut c rest)

theorem cut_append (h : EndsWith (c :: rest) tail) (hNumber : c ≠ '#') :
    cut c (rest ++ tail) = ((cut c rest).1, (cut c rest).2 ++ tail) := by
  obtain ⟨kind, length, hLexeme, hLonger, hLength⟩ := lexeme_lenient_append_lineEnd h hNumber
  rw [cut_of_lexeme hLonger, cut_of_lexeme hLexeme,
    List.drop_append_of_le_length (Nat.sub_le_of_le_add hLength)]

/-- A comment in code takes the end of the line, too. -/
theorem cut_number_append (h : EndsWith ('#' :: rest) tail) :
    ∃ ending, IsEnding ending ∧ cut '#' (rest ++ tail) = (.comment, ending) := by
  obtain ⟨more, ending, rfl, hMore, hEnding⟩ := h.lineEnd.exists_ending
  have hRest : '\n' ∉ rest ++ more := fun hMem => (List.mem_append.1 hMem).elim
    (fun hRest => h.oneLine (List.mem_cons_of_mem _ hRest)) hMore
  rw [← List.append_assoc, cut_number hRest hEnding]
  exact ⟨ending, hEnding, rfl⟩

theorem closeGroup_ending (h : IsEnding text) :
    closeGroup innermost outer text = .error (.unclosed innermost) := by
  rcases h with rfl | rfl
  · rw [closeGroup]
  · rw [closeGroup_other (cut_newline []) (by simp) (by simp), closeGroup]

/-- No group is closed by the end of a line. -/
theorem closeGroup_lineEnd (h : LineEnd tail) :
    closeGroup innermost outer tail = .error (.unclosed innermost) := by
  cases h with
  | newline => exact closeGroup_ending (.inr rfl)
  | comment hRemark hEnding =>
      rw [closeGroup_other (cut_sigil _) (by simp) (by simp),
        closeGroup_other (cut_number hRemark hEnding) (by simp) (by simp)]
      exact closeGroup_ending hEnding

theorem cut_number_line (h : '\n' ∉ rest) : cut '#' rest = (.comment, []) := by
  have hCut := cut_number h (.inl rfl)
  rwa [List.append_nil] at hCut

/-- Only a comment starts with a number sign. -/
theorem ne_number (h : EndsWith (c :: rest) tail) (hKind : (cut c rest).1 ≠ .comment) :
    c ≠ '#' := by
  rintro rfl
  rw [cut_number_line fun hMem => h.oneLine (List.mem_cons_of_mem _ hMem)] at hKind
  exact hKind rfl

theorem endsWith_cut (h : EndsWith (c :: rest) tail) : EndsWith (cut c rest).2 tail :=
  h.mono ((cut_suffix c rest).trans (List.suffix_cons c rest)).subset

/-- A group ends where it did, or nowhere, whatever ends the line. -/
theorem closeGroup_append_lineEnd (h : EndsWith text tail) :
    closeGroup innermost outer (text ++ tail) =
      (· ++ tail) <$> closeGroup innermost outer text := by
  induction innermost, outer, text using closeGroup.induct with
  | case1 innermost outer =>
      rw [List.nil_append, closeGroup_lineEnd h.lineEnd, closeGroup]
      rfl
  | case2 innermost outer c rest hOpens ih =>
      have hCut := cut_append h (ne_number h (by simp [hOpens]))
      rw [hOpens] at hCut
      rw [List.cons_append, closeGroup_opening hCut, ih (endsWith_cut h),
        closeGroup_opening (Prod.ext hOpens rfl)]
  | case3 innermost c rest hOpens hCloses =>
      have hCut := cut_append h (ne_number h (by simp [hCloses.1]))
      rw [hCloses.1] at hCut
      rw [List.cons_append, closeGroup_closing_nil hCut hCloses.2,
        closeGroup_closing_nil (Prod.ext hCloses.1 rfl) hCloses.2]
      rfl
  | case4 innermost c rest hOpens hCloses next outer ih =>
      have hCut := cut_append h (ne_number h (by simp [hCloses.1]))
      rw [hCloses.1] at hCut
      rw [List.cons_append, closeGroup_closing_cons hCut hCloses.2, ih (endsWith_cut h),
        closeGroup_closing_cons (Prod.ext hCloses.1 rfl) hCloses.2]
  | case5 innermost outer c rest hOpens hCloses ih =>
      have hPass {more : List Char} (hKind : (cut c more).1 = (cut c rest).1) :
          closeGroup innermost outer (c :: more) = closeGroup innermost outer (cut c more).2 := by
        rw [closeGroup.eq_def]
        simp only [hKind, if_neg hOpens, if_neg hCloses]
      by_cases hc : c = '#'
      · -- The comment goes on to the end of both lines, so the group is open in both.
        subst hc
        obtain ⟨ending, hEnding, hCut⟩ := cut_number_append h
        have hLine := cut_number_line fun hMem => h.oneLine (List.mem_cons_of_mem '#' hMem)
        rw [List.cons_append, hPass (by rw [hCut, hLine]), hPass rfl, hCut, hLine,
          closeGroup_ending hEnding, closeGroup]
        rfl
      · have hCut := cut_append h hc
        rw [List.cons_append, hPass (by rw [hCut]), hPass rfl, hCut, ih (endsWith_cut h)]

/-! ## Whole expressions -/

/-- The end of a line is no part of an expression. -/
theorem kind_cut_lineEnd (h : LineEnd (c :: rest)) :
    (cut c rest).1 = .newline ∨ (cut c rest).1 = .operator := by
  cases h with
  | newline => exact .inl (congrArg Prod.fst (cut_newline _))
  | comment => exact .inr (congrArg Prod.fst (cut_sigil _))

theorem kind_of_skipAttribute? (h : skipAttribute? c rest = some others) :
    (cut c rest).1 = .dot := by
  unfold skipAttribute? at h
  split at h
  · assumption
  · cases h

theorem skipAttribute?_suffix (h : skipAttribute? c rest = some others) : others <:+ rest := by
  rw [skipAttribute?, if_pos (kind_of_skipAttribute? h)] at h
  have hDot := cut_suffix c rest
  split at h
  · rename_i d after hAfter
    rw [hAfter] at hDot
    split at h
    · cases h
      exact ((cut_suffix d after).trans (List.suffix_cons d after)).trans hDot
    · cases h
  · cases h

theorem skipAttribute?_append_lineEnd (h : EndsWith (c :: rest) tail) (hNumber : c ≠ '#') :
    skipAttribute? c (rest ++ tail) = (· ++ tail) <$> skipAttribute? c rest := by
  have hBelow := endsWith_cut h
  have hEnd := h.lineEnd
  rw [skipAttribute?, skipAttribute?, cut_append h hNumber]
  by_cases hDot : (cut c rest).1 = .dot
  · rw [if_pos hDot, if_pos hDot]
    cases hAfter : (cut c rest).2 with
    | nil =>
        cases tail with
        | nil => cases hEnd
        | cons d others =>
            have hName : (cut d others).1 ≠ .name := by
              rcases kind_cut_lineEnd hEnd with hKind | hKind <;> simp [hKind]
            exact if_neg hName
    | cons d others =>
        rw [hAfter] at hBelow
        simp only [List.cons_append]
        by_cases hd : d = '#'
        · subst hd
          obtain ⟨ending, -, hCut⟩ := cut_number_append hBelow
          rw [hCut, cut_number_line fun hMem => hBelow.oneLine (List.mem_cons_of_mem '#' hMem)]
          rfl
        · rw [cut_append hBelow hd]
          split <;> rfl
  · rw [if_neg hDot, if_neg hDot]
    rfl

theorem extend_attribute (h : skipAttribute? c rest = some others) :
    extend (c :: rest) = extend others := by
  rw [extend.eq_def]
  simp only
  split
  · rename_i found hFound
    rw [h] at hFound
    cases hFound
    rfl
  · rename_i hNone
    rw [h] at hNone
    cases hNone

theorem extend_of_none (h : skipAttribute? c rest = none) : extend (c :: rest) =
    if (cut c rest).1 = .opening then closeGroup c [] (cut c rest).2 >>= extend
    else .ok (c :: rest) := by
  rw [extend.eq_def]
  simp only
  split
  · rename_i hSome
    rw [h] at hSome
    cases hSome
  · split
    · split
      · rename_i others hGroup
        rw [hGroup]
        rfl
      · rename_i fault hGroup
        rw [hGroup]
        rfl
    · rfl

theorem extend_stop (h : (cut c rest).1 ≠ .dot) (hOpening : (cut c rest).1 ≠ .opening) :
    extend (c :: rest) = .ok (c :: rest) := by
  rw [extend_of_none (if_neg h), if_neg hOpening]

/-- Nothing of the end of a line belongs to the expression in front of it. -/
theorem extend_append_lineEnd (h : EndsWith text tail) :
    extend (text ++ tail) = (· ++ tail) <$> extend text := by
  induction text using extend.induct with
  | case1 =>
      have hEnd := h.lineEnd
      cases tail with
      | nil => cases hEnd
      | cons c rest =>
          have hKind := kind_cut_lineEnd hEnd
          rw [List.nil_append, extend_stop, extend]
          · rfl
          · rcases hKind with hKind | hKind <;> simp [hKind]
          · rcases hKind with hKind | hKind <;> simp [hKind]
  | case2 c rest others hAttribute ih =>
      have hNumber := ne_number h (by simp [kind_of_skipAttribute? hAttribute])
      have hLonger := skipAttribute?_append_lineEnd h hNumber
      rw [hAttribute] at hLonger
      have hOthers := (skipAttribute?_suffix hAttribute).trans (List.suffix_cons c rest)
      rw [List.cons_append, extend_attribute hLonger, extend_attribute hAttribute,
        ih (h.mono hOthers.subset)]
  | case3 c rest hAttribute hOpening others hGroup ih =>
      have hNumber := ne_number h (by simp [hOpening])
      have hLonger := skipAttribute?_append_lineEnd h hNumber
      rw [hAttribute] at hLonger
      have hBelow := endsWith_cut h
      rw [List.cons_append, extend_of_none hLonger, extend_of_none hAttribute,
        cut_append h hNumber, if_pos hOpening, if_pos hOpening,
        closeGroup_append_lineEnd hBelow, hGroup]
      exact ih (hBelow.mono (closeGroup_suffix hGroup).subset)
  | case4 c rest hAttribute hOpening fault hGroup =>
      have hNumber := ne_number h (by simp [hOpening])
      have hLonger := skipAttribute?_append_lineEnd h hNumber
      rw [hAttribute] at hLonger
      rw [List.cons_append, extend_of_none hLonger, extend_of_none hAttribute,
        cut_append h hNumber, if_pos hOpening, if_pos hOpening,
        closeGroup_append_lineEnd (endsWith_cut h), hGroup]
      rfl
  | case5 c rest hAttribute hOpening =>
      rw [extend_of_none hAttribute, if_neg hOpening, List.cons_append]
      by_cases hc : c = '#'
      · subst hc
        obtain ⟨ending, -, hCut⟩ := cut_number_append h
        exact extend_stop (by simp [hCut]) (by simp [hCut])
      · have hLonger := skipAttribute?_append_lineEnd h hc
        rw [hAttribute] at hLonger
        rw [extend_of_none hLonger, cut_append h hc, if_neg hOpening]
        rfl

theorem skip_eq (h : text.dropWhile isGap = c :: rest) : skip text =
    if (cut c rest).1 = .opening then closeGroup c [] (cut c rest).2
    else extend (cut c rest).2 := by
  have hDrop : text.dropWhile (fun c => c == ' ' || c == '\t') = c :: rest := h
  rw [skip, hDrop]

theorem extend_suffix (h : extend text = .ok others) : others <:+ text := by
  induction text using extend.induct with
  | case1 =>
      rw [extend] at h
      cases h
      exact List.suffix_rfl
  | case2 c rest after hAttribute ih =>
      rw [extend_attribute hAttribute] at h
      exact (ih h).trans ((skipAttribute?_suffix hAttribute).trans (List.suffix_cons c rest))
  | case3 c rest hAttribute hOpening after hGroup ih =>
      rw [extend_of_none hAttribute, if_pos hOpening, hGroup] at h
      exact (ih h).trans ((closeGroup_suffix hGroup).trans
        ((cut_suffix c rest).trans (List.suffix_cons c rest)))
  | case4 c rest hAttribute hOpening fault hGroup =>
      rw [extend_of_none hAttribute, if_pos hOpening, hGroup] at h
      cases h
  | case5 c rest hAttribute hOpening =>
      rw [extend_of_none hAttribute, if_neg hOpening] at h
      cases h
      exact List.suffix_rfl

theorem skip_suffix (h : skip text = .ok others) : others <:+ text := by
  cases hSome : text.dropWhile isGap with
  | nil =>
      have hDrop : text.dropWhile (fun c => c == ' ' || c == '\t') = [] := hSome
      rw [skip, hDrop] at h
      cases h
  | cons c rest =>
      have hBelow : (cut c rest).2 <:+ text := by
        have hDrop := List.dropWhile_suffix (l := text) isGap
        rw [hSome] at hDrop
        exact ((cut_suffix c rest).trans (List.suffix_cons c rest)).trans hDrop
      rw [skip_eq hSome] at h
      split at h
      · exact (closeGroup_suffix h).trans hBelow
      · exact (extend_suffix h).trans hBelow

/-- An expression that does not start with a comment is the same before the end of a line. -/
theorem skip_append_lineEnd (h : EndsWith text tail) (hSome : text.dropWhile isGap = c :: rest)
    (hNumber : c = '#' → tail = ['\n']) : skip (text ++ tail) = (· ++ tail) <$> skip text := by
  have hLine : EndsWith (c :: rest) tail :=
    h.mono (hSome ▸ (List.dropWhile_suffix isGap).subset)
  have hLonger : (text ++ tail).dropWhile isGap = c :: (rest ++ tail) := by
    rw [List.dropWhile_append, hSome]
    rfl
  rw [skip_eq hLonger, skip_eq hSome]
  by_cases hc : c = '#'
  · subst hc
    obtain rfl := hNumber rfl
    have hRest : '\n' ∉ rest := fun hMem => hLine.oneLine (List.mem_cons_of_mem _ hMem)
    have hNewline : extend ['\n'] = .ok ['\n'] :=
      extend_stop (by rw [cut_newline]; simp) (by rw [cut_newline]; simp)
    rw [cut_number hRest (.inr rfl), cut_number_line hRest, if_neg (by simp), if_neg (by simp),
      hNewline, extend]
    rfl
  · rw [cut_append hLine hc]
    split
    · exact closeGroup_append_lineEnd (endsWith_cut hLine)
    · exact extend_append_lineEnd (endsWith_cut hLine)

theorem read_eq (text : List Char) : read text =
    (fun rest => (text.take (text.length - rest.length), rest)) <$> skip text := by
  rw [read]
  cases hSkip : skip text with
  | error fault => rfl
  | ok rest =>
      obtain ⟨front, rfl⟩ := skip_suffix hSkip
      have hDrop : (front ++ rest).drop ((front ++ rest).length - rest.length) = rest := by
        rw [List.length_append, Nat.add_sub_cancel, List.drop_left]
      simp only [List.splitAt_eq, hDrop]
      rfl

/-- An expression that starts with no comment is cut out as it is, whatever ends the line. -/
theorem read_append_lineEnd (h : EndsWith text tail) (hSome : text.dropWhile isGap = c :: rest)
    (hNumber : c = '#' → tail = ['\n']) :
    read (text ++ tail) = Prod.map id (· ++ tail) <$> read text := by
  rw [read_eq, read_eq, skip_append_lineEnd h hSome hNumber]
  cases hSkip : skip text with
  | error fault => rfl
  | ok rest =>
      obtain ⟨front, rfl⟩ := skip_suffix hSkip
      have hTake (more : List Char) :
          (front ++ more).take ((front ++ more).length - more.length) = front := by
        rw [List.length_append, Nat.add_sub_cancel, List.take_left]
      show Except.ok (((front ++ rest) ++ tail).take _, rest ++ tail) =
        .ok ((front ++ rest).take _, rest ++ tail)
      rw [hTake, List.append_assoc, hTake]

end Inline

/-! ## Pieces -/

section Pieces

variable {text rest others tail : List Char} {escape : Bool} {piece : Piece}

theorem isBlank_of_isGap {c : Char} (h : isGap c = true) : isBlank c = true := by
  rw [isGap, Bool.or_eq_true, beq_iff_eq, beq_iff_eq] at h
  rcases h with rfl | rfl <;> decide

theorem trimStart_dropWhile_isGap (text : List Char) :
    trimStart (text.dropWhile isGap) = trimStart text := by
  conv => rhs; rw [← List.takeWhile_append_dropWhile (p := isGap) (l := text)]
  refine (List.dropWhile_append_of_pos fun c hc => isBlank_of_isGap ?_).symm
  exact List.all_eq_true.1 List.all_takeWhile c hc

theorem readExpression_append_lineEnd (h : EndsWith text tail)
    (hUnseen : isUnseen text = true → tail = ['\n']) :
    readExpression escape (text ++ tail) =
      Prod.map id (· ++ tail) <$> readExpression escape text := by
  cases hSome : text.dropWhile isGap with
  | nil =>
      -- Only blanks: the newline behind them is cut out, and it is no code.
      obtain rfl := hUnseen (by rw [isUnseen, hSome]; rfl)
      have hDrop : text.dropWhile (fun c => c == ' ' || c == '\t') = [] := hSome
      have hNone : Inline.read text = .error .missing := by
        rw [Inline.read, Inline.skip, hDrop]
      have hNewline : Inline.read (text ++ ['\n']) = .ok (text ++ ['\n'], []) := by
        have hLonger : (text ++ ['\n']).dropWhile isGap = ['\n'] := by
          rw [List.dropWhile_append, hSome]
          rfl
        rw [Inline.read_eq, Inline.skip_eq hLonger, Inline.cut_newline, if_neg (by simp),
          Inline.extend]
        show Except.ok ((text ++ ['\n']).take ((text ++ ['\n']).length - 0), []) = _
        rw [Nat.sub_zero, List.take_length]
      have hBlank : trim text = [] := by
        rw [trim, ← trimStart_dropWhile_isGap, hSome]
        rfl
      have hCode : Inline.normalize (text ++ ['\n']) = [] := by
        rw [Inline.normalize, trim_append_newline, hBlank]
      rw [readExpression, readExpression, hNone, hNewline]
      simp only [hCode]
      rfl
  | cons c rest =>
      have hRead := Inline.read_append_lineEnd h hSome fun hc => hUnseen (by
        rw [isUnseen, hSome, hc]
        rfl)
      rw [readExpression, readExpression, hRead]
      cases Inline.read text with
      | error fault => rfl
      | ok found =>
          obtain ⟨code, others⟩ := found
          show (if (Inline.normalize code).isEmpty = true then _ else _) =
            Prod.map id (· ++ tail) <$> (if (Inline.normalize code).isEmpty = true then _ else _)
          split <;> rfl

/-- A comment is no expression. -/
theorem not_readExpression_comment {comment : List Char} (hLine : '\n' ∉ comment) (value : Expr) :
    Expr.read ('#' :: comment) ≠ .ok value := by
  intro hRead
  cases hTokens : strictTokens ('#' :: comment) with
  | error fault =>
      rw [Expr.read, Reader.run, hTokens] at hRead
      cases hRead
  | ok tokens =>
      rw [Expr.read, Reader.run_eq_ok hTokens,
        meaningful_of_comment (scanFrom_of_strictTokens hTokens) hLine] at hRead
      have hRefuses (budget : Nat) : Reader.Refuses [] (readTuple budget) := by
        cases budget with
        | zero => exact .unexpected []
        | succ budget => exact (readExpr_nil budget).bind
      exact hRefuses _ _ hRead

theorem trimEnd_cons {c : Char} (h : isBlank c = false) (rest : List Char) :
    trimEnd (c :: rest) = c :: trimEnd rest := by
  rw [trimEnd, trimEnd, List.reverse_cons, List.dropWhile_append]
  split
  · rename_i hNone
    rw [List.isEmpty_iff.1 hNone, List.dropWhile_cons_of_neg (Bool.eq_false_iff.1 h)]
    rfl
  · rw [List.reverse_append]
    rfl

theorem isPrefix_trimEnd (text : List Char) : trimEnd text <+: text := by
  rw [trimEnd, ← List.reverse_suffix, List.reverse_reverse]
  exact List.dropWhile_suffix _

theorem normalize_comment (h : text.dropWhile isGap = '#' :: rest) :
    Inline.normalize text = '#' :: trimEnd rest := by
  have hTrim : trim text = '#' :: trimEnd rest := by
    rw [trim, ← trimStart_dropWhile_isGap, h]
    exact trimEnd_cons (by decide) rest
  simp only [Inline.normalize, hTrim]
  rfl

/-- A comment behind a sigil takes the whole line for its code. -/
theorem readExpression_comment {ending : List Char} (hRest : '\n' ∉ rest)
    (hSome : text.dropWhile isGap = '#' :: rest) (hEnding : IsEnding ending) :
    readExpression escape (text ++ ending) =
      .ok (.expression ('#' :: trimEnd rest) escape, ending) := by
  have hDrop : (text ++ ending).dropWhile isGap = '#' :: (rest ++ ending) := by
    rw [List.dropWhile_append, hSome]
    rfl
  have hExtend : Inline.extend ending = .ok ending := by
    rcases hEnding with rfl | rfl
    · rw [Inline.extend]
    · exact Inline.extend_stop (by rw [Inline.cut_newline]; simp) (by rw [Inline.cut_newline]; simp)
  have hRead : Inline.read (text ++ ending) = .ok (text, ending) := by
    rw [Inline.read_eq, Inline.skip_eq hDrop, Inline.cut_number hRest hEnding, if_neg (by simp),
      hExtend]
    show Except.ok ((text ++ ending).take _, ending) = _
    rw [List.length_append, Nat.add_sub_cancel, List.take_left]
  rw [readExpression, hRead]
  simp only [normalize_comment hSome, List.isEmpty_cons, Bool.false_eq_true, if_false]

end Pieces

end Stencil
