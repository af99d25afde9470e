import Mathlib.Data.List.DropRight
import Stencil.Proofs.Delimiting.Fronts
import Stencil.Proofs.Delimiting.Grammar

/-!
# Expressions are delimited exactly

The expression behind a sigil is read from the tokens of all the text, and a token may depend on
what stands far behind it. So it is not clear at once that the code that is cut out has the tokens
that it was cut out by, and that it ends at the same place when it is read alone. It does: code ends
with a name, with a bracket or with a token that stands alone, and there a text may be cut off.

What the reader does is told by the grammar of the tokens: it cuts out what the grammar delimits,
and when the tokens end inside a group it names the bracket that is open last.

## Main results

* `closeGroup_enclosed`, `extend_extensions`: the readers go over what the grammar allows.
* `read_of_delimits`, `read_of_unfinished`: what is read follows the grammar.
* `expressions_are_delimited`: when there is an expression, which one, and else with which fault.
-/

namespace Stencil

open Stencil.Text

/-! ## Tokens and what is left of a text -/

/-- The tokens are those of the text, wherever it starts. -/
def HasTokens (text : List Char) (tokens : List Token) : Prop :=
  ∃ start, (scanFrom .lenient start text).tokens = tokens

section Tokens

variable {text : List Char} {t : Token} {tokens front others : List Token} {start : Nat}

theorem HasTokens.flatMap_text (h : HasTokens text tokens) : tokens.flatMap Token.text = text := by
  obtain ⟨start, rfl⟩ := h
  exact flatMap_text_scanFrom start text

theorem HasTokens.eq_nil (h : HasTokens text []) : text = [] := h.flatMap_text.symm

section Brackets

variable {c : Char} {rest : List Char} {kind : TokenKind} {length : Nat}
  (hBracket : kind = .opening ∨ kind = .closing)

include hBracket in
theorem plainLexeme_bracket (h : plainLexeme c text = (kind, length)) : length = 1 := by
  unfold plainLexeme at h
  split at h
  · cases h
    simp at hBracket
  split at h
  · cases h
    simp at hBracket
  split at h
  · cases h
    rfl
  split at h
  · cases h
    rfl
  split at h
  · cases h
    rfl
  split at h
  · cases h
    simp at hBracket
  · cases h
    rfl

include hBracket in
/-- Brackets are single characters. -/
theorem lexeme_bracket (h : lexeme .lenient (c :: rest) = some (kind, length)) : length = 1 := by
  simp only [lexeme] at h
  split at h
  · cases h
    simp at hBracket
  split at h
  · cases h
    rfl
  split at h
  · cases h
    simp at hBracket
  split at h
  · exact plainLexeme_bracket hBracket (Option.some.inj h)
  split at h
  · cases h
    simp at hBracket
  · cases h
  split at h
  · cases h
    rfl
  · cases h
    simp at hBracket

end Brackets

theorem HasTokens.exists_cut (h : HasTokens text (t :: others)) :
    ∃ c rest, text = c :: rest ∧ (Inline.cut c rest).1 = t.kind ∧
      HasTokens (Inline.cut c rest).2 others ∧
      (t.kind = .opening ∨ t.kind = .closing → t.text = [c]) := by
  obtain ⟨start, hTokens⟩ := h
  obtain ⟨c, rest, length, rfl, hLexeme, hToken, hOthers⟩ := exists_of_scanFrom_cons hTokens
  have hCut := Inline.cut_of_lexeme hLexeme
  refine ⟨c, rest, rfl, by rw [hCut], ⟨t.stop, by rw [hCut, hOthers]⟩, fun hBracket => ?_⟩
  rw [hToken, lexeme_bracket hBracket hLexeme]
  rfl

theorem HasTokens.exists_bracket {bracket : Char} {kind : TokenKind}
    (hBracket : kind = .opening ∨ kind = .closing) (h : HasTokens text (t :: others))
    (hToken : (t.kind == kind && t.text == [bracket]) = true) : ∃ rest after,
      text = bracket :: rest ∧ Inline.cut bracket rest = (kind, after) ∧
        HasTokens after others := by
  obtain ⟨c, rest, rfl, hKind, hOthers, hText⟩ := h.exists_cut
  rw [Bool.and_eq_true, beq_iff_eq, beq_iff_eq] at hToken
  obtain ⟨rfl, hSame⟩ := hToken
  obtain rfl : bracket = c := List.singleton_inj.1 (hSame.symm.trans (hText hBracket))
  exact ⟨rest, _, rfl, Prod.ext hKind rfl, hOthers⟩

theorem HasTokens.exists_opening {bracket : Char} (h : HasTokens text (t :: others))
    (hOpens : t.opens bracket = true) : ∃ rest after, text = bracket :: rest ∧
      Inline.cut bracket rest = (.opening, after) ∧ HasTokens after others :=
  h.exists_bracket (.inl rfl) hOpens

theorem HasTokens.exists_closing {bracket : Char} (h : HasTokens text (t :: others))
    (hCloses : t.closes bracket = true) : ∃ rest after, text = bracket :: rest ∧
      Inline.cut bracket rest = (.closing, after) ∧ HasTokens after others :=
  h.exists_bracket (.inr rfl) hCloses

theorem opensKnown_of_hasTokens (h : HasTokens text tokens) : OpensKnown tokens := by
  induction tokens generalizing text with
  | nil => exact List.forall_mem_nil _
  | cons t tokens ih =>
      obtain ⟨c, rest, rfl, -, hOthers, hText⟩ := h.exists_cut
      refine List.forall_mem_cons.2 ⟨fun hOpening => ⟨c, ?_⟩, ih hOthers⟩
      rw [Token.opens, hOpening, hText (.inl hOpening)]
      simp

end Tokens

/-! ## What the readers go over -/

namespace Inline

variable {bracket innermost : Char} {text : List Char} {t : Token}
  {inside others tokens : List Token}

/-- A token that neither opens a group nor closes this one is passed over. -/
theorem closeGroup_token (outer : List Char) (h : HasTokens text (t :: others))
    (hOpening : t.kind ≠ .opening) (hClosing : ¬ t.closes (closingBracket bracket) = true) :
    ∃ after, HasTokens after others ∧
      closeGroup bracket outer text = closeGroup bracket outer after := by
  obtain ⟨c, rest, rfl, hKind, hOthers, hText⟩ := h.exists_cut
  have hOther : ¬ ((cut c rest).1 = .closing ∧ c = closingBracket bracket) := by
    rintro ⟨hCloses, hBracket⟩
    rw [hKind] at hCloses
    rw [Token.closes, hCloses, hText (.inr hCloses), hBracket] at hClosing
    simp at hClosing
  refine ⟨_, hOthers, ?_⟩
  rw [closeGroup.eq_def]
  simp only [hKind ▸ hOpening, hOther, if_false]

/-- A group goes on behind tokens that it encloses. -/
theorem closeGroup_enclosed (h : Enclosed bracket inside) (outer : List Char)
    (hText : HasTokens text (inside ++ others)) : ∃ after, HasTokens after others ∧
      closeGroup bracket outer text = closeGroup bracket outer after := by
  induction h generalizing text outer others with
  | nil => exact ⟨text, hText, rfl⟩
  | token notOpening notClosing _ ih =>
      obtain ⟨after, hAfter, hToken⟩ :=
        closeGroup_token outer hText notOpening notClosing
      rw [hToken]
      exact ih outer hAfter
  | @group bracket inner opener closer inside rest opens _ closes _ ihInside ih =>
      rw [List.cons_append, List.append_assoc, List.cons_append] at hText
      obtain ⟨behind, within, rfl, hOpens, hWithin⟩ := hText.exists_opening opens
      obtain ⟨closing, hClosing, hInside⟩ := ihInside (bracket :: outer) hWithin
      obtain ⟨behind, after, rfl, hCloses, hAfter⟩ := hClosing.exists_closing closes
      rw [closeGroup_opening hOpens, hInside, closeGroup_closing_cons hCloses rfl]
      exact ih outer hAfter

/-- A group that is closed ends behind the bracket that closes it. -/
theorem closeGroup_closes {closer : Token} (h : Enclosed bracket inside)
    (hCloses : closer.closes (closingBracket bracket) = true)
    (hText : HasTokens text (inside ++ closer :: others)) :
    ∃ after, HasTokens after others ∧ closeGroup bracket [] text = .ok after := by
  obtain ⟨closing, hClosing, hInside⟩ := closeGroup_enclosed h [] hText
  obtain ⟨behind, after, rfl, hCut, hAfter⟩ := hClosing.exists_closing hCloses
  rw [hInside, closeGroup_closing_nil hCut rfl]
  exact ⟨after, hAfter, rfl⟩

/-- Where the tokens end inside a group, the bracket that is open last is named. -/
theorem closeGroup_endsInside (h : EndsInside innermost bracket tokens) (outer : List Char)
    (hText : HasTokens text tokens) :
    closeGroup bracket outer text = .error (.unclosed innermost) := by
  induction h generalizing text outer with
  | @here tokens isEnclosed =>
      have hTokens : HasTokens text (tokens ++ []) := by rwa [List.append_nil]
      obtain ⟨after, hAfter, hInside⟩ := closeGroup_enclosed isEnclosed outer hTokens
      rw [hInside, hAfter.eq_nil, closeGroup]
  | deeper isEnclosed opens _ ih =>
      obtain ⟨opening, hOpening, hBefore⟩ := closeGroup_enclosed isEnclosed outer hText
      obtain ⟨rest, after, rfl, hCut, hAfter⟩ := hOpening.exists_opening opens
      rw [hBefore, closeGroup_opening hCut]
      exact ih _ hAfter

/-! ### Extensions -/

theorem skipAttribute?_of_opening {c : Char} {rest after : List Char}
    (h : cut c rest = (.opening, after)) : skipAttribute? c rest = none := by
  rw [skipAttribute?, h, if_neg (by simp)]

/-- A name directly behind a full stop is gone over. -/
theorem extend_named {dot name : Token} (isDot : dot.kind = .dot) (isName : name.kind = .name)
    (hText : HasTokens text (dot :: name :: others)) :
    ∃ after, HasTokens after others ∧ extend text = extend after := by
  obtain ⟨c, rest, rfl, hDot, hNext, -⟩ := hText.exists_cut
  obtain ⟨d, more, hMore, hName, hOthers, -⟩ := hNext.exists_cut
  refine ⟨_, hOthers, extend_attribute ?_⟩
  rw [skipAttribute?, if_pos (hDot.trans isDot), hMore]
  exact if_pos (hName.trans isName)

/-- A group that is closed is gone over. -/
theorem extend_group {group : List Token} (h : IsGroup group)
    (hText : HasTokens text (group ++ others)) :
    ∃ after, HasTokens after others ∧ extend text = extend after := by
  cases h with
  | mk opens isInside closes =>
      rw [List.cons_append, List.append_assoc, List.singleton_append] at hText
      obtain ⟨rest, within, rfl, hCut, hWithin⟩ := hText.exists_opening opens
      obtain ⟨after, hAfter, hGroup⟩ := closeGroup_closes isInside closes hWithin
      refine ⟨after, hAfter, ?_⟩
      rw [extend_of_none (skipAttribute?_of_opening hCut), hCut, if_pos rfl, hGroup]
      rfl

theorem extend_extensions {extensions : List Token} (h : Extensions extensions)
    (hText : HasTokens text (extensions ++ others)) :
    ∃ after, HasTokens after others ∧ extend text = extend after := by
  induction h generalizing text with
  | nil => exact ⟨text, hText, rfl⟩
  | named isDot isName _ ih =>
      obtain ⟨next, hNext, hNamed⟩ := extend_named isDot isName hText
      rw [hNamed]
      exact ih hNext
  | group isGroup _ ih =>
      rw [List.append_assoc] at hText
      obtain ⟨next, hNext, hGroup⟩ := extend_group isGroup hText
      rw [hGroup]
      exact ih hNext

/-- Before anything else, extensions stop. -/
theorem extend_of_not_goesOn (h : ¬ GoesOn tokens) (hText : HasTokens text tokens) :
    extend text = .ok text := by
  cases tokens with
  | nil => rw [hText.eq_nil, extend]
  | cons t others =>
      obtain ⟨c, rest, rfl, hKind, hOthers, -⟩ := hText.exists_cut
      have hOpening : (cut c rest).1 ≠ .opening := fun hOpening => h (.group (hKind ▸ hOpening))
      have hNone : skipAttribute? c rest = none := by
        rw [skipAttribute?]
        split
        · rename_i hDot
          cases others with
          | nil => rw [hOthers.eq_nil]
          | cons name others =>
              obtain ⟨d, more, hMore, hName, -, -⟩ := hOthers.exists_cut
              rw [hMore]
              exact if_neg fun isName => h (.named (hKind ▸ hDot) (hName ▸ isName))
        · rfl
      rw [extend_of_none hNone, if_neg hOpening]

theorem extend_of_endsInside {opener : Token} (hOpens : opener.opens bracket = true)
    (h : EndsInside innermost bracket inside) (hText : HasTokens text (opener :: inside)) :
    extend text = .error (.unclosed innermost) := by
  obtain ⟨rest, after, rfl, hCut, hAfter⟩ := hText.exists_opening hOpens
  rw [extend_of_none (skipAttribute?_of_opening hCut), hCut, if_pos rfl,
    closeGroup_endsInside h [] hAfter]
  rfl

/-! ### Expressions -/

/-- Spaces and tabs are one token. -/
theorem cut_of_isGap {c : Char} (h : isGap c = true) (rest : List Char) :
    cut c rest = (.blank, rest.dropWhile isGap) := by
  have hBlank : c = ' ' ∨ c = '\t' := by simpa [isGap] using h
  have hLexeme : lexeme .lenient (c :: rest) =
      some (.blank, ((c :: rest).takeWhile isGap).length) := by
    rw [lexeme, if_pos hBlank]
    rfl
  have hSplit := List.takeWhile_append_dropWhile (p := isGap) (l := rest)
  rw [cut_of_lexeme hLexeme, List.takeWhile_cons_of_pos h, List.length_cons, Nat.add_sub_cancel]
  conv => lhs; arg 2; arg 2; rw [← hSplit]
  rw [List.drop_left]

theorem isGap_of_kind_cut {c : Char} {rest : List Char} (h : (cut c rest).1 = .blank) :
    isGap c = true := by
  by_cases hGap : isGap c = true
  · exact hGap
  exfalso
  obtain ⟨⟨kind, length⟩, hLexeme⟩ := Option.isSome_iff_exists.1 (lexeme_lenient_isSome c rest)
  rw [cut_of_lexeme hLexeme] at h
  subst h
  by_cases hNewline : c = '\n'
  · subst hNewline
    cases hLexeme
  by_cases hNumber : c = '#'
  · subst hNumber
    cases hLexeme
  · exact (lexeme_lenient_kind hLexeme (Bool.eq_false_iff.2 hGap) hNewline hNumber).1 rfl

/-- Blanks before other tokens are spaces and tabs before the text of those. -/
theorem hasTokens_dropWhile {blanks : List Token} (hBlank : ∀ t ∈ blanks, t.kind = .blank)
    (hOthers : ∀ t ∈ others.head?, t.kind ≠ .blank) (hText : HasTokens text (blanks ++ others)) :
    HasTokens (text.dropWhile isGap) others := by
  induction blanks generalizing text with
  | nil =>
      cases others with
      | nil =>
          rw [hText.eq_nil]
          exact ⟨0, by rw [List.dropWhile_nil, scanFrom]⟩
      | cons t others =>
          obtain ⟨c, rest, rfl, hKind, -, -⟩ := hText.exists_cut
          have hGap : ¬ isGap c = true := fun hGap =>
            hOthers t rfl (by rw [← hKind, cut_of_isGap hGap])
          rwa [List.dropWhile_cons_of_neg hGap]
  | cons t blanks ih =>
      obtain ⟨hFirst, hBlanks⟩ := List.forall_mem_cons.1 hBlank
      obtain ⟨c, rest, rfl, hKind, hNext, -⟩ := hText.exists_cut
      have hGap := isGap_of_kind_cut (hKind.trans hFirst)
      rw [cut_of_isGap hGap] at hNext
      have hRest := ih hBlanks hNext
      rwa [List.dropWhile_idempotent, ← List.dropWhile_cons_of_pos hGap] at hRest

theorem skip_of_opening {blanks : List Token} {opener : Token}
    (hBlank : ∀ t ∈ blanks, t.kind = .blank) (hOpens : opener.opens bracket = true)
    (hText : HasTokens text (blanks ++ opener :: tokens)) :
    ∃ within, HasTokens within tokens ∧ skip text = closeGroup bracket [] within := by
  have hNotBlank : ∀ t ∈ (opener :: tokens).head?, t.kind ≠ .blank := by
    rintro t ⟨⟩ hKind
    rw [Token.opens, hKind] at hOpens
    cases hOpens
  have hBehind := hasTokens_dropWhile hBlank hNotBlank hText
  obtain ⟨rest, within, hDrop, hCut, hWithin⟩ := hBehind.exists_opening hOpens
  refine ⟨within, hWithin, ?_⟩
  rw [skip_eq hDrop, hCut, if_pos rfl]

theorem skip_of_heads {blanks : List Token} {first : Token} (hHeads : Heads blanks first)
    (hText : HasTokens text (blanks ++ first :: tokens)) :
    ∃ next, HasTokens next tokens ∧ skip text = extend next := by
  have hNotBlank : ∀ t ∈ (first :: tokens).head?, t.kind ≠ .blank := by
    rintro t ⟨⟩
    exact hHeads.notBlank
  have hBehind := hasTokens_dropWhile hHeads.areBlank hNotBlank hText
  obtain ⟨c, rest, hDrop, hKind, hNext, -⟩ := hBehind.exists_cut
  refine ⟨_, hNext, ?_⟩
  rw [skip_eq hDrop, if_neg (hKind ▸ hHeads.notOpening)]

/-- An expression is gone over up to its end. -/
theorem skip_of_delimits {front : List Token} (h : Delimits front others)
    (hText : HasTokens text (front ++ others)) :
    ∃ after, HasTokens after others ∧ skip text = .ok after := by
  cases h with
  | group areBlank isGroup =>
      cases isGroup with
      | mk opens isInside closes =>
          simp only [List.append_assoc, List.cons_append, List.nil_append] at hText
          obtain ⟨within, hWithin, hSkip⟩ := skip_of_opening areBlank opens hText
          rw [hSkip]
          exact closeGroup_closes isInside closes hWithin
  | extended heads isExtensions stops =>
      rw [List.append_assoc, List.cons_append] at hText
      obtain ⟨next, hNext, hSkip⟩ := skip_of_heads heads hText
      obtain ⟨after, hAfter, hExtend⟩ := extend_extensions isExtensions hNext
      rw [hSkip, hExtend]
      exact ⟨after, hAfter, extend_of_not_goesOn stops hAfter⟩

/-- Inside an expression, the end of the text is a fault. -/
theorem skip_of_unfinished (h : Unfinished innermost tokens) (hText : HasTokens text tokens) :
    skip text = .error (.unclosed innermost) := by
  cases h with
  | group areBlank opens below =>
      obtain ⟨within, hWithin, hSkip⟩ := skip_of_opening areBlank opens hText
      rw [hSkip]
      exact closeGroup_endsInside below [] hWithin
  | extended heads isExtensions opens below =>
      obtain ⟨next, hNext, hSkip⟩ := skip_of_heads heads hText
      obtain ⟨after, hAfter, hExtend⟩ := extend_extensions isExtensions hNext
      rw [hSkip, hExtend]
      exact extend_of_endsInside opens below hAfter

end Inline

/-! ## Code stands alone -/

section Code

variable {text : List Char} {t last : Token} {tokens front before others : List Token} {start : Nat}

/-- A name, or a bracket that closes a group: what an expression of more than one token ends with.
-/
inductive EndsPlain : Token → Prop
  | name {t : Token} (isName : t.kind = .name) : EndsPlain t
  | bracket {t : Token} {bracket : Char} (closes : t.closes (closingBracket bracket) = true) :
      EndsPlain t

theorem continuesName_of_scanFrom (h : (scanFrom .lenient start text).tokens = tokens) :
    ∀ t ∈ tokens, t.kind = .name → t.text ≠ [] ∧ ∀ c ∈ t.text, continuesName c = true := by
  induction tokens generalizing start text with
  | nil => exact List.forall_mem_nil _
  | cons t tokens ih =>
      obtain ⟨c, rest, length, -, hLexeme, hToken, hOthers⟩ := exists_of_scanFrom_cons h
      refine List.forall_mem_cons.2 ⟨fun isName => ?_, ih hOthers⟩
      rw [isName] at hLexeme
      rw [hToken]
      exact ⟨List.cons_ne_nil _ _, continuesName_of_lexeme hLexeme⟩

theorem isQuote_closingBracket (bracket : Char) : isQuote (closingBracket bracket) = false := by
  unfold closingBracket
  split
  · decide
  split <;> decide

theorem EndsPlain.exists_last (h : EndsPlain last) (hTokens : HasTokens text tokens)
    (hMem : last ∈ tokens) : ∃ piece c, last.text = piece ++ [c] ∧ isQuote c = false := by
  cases h with
  | name isName =>
      obtain ⟨start, hScan⟩ := hTokens
      obtain ⟨hNil, hEach⟩ := continuesName_of_scanFrom hScan last hMem isName
      exact ⟨_, _, (List.dropLast_append_getLast hNil).symm,
        isQuote_of_continuesName (hEach _ (List.getLast_mem hNil))⟩
  | bracket closes =>
      rw [Token.closes, Bool.and_eq_true, beq_iff_eq, beq_iff_eq] at closes
      exact ⟨[], _, closes.2, isQuote_closingBracket _⟩

theorem Settled.of_last (h : EndsPlain last)
    (hTokens : HasTokens text (before ++ [last] ++ others)) : Settled (before ++ [last]) := by
  obtain ⟨piece, c, hText, hQuote⟩ := h.exists_last hTokens (by simp)
  refine .plain fun d hd => ?_
  simp only [List.flatMap_append, List.flatMap_singleton, hText, ← List.append_assoc,
    List.getLast?_concat] at hd
  cases hd
  exact hQuote

theorem Settled.blanks (hBlank : ∀ t ∈ before, t.kind = .blank) (t : Token) :
    Settled (before ++ [t]) := by
  induction before with
  | nil => exact .alone t
  | cons blank before ih =>
      obtain ⟨hFirst, hBefore⟩ := List.forall_mem_cons.1 hBlank
      exact .blank hFirst (ih hBefore)

theorem Extensions.exists_last {extensions : List Token} (h : Extensions extensions) :
    extensions = [] ∨ ∃ before last, extensions = before ++ [last] ∧ EndsPlain last := by
  induction h with
  | nil => exact .inl rfl
  | @named dot name rest isDot isName below ih =>
      rcases ih with rfl | ⟨before, last, rfl, hLast⟩
      · exact .inr ⟨[dot], name, rfl, .name isName⟩
      · exact .inr ⟨dot :: name :: before, last, rfl, hLast⟩
  | @group group rest isGroup below ih =>
      rcases ih with rfl | ⟨before, last, rfl, hLast⟩
      · cases isGroup with
        | @mk bracket opener closer inside opens isInside closes =>
            exact .inr ⟨opener :: inside, closer, by simp, .bracket closes⟩
      · exact .inr ⟨group ++ before, last, (List.append_assoc ..).symm, hLast⟩

/-- Behind an expression a text may be cut off. -/
theorem Delimits.settled (h : Delimits front others) (hTokens : HasTokens text (front ++ others)) :
    Settled front := by
  cases h with
  | group areBlank isGroup =>
      cases isGroup with
      | mk opens isInside closes =>
          rw [← List.cons_append, ← List.append_assoc] at hTokens ⊢
          exact .of_last (.bracket closes) hTokens
  | @extended blanks extensions others first heads isExtensions stops =>
      rcases isExtensions.exists_last with rfl | ⟨before, last, rfl, hLast⟩
      · exact .blanks heads.areBlank first
      · rw [← List.cons_append, ← List.append_assoc] at hTokens ⊢
        exact .of_last hLast hTokens

/-- The tokens behind others are those of the text behind them. -/
theorem scanFrom_behind (h : (scanFrom .lenient start text).tokens = front ++ others) :
    (scanFrom .lenient (start + byteLength (front.flatMap Token.text))
      (others.flatMap Token.text)).tokens = others := by
  induction front generalizing start text with
  | nil =>
      have hText := flatMap_text_scanFrom start text
      rw [h, List.nil_append] at hText
      rw [hText]
      exact h
  | cons t front ih =>
      obtain ⟨c, rest, length, -, -, hToken, hOthers⟩ := exists_of_scanFrom_cons h
      have hStart : t.start = start := congrArg Token.start hToken
      have hBelow := ih hOthers
      rwa [Token.stop, hStart, Nat.add_assoc, ← byteLength_append] at hBelow

/-- The tokens of what stands behind some code. -/
def tokensBehind (code rest : List Char) : List Token :=
  (scanFrom .lenient (byteLength code) rest).tokens

namespace Inline

theorem read_of_delimits (h : Delimits front others)
    (hTokens : lenientTokens text = front ++ others) :
    ∃ code rest, read text = .ok (code, rest) ∧ code ++ rest = text ∧ lenientTokens code = front ∧
      tokensBehind code rest = others := by
  have hText : HasTokens text (front ++ others) := ⟨0, hTokens⟩
  obtain ⟨rest, hRest, hSkip⟩ := skip_of_delimits h hText
  obtain ⟨code, rfl⟩ := skip_suffix hSkip
  have hCode : front.flatMap Token.text = code := by
    have hBoth := hText.flatMap_text
    rw [List.flatMap_append, hRest.flatMap_text] at hBoth
    exact List.append_cancel_right hBoth
  refine ⟨code, rest, ?_, rfl, scanFrom_front hTokens hCode (h.settled hText), ?_⟩
  · rw [read_eq, hSkip]
    show Except.ok ((code ++ rest).take _, rest) = _
    rw [List.length_append, Nat.add_sub_cancel, List.take_left]
  · have hBehind := scanFrom_behind hTokens
    rwa [Nat.zero_add, hCode, hRest.flatMap_text] at hBehind

theorem read_of_unfinished {innermost : Char} (h : Unfinished innermost (lenientTokens text)) :
    read text = .error (.unclosed innermost) := by
  rw [read_eq, skip_of_unfinished h ⟨0, rfl⟩]
  rfl

theorem read_of_gaps (h : ∀ c ∈ text, isGap c = true) : read text = .error .missing := by
  have hDrop : text.dropWhile (fun c => c == ' ' || c == '\t') = [] :=
    List.dropWhile_eq_nil_iff.2 h
  rw [read, skip, hDrop]

/-- Blank tokens have nothing but spaces and tabs. -/
theorem gaps_of_blank (h : ∀ t ∈ lenientTokens text, t.kind = .blank) :
    ∀ c ∈ text, isGap c = true := by
  have hText : HasTokens text (lenientTokens text ++ []) := ⟨0, (List.append_nil _).symm⟩
  have hNone : HasTokens (text.dropWhile isGap) [] := hasTokens_dropWhile h nofun hText
  exact List.dropWhile_eq_nil_iff.1 hNone.eq_nil

/-- How a reading ends. -/
theorem read_cases (text : List Char) :
    ((∀ c ∈ text, isGap c = true) ∧ read text = .error .missing) ∨
      (∃ code rest, code ++ rest = text ∧
        lenientTokens text = lenientTokens code ++ tokensBehind code rest ∧
        Delimits (lenientTokens code) (tokensBehind code rest) ∧ read text = .ok (code, rest)) ∨
      ∃ innermost, Unfinished innermost (lenientTokens text) ∧
        read text = .error (.unclosed innermost) := by
  rcases blank_or_delimits_or_unfinished (opensKnown_of_hasTokens ⟨0, rfl⟩) with
    hBlank | ⟨front, others, hTokens, hDelimits⟩ | ⟨innermost, hUnfinished⟩
  · have hGaps := gaps_of_blank hBlank
    exact .inl ⟨hGaps, read_of_gaps hGaps⟩
  · obtain ⟨code, rest, hRead, hText, rfl, rfl⟩ := read_of_delimits hDelimits hTokens
    exact .inr (.inl ⟨code, rest, hText, hTokens, hDelimits, hRead⟩)
  · exact .inr (.inr ⟨innermost, hUnfinished, read_of_unfinished hUnfinished⟩)

/-- What is cut out is what the tokens delimit, and nothing else. -/
theorem read_eq_ok_iff {code rest : List Char} : read text = .ok (code, rest) ↔
    code ++ rest = text ∧ lenientTokens text = lenientTokens code ++ tokensBehind code rest ∧
      Delimits (lenientTokens code) (tokensBehind code rest) := by
  constructor
  · intro hRead
    rcases read_cases text with
      ⟨-, hOther⟩ | ⟨found, behind, hText, hTokens, hDelimits, hFound⟩ | ⟨innermost, -, hOther⟩
    · cases hRead.symm.trans hOther
    · cases hRead.symm.trans hFound
      exact ⟨hText, hTokens, hDelimits⟩
    · cases hRead.symm.trans hOther
  · rintro ⟨rfl, hTokens, hDelimits⟩
    obtain ⟨found, behind, hFound, hBoth, hSame, -⟩ := read_of_delimits hDelimits hTokens
    have hCode : found = code := by
      rw [← flatMap_text_scanFrom 0 found, ← flatMap_text_scanFrom 0 code]
      exact congrArg _ hSame
    subst hCode
    rw [hFound, List.append_cancel_left hBoth]

theorem read_eq_missing_iff : read text = .error .missing ↔ ∀ c ∈ text, isGap c = true := by
  constructor
  · intro hRead
    rcases read_cases text with ⟨hGaps, -⟩ | ⟨_, _, -, -, -, hOther⟩ | ⟨innermost, -, hOther⟩
    · exact hGaps
    · cases hRead.symm.trans hOther
    · cases hRead.symm.trans hOther
  · exact read_of_gaps

theorem read_eq_unclosed_iff {bracket : Char} :
    read text = .error (.unclosed bracket) ↔ Unfinished bracket (lenientTokens text) := by
  constructor
  · intro hRead
    rcases read_cases text with
      ⟨-, hOther⟩ | ⟨_, _, -, -, -, hOther⟩ | ⟨innermost, hUnfinished, hOther⟩
    · cases hRead.symm.trans hOther
    · cases hRead.symm.trans hOther
    · cases hRead.symm.trans hOther
      exact hUnfinished
  · exact read_of_unfinished

end Inline

end Code

/-! ## Expressions in running text -/

section Expressions

variable {front others : List Token}

theorem Delimits.exists_nonblank (h : Delimits front others) : ∃ t ∈ front, t.kind ≠ .blank := by
  cases h with
  | group areBlank isGroup =>
      cases isGroup with
      | @mk bracket opener closer inside opens isInside closes =>
          refine ⟨opener, by simp, fun hBlank => ?_⟩
          rw [Token.opens, hBlank] at opens
          cases opens
  | @extended blanks extensions others first heads isExtensions stops =>
      exact ⟨first, by simp, heads.notBlank⟩

/-- An expression is one with nothing behind it, too. -/
theorem Delimits.nothingBehind (h : Delimits front others) : Delimits front [] := by
  cases h with
  | group areBlank isGroup => exact .group areBlank isGroup
  | extended heads isExtensions stops => exact .extended heads isExtensions nofun

/-- An expression that starts with no bracket takes all the extensions that there are. -/
theorem Delimits.stops (h : Delimits front others)
    (hFirst : ∀ t ∈ front.find? (!·.isTrivia), t.kind ≠ .opening) : ¬ GoesOn others := by
  cases h with
  | @group blanks group others areBlank isGroup =>
      cases isGroup with
      | @mk bracket opener closer inside opens isInside closes =>
          rw [Token.opens, Bool.and_eq_true, beq_iff_eq] at opens
          have hBlanks : blanks.find? (!·.isTrivia) = none := by
            rw [List.find?_eq_none]
            intro t ht
            simp [Token.isTrivia, areBlank t ht]
          refine absurd opens.1 (hFirst opener ?_)
          rw [List.find?_append, hBlanks, Option.none_or, List.find?_cons_of_pos]
          · rfl
          · simp [Token.isTrivia, opens.1]
  | extended heads isExtensions stops => exact stops

end Expressions

/-- What is cut out of a text is what the grammar of its tokens delimits, and it is cut out again
when it stands alone. There is no expression when there are only spaces and tabs, or when the text
ends inside a group, whose innermost open bracket is named. -/
theorem expressions_are_delimited (text : List Char) :
    (∀ code rest, Inline.read text = .ok (code, rest) ↔
      code ++ rest = text ∧ lenientTokens text = lenientTokens code ++ tokensBehind code rest ∧
        Delimits (lenientTokens code) (tokensBehind code rest)) ∧
    (∀ code rest, Inline.read text = .ok (code, rest) →
      (∃ t ∈ lenientTokens code, t.kind ≠ .blank) ∧ Inline.read code = .ok (code, []) ∧
        ((∀ t ∈ (lenientTokens code).find? (!·.isTrivia), t.kind ≠ .opening) →
          ¬ GoesOn (tokensBehind code rest))) ∧
    (Inline.read text = .error .missing ↔ ∀ c ∈ text, c = ' ' ∨ c = '\t') ∧
    ∀ bracket, Inline.read text = .error (.unclosed bracket) ↔
      Unfinished bracket (lenientTokens text) := by
  refine ⟨fun code rest => Inline.read_eq_ok_iff, ?_, ?_, ?_⟩
  · intro code rest hRead
    obtain ⟨-, -, hDelimits⟩ := Inline.read_eq_ok_iff.1 hRead
    refine ⟨hDelimits.exists_nonblank, Inline.read_eq_ok_iff.2 ?_, hDelimits.stops⟩
    have hNone : tokensBehind code [] = [] := by rw [tokensBehind, scanFrom]
    rw [hNone]
    exact ⟨List.append_nil _, (List.append_nil _).symm, hDelimits.nothingBehind⟩
  · simp only [Inline.read_eq_missing_iff, isGap, Bool.or_eq_true, beq_iff_eq]
  · exact fun bracket => Inline.read_eq_unclosed_iff

/-- A bracket in a string closes nothing, and neither does one of another kind. -/
theorem delimits_group_before_quote :
    Inline.read "(')')'s".toList = .ok ("(')')".toList, "'s".toList) ∧
      Inline.read "(')')".toList = .ok ("(')')".toList, []) ∧
      Unfinished '[' (lenientTokens "(a[1)".toList) := by
  have hRead : Inline.read "(')')'s".toList = .ok ("(')')".toList, "'s".toList) := by
    decide +kernel
  have hOpen : Inline.read "(a[1)".toList = .error (.unclosed '[') := by decide +kernel
  obtain ⟨-, hCode, -, -⟩ := expressions_are_delimited "(')')'s".toList
  obtain ⟨-, -, -, hUnclosed⟩ := expressions_are_delimited "(a[1)".toList
  exact ⟨hRead, (hCode _ _ hRead).2.1, (hUnclosed '[').1 hOpen⟩

end Stencil
