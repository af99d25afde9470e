import Stencil.Inline
import Stencil.Proofs.Quoting.Lexing

/-!
# Code in brackets in a line

An expression that starts with a round bracket goes up to the bracket that closes it. When the
brackets of some code balance, code in brackets is cut out of a line as it was written, whatever
follows.

## Main results

* `closeGroup_append`: a group of balanced code ends at its closing bracket.
* `Inline.read_group`: code in brackets is cut out of a line.
-/

namespace Stencil

/-- The brackets that are open after tokens, the innermost first. When a closing bracket does not
fit the innermost one, there is no answer. -/
def openAfter : List Char → List Token → Option (List Char)
  | stack, [] => some stack
  | stack, t :: rest =>
      match t.kind with
      | .opening => openAfter (t.text.headD '(' :: stack) rest
      | .closing =>
          match stack with
          | [] => none
          | bracket :: outer =>
              if t.text = [closingBracket bracket] then openAfter outer rest else none
      | _ => openAfter stack rest

variable (more : List Char)

/-! ## Lexemes of brackets -/

theorem lexeme_openBracket (reading : QuoteReading) (rest : List Char) :
    lexeme reading ('(' :: rest) = some (.opening, 1) := by
  have hMark : stringMark? ('(' :: rest) = none := by
    cases rest <;> rfl
  simp only [lexeme, hMark]
  rfl

theorem lexeme_closeBracket (reading : QuoteReading) (rest : List Char) :
    lexeme reading (')' :: rest) = some (.closing, 1) := by
  have hMark : stringMark? (')' :: rest) = none := by
    cases rest <;> rfl
  simp only [lexeme, hMark]
  rfl

/-- A strict reading that meets no open quote gives all the tokens. -/
theorem scanFrom_of_strictTokens {text : List Char} {tokens : List Token}
    (h : strictTokens text = .ok tokens) : scanFrom .strict 0 text = ⟨tokens, none⟩ := by
  unfold strictTokens scan at h
  cases hQuote : (scanFrom .strict 0 text).openQuote with
  | some offset =>
      simp only [hQuote] at h
      cases h
  | none =>
      simp only [hQuote] at h
      cases h
      exact congrArg (Scan.mk _) hQuote

namespace Inline

theorem cut_of_lexeme {c : Char} {rest : List Char} {kind : TokenKind} {length : Nat}
    (h : lexeme .lenient (c :: rest) = some (kind, length)) :
    cut c rest = (kind, rest.drop (length - 1)) := by
  rw [cut, h]

/-! ## Groups -/

variable {innermost next c : Char} {outer rest after : List Char} {kind : TokenKind}

theorem closeGroup_opening (h : cut c rest = (.opening, after)) :
    closeGroup innermost outer (c :: rest) = closeGroup c (innermost :: outer) after := by
  rw [closeGroup.eq_def]
  simp only [h, if_true]

theorem closeGroup_closing_nil (h : cut c rest = (.closing, after))
    (hCloses : c = closingBracket innermost) : closeGroup innermost [] (c :: rest) = .ok after := by
  subst hCloses
  rw [closeGroup.eq_def]
  simp only [h, reduceCtorEq, and_self, if_false, if_true]

theorem closeGroup_closing_cons (h : cut c rest = (.closing, after))
    (hCloses : c = closingBracket innermost) :
    closeGroup innermost (next :: outer) (c :: rest) = closeGroup next outer after := by
  subst hCloses
  rw [closeGroup.eq_def]
  simp only [h, reduceCtorEq, and_self, if_false, if_true]

theorem closeGroup_other (h : cut c rest = (kind, after)) (hOpening : kind ≠ .opening)
    (hClosing : kind ≠ .closing) :
    closeGroup innermost outer (c :: rest) = closeGroup innermost outer after := by
  rw [closeGroup.eq_def]
  simp only [h, hOpening, hClosing, false_and, if_false]

/-- The group that code stands in ends behind it as it ends behind the brackets that are open after
the code. The induction is on the tokens; the brackets that are open inside the code are on top of
the one around it. -/
theorem closeGroup_append {start : Nat} {text : List Char} {tokens : List Token}
    (h : scanFrom .strict start text = ⟨tokens, none⟩)
    (hComment : ∀ t ∈ tokens, t.kind ≠ .comment) {stack : List Char}
    (hOpen : openAfter stack tokens = some [])
    (hStack : innermost :: outer = stack ++ ['(']) :
    closeGroup innermost outer (text ++ ')' :: more) = .ok more := by
  induction start, text using scanFrom.induct QuoteReading.strict
    generalizing tokens stack innermost outer with
  | case1 start =>
      rw [scanFrom] at h
      cases h
      cases hOpen
      cases hStack
      exact closeGroup_closing_nil (cut_of_lexeme (lexeme_closeBracket .lenient more)) rfl
  | case2 start c rest hLexeme =>
      rw [scanFrom, hLexeme] at h
      cases h
  | case3 start c rest kind length hLexeme =>
      rename_i token ih
      rw [scanFrom, hLexeme] at h
      simp only [Scan.mk.injEq] at h
      obtain ⟨rfl, hQuote⟩ := h
      rw [List.forall_mem_cons] at hComment
      have hLength : length - 1 ≤ rest.length := Nat.sub_le_of_le_add (lexeme_le hLexeme)
      have hCut := cut_of_lexeme (lexeme_append_stop (.inl rfl) more .lenient hLexeme hComment.1)
      rw [List.drop_append_of_le_length hLength] at hCut
      have hRest : scanFrom .strict token.stop (rest.drop (length - 1)) =
          ⟨(scanFrom .strict token.stop (rest.drop (length - 1))).tokens, none⟩ :=
        congrArg (Scan.mk _) hQuote
      rw [List.cons_append]
      by_cases hOpening : kind = .opening
      · rw [hOpening] at hCut
        rw [closeGroup_opening hCut]
        simp only [openAfter, hOpening, List.headD_cons] at hOpen
        exact ih hRest hComment.2 hOpen (congrArg (c :: ·) hStack)
      by_cases hClosing : kind = .closing
      · rw [hClosing] at hCut
        cases stack with
        | nil =>
            simp only [openAfter, hClosing] at hOpen
            cases hOpen
        | cons bracket others =>
            obtain ⟨rfl, rfl⟩ := List.cons.inj hStack
            simp only [openAfter, hClosing, Option.ite_none_right_eq_some] at hOpen
            have hCloses := (List.cons.inj hOpen.1).1
            cases others with
            | nil =>
                exact (closeGroup_closing_cons hCut hCloses).trans
                  (ih hRest hComment.2 hOpen.2 rfl)
            | cons next inner =>
                exact (closeGroup_closing_cons hCut hCloses).trans
                  (ih hRest hComment.2 hOpen.2 rfl)
      · rw [closeGroup_other hCut hOpening hClosing]
        refine ih hRest hComment.2 ?_ hStack
        rw [← hOpen]
        cases kind <;> first | rfl | contradiction

/-- Code in brackets is cut out of a line up to its closing bracket. -/
theorem read_group {code : List Char} {tokens : List Token}
    (h : strictTokens code = .ok tokens) (hComment : ∀ t ∈ tokens, t.kind ≠ .comment)
    (hOpen : openAfter [] tokens = some []) :
    read ('(' :: (code ++ ')' :: more)) = .ok ('(' :: (code ++ [')']), more) := by
  have hScan := scanFrom_of_strictTokens h
  have hCut := cut_of_lexeme (lexeme_openBracket .lenient (code ++ ')' :: more))
  have hGroup := closeGroup_append more hScan hComment hOpen rfl
  have hSkip : skip ('(' :: (code ++ ')' :: more)) = .ok more := by
    have hBlank : ('(' :: (code ++ ')' :: more)).dropWhile (fun c => c == ' ' || c == '\t') =
        '(' :: (code ++ ')' :: more) := rfl
    rw [skip, hBlank]
    simp only [hCut, if_true]
    exact hGroup
  have hText : '(' :: (code ++ ')' :: more) = ('(' :: (code ++ [')'])) ++ more := by simp
  rw [read, hSkip]
  simp only [List.splitAt_eq]
  rw [hText, List.length_append, Nat.add_sub_cancel, List.take_left, List.drop_left]

/-- Code in brackets is evaluated as it stands. -/
theorem normalize_group (code : List Char) :
    normalize ('(' :: (code ++ [')'])) = '(' :: (code ++ [')']) := by
  have hStart : Text.trimStart ('(' :: (code ++ [')'])) = '(' :: (code ++ [')']) := rfl
  have hEnd : Text.trimEnd ('(' :: (code ++ [')'])) = '(' :: (code ++ [')']) := by
    have hReverse : ('(' :: (code ++ [')'])).reverse = ')' :: ('(' :: code).reverse := by simp
    have hKeep : (')' :: ('(' :: code).reverse).dropWhile Text.isBlank =
        ')' :: ('(' :: code).reverse := rfl
    rw [Text.trimEnd, hReverse, hKeep, ← hReverse, List.reverse_reverse]
  rw [normalize, Text.trim, hStart, hEnd]
  rfl

end Inline

end Stencil
