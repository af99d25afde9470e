import Mathlib.Data.List.TakeWhile
import Stencil.Proofs.Comments.Texts
import Stencil.Proofs.Layout.Headers

/-!
# The colon of a header

A header ends at its own colon: the first one that stands outside all brackets. The search counts
brackets as they come, and a closing bracket that closes none counts for nothing. Colons of
dictionaries and slices stand in brackets, those of strings in a token of their own, and no token
goes on over a colon. So what stands behind the colon has no say in where the header ends, not
even where it cannot be cut into tokens.

## Main results

* `headerEnd_eq_colon_iff`: what the search for a colon finds.
* `splitHeader_at_own_colon`: a header is cut off at its own colon, and wherever a line is cut,
  such a colon stands.
-/

namespace Stencil

open Stencil.Text Stencil.CodeBlock

/-! ## Depth in brackets -/

/-- How deep in brackets the text behind a token is, when it is this deep before it. A closing
bracket that closes none leaves it outside. -/
def Token.depthBehind (depth : Nat) (t : Token) : Nat :=
  match t.kind with
  | .opening => depth + 1
  | .closing => depth - 1
  | _ => depth

/-- How deep in brackets the text behind tokens is. -/
def depthBehind (depth : Nat) (tokens : List Token) : Nat :=
  tokens.foldl Token.depthBehind depth

/-- Is the token one that ends the search for a colon, where it stands outside all brackets? -/
def Token.EndsSearch (t : Token) : Prop := t.kind = .newline ∨ t.isOperator ":" = true

/-- No colon and no newline stands outside all brackets. -/
def KeepsInside (depth : Nat) (tokens : List Token) : Prop :=
  ∀ before t after, tokens = before ++ t :: after → depthBehind depth before = 0 → ¬ t.EndsSearch

variable {depth passed : Nat} {t : Token} {tokens : List Token}

theorem KeepsInside.nil (depth : Nat) : KeepsInside depth [] := by
  intro before t after h
  exact absurd h (by simp)

theorem keepsInside_cons : KeepsInside depth (t :: tokens) ↔
    (depth = 0 → ¬ t.EndsSearch) ∧ KeepsInside (t.depthBehind depth) tokens := by
  constructor
  · intro h
    refine ⟨h [] t tokens rfl, fun before u after hTokens => ?_⟩
    exact h (t :: before) u after (congrArg (t :: ·) hTokens)
  · rintro ⟨hFirst, hRest⟩ before u after hTokens hDepth
    cases before with
    | nil =>
        obtain ⟨rfl, rfl⟩ := List.cons.inj hTokens
        exact hFirst hDepth
    | cons v before =>
        obtain ⟨rfl, hBehind⟩ := List.cons.inj hTokens
        exact hRest before u after hBehind hDepth

instance (t : Token) : Decidable t.EndsSearch :=
  inferInstanceAs (Decidable (t.kind = .newline ∨ t.isOperator ":" = true))

/-- The tokens can be gone through one by one. -/
instance KeepsInside.decidable :
    (tokens : List Token) → (depth : Nat) → Decidable (KeepsInside depth tokens)
  | [], depth => isTrue (.nil depth)
  | t :: rest, depth =>
      have := KeepsInside.decidable rest (t.depthBehind depth)
      decidable_of_iff _ keepsInside_cons.symm

/-! ## The search for a colon -/

/-- A token that does not end the search is passed over. -/
theorem headerEnd_cons_of_not (h : depth = 0 → ¬ t.EndsSearch) (passed : Nat) :
    headerEnd depth passed (t :: tokens) =
      headerEnd (t.depthBehind depth) (passed + t.text.length) tokens := by
  obtain ⟨kind, text, start⟩ := t
  cases kind with
  | newline =>
      have hInside : depth ≠ 0 := fun hDepth => h hDepth (.inl rfl)
      exact if_neg hInside
  | operator =>
      have hColon : ¬ (text = [':'] ∧ depth = 0) := by
        rintro ⟨rfl, hDepth⟩
        exact h hDepth (.inr rfl)
      exact if_neg hColon
  | _ => rfl

/-- A colon outside all brackets is where the search ends. -/
theorem headerEnd_colon (h : t.isOperator ":" = true) (passed : Nat) :
    headerEnd 0 passed (t :: tokens) = .colon passed := by
  rw [Token.isOperator, Bool.and_eq_true, beq_iff_eq, beq_iff_eq] at h
  obtain ⟨hKind, hText⟩ := h
  simp only [headerEnd, hKind]
  exact if_pos ⟨hText, trivial⟩

theorem headerEnd_newline (h : t.kind = .newline) (passed : Nat) :
    headerEnd 0 passed (t :: tokens) = .newline := by
  simp only [headerEnd, h, if_true]

theorem KeepsInside.headerEnd_append (h : KeepsInside depth tokens) (passed : Nat)
    (others : List Token) : headerEnd depth passed (tokens ++ others) =
      headerEnd (depthBehind depth tokens) (passed + (tokens.flatMap Token.text).length)
        others := by
  induction tokens generalizing depth passed with
  | nil => rfl
  | cons t rest ih =>
      obtain ⟨hFirst, hRest⟩ := keepsInside_cons.1 h
      rw [List.cons_append, headerEnd_cons_of_not hFirst, ih hRest, List.flatMap_cons,
        List.length_append, Nat.add_assoc]
      rfl

/-- The search finds the first colon outside all brackets, when no newline there comes first. -/
theorem headerEnd_eq_colon_iff {place : Nat} : headerEnd depth passed tokens = .colon place ↔
    ∃ before colon after, tokens = before ++ colon :: after ∧ KeepsInside depth before ∧
      depthBehind depth before = 0 ∧ colon.isOperator ":" = true ∧
      place = passed + (before.flatMap Token.text).length := by
  constructor
  · intro h
    induction tokens generalizing depth passed with
    | nil => cases h
    | cons t rest ih =>
        by_cases hEnds : depth = 0 ∧ t.EndsSearch
        · obtain ⟨rfl, hNewline | hColon⟩ := hEnds
          · rw [headerEnd_newline hNewline] at h
            cases h
          · rw [headerEnd_colon hColon] at h
            cases h
            exact ⟨[], t, rest, rfl, .nil 0, rfl, hColon, rfl⟩
        · rw [not_and] at hEnds
          rw [headerEnd_cons_of_not hEnds] at h
          obtain ⟨before, colon, after, rfl, hKeeps, hDepth, hColon, rfl⟩ := ih h
          refine ⟨t :: before, colon, after, rfl, keepsInside_cons.2 ⟨hEnds, hKeeps⟩, hDepth,
            hColon, ?_⟩
          rw [List.flatMap_cons, List.length_append, Nat.add_assoc]
  · rintro ⟨before, colon, after, rfl, hKeeps, hDepth, hColon, rfl⟩
    rw [hKeeps.headerEnd_append, hDepth, headerEnd_colon hColon]

/-! ## Texts of tokens -/

/-- The tokens that a reading gives, put one after another, are what it has read so far. -/
theorem flatMap_text_isPrefix (reading : QuoteReading) (start : Nat) (text : List Char) :
    (scanFrom reading start text).tokens.flatMap Token.text <+: text := by
  induction start, text using scanFrom.induct reading with
  | case1 start =>
      rw [scanFrom]
      exact List.nil_prefix
  | case2 start c rest hLexeme =>
      rw [scanFrom, hLexeme]
      exact List.nil_prefix
  | case3 start c rest kind length hLexeme =>
      rename_i token ih
      obtain ⟨behind, hBehind⟩ := ih
      refine ⟨behind, ?_⟩
      rw [scanFrom, hLexeme, List.flatMap_cons, List.append_assoc]
      simp only [token] at hBehind
      rw [hBehind, List.cons_append, List.take_append_drop]

/-- A text is what trimming leaves of it and blanks. -/
theorem exists_blanks (text : List Char) :
    ∃ blanks, text = trimEnd text ++ blanks ∧ ∀ c ∈ blanks, isBlank c = true := by
  refine ⟨(text.reverse.takeWhile isBlank).reverse, ?_, ?_⟩
  · rw [trimEnd, ← List.reverse_append, List.takeWhile_append_dropWhile, List.reverse_reverse]
  · intro c hc
    exact List.mem_takeWhile_imp (List.mem_reverse.1 hc)

/-- A header is cut off at its own colon, whatever stands behind it. -/
theorem splitHeader_append_colon {header : List Char} (hTokens : strictTokens header = .ok tokens)
    (hComment : ∀ t ∈ tokens, t.kind ≠ .comment) (hKeeps : KeepsInside 0 tokens)
    (hBalanced : depthBehind 0 tokens = 0) (rest : List Char) :
    splitHeader (header ++ ':' :: rest) = .ok (some (trimEnd header, rest)) := by
  have hScan := scanFrom_of_strictTokens hTokens
  obtain ⟨start, hLonger⟩ := scan_append_colon hScan hComment rest
  refine splitHeader_eq_ok_iff.2 ⟨header.length, ?_, ?_, ?_⟩
  · rw [scan, hLonger]
    refine headerEnd_eq_colon_iff.2 ⟨tokens, _, _, rfl, hKeeps, hBalanced, rfl, ?_⟩
    rw [flatMap_text_of_scan hScan, Nat.zero_add]
  · rw [List.take_left]
  · rw [← List.drop_drop, List.drop_left]
    rfl

/-- Where a line is cut, a colon outside all brackets stands, and none stands before it. -/
theorem exists_colon_of_splitHeader {content header rest : List Char}
    (h : splitHeader content = .ok (some (header, rest))) :
    ∃ blanks before colon after, content = header ++ blanks ++ ':' :: rest ∧
      (∀ c ∈ blanks, isBlank c = true) ∧
      (scan .strict content).tokens = before ++ colon :: after ∧
      before.flatMap Token.text = header ++ blanks ∧ colon.isOperator ":" = true ∧
      depthBehind 0 before = 0 ∧ KeepsInside 0 before := by
  obtain ⟨passed, hEnd, rfl, rfl⟩ := splitHeader_eq_ok_iff.1 h
  obtain ⟨before, colon, after, hTokens, hKeeps, hDepth, hColon, rfl⟩ :=
    headerEnd_eq_colon_iff.1 hEnd
  have hText : colon.text = [':'] := by
    rw [Token.isOperator, Bool.and_eq_true, beq_iff_eq, beq_iff_eq] at hColon
    exact hColon.2
  obtain ⟨behind, hContent⟩ := flatMap_text_isPrefix .strict 0 content
  rw [← scan, hTokens, List.flatMap_append, List.flatMap_cons, hText, List.append_assoc,
    List.append_assoc, List.singleton_append] at hContent
  obtain ⟨blanks, hBlanks, hAll⟩ := exists_blanks (before.flatMap Token.text)
  have hTake : content.take (0 + (before.flatMap Token.text).length) =
      before.flatMap Token.text := by
    rw [← hContent, Nat.zero_add, List.take_left]
  have hDrop : content.drop (0 + (before.flatMap Token.text).length + 1) =
      after.flatMap Token.text ++ behind := by
    rw [← hContent, Nat.zero_add, ← List.drop_drop, List.drop_left]
    rfl
  rw [hTake, hDrop]
  refine ⟨blanks, before, colon, after, ?_, hAll, hTokens, hBlanks, hColon, hDepth, hKeeps⟩
  rw [← hBlanks, hContent]

/-- A header that stands before a colon, with its brackets closed and no other colon outside them,
ends at that colon, whatever follows. And where a line is cut, it is the header, blanks, a colon
and the rest, and no colon stands outside all brackets before that one. -/
theorem splitHeader_at_own_colon :
    (∀ header tokens rest, strictTokens header = .ok tokens →
      (∀ t ∈ tokens, t.kind ≠ .comment) → KeepsInside 0 tokens → depthBehind 0 tokens = 0 →
      splitHeader (header ++ ':' :: rest) = .ok (some (trimEnd header, rest))) ∧
    ∀ content header rest, splitHeader content = .ok (some (header, rest)) →
      ∃ blanks before colon after, content = header ++ blanks ++ ':' :: rest ∧
        (∀ c ∈ blanks, isBlank c = true) ∧
        (scan .strict content).tokens = before ++ colon :: after ∧
        before.flatMap Token.text = header ++ blanks ∧ colon.isOperator ":" = true ∧
        depthBehind 0 before = 0 ∧ KeepsInside 0 before :=
  ⟨fun _ _ rest hTokens hComment hKeeps hBalanced =>
    splitHeader_append_colon hTokens hComment hKeeps hBalanced rest,
    fun _ _ _ h => exists_colon_of_splitHeader h⟩

/-- Colons of a slice and of a string stand before the colon of this header, and an open quote
behind it. -/
theorem splitHeader_before_open_quote :
    splitHeader "if d[1:2] == ['a', '):'] : don't".toList =
      .ok (some ("if d[1:2] == ['a', '):']".toList, " don't".toList)) ∧
    ∃ blanks before colon after, "if d[1:2] == ['a', '):'] : don't".toList =
        "if d[1:2] == ['a', '):']".toList ++ blanks ++ ':' :: " don't".toList ∧
      (∀ c ∈ blanks, isBlank c = true) ∧
      (scan .strict "if d[1:2] == ['a', '):'] : don't".toList).tokens = before ++ colon :: after ∧
      before.flatMap Token.text = "if d[1:2] == ['a', '):']".toList ++ blanks ∧
      colon.isOperator ":" = true ∧ depthBehind 0 before = 0 ∧ KeepsInside 0 before := by
  have hSplit := splitHeader_at_own_colon.1 "if d[1:2] == ['a', '):'] ".toList
    (scan .strict "if d[1:2] == ['a', '):'] ".toList).tokens " don't".toList
    (by decide +kernel) (by decide +kernel) (by decide +kernel) (by decide +kernel)
  exact ⟨hSplit, splitHeader_at_own_colon.2 _ _ _ hSplit⟩

end Stencil
