import Stencil.Proofs.Comments.Expressions
import Stencil.Proofs.Comments.Lines
import Stencil.Proofs.Sections.Directives

/-!
# Texts with a comment in them

The header of a block is cut off its line at the first colon that stands in no bracket. The tokens
of the line say where this is, in a strict reading: it stops at a quote that is not closed. The end
of a line holds no colon that could be taken, so a header with a body on its line is the same with a
comment behind the body.

A comment can be put at the end of a line of text, at the end of a block whose body is such a line,
and behind the text of an output variable. `Remarked` relates a text to the text with the comment.
The comment is no indentation and no blank line, so a block takes the same lines for its body. It is
then in the body or behind the block.

## Main results

* `headerEnd_append_lineEnd`: a header ends where it does, whatever ends its line.
* `splitHeader_append_lineEnd`: so what ends the line is left to the body.
* `directive_of?_append_lineEnd`: and the line is the same directive.
* `Remarked.region`, `Remarked.indentedBlock`: the comment is in a region or behind it.
* `Remarked.readFragment`: in a line of a fragment it is a newline more.
-/

namespace Stencil

open Stencil.Text

section Headers

variable {c : Char} {text rest tail : List Char} {kind : TokenKind} {length : Nat}

/-! ## Colons -/

/-- Where the rest decides alike, the first token does not matter. -/
theorem headerEnd_cons_congr {tokens others : List Token} {after : Nat}
    (h : ∀ depth passed, headerEnd depth passed tokens = .colon after ↔
      headerEnd depth passed others = .colon after) (t : Token) (depth passed : Nat) :
    headerEnd depth passed (t :: tokens) = .colon after ↔
      headerEnd depth passed (t :: others) = .colon after := by
  rw [headerEnd, headerEnd]
  split
  · exact h _ _
  · exact h _ _
  · split
    · exact Iff.rfl
    · exact h _ _
  · split
    · exact Iff.rfl
    · exact h _ _
  · exact h _ _

/-- A newline is not passed, or it stands in brackets. -/
theorem headerEnd_ending {ending : List Char} (h : IsEnding ending)
    (depth passed start after : Nat) :
    headerEnd depth passed (scanFrom .strict start ending).tokens ≠ .colon after := by
  rcases h with rfl | rfl
  · rw [scanFrom]
    exact HeaderEnd.noConfusion
  · have hLexeme : lexeme .strict ['\n'] = some (.newline, 1) := rfl
    rw [scanFrom, hLexeme]
    simp only [List.take_nil, List.drop_nil, headerEnd]
    rw [scanFrom]
    split <;> exact HeaderEnd.noConfusion

theorem scanFrom_strict_cons (h : lexeme .strict (c :: rest) = some (kind, length))
    (start : Nat) : ∃ next, (scanFrom .strict start (c :: rest)).tokens =
      ⟨kind, c :: rest.take (length - 1), start⟩ ::
        (scanFrom .strict next (rest.drop (length - 1))).tokens := by
  rw [scanFrom, h]
  exact ⟨_, rfl⟩

/-- No colon stands in a comment. -/
theorem headerEnd_comment {remark ending : List Char} (hRemark : '\n' ∉ remark)
    (hEnding : IsEnding ending) (depth passed start after : Nat) :
    headerEnd depth passed (scanFrom .strict start ('#' :: (remark ++ ending))).tokens ≠
      .colon after := by
  obtain ⟨next, hTokens⟩ := scanFrom_strict_cons (lexeme_comment .strict hRemark hEnding) start
  rw [hTokens, Nat.add_sub_cancel, List.drop_left]
  exact headerEnd_ending hEnding depth _ next after

/-- No colon is at the end of a line. -/
theorem headerEnd_lineEnd (h : LineEnd tail) (depth passed start after : Nat) :
    headerEnd depth passed (scanFrom .strict start tail).tokens ≠ .colon after := by
  cases h with
  | newline => exact headerEnd_ending (.inr rfl) depth passed start after
  | @comment remark ending hRemark hEnding =>
      have hLexeme : lexeme .strict ('$' :: '#' :: (remark ++ ending)) = some (.operator, 1) :=
        lexeme_plain (by decide) _
      obtain ⟨next, hTokens⟩ := scanFrom_strict_cons hLexeme start
      rw [hTokens]
      exact headerEnd_comment hRemark hEnding depth _ next after

/-- The first lexeme of a strict reading, or that there is none, is the same before the end of a
line. -/
theorem lexeme_strict_append_lineEnd (h : EndsWith (c :: rest) tail) (hc : c ≠ '#') :
    lexeme .strict (c :: (rest ++ tail)) = lexeme .strict (c :: rest) := by
  cases hLexeme : lexeme .strict (c :: rest) with
  | none =>
      obtain ⟨opening, others, hText, hOpen⟩ := (lexeme_strict_eq_none_iff c rest).1 hLexeme
      refine (lexeme_strict_eq_none_iff c _).2 ⟨opening, others ++ tail, ?_, fun hClosed => ?_⟩
      · rw [← List.cons_append, hText, List.append_assoc, List.cons_append]
      · exact hOpen (hClosed.of_append
          (h.apart opening.quote (by simp [hText]) opening.isQuote_quote))
  | some found =>
      obtain ⟨kind, length⟩ := found
      obtain ⟨stop, more, rfl, hStop⟩ := h.lineEnd.exists_stop
      exact lexeme_append_stop hStop more .strict hLexeme fun hKind =>
        hc ((lexeme_start hLexeme).2.2 hKind)

/-- A header ends where it does whatever ends its line. -/
theorem headerEnd_append_lineEnd (h : EndsWith text tail) (depth passed start after : Nat) :
    headerEnd depth passed (scanFrom .strict start (text ++ tail)).tokens = .colon after ↔
      headerEnd depth passed (scanFrom .strict start text).tokens = .colon after := by
  induction start, text using scanFrom.induct QuoteReading.strict generalizing depth passed with
  | case1 start =>
      rw [List.nil_append, scanFrom]
      exact iff_of_false (headerEnd_lineEnd h.lineEnd depth passed start after)
        HeaderEnd.noConfusion
  | case2 start c rest hLexeme =>
      have hc : c ≠ '#' := by
        rintro rfl
        cases hLexeme
      rw [List.cons_append, scanFrom, lexeme_strict_append_lineEnd h hc, hLexeme, scanFrom, hLexeme]
  | case3 start c rest kind length hLexeme =>
      rename_i token ih
      by_cases hc : c = '#'
      · subst hc
        have hRest : '\n' ∉ rest := fun hMem => h.oneLine (List.mem_cons_of_mem _ hMem)
        obtain ⟨more, ending, rfl, hMore, hEnding⟩ := h.lineEnd.exists_ending
        have hBoth : '\n' ∉ rest ++ more := by simp [hRest, hMore]
        have hLonger := headerEnd_comment hBoth hEnding depth passed start after
        have hAlone := headerEnd_comment hRest (.inl rfl) depth passed start after
        rw [List.append_assoc] at hLonger
        rw [List.append_nil] at hAlone
        exact iff_of_false hLonger hAlone
      · have hDrop : (rest ++ tail).drop (length - 1) = rest.drop (length - 1) ++ tail :=
          List.drop_append_of_le_length (Nat.sub_le_of_le_add (lexeme_le hLexeme))
        have hTake : (rest ++ tail).take (length - 1) = rest.take (length - 1) :=
          List.take_append_of_le_length (Nat.sub_le_of_le_add (lexeme_le hLexeme))
        rw [List.cons_append, scanFrom, lexeme_strict_append_lineEnd h hc, hLexeme, scanFrom,
          hLexeme]
        simp only [hDrop, hTake]
        exact headerEnd_cons_congr (ih (h.mono fun d hd =>
          List.mem_cons_of_mem c (List.mem_of_mem_drop hd))) _ depth passed

/-! ## Cutting off a header -/

/-- The colon is in the text. -/
theorem headerEnd_lt {depth passed start after : Nat}
    (h : headerEnd depth passed (scanFrom .strict start text).tokens = .colon after) :
    after < passed + text.length := by
  induction start, text using scanFrom.induct QuoteReading.strict generalizing depth passed with
  | case1 start =>
      rw [scanFrom] at h
      cases h
  | case2 start c rest hLexeme =>
      rw [scanFrom, hLexeme] at h
      cases h
  | case3 start c rest kind length hLexeme =>
      rename_i token ih
      have hLength : (rest.take (length - 1)).length + (rest.drop (length - 1)).length =
          rest.length := by
        rw [← List.length_append, List.take_append_drop]
      have hRest {depth : Nat} (h : headerEnd depth
          (passed + (c :: rest.take (length - 1)).length)
          (scanFrom .strict token.stop (rest.drop (length - 1))).tokens = .colon after) :
          after < passed + (c :: rest).length := by
        have hBelow := ih h
        simp only [List.length_cons] at hBelow ⊢
        omega
      rw [scanFrom, hLexeme] at h
      simp only [headerEnd] at h
      split at h
      · exact hRest h
      · exact hRest h
      · split at h
        · cases h
        · exact hRest h
      · split at h
        · cases h
          simp
        · exact hRest h
      · exact hRest h

theorem splitHeader_eq_ok_iff {header remainder : List Char} :
    splitHeader text = .ok (some (header, remainder)) ↔ ∃ passed,
      headerEnd 0 0 (scan .strict text).tokens = .colon passed ∧
        header = trimEnd (text.take passed) ∧ remainder = text.drop (passed + 1) := by
  rw [splitHeader]
  constructor
  · intro h
    split at h
    · rename_i passed hEnd
      cases h
      exact ⟨passed, hEnd, rfl, rfl⟩
    · cases h
    · split at h <;> cases h
  · rintro ⟨passed, hEnd, rfl, rfl⟩
    simp only [hEnd]

/-- A header is cut off its line at its colon, whatever ends the line. -/
theorem splitHeader_append_lineEnd (h : EndsWith text tail) {header remainder : List Char} :
    splitHeader (text ++ tail) = .ok (some (header, remainder)) ↔
      ∃ body, remainder = body ++ tail ∧ splitHeader text = .ok (some (header, body)) := by
  have hEnd (passed : Nat) : headerEnd 0 0 (scan .strict (text ++ tail)).tokens = .colon passed ↔
      headerEnd 0 0 (scan .strict text).tokens = .colon passed :=
    headerEnd_append_lineEnd h 0 0 0 passed
  have hTake {passed : Nat} (hColon : headerEnd 0 0 (scan .strict text).tokens = .colon passed) :
      (text ++ tail).take passed = text.take passed ∧
        (text ++ tail).drop (passed + 1) = text.drop (passed + 1) ++ tail := by
    have hLt := headerEnd_lt hColon
    exact ⟨List.take_append_of_le_length (by omega), List.drop_append_of_le_length (by omega)⟩
  constructor
  · intro hSplit
    obtain ⟨passed, hColon, rfl, rfl⟩ := splitHeader_eq_ok_iff.1 hSplit
    rw [hEnd] at hColon
    obtain ⟨hFront, hBack⟩ := hTake hColon
    refine ⟨_, hBack, splitHeader_eq_ok_iff.2 ⟨passed, hColon, ?_, rfl⟩⟩
    rw [hFront]
  · rintro ⟨body, rfl, hSplit⟩
    obtain ⟨passed, hColon, rfl, rfl⟩ := splitHeader_eq_ok_iff.1 hSplit
    obtain ⟨hFront, hBack⟩ := hTake hColon
    exact splitHeader_eq_ok_iff.2 ⟨passed, (hEnd passed).2 hColon, by rw [hFront], hBack.symm⟩

/-! ## Directives -/

/-- A directive is told by its first token, whatever ends its line. -/
theorem directive_of?_append_lineEnd (h : EndsWith (c :: rest) tail) :
    Directive.of? (c :: (rest ++ tail)) = Directive.of? (c :: rest) := by
  by_cases hc : c = '#'
  · subst hc
    rfl
  obtain ⟨kind, length, hLexeme, hLonger, hLength⟩ := lexeme_lenient_append_lineEnd h hc
  have hToken : firstToken? (c :: (rest ++ tail)) = firstToken? (c :: rest) := by
    rw [firstToken?, firstToken?, hLonger, hLexeme]
    simp only [Option.map_some, List.take_append_of_le_length (Nat.sub_le_of_le_add hLength)]
  rw [Directive.of?, Directive.of?, hToken]

end Headers

/-! ## Places for a comment -/

/-- The line is read as a line of text, or as a block with such a line for its body, or as an output
variable with a text. -/
inductive TakesText : List Char → Prop
  | line {line : List Char} (isLine : NoDirective (line ++ ['\n'])) : TakesText line
  | body {line after header body : List Char} {keyword : BlockKeyword}
      (isSigil : dropSpaces line = '$' :: after)
      (isBlock : Directive.of? after = some (.block keyword))
      (isHeader : splitHeader after = .ok (some (header, body)))
      (isSome : allBlank body = false) (below : TakesText (trimStart body)) : TakesText line
  | inlineVar {line name text : List Char}
      (isSigil : dropSpaces line = '$' :: variableLine name text) (isName : IsNameText name)
      (isFree : name ≠ "body".toList) (isSeen : isUnseen text = false)
      (isTrimmed : trimEnd text = text) : TakesText line

/-- The line takes text, and the comment can be put at its end: no backslash joins the line to the
next one there, and no quote that the line leaves open is closed in the comment. -/
structure TakesComment (line remark : List Char) : Prop where
  takesText : TakesText line
  notBlank : allBlank line = false
  oneLine : '\n' ∉ line
  remarkLine : '\n' ∉ remark
  apart : ∀ quote ∈ line, isQuote quote = true → quote ∉ remark
  noBackslash : line.getLast? ≠ some '\\'
  noReturn : line.getLast? ≠ some '\r'

/-- The line with the comment at its end. -/
def withRemark (line remark : List Char) : List Char := line ++ '$' :: '#' :: remark

/-- The other text is the same but for the comment at the end of one line. -/
inductive Remarked (remark : List Char) : List Char → List Char → Prop
  | here {line : List Char} (takes : TakesComment line remark) (rest : List Char) :
      Remarked remark (line ++ '\n' :: rest) (withRemark line remark ++ '\n' :: rest)
  | later {row text other : List Char} (oneLine : '\n' ∉ row)
      (below : Remarked remark text other) :
      Remarked remark (row ++ '\n' :: text) (row ++ '\n' :: other)

section Lines

variable {line remark text other more : List Char} {width : Nat}

/-- The spaces before a line that is not blank are those of the line. -/
theorem spaces_append (h : allBlank line = false) (more : List Char) :
    leadingSpaces (line ++ more) = leadingSpaces line ∧
      dropSpaces (line ++ more) = dropSpaces line ++ more := by
  obtain ⟨c, hMem, hc⟩ : ∃ c ∈ line, isBlank c = false := by
    simpa [allBlank] using h
  have hSpace : (c == ' ') = false := beq_eq_false_iff_ne.2 fun hSame => by
    rw [hSame] at hc
    cases hc
  obtain ⟨hTake, hDrop⟩ := takeWhile_append_of_mem (p := (· == ' ')) hMem hSpace more
  exact ⟨congrArg List.length hTake, hDrop⟩

theorem allBlank_append (h : allBlank line = false) (more : List Char) :
    allBlank (line ++ more) = false := by
  rw [allBlank, List.all_append, ← allBlank, h, Bool.false_and]

/-- Some of the spaces of a line can be left out. -/
theorem drop_eq (h : width ≤ leadingSpaces line) :
    line.drop width = List.replicate (leadingSpaces line - width) ' ' ++ dropSpaces line := by
  conv => lhs; rw [← replicate_append_dropSpaces line]
  rw [List.drop_append_of_le_length (by rwa [List.length_replicate]), List.drop_replicate]

theorem dropSpaces_drop (h : width ≤ leadingSpaces line) :
    dropSpaces (line.drop width) = dropSpaces line := by
  have hHead := head?_dropWhile (· == ' ') line
  rw [drop_eq h]
  refine dropSpaces_replicate _ fun hSpace => ?_
  exact absurd (hHead ' ' hSpace) (by decide)

theorem allBlank_drop (h : allBlank line = false) (hWidth : width ≤ leadingSpaces line) :
    allBlank (line.drop width) = false := by
  refine Bool.eq_false_iff.2 fun hBlank => ?_
  rw [drop_eq hWidth, allBlank, List.all_append, Bool.and_eq_true] at hBlank
  have hWhole : allBlank line = true := by
    rw [← replicate_append_dropSpaces line, allBlank, List.all_append, hBlank.2, Bool.and_true]
    exact List.all_eq_true.2 fun c hc => by rw [List.eq_of_mem_replicate hc]; rfl
  rw [h] at hWhole
  cases hWhole

theorem TakesText.drop (h : TakesText line) (hBlank : allBlank line = false)
    (hWidth : width ≤ leadingSpaces line) : TakesText (line.drop width) := by
  have hDrop := dropSpaces_drop hWidth
  cases h with
  | line isLine =>
      refine .line fun after hAfter => isLine after ?_
      rwa [(spaces_append hBlank _).2, ← hDrop,
        ← (spaces_append (allBlank_drop hBlank hWidth) _).2]
  | body isSigil isBlock isHeader isSome below =>
      exact .body (hDrop.trans isSigil) isBlock isHeader isSome below
  | inlineVar isSigil isName isFree isSeen isTrimmed =>
      exact .inlineVar (hDrop.trans isSigil) isName isFree isSeen isTrimmed

/-- A comment can be put behind the end of a line, too. -/
theorem TakesComment.of_suffix {part : List Char} (h : TakesComment line remark)
    (hPart : part <:+ line) (hBlank : allBlank part = false) (hTakes : TakesText part) :
    TakesComment part remark := by
  have hSome : part ≠ [] := by
    rintro rfl
    cases hBlank
  have hLast : part.getLast? = line.getLast? := by
    obtain ⟨front, rfl⟩ := hPart
    rw [List.getLast?_append, List.getLast?_eq_some_getLast hSome, Option.some_or]
  have hMem {c : Char} (hc : c ∈ part) : c ∈ line := hPart.subset hc
  exact ⟨hTakes, hBlank, fun hNewline => h.oneLine (hMem hNewline), h.remarkLine,
    fun quote hQuote => h.apart quote (hMem hQuote), hLast ▸ h.noBackslash, hLast ▸ h.noReturn⟩

theorem TakesComment.drop (h : TakesComment line remark) (hWidth : width ≤ leadingSpaces line) :
    TakesComment (line.drop width) remark :=
  h.of_suffix (List.drop_suffix width line) (allBlank_drop h.notBlank hWidth)
    (h.takesText.drop h.notBlank hWidth)

theorem TakesComment.endsWith (h : TakesComment line remark) {part ending : List Char}
    (hPart : part ⊆ remark) (hEnding : IsEnding ending) :
    EndsWith line ('$' :: '#' :: (part ++ ending)) := by
  refine ⟨h.oneLine, .comment (fun hMem => h.remarkLine (hPart hMem)) hEnding,
    fun quote hMem hIs hTail => ?_⟩
  have hNot {c : Char} (hc : isQuote c = false) : quote ≠ c := by
    rintro rfl
    rw [hc] at hIs
    cases hIs
  rcases List.mem_cons.1 hTail with hSame | hTail
  · exact hNot (by decide) hSame
  rcases List.mem_cons.1 hTail with hSame | hTail
  · exact hNot (by decide) hSame
  rcases List.mem_append.1 hTail with hRemark | hEnd
  · exact h.apart quote hMem hIs (hPart hRemark)
  · rcases hEnding with rfl | rfl
    · cases hEnd
    · exact hNot (by decide) (List.mem_singleton.1 hEnd)

theorem TakesComment.oneLine_withRemark (h : TakesComment line remark) :
    '\n' ∉ withRemark line remark := by
  simp [withRemark, h.oneLine, h.remarkLine]

/-! ## Regions -/

section Regions

variable {row : List Char} (hRow : '\n' ∉ row) (rest : List Char)
include hRow

theorem firstIndent_line : firstIndent (row ++ '\n' :: rest) =
    if allBlank (row ++ ['\n']) then firstIndent rest else leadingSpaces (row ++ ['\n']) := by
  rw [firstIndent_of_ne_nil (by simp), splitLine_append_newline hRow]

theorem region_line (width : Nat) : region width (row ++ '\n' :: rest) =
    if belongsTo width (row ++ ['\n']) then
      let below := region width rest
      ⟨unindent width (row ++ ['\n']) ++ below.body, 1 + below.newlines, below.rest⟩
    else ⟨[], 0, row ++ '\n' :: rest⟩ := by
  rw [region_of_ne_nil (by simp), splitLine_append_newline hRow]
  simp only [countNewlines_line hRow]

end Regions

theorem Remarked.ne_nil (h : Remarked remark text other) : text ≠ [] ∧ other ≠ [] := by
  cases h <;> simp

theorem Remarked.firstIndent_eq (h : Remarked remark text other) :
    firstIndent other = firstIndent text := by
  induction h with
  | here takes rest =>
      rw [firstIndent_line takes.oneLine, firstIndent_line takes.oneLine_withRemark, withRemark,
        List.append_assoc, allBlank_append takes.notBlank, allBlank_append takes.notBlank,
        (spaces_append takes.notBlank _).1, (spaces_append takes.notBlank _).1]
  | later oneLine below ih => rw [firstIndent_line oneLine, firstIndent_line oneLine, ih]

/-- A region takes a line that is indented enough. -/
theorem region_text (hLine : '\n' ∉ line ++ more) (hBlank : allBlank line = false)
    (rest : List Char) (width : Nat) : region width (line ++ more ++ '\n' :: rest) =
      if width ≤ leadingSpaces line then
        let below := region width rest
        ⟨line.drop width ++ more ++ '\n' :: below.body, 1 + below.newlines, below.rest⟩
      else ⟨[], 0, line ++ more ++ '\n' :: rest⟩ := by
  have hWhole := allBlank_append hBlank (more ++ ['\n'])
  have hSpaces := (spaces_append hBlank (more ++ ['\n'])).1
  have hLength := leadingSpaces_le line
  rw [← List.append_assoc] at hWhole hSpaces
  rw [region_line hLine, belongsTo, unindent, hWhole, hSpaces, if_neg Bool.false_ne_true]
  by_cases hWidth : width ≤ leadingSpaces line
  · rw [decide_eq_true hWidth, if_pos hWidth, Bool.or_true, if_pos rfl, List.append_assoc line,
      List.drop_append_of_le_length (by omega)]
    simp only [List.append_assoc, List.cons_append, List.nil_append]
  · rw [decide_eq_false hWidth, if_neg hWidth, Bool.or_false, if_neg Bool.false_ne_true]

/-- A region takes the comment in its body or leaves it in the text behind it. -/
theorem Remarked.region (h : Remarked remark text other) (width : Nat) :
    (region width other).newlines = (region width text).newlines ∧
      (Remarked remark (region width text).body (region width other).body ∧
          (region width other).rest = (region width text).rest ∨
        (region width other).body = (region width text).body ∧
          Remarked remark (region width text).rest (region width other).rest) := by
  induction h with
  | @here line takes rest =>
      have hLine : '\n' ∉ line ++ [] := by simpa using takes.oneLine
      have hText := region_text hLine takes.notBlank rest width
      have hOther := region_text takes.oneLine_withRemark takes.notBlank rest width
      rw [List.append_nil] at hText
      rw [hText, withRemark, hOther]
      by_cases hWidth : width ≤ leadingSpaces line
      · rw [if_pos hWidth, if_pos hWidth, List.append_nil]
        exact ⟨rfl, .inl ⟨.here (takes.drop hWidth) _, rfl⟩⟩
      · rw [if_neg hWidth, if_neg hWidth]
        exact ⟨rfl, .inr ⟨rfl, .here takes rest⟩⟩
  | @later row text other oneLine below ih =>
      rw [region_line oneLine, region_line oneLine]
      by_cases hBelongs : belongsTo width (row ++ ['\n']) = true
      · obtain ⟨inner, hInner, hUnindent⟩ := unindent_newline oneLine hBelongs
        rw [if_pos hBelongs, if_pos hBelongs, hUnindent]
        simp only [List.append_assoc]
        exact ⟨congrArg _ ih.1, ih.2.imp (fun ⟨hBody, hRest⟩ => ⟨.later hInner hBody, hRest⟩)
          fun ⟨hBody, hRest⟩ => ⟨congrArg (inner ++ '\n' :: ·) hBody, hRest⟩⟩
      · rw [if_neg hBelongs, if_neg hBelongs]
        exact ⟨rfl, .inr ⟨rfl, .later oneLine below⟩⟩

theorem Remarked.notBlank (h : Remarked remark text other) : allBlank other = false := by
  induction h with
  | here takes rest =>
      rw [withRemark, List.append_assoc]
      exact allBlank_append takes.notBlank _
  | @later row text other oneLine below ih =>
      rw [allBlank, List.all_append, List.all_cons, ← allBlank, ← allBlank, ih, Bool.and_false,
        Bool.and_false]

/-! ## Fragments -/

/-- The comment is in the first one of two texts, or in the second one. -/
def RemarkedIn (remark first first' second second' : List Char) : Prop :=
  Remarked remark first first' ∧ second' = second ∨ first' = first ∧ Remarked remark second second'

theorem Remarked.indentedBlock (h : Remarked remark text other) (width : Nat) :
    (indentedBlock width other).newlines = (indentedBlock width text).newlines ∧
      RemarkedIn remark (indentedBlock width text).body (indentedBlock width other).body
        (indentedBlock width text).rest (indentedBlock width other).rest := by
  by_cases hWidth : width = 0
  · rw [Stencil.indentedBlock, Stencil.indentedBlock, if_pos hWidth, if_pos hWidth]
    exact ⟨rfl, .inr ⟨rfl, h⟩⟩
  · rw [indentedBlock_of_pos hWidth, indentedBlock_of_pos hWidth]
    exact h.region width

/-- The other lines are the same but for one, whose pieces have a newline more behind the text. -/
inductive RowsNoted : List TextLine → List TextLine → Prop
  | here {number : Nat} {pieces others : List Piece} (stands : DoFor others (withNewline pieces))
      (after : List Piece) (rest : List TextLine) :
      RowsNoted (⟨number, pieces ++ after⟩ :: rest) (⟨number, others ++ after⟩ :: rest)
  | later {rows others : List TextLine} (row : TextLine) (below : RowsNoted rows others) :
      RowsNoted (row :: rows) (row :: others)

theorem exists_of_getLast?_withRemark {c : Char} (h : (withRemark line remark).getLast? = some c)
    (hNumber : c ≠ '#') : ∃ part, remark = part ++ [c] := by
  refine List.getLast?_eq_some_iff.1 ?_
  cases remark with
  | nil =>
      have hLast : (withRemark line []).getLast? = some '#' := by
        simp [withRemark, List.getLast?_append]
      rw [hLast] at h
      exact absurd (Option.some.inj h).symm hNumber
  | cons d rest =>
      have hLast : (withRemark line (d :: rest)).getLast? = (d :: rest).getLast? := by
        simp [withRemark, List.getLast?_append, List.getLast?_cons]
      rw [← hLast, h]

theorem finishLine_withRemark (line remark : List Char) : ∃ part, part ⊆ remark ∧
    finishLine (withRemark line remark).reverse = withRemark line part := by
  by_cases hLast : (withRemark line remark).getLast? = some '\r'
  · obtain ⟨part, rfl⟩ := exists_of_getLast?_withRemark hLast (by decide)
    refine ⟨part, List.subset_append_left _ _, ?_⟩
    have hReverse : (withRemark line (part ++ ['\r'])).reverse =
        '\r' :: (withRemark line part).reverse := by
      simp [withRemark]
    rw [hReverse, finishLine, List.reverse_reverse]
  · exact ⟨remark, List.Subset.refl _, finishLine_reverse hLast⟩

theorem joinLine_withRemark (line remark : List Char) : ∃ part ending, part ⊆ remark ∧
    IsEnding ending ∧
      joinLine (withRemark line remark ++ ['\n']) = line ++ '$' :: '#' :: (part ++ ending) := by
  by_cases hLast : (withRemark line remark).getLast? = some '\\'
  · obtain ⟨part, rfl⟩ := exists_of_getLast?_withRemark hLast (by decide)
    refine ⟨part, [], List.subset_append_left _ _, .inl rfl, ?_⟩
    have hReverse : (withRemark line (part ++ ['\\']) ++ ['\n']).reverse =
        '\n' :: '\\' :: (withRemark line part).reverse := by
      simp [withRemark]
    rw [joinLine, hReverse]
    simp [withRemark]
  · refine ⟨remark, ['\n'], List.Subset.refl _, .inr rfl, ?_⟩
    rw [joinLine_append_newline hLast]
    simp [withRemark]

theorem lines_line {row : List Char} (hRow : '\n' ∉ row) (rest : List Char) :
    Text.lines (row ++ '\n' :: rest) = finishLine row.reverse :: Text.lines rest := by
  rw [Text.lines, linesFrom_append_newline hRow, List.append_nil, Text.lines]

theorem readFragment_cons_iff {number : Nat} {row : List Char} {rows : List (List Char)}
    {found : List TextLine} : readFragment number (row :: rows) = .ok found ↔
      ∃ pieces rest, readPieces row = .ok pieces ∧ readFragment (number + 1) rows = .ok rest ∧
        found = ⟨number, pieces ++ [.text ['\n']]⟩ :: rest := by
  rw [readFragment, readLine]
  constructor
  · intro h
    obtain ⟨first, hFirst, h⟩ := exists_of_bind_eq_ok h
    obtain ⟨rest, hRest, h⟩ := exists_of_bind_eq_ok h
    cases h
    cases hPieces : readPieces row with
    | error cause =>
        rw [hPieces] at hFirst
        cases hFirst
    | ok pieces =>
        rw [hPieces] at hFirst
        cases hFirst
        exact ⟨pieces, rest, rfl, hRest, rfl⟩
  · rintro ⟨pieces, rest, hPieces, hRest, rfl⟩
    rw [hPieces, hRest]
    rfl

/-- A comment in a line of a fragment is a newline more. -/
theorem Remarked.readFragment (h : Remarked remark text other) {number : Nat}
    {rows : List TextLine} (hRead : readFragment number (Text.lines text) = .ok rows) :
    ∃ others, readFragment number (Text.lines other) = .ok others ∧ RowsNoted rows others := by
  induction h generalizing number rows with
  | @here line takes rest =>
      rw [lines_line takes.oneLine, finishLine_reverse takes.noReturn] at hRead
      obtain ⟨pieces, below, hPieces, hBelow, rfl⟩ := readFragment_cons_iff.1 hRead
      obtain ⟨part, hPart, hFinish⟩ := finishLine_withRemark line remark
      obtain ⟨ended, hEnded, hDoFor⟩ :=
        exists_doFor_withNewline (takes.endsWith hPart (.inl rfl)) hPieces
      rw [List.append_nil] at hEnded
      rw [lines_line takes.oneLine_withRemark, hFinish]
      exact ⟨_, readFragment_cons_iff.2 ⟨ended, below, hEnded, hBelow, rfl⟩, .here hDoFor _ _⟩
  | later oneLine below ih =>
      rw [lines_line oneLine] at hRead ⊢
      obtain ⟨pieces, rest, hPieces, hRest, rfl⟩ := readFragment_cons_iff.1 hRead
      obtain ⟨others, hOthers, hNoted⟩ := ih hRest
      exact ⟨_, readFragment_cons_iff.2 ⟨pieces, others, hPieces, hOthers, rfl⟩,
        .later _ hNoted⟩

end Lines

end Stencil
