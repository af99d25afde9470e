import Stencil.Proofs.Layout.Balance
import Stencil.Proofs.Layout.Joining

/-!
# Lines of statements and headers

What a line is for can be told before it is read: by its first word. A line that is read as a
statement or as a header is balanced, so it does not go on to the next line, and the first colon
outside its brackets is the one that ends the header.

## Main results

* `isSimple_of_read`: a statement without a body is a line of its own that starts with no leading
  word.
* `isHeader_of_run`: a header and its colon are a line of their own that is cut at that colon.
-/

namespace Stencil

open Stencil.Text

/-! ## Lenient readings -/

/-- Where a strict reading does not stop, a lenient one finds the same. -/
theorem lexeme_lenient {text : List Char} {found : TokenKind × Nat}
    (h : lexeme .strict text = some found) : lexeme .lenient text = some found := by
  cases text with
  | nil => cases h
  | cons c rest =>
      simp only [lexeme] at h ⊢
      split
      · rwa [if_pos ‹_›] at h
      rw [if_neg ‹_›] at h
      split
      · rwa [if_pos ‹_›] at h
      rw [if_neg ‹_›] at h
      split
      · rwa [if_pos ‹_›] at h
      rw [if_neg ‹_›] at h
      cases hMark : stringMark? (c :: rest) with
      | none => simpa only [hMark] using h
      | some letters =>
          cases hQuoted : quotedLength ((c :: rest).drop letters) with
          | none => simp [hMark, hQuoted] at h
          | some length => simpa only [hMark, hQuoted] using h

theorem scanFrom_lenient {start : Nat} {text : List Char} {tokens : List Token}
    (h : scanFrom .strict start text = ⟨tokens, none⟩) :
    scanFrom .lenient start text = ⟨tokens, none⟩ := by
  induction start, text using scanFrom.induct QuoteReading.strict generalizing tokens with
  | case1 start =>
      rw [scanFrom] at h ⊢
      exact h
  | case2 start c rest hLexeme =>
      rw [scanFrom, hLexeme] at h
      cases h
  | case3 start c rest kind length hLexeme =>
      rename_i token ih
      rw [scanFrom, hLexeme] at h
      simp only [Scan.mk.injEq] at h
      obtain ⟨rfl, hQuote⟩ := h
      have hRest := ih (congrArg (Scan.mk _) hQuote)
      rw [scanFrom, lexeme_lenient hLexeme]
      simp only [token] at hRest
      simp only [hRest]

/-- The tokens that a strict reading ends with, put one after another, are the text. -/
theorem flatMap_text_of_scan {start : Nat} {text : List Char} {tokens : List Token}
    (h : scanFrom .strict start text = ⟨tokens, none⟩) : tokens.flatMap Token.text = text := by
  have hText := flatMap_text_scanFrom start text
  rwa [scanFrom_lenient h] at hText

/-! ## First characters -/

/-- Names, numbers, brackets and operators are not blanks, newlines or comments. -/
theorem plainLexeme_kind (c : Char) (text : List Char) :
    (plainLexeme c text).1 ≠ .blank ∧ (plainLexeme c text).1 ≠ .newline ∧
      (plainLexeme c text).1 ≠ .comment := by
  unfold plainLexeme
  repeat' split
  all_goals exact ⟨nofun, nofun, nofun⟩

/-- What a lexeme starts with that says nothing. -/
theorem lexeme_start {c : Char} {rest : List Char} {kind : TokenKind} {length : Nat}
    (h : lexeme .strict (c :: rest) = some (kind, length)) :
    (kind = .blank → isBlank c = true) ∧ (kind = .newline → c = '\n') ∧
      (kind = .comment → c = '#') := by
  simp only [lexeme] at h
  split at h
  · rename_i hBlank
    cases h
    have hc : isBlank c = true := by rcases hBlank with rfl | rfl <;> rfl
    simp [hc]
  split at h
  · rename_i hNewline
    cases h
    simp [hNewline]
  split at h
  · rename_i hNumber
    cases h
    simp [hNumber]
  have hOther (hKind : kind ≠ .blank ∧ kind ≠ .newline ∧ kind ≠ .comment) :
      (kind = .blank → isBlank c = true) ∧ (kind = .newline → c = '\n') ∧
        (kind = .comment → c = '#') :=
    ⟨fun h => absurd h hKind.1, fun h => absurd h hKind.2.1, fun h => absurd h hKind.2.2⟩
  split at h
  · have hPlain := plainLexeme_kind c (c :: rest)
    rw [Option.some.inj h] at hPlain
    exact hOther hPlain
  · split at h
    · cases h
      exact hOther (by simp)
    · cases h
    · rename_i hReading
      cases hReading

/-- A text without newlines has no newline among its tokens. -/
theorem kind_ne_newline {start : Nat} {text : List Char} {tokens : List Token}
    (h : scanFrom .strict start text = ⟨tokens, none⟩) (hText : '\n' ∉ text) :
    ∀ t ∈ tokens, t.kind ≠ .newline := by
  induction start, text using scanFrom.induct QuoteReading.strict generalizing tokens with
  | case1 start =>
      rw [scanFrom] at h
      cases h
      simp
  | case2 start c rest hLexeme =>
      rw [scanFrom, hLexeme] at h
      cases h
  | case3 start c rest kind length hLexeme =>
      rename_i token ih
      rw [scanFrom, hLexeme] at h
      simp only [Scan.mk.injEq] at h
      obtain ⟨rfl, hQuote⟩ := h
      rw [List.mem_cons, not_or] at hText
      refine List.forall_mem_cons.2 ⟨fun hKind => hText.1 ?_, ?_⟩
      · exact ((lexeme_start hLexeme).2.1 hKind).symm
      · exact ih (congrArg (Scan.mk _) hQuote) fun hMem => hText.2 (List.mem_of_mem_drop hMem)

/-- A comment takes the rest of its line. -/
theorem meaningful_of_comment {start : Nat} {rest : List Char} {tokens : List Token}
    (h : scanFrom .strict start ('#' :: rest) = ⟨tokens, none⟩) (hLine : '\n' ∉ rest) :
    meaningful tokens = [] := by
  have hAll : ('#' :: rest).takeWhile (· != '\n') = '#' :: rest := by
    have hEach : ∀ c ∈ '#' :: rest, (c != '\n') = true := fun c hc => bne_iff_ne.2 <| by
      rintro rfl
      rcases List.mem_cons.1 hc with hNumber | hRest
      · cases hNumber
      · exact hLine hRest
    rw [← List.append_nil ('#' :: rest), List.takeWhile_append_of_pos hEach, List.takeWhile_nil]
  have hLexeme : lexeme .strict ('#' :: rest) = some (.comment, ('#' :: rest).length) := by
    rw [← congrArg List.length hAll]
    rfl
  have hDrop : rest.drop (('#' :: rest).length - 1) = [] :=
    List.drop_eq_nil_of_le (Nat.le_of_eq (Nat.add_sub_cancel ..).symm)
  rw [scanFrom, hLexeme] at h
  simp only [hDrop] at h
  rw [scanFrom] at h
  cases h
  rfl

/-- The tokens of a line that starts with no blank. -/
theorem exists_first {c : Char} {rest : List Char} {tokens : List Token}
    (h : scanFrom .strict 0 (c :: rest) = ⟨tokens, none⟩) (hBlank : isBlank c = false)
    (hLine : '\n' ∉ c :: rest) :
    meaningful tokens = [] ∨
      c ≠ '#' ∧ ∃ t others, tokens = t :: others ∧ meaningful tokens = t :: meaningful others := by
  rw [List.mem_cons, not_or] at hLine
  by_cases hNumber : c = '#'
  · subst hNumber
    exact Or.inl (meaningful_of_comment h hLine.2)
  right
  rw [scanFrom] at h
  cases hLexeme : lexeme .strict (c :: rest) with
  | none =>
      rw [hLexeme] at h
      cases h
  | some found =>
      obtain ⟨kind, length⟩ := found
      rw [hLexeme] at h
      simp only [Scan.mk.injEq] at h
      obtain ⟨rfl, -⟩ := h
      obtain ⟨hStartBlank, hStartNewline, hStartComment⟩ := lexeme_start hLexeme
      have hKindBlank : kind ≠ .blank := fun hKind => by
        rw [hStartBlank hKind] at hBlank
        cases hBlank
      have hKindNewline : kind ≠ .newline := fun hKind => hLine.1 (hStartNewline hKind).symm
      have hKindComment : kind ≠ .comment := fun hKind => hNumber (hStartComment hKind)
      refine ⟨hNumber, _, _, rfl, ?_⟩
      refine List.filter_cons_of_pos ?_
      simp [Token.isTrivia, hKindComment, hKindBlank, hKindNewline]

namespace CodeBlock

/-! ## First words -/

/-- The word that a text starts with. -/
def firstWord (text : List Char) : Option (List Char) := LogicalLine.word? ⟨0, text, 0⟩

/-- The words that a statement without a body does not start with. -/
def leadingWords : List String :=
  ["pass", "break", "continue", "return", "if", "for", "while", "def", "elif", "else"]

theorem firstToken?_of_scan {text : List Char} {t : Token} {others : List Token}
    {openQuote : Option Nat} (h : scanFrom .strict 0 text = ⟨t :: others, openQuote⟩) :
    firstToken? text = some t := by
  cases text with
  | nil =>
      rw [scanFrom] at h
      cases h
  | cons c rest =>
      rw [scanFrom] at h
      cases hLexeme : lexeme .strict (c :: rest) with
      | none =>
          rw [hLexeme] at h
          cases h
      | some found =>
          rw [hLexeme] at h
          simp only [Scan.mk.injEq, List.cons.injEq] at h
          rw [firstToken?, lexeme_lenient hLexeme, ← h.1.1]
          rfl

theorem firstWord_of_scan {text : List Char} {t : Token} {others : List Token}
    {openQuote : Option Nat} (h : scanFrom .strict 0 text = ⟨t :: others, openQuote⟩) :
    firstWord text = if t.kind = .name then some t.text else none := by
  rw [firstWord, LogicalLine.word?, firstToken?_of_scan h]

/-! ## Balanced lines -/

/-- A fold that counts brackets gives the depth behind the tokens. -/
theorem foldl_of_nesting {count : Int → Token → Int}
    (hCount : ∀ {depth next : Nat} {t : Token}, t.depthAfter depth = some next →
      count depth t = next)
    {tokens : List Token} {depth final : Nat} (h : nesting depth tokens = some final) :
    tokens.foldl count depth = final := by
  induction tokens generalizing depth with
  | nil =>
      cases h
      rfl
  | cons t others ih =>
      rw [nesting, List.foldlM_cons, Option.bind_eq_bind, Option.bind_eq_some_iff] at h
      obtain ⟨next, hStep, hOthers⟩ := h
      rw [List.foldl_cons, hCount hStep]
      exact ih hOthers

/-- The colon at an offset. -/
def colonAt (start : Nat) : Token := ⟨.operator, [':'], start⟩

theorem bracketDepth_of_nesting {text : List Char} {tokens others : List Token}
    (h : scanFrom .strict 0 text = ⟨tokens ++ others, none⟩) {final : Nat}
    (hNest : nesting 0 tokens = some final)
    (hOthers : others = [] ∨ ∃ start, others = [colonAt start]) : bracketDepth text = final := by
  have hTokens : lenientTokens text = tokens ++ others := by
    rw [lenientTokens, scan, scanFrom_lenient h]
  rw [bracketDepth, hTokens, List.foldl_append]
  refine (congrArg (List.foldl _ · others)
    (foldl_of_nesting (fun {depth next t} hStep => ?_) hNest)).trans ?_
  · obtain ⟨kind, text, start⟩ := t
    cases kind with
    | opening =>
        cases hStep
        rfl
    | closing =>
        simp only [Token.depthAfter, Option.ite_none_left_eq_some, Option.some.injEq] at hStep
        show (depth : Int) - 1 = next
        omega
    | operator =>
        simp only [Token.depthAfter, Option.ite_none_left_eq_some, Option.some.injEq] at hStep
        rw [hStep.2]
    | _ =>
        cases hStep
        rfl
  · rcases hOthers with rfl | ⟨start, rfl⟩ <;> rfl

/-- The search for a colon passes over balanced tokens without newlines. -/
theorem headerEnd_append {tokens : List Token} (hNewline : ∀ t ∈ tokens, t.kind ≠ .newline)
    {depth final : Nat} (h : nesting depth tokens = some final) (passed : Nat)
    (others : List Token) :
    headerEnd depth passed (tokens ++ others) =
      headerEnd final (passed + (tokens.flatMap Token.text).length) others := by
  induction tokens generalizing depth passed with
  | nil =>
      cases h
      rfl
  | cons t rest ih =>
      obtain ⟨hKind, hNewline⟩ := List.forall_mem_cons.1 hNewline
      rw [nesting, List.foldlM_cons, Option.bind_eq_bind, Option.bind_eq_some_iff] at h
      obtain ⟨next, hStep, hRest⟩ := h
      have hOthers := ih hNewline hRest (passed + t.text.length)
      rw [List.flatMap_cons, List.length_append, ← Nat.add_assoc, ← hOthers]
      obtain ⟨kind, text, start⟩ := t
      cases kind with
      | newline => exact absurd rfl hKind
      | operator =>
          simp only [Token.depthAfter, Option.ite_none_left_eq_some, Option.some.injEq] at hStep
          obtain ⟨hInside, rfl⟩ := hStep
          exact if_neg hInside
      | closing =>
          simp only [Token.depthAfter, Option.ite_none_left_eq_some, Option.some.injEq] at hStep
          obtain ⟨-, rfl⟩ := hStep
          rfl
      | _ =>
          cases hStep
          rfl

/-! ## Lines that are read -/

open Stencil.Reader

/-- A line whose tokens are balanced: it is not empty, and this is what it starts with. -/
structure IsBalanced (code : List Char) (first : Token) (others : List Token) : Prop where
  line : IsLine code
  scan : scanFrom .strict 0 code = ⟨first :: others, none⟩
  nests : nesting 0 (first :: others) = some 0
  starts : ∃ c rest, code = c :: rest ∧ c ≠ '#'

/-- What is read from a line is read from the tokens it starts with. -/
theorem exists_balanced {α : Type} {reader : Nat → Stencil.Reader α}
    (hLeads : ∀ budget, Leads 0 0 (reader budget))
    (hNil : ∀ budget, Refuses [] (reader budget)) {code : List Char} (hLine : IsLine code)
    {result : α} (hRun : Reader.run reader code = .ok result) :
    ∃ first others budget, IsBalanced code first others ∧
      reader budget (first :: meaningful others) = .ok (result, []) := by
  obtain ⟨tokens, hTokens, hNest⟩ := nesting_of_run hLeads hRun
  have hScan := scanFrom_of_strictTokens hTokens
  rw [Reader.run_eq_ok hTokens] at hRun
  cases code with
  | nil =>
      rw [scanFrom] at hScan
      cases hScan
      exact absurd hRun (hNil _ _)
  | cons c rest =>
      have hBlank := (trim_eq_self_iff.1 hLine.trimmed).1 c rfl
      rcases exists_first hScan hBlank hLine.oneLine with
        hMeaning | ⟨hComment, first, others, rfl, hMeaning⟩
      · rw [hMeaning] at hRun
        exact absurd hRun (hNil _ _)
      rw [hMeaning] at hRun
      exact ⟨first, others, _, ⟨hLine, hScan, hNest, c, rest, rfl, hComment⟩, hRun⟩

section Balanced

variable {code : List Char} {first : Token} {others : List Token}
  (h : IsBalanced code first others)
include h

theorem IsBalanced.isLogical : IsLogical code := by
  have hDepth : bracketDepth code = (0 : Nat) :=
    bracketDepth_of_nesting ((List.append_nil (first :: others)).symm ▸ h.scan) h.nests (.inl rfl)
  refine ⟨h.line.oneLine, h.line.trimmed, ?_, h.starts⟩
  rw [isOpen, hDepth, beq_eq_false_iff_ne.2 h.line.ends]
  rfl

theorem IsBalanced.firstWord :
    firstWord code = if first.kind = .name then some first.text else none :=
  firstWord_of_scan h.scan

end Balanced

/-! ## Statements without a body -/

/-- The line of a statement without a body. -/
structure IsSimple (code : List Char) : Prop where
  logical : IsLogical code
  word : ∀ word ∈ leadingWords, firstWord code ≠ some word.toList

/-- A leading word starts no expression. -/
theorem startsExpression_leading : ∀ word ∈ leadingWords,
    (!isKeyword word.toList || ["not", "True", "False", "None"].any (·.toList == word.toList)) =
      false := by
  decide

/-- A statement without a body starts with an expression. -/
theorem refuses_readSimple {tokens : List Token}
    (hStart : ∀ t ∈ tokens.head?, t.startsExpression = false) (budget : Nat) :
    Refuses tokens (Stencil.readStatement budget) := by
  refine Refuses.bind ?_
  cases budget with
  | zero => exact .unexpected tokens
  | succ budget => exact (refuses_readExpr hStart budget).bind

theorem isSimple_of_read {code : List Char} (h : IsLine code) {statement : Statement}
    (hRead : Statement.read code = .ok statement) : IsSimple code := by
  obtain ⟨first, others, budget, hBalanced, hFirst⟩ :=
    exists_balanced (fun budget => leads_readSimple budget)
      (fun budget => refuses_readSimple (by simp) budget) h hRead
  refine ⟨hBalanced.isLogical, fun word hWord hSame => ?_⟩
  rw [hBalanced.firstWord, Option.ite_none_right_eq_some] at hSame
  obtain ⟨hName, hText⟩ := hSame
  have hStarts : first.startsExpression = false := by
    rw [Token.startsExpression, hName, Option.some.inj hText]
    exact startsExpression_leading word hWord
  refine refuses_readSimple (fun t ht => ?_) budget _ hFirst
  rwa [← Option.some.inj ht]

/-! ## Headers -/

/-- A header that starts with this word, whatever stands behind its colon. -/
structure IsHeader (word : String) (header : List Char) : Prop where
  logical : IsLogical (header ++ [':'])
  word : ∀ more, firstWord (header ++ ':' :: more) = some word.toList
  split : ∀ more, splitHeader (header ++ ':' :: more) = .ok (some (header, more))

theorem refuses_keyword (word : String) : Refuses [] (keyword word) := by
  intro result h
  obtain ⟨found, same, hEat, hWord⟩ := bind_ok h
  cases hEat
  cases hWord

theorem keyword_first {word : String} {α : Type} {f : Unit → Stencil.Reader α} {first : Token}
    {others : List Token} {result : α × List Token}
    (h : (keyword word >>= f) (first :: others) = .ok result) :
    first.kind = .name ∧ first.text = word.toList := by
  obtain ⟨value, middle, hWord, -⟩ := bind_ok h
  cases hName : first.isName word with
  | true => rwa [Token.isName, Bool.and_eq_true, beq_iff_eq, beq_iff_eq] at hName
  | false =>
      obtain ⟨found, same, hEat, hWord⟩ := bind_ok hWord
      have hAny : (first :: others).head?.any (·.isName word) = false := hName
      rw [eat_false hAny] at hEat
      cases hEat
      cases hWord

theorem lexeme_colon (more : List Char) : lexeme .strict (':' :: more) = some (.operator, 1) := by
  cases more <;> simp [lexeme, stringMark?, isQuote, isStringMark, plainLexeme, longOperators,
    show startsName ':' = false by decide]

/-- The tokens of code without comments, of a colon and of what stands behind that. -/
theorem scan_append_colon {text : List Char} {tokens : List Token}
    (h : scanFrom .strict 0 text = ⟨tokens, none⟩) (hComment : ∀ t ∈ tokens, t.kind ≠ .comment)
    (more : List Char) : ∃ start, scanFrom .strict 0 (text ++ ':' :: more) =
      ⟨tokens ++ colonAt start :: (scanFrom .strict (colonAt start).stop more).tokens,
        (scanFrom .strict (colonAt start).stop more).openQuote⟩ := by
  obtain ⟨start, hScan⟩ := scanFrom_append_stop (.inr (.inl rfl)) more 0 h hComment
  have hShift : tokens.map (Token.shift 0) = tokens :=
    List.map_id'' (fun t => congrArg (Token.mk t.kind t.text) (Nat.zero_add t.start)) _
  have hColon : scanFrom .strict start (':' :: more) =
      ⟨colonAt start :: (scanFrom .strict (colonAt start).stop more).tokens,
        (scanFrom .strict (colonAt start).stop more).openQuote⟩ := by
    rw [scanFrom, lexeme_colon]
    rfl
  rw [hColon, hShift] at hScan
  exact ⟨start, hScan⟩

theorem IsBalanced.scan_colon {header : List Char} {first : Token} {others : List Token}
    (h : IsBalanced header first others) (hLine : IsHeaderLine header) (more : List Char) :
    ∃ start, scanFrom .strict 0 (header ++ ':' :: more) =
      ⟨(first :: others) ++ colonAt start :: (scanFrom .strict (colonAt start).stop more).tokens,
        (scanFrom .strict (colonAt start).stop more).openQuote⟩ := by
  have hTokens : strictTokens header = .ok (first :: others) := by
    rw [strictTokens, Stencil.scan, h.scan]
  exact scan_append_colon h.scan (hLine.noComment _ hTokens) more

theorem IsBalanced.isHeader {word : String} {header : List Char} {first : Token}
    {others : List Token} (h : IsBalanced header first others) (hLine : IsHeaderLine header)
    (hWord : first.kind = .name ∧ first.text = word.toList) : IsHeader word header := by
  obtain ⟨c, rest, rfl, hComment⟩ := h.starts
  constructor
  · refine ⟨?_, ?_, ?_, c, rest ++ [':'], rfl, hComment⟩
    · rw [List.mem_append, not_or]
      exact ⟨h.line.oneLine, by decide⟩
    · refine trim_eq_self_iff.2 ⟨(trim_eq_self_iff.1 h.line.trimmed).1, fun d hd => ?_⟩
      rw [List.getLast?_concat] at hd
      cases hd
      rfl
    · obtain ⟨start, hScan⟩ := h.scan_colon hLine []
      rw [scanFrom] at hScan
      have hDepth := bracketDepth_of_nesting hScan h.nests (.inr ⟨start, rfl⟩)
      rw [isOpen, hDepth, List.getLast?_concat]
      rfl
  · intro more
    obtain ⟨start, hScan⟩ := h.scan_colon hLine more
    rw [firstWord_of_scan hScan, if_pos hWord.1, hWord.2]
  · intro more
    obtain ⟨start, hScan⟩ := h.scan_colon hLine more
    have hEnd := headerEnd_append (kind_ne_newline h.scan h.line.oneLine) h.nests 0
      (colonAt start :: (scanFrom .strict (colonAt start).stop more).tokens)
    have hColon : headerEnd 0 0 ((first :: others) ++
        colonAt start :: (scanFrom .strict (colonAt start).stop more).tokens) =
          .colon (c :: rest).length := by
      rw [hEnd, flatMap_text_of_scan h.scan, Nat.zero_add]
      rfl
    have hDrop : (c :: rest ++ ':' :: more).drop ((c :: rest).length + 1) = more := by
      rw [← List.drop_drop, List.drop_left]
      rfl
    rw [splitHeader, Stencil.scan, hScan]
    simp only [hColon, hDrop, List.take_left, trimEnd_eq_self h.line.trimmed]

/-! ## Codes of each kind -/

/-- A name at the end of a line ends there. -/
theorem lexeme_name_newline {c : Char} {rest : List Char} {length : Nat}
    (h : lexeme .strict (c :: rest) = some (.name, length)) (more : List Char) :
    lexeme .lenient (c :: (rest ++ '\n' :: more)) = some (.name, length) := by
  have hName : nameLength (c :: (rest ++ '\n' :: more)) = nameLength (c :: rest) :=
    congrArg List.length (takeWhile_append_stop more (by decide) (c :: rest))
  simp only [lexeme] at h ⊢
  split at h
  · cases h
  rw [if_neg ‹_›]
  split at h
  · cases h
  rw [if_neg ‹_›]
  split at h
  · cases h
  rw [if_neg ‹_›]
  split at h
  · rename_i hMark
    have hMark : stringMark? (c :: (rest ++ '\n' :: more)) = none := by
      cases rest with
      | nil =>
          simp only [stringMark?] at hMark
          split at hMark
          · cases hMark
          · rename_i hQuote
            have hNewline : isQuote '\n' = false := by decide
            simp only [List.nil_append, stringMark?, if_neg hQuote, hNewline, Bool.and_false,
              Bool.false_eq_true, if_false]
      | cons d others => exact hMark
    have hStarts : startsName c = true := by
      have hKind : (plainLexeme c (c :: rest)).1 = .name := congrArg Prod.fst (Option.some.inj h)
      unfold plainLexeme at hKind
      split at hKind
      · assumption
      · repeat' split at hKind
        all_goals cases hKind
    rw [plainLexeme, if_pos hStarts] at h
    simp only [hMark, plainLexeme, if_pos hStarts, hName]
    exact h
  · split at h
    · cases h
    · cases h
    · rename_i hReading
      cases hReading

theorem IsBalanced.firstWord_newline {code : List Char} {first : Token} {others : List Token}
    (h : IsBalanced code first others) (hName : first.kind = .name) (more : List Char) :
    CodeBlock.firstWord (code ++ '\n' :: more) = some first.text := by
  obtain ⟨c, rest, rfl, -⟩ := h.starts
  have hScan := h.scan
  rw [scanFrom] at hScan
  cases hLexeme : lexeme .strict (c :: rest) with
  | none =>
      rw [hLexeme] at hScan
      cases hScan
  | some found =>
      obtain ⟨kind, length⟩ := found
      have hLength := lexeme_le hLexeme
      rw [hLexeme] at hScan
      simp only [Scan.mk.injEq, List.cons.injEq] at hScan
      obtain ⟨⟨rfl, -⟩, -⟩ := hScan
      cases hName
      have hTake : (rest ++ '\n' :: more).take (length - 1) = rest.take (length - 1) :=
        List.take_append_of_le_length (by omega)
      rw [CodeBlock.firstWord, LogicalLine.word?, List.cons_append, firstToken?,
        lexeme_name_newline hLexeme more]
      simp only [Option.map_some, if_true, hTake]

theorem isLogical_of_readReturn {code : List Char} (h : IsLine code) {value : Option Expr}
    (hRead : Expr.readReturn code = .ok value) :
    IsLogical code ∧ firstWord code = some "return".toList ∧
      ∀ more, firstWord (code ++ '\n' :: more) = some "return".toList := by
  obtain ⟨first, others, budget, hBalanced, hFirst⟩ := exists_balanced
    (fun budget => (Leads.keyword "return").bind fun _ => Leads.peek.bind fun next => by
      cases next with
      | none => exact .pure _
      | some t => exact (readersNest budget).tuple.map)
    (fun _ => (refuses_keyword "return").bind) h hRead
  obtain ⟨hName, hText⟩ := keyword_first hFirst
  refine ⟨hBalanced.isLogical, ?_, fun more => ?_⟩
  · rw [hBalanced.firstWord, if_pos hName, hText]
  · rw [hBalanced.firstWord_newline hName, hText]

/-- What is read after a keyword is the header of that keyword. -/
theorem isHeader_of_run {α : Type} {word : String} {f : Nat → Unit → Stencil.Reader α}
    (hLeads : ∀ budget, Leads 0 0 (f budget ())) {header : List Char}
    (h : IsHeaderLine header) {result : α}
    (hRun : Reader.run (fun budget => keyword word >>= f budget) header = .ok result) :
    IsHeader word header := by
  obtain ⟨first, others, budget, hBalanced, hFirst⟩ := exists_balanced
    (fun budget => (Leads.keyword word).bind fun _ => hLeads budget)
    (fun _ => (refuses_keyword word).bind) h.toIsLine hRun
  exact hBalanced.isHeader h (keyword_first hFirst)

theorem isHeader_of_readAfter {header : List Char} (h : IsHeaderLine header) {word : String}
    {test : Expr} (hRead : Expr.readAfter word header = .ok test) : IsHeader word header :=
  isHeader_of_run (fun budget => (readersNest budget).tuple) h hRead

theorem isHeader_of_readForHeader {header : List Char} (h : IsHeaderLine header)
    {read : Target × Expr} (hRead : readForHeader header = .ok read) : IsHeader "for" header :=
  isHeader_of_run (fun budget => (targetsNest budget).targets.bind fun _ =>
    (Leads.keyword "in").bind fun _ => (readersNest budget).tuple.bind fun _ => .pure _) h hRead

theorem isHeader_of_readDefinitionHeader {header : List Char} (h : IsHeaderLine header)
    {read : String × List Parameter} (hRead : readDefinitionHeader header = .ok read) :
    IsHeader "def" header := by
  refine isHeader_of_run (fun budget => Leads.identifier.bind fun name => ?_) h hRead
  refine .eat_bind (steps_opens '(') ?_ (.fail _)
  exact (leads_readParametersAfter true budget []).bind fun parameters =>
    (Leads.close ')').bind fun _ => .pure _

theorem isHeader_else : IsHeader "else" elseWord := by
  have hScan : scanFrom .strict 0 elseWord = ⟨[⟨.name, elseWord, 0⟩], none⟩ := by decide +kernel
  have hLine : IsHeaderLine elseWord := by
    refine ⟨⟨by decide, by decide, by decide⟩, fun tokens h => ?_⟩
    rw [strictTokens, Stencil.scan, hScan] at h
    cases h
    exact List.forall_mem_singleton.2 (by decide)
  have hBalanced : IsBalanced elseWord ⟨.name, elseWord, 0⟩ [] :=
    ⟨hLine.toIsLine, hScan, rfl, 'e', "lse".toList, rfl, by decide⟩
  exact hBalanced.isHeader hLine ⟨rfl, rfl⟩

end CodeBlock

end Stencil
