import Stencil.Proofs.Indentation.Glyphs
import Stencil.Proofs.Quoting
import Stencil.Proofs.Writing.Lexing

/-!
# Output variables

An output variable is set to the text behind the colon of its line, or to the lines that are
indented below. The reader tells the two apart by the tokens of the line, although the text is no
code. To the grammar of expressions a number sign starts a comment, so a text that starts with one
is not seen: the line is read as if nothing stood behind its colon.

The lines below are those that are indented by a whole step. A block is content with less: it takes
as its step what its first line has. So a region whose first line is less than a step deeper than
the header is the body of a block, but an output variable leaves it in the text behind it.

Whichever way the lines were found, the variable is set to the texts of their pieces, one after
another, and what was rendered before stays as it was.

## Main results

* `readVar_eq`: what is read from the line of an output variable.
* `variable_region`: when the region below it is the one that a block takes there.
* `execute_fragment`: what the variable is set to.
* `variable_line_is_exact`, `readVar_unseen`: the whole way of a text that is seen, and of one that
  is not.
-/

namespace Stencil

open Stencil.Text

/-! ## The line of an output variable -/

/-- The words before the text of an output variable. -/
def variableWords (name : List Char) : List Word :=
  [.name "var", .space, ⟨.name, name⟩, .operator ":"]

/-- What stands behind the sigil of an output variable, up to the end of its text. -/
def variableLine (name text : List Char) : List Char := writeWords (variableWords name) ++ text

/-- A space or a tab. -/
def isGap (c : Char) : Bool := c == ' ' || c == '\t'

/-- Do the tokens of the text hold nothing that counts? It starts with a number sign then, or has
nothing but spaces and tabs. -/
def isUnseen (text : List Char) : Bool := (text.dropWhile isGap).head?.all (· == '#')

/-- Words in front of a text are the first tokens of both. -/
theorem scanFrom_words {words : List Word} {more : List Char} (h : Scans words more)
    (start : Nat) : (scanFrom .lenient start (writeWords words ++ more)).tokens =
      tokensFrom start words ++
        (scanFrom .lenient (start + byteLength (writeWords words)) more).tokens := by
  induction words generalizing start with
  | nil => rfl
  | cons word words ih =>
      obtain ⟨⟨hLexeme, hNonempty⟩, hWords⟩ := scans_cons.1 h
      have hStop := Nat.add_assoc start (byteLength word.text) (byteLength (writeWords words))
      rw [← byteLength_append, ← writeWords_cons] at hStop
      obtain ⟨kind, text⟩ := word
      cases text with
      | nil => exact absurd rfl hNonempty
      | cons c rest =>
          have hText : writeWords (⟨kind, c :: rest⟩ :: words) ++ more =
              c :: (rest ++ (writeWords words ++ more)) := List.append_assoc ..
          have hTake : (rest ++ (writeWords words ++ more)).take ((c :: rest).length - 1) = rest :=
            List.take_left
          have hDrop : (rest ++ (writeWords words ++ more)).drop ((c :: rest).length - 1) =
              writeWords words ++ more := List.drop_left
          have hLenient := lexeme_lenient hLexeme
          rw [List.cons_append] at hLenient
          rw [← hStop, hText, scanFrom, hLenient]
          simp only [hTake, hDrop, Token.stop, ih hWords, tokensFrom, List.cons_append]

section Tokens

variable {name text : List Char}

theorem isNameText_var : IsNameText "var".toList :=
  ⟨'v', "ar".toList, rfl, by decide, List.all_eq_true.1 (by decide)⟩

theorem scans_variableWords (hName : IsNameText name) (text : List Char) :
    Scans (variableWords name) text := by
  obtain ⟨c, rest, rfl, hStart, hRest⟩ := hName
  have hNot {d : Char} (hd : continuesName d = false) : c ≠ d :=
    ne_of_continuesName (continuesName_of_startsName hStart) hd
  have hGap : NoHead (fun d => d == ' ' || d == '\t') (c :: rest ++ ':' :: text) := by
    refine .cons ?_ _
    simp only [beq_false_of_ne (hNot (show continuesName ' ' = false by decide)),
      beq_false_of_ne (hNot (show continuesName '\t' = false by decide)), Bool.or_self]
  refine ⟨?_, Word.scansBefore_space hGap, ⟨?_, List.cons_ne_nil c rest⟩,
    ⟨lexeme_plain (by decide) text, List.cons_ne_nil _ _⟩, trivial⟩
  · exact Word.scansBefore_name isNameText_var (.cons (by decide) _)
  · exact lexeme_name ⟨c, rest, rfl, hStart, hRest⟩ (.cons (by decide) _)

/-- A token that starts with a character of no blank counts. -/
theorem lexeme_lenient_kind {c : Char} {rest : List Char} {kind : TokenKind} {length : Nat}
    (h : lexeme .lenient (c :: rest) = some (kind, length)) (hGap : isGap c = false)
    (hNewline : c ≠ '\n') (hNumber : c ≠ '#') :
    kind ≠ .blank ∧ kind ≠ .newline ∧ kind ≠ .comment := by
  have hBlank : ¬ (c = ' ' ∨ c = '\t') := by simpa [isGap] using hGap
  simp only [lexeme, if_neg hBlank, if_neg hNewline, if_neg hNumber] at h
  split at h
  · have hPlain := plainLexeme_kind c (c :: rest)
    rwa [Option.some.inj h] at hPlain
  · split at h
    · cases h
      simp
    · cases h
    · split at h <;> cases h <;> simp

theorem scanFrom_cons {c : Char} {rest : List Char} {kind : TokenKind} {length : Nat}
    (h : lexeme .lenient (c :: rest) = some (kind, length)) (start : Nat) :
    ∃ next, (scanFrom .lenient start (c :: rest)).tokens =
      ⟨kind, c :: rest.take (length - 1), start⟩ ::
        (scanFrom .lenient next (rest.drop (length - 1))).tokens := by
  rw [scanFrom, h]
  exact ⟨_, rfl⟩

/-- Spaces and tabs before a text do not count. -/
theorem filter_scanFrom_gap (text : List Char) (start : Nat) :
    ∃ next, (scanFrom .lenient start text).tokens.filter (!·.isTrivia) =
      (scanFrom .lenient next (text.dropWhile isGap)).tokens.filter (!·.isTrivia) := by
  cases text with
  | nil => exact ⟨start, rfl⟩
  | cons c rest =>
      by_cases hGap : isGap c = true
      · have hBlank : c = ' ' ∨ c = '\t' := by simpa [isGap] using hGap
        have hTake : (c :: rest).takeWhile isGap = c :: rest.takeWhile isGap :=
          List.takeWhile_cons_of_pos hGap
        have hLexeme : lexeme .lenient (c :: rest) =
            some (.blank, (rest.takeWhile isGap).length + 1) := by
          rw [← List.length_cons, ← hTake, lexeme, if_pos hBlank]
          rfl
        have hDrop : rest.drop (rest.takeWhile isGap).length = rest.dropWhile isGap := by
          conv => lhs; arg 2; rw [← List.takeWhile_append_dropWhile (p := isGap) (l := rest)]
          exact List.drop_left
        obtain ⟨next, hTokens⟩ := scanFrom_cons hLexeme start
        rw [Nat.add_sub_cancel, hDrop] at hTokens
        refine ⟨next, ?_⟩
        rw [hTokens, List.dropWhile_cons_of_pos hGap]
        exact List.filter_cons_of_neg (by simp [Token.isTrivia])
      · rw [List.dropWhile_cons_of_neg hGap]
        exact ⟨start, rfl⟩

theorem filter_scanFrom_newline (start : Nat) :
    (scanFrom .lenient start ['\n']).tokens.filter (!·.isTrivia) =
      [⟨.newline, ['\n'], start⟩] := by
  obtain ⟨next, hTokens⟩ := scanFrom_cons (show lexeme .lenient ['\n'] = _ from rfl) start
  rw [hTokens, List.drop_nil, scanFrom]
  rfl

/-- The first token that counts is the newline exactly for a text that is not seen. -/
theorem exists_meaningful (hLine : '\n' ∉ text) (start : Nat) : ∃ value others,
    (scanFrom .lenient start (text ++ ['\n'])).tokens.filter (!·.isTrivia) = value :: others ∧
      (value.kind = .newline ↔ isUnseen text = true) := by
  obtain ⟨next, hFilter⟩ := filter_scanFrom_gap (text ++ ['\n']) start
  have hDrop : (text ++ ['\n']).dropWhile isGap = text.dropWhile isGap ++ ['\n'] := by
    rw [List.dropWhile_append]
    split
    · rename_i hNone
      rw [List.isEmpty_iff.1 hNone]
      rfl
    · rfl
  rw [hFilter, hDrop, isUnseen]
  have hHead := head?_dropWhile isGap text
  have hOne : '\n' ∉ text.dropWhile isGap :=
    fun hMem => hLine ((List.dropWhile_sublist isGap).mem hMem)
  cases hBody : text.dropWhile isGap with
  | nil => exact ⟨_, _, filter_scanFrom_newline next, by simp⟩
  | cons c rest =>
      rw [hBody] at hHead hOne
      rw [List.mem_cons, not_or] at hOne
      by_cases hNumber : c = '#'
      · subst hNumber
        have hRun : ('#' :: (rest ++ ['\n'])).takeWhile (· != '\n') = '#' :: rest := by
          rw [← List.cons_append]
          have hEach : ∀ d ∈ rest, (d != '\n') = true :=
            fun d hd => bne_iff_ne.2 fun hSame => hOne.2 (hSame ▸ hd)
          exact takeWhile_append_noHead _ (List.forall_mem_cons.2 ⟨rfl, hEach⟩) (.cons rfl _)
        have hLexeme : lexeme .lenient ('#' :: (rest ++ ['\n'])) =
            some (.comment, rest.length + 1) := by
          rw [← List.length_cons, ← hRun]
          rfl
        obtain ⟨after, hTokens⟩ := scanFrom_cons hLexeme next
        rw [Nat.add_sub_cancel, List.drop_left] at hTokens
        refine ⟨⟨.newline, ['\n'], after⟩, [], ?_, by simp⟩
        rw [List.cons_append, hTokens, List.filter_cons_of_neg (by simp [Token.isTrivia])]
        exact filter_scanFrom_newline after
      · obtain ⟨⟨kind, length⟩, hLexeme⟩ :=
          Option.isSome_iff_exists.1 (lexeme_lenient_isSome c (rest ++ ['\n']))
        obtain ⟨hBlank, hNewline, hComment⟩ :=
          lexeme_lenient_kind hLexeme (hHead c rfl) (Ne.symm hOne.1) hNumber
        obtain ⟨after, hTokens⟩ := scanFrom_cons hLexeme next
        have hCounts (t : Token) (ht : t.kind = kind) : (!t.isTrivia) = true := by
          simp [Token.isTrivia, ht, hBlank, hComment]
        have hFirst {text : List Char} {rest : List Token} :
            (⟨kind, text, next⟩ :: rest : List Token).filter (!·.isTrivia) =
              ⟨kind, text, next⟩ :: rest.filter (!·.isTrivia) :=
          List.filter_cons_of_pos (hCounts _ rfl)
        rw [List.cons_append, hTokens, hFirst]
        exact ⟨_, _, rfl, by simp [hNewline, hNumber]⟩

end Tokens

/-! ## Both forms -/

section Forms

variable {name text : List Char}

theorem IsNameText.oneLine (h : IsNameText name) : '\n' ∉ name := by
  obtain ⟨c, rest, rfl, hStart, hRest⟩ := h
  have hAll : ∀ d ∈ c :: rest, continuesName d = true :=
    List.forall_mem_cons.2 ⟨continuesName_of_startsName hStart, hRest⟩
  exact fun hMem => absurd (hAll _ hMem) (by decide)

theorem variableLine_oneLine (hName : IsNameText name) (hLine : '\n' ∉ text) :
    '\n' ∉ variableLine name text := by
  simp only [variableLine, variableWords, writeWords_cons, writeWords_nil, List.mem_append,
    Word.name, Word.space, Word.operator, hLine, hName.oneLine, or_false, false_or, not_or]
  decide

/-- The tokens of the line: those of its words, and those of the text. -/
theorem lenientTokens_variableLine (hName : IsNameText name) (text : List Char) :
    lenientTokens (variableLine name text) =
      ⟨.name, "var".toList, 0⟩ :: ⟨.blank, [' '], 3⟩ :: ⟨.name, name, 4⟩ ::
        ⟨.operator, [':'], 4 + byteLength name⟩ ::
          (scanFrom .lenient (5 + byteLength name) text).tokens := by
  have hTokens := scanFrom_words (scans_variableWords hName text) 0
  have hLength : 0 + byteLength (writeWords (variableWords name)) = 5 + byteLength name := by
    simp only [variableWords, writeWords_cons, writeWords_nil, byteLength_append, byteLength_nil]
    show 0 + (3 + (1 + (byteLength name + (1 + 0)))) = _
    omega
  rw [hLength] at hTokens
  exact hTokens

/-- The text behind the colon. -/
theorem flatMap_text_behind (hName : IsNameText name) (text : List Char) :
    ((lenientTokens (variableLine name text)).dropWhile
      (·.start ≤ 4 + byteLength name)).flatMap Token.text = text := by
  have hPassed (rest : List Token) : (⟨.name, "var".toList, 0⟩ :: ⟨.blank, [' '], 3⟩ ::
      ⟨.name, name, 4⟩ :: ⟨.operator, [':'], 4 + byteLength name⟩ :: rest : List Token).dropWhile
        (·.start ≤ 4 + byteLength name) = rest.dropWhile (·.start ≤ 4 + byteLength name) := by
    have hSpace : 3 ≤ 4 + byteLength name := by omega
    simp [hSpace]
  have hText := flatMap_text_scanFrom (5 + byteLength name) text
  rw [lenientTokens_variableLine hName, hPassed]
  cases text with
  | nil =>
      rw [scanFrom]
      rfl
  | cons c rest =>
      obtain ⟨⟨kind, length⟩, hLexeme⟩ :=
        Option.isSome_iff_exists.1 (lexeme_lenient_isSome c rest)
      obtain ⟨next, hTokens⟩ := scanFrom_cons hLexeme (5 + byteLength name)
      have hBehind : ¬ 5 + byteLength name ≤ 4 + byteLength name := by omega
      rw [hTokens] at hText ⊢
      rw [List.dropWhile_cons_of_neg (by simp [hBehind])]
      exact hText

/-- A line without a text, or with one that is not seen, takes the region below. Any other line is
the text alone. -/
theorem readVar_eq (number indent : Nat) (hName : IsNameText name) (hBody : name ≠ "body".toList)
    (hLine : '\n' ∉ text) (more : List Char) :
    readVar number indent (variableLine name text ++ '\n' :: more) =
      if isUnseen text then
        let below := region (indent + indentStep) more
        (fun lines => (.varFragment number (String.ofList name) lines,
          number + 1 + below.newlines, below.rest)) <$>
            readFragment (number + 1) (lines below.body)
      else
        (fun only => (.varFragment number (String.ofList name) [only], number + 1, more)) <$>
          readLine number (trim text) := by
  have hVariable := variableLine_oneLine hName hLine
  have hSplit := splitLine_append_newline hVariable more
  have hContent : variableLine name text ++ ['\n'] = variableLine name (text ++ ['\n']) :=
    List.append_assoc ..
  obtain ⟨value, others, hValue, hNewline⟩ := exists_meaningful hLine (5 + byteLength name)
  have hMeaningful : (lenientTokens (variableLine name (text ++ ['\n']))).filter (!·.isTrivia) =
      ⟨.name, "var".toList, 0⟩ :: ⟨.name, name, 4⟩ :: ⟨.operator, [':'], 4 + byteLength name⟩ ::
        value :: others := by
    rw [lenientTokens_variableLine hName, ← hValue]
    rfl
  have hText := flatMap_text_behind hName (text ++ ['\n'])
  have hCount : countNewlines (variableLine name (text ++ ['\n'])) = 1 := by
    rw [← hContent, countNewlines_line hVariable]
  rw [hContent] at hSplit
  unfold readVar
  simp only [hSplit, hMeaningful, hText, hCount, trim_append_newline]
  have hWidth : indent + indentStep ≠ 0 := Nat.succ_ne_zero _
  rw [if_neg (by simp), if_neg hBody, if_neg (by simp [Token.isOperator]),
    if_neg (by simp [Token.isOperator]), indentedBlock_of_pos hWidth]
  by_cases hUnseen : isUnseen text = true
  · rw [if_pos (hNewline.2 hUnseen), if_pos hUnseen]
    cases readFragment (number + 1) (lines (region (indent + indentStep) more).body) <;> rfl
  · rw [if_neg (mt hNewline.1 hUnseen), if_neg hUnseen]
    cases readLine number (trim text) <;> rfl

theorem firstWord_name {word : List Char} (hWord : IsNameText word) {more : List Char}
    (hMore : NoHead extendsName more) : CodeBlock.firstWord (word ++ more) = some word := by
  have hLexeme := lexeme_lenient (lexeme_name hWord hMore)
  obtain ⟨c, rest, rfl, -⟩ := hWord
  have hTake : (rest ++ more).take ((c :: rest).length - 1) = rest := List.take_left
  rw [List.cons_append] at hLexeme ⊢
  rw [CodeBlock.firstWord, CodeBlock.LogicalLine.word?, firstToken?, hLexeme]
  simp only [Option.map_some, hTake]
  rfl

/-- The line is read as that of an output variable at every indentation. -/
theorem readEntry_variableLine (number indent : Nat) (more : List Char) :
    readEntry (List.replicate indent ' ' ++ '$' :: variableLine name more) number =
      (fun found => (.whole found.1, found.2.1, found.2.2)) <$>
        readVar number indent (variableLine name more) := by
  have hDrop : dropSpaces (List.replicate indent ' ' ++ '$' :: variableLine name more) =
      '$' :: variableLine name more := dropSpaces_replicate indent (by simp)
  have hSpaces : leadingSpaces (List.replicate indent ' ' ++ '$' :: variableLine name more) =
      indent := leadingSpaces_replicate indent (by simp)
  have hDirective : Directive.of? (variableLine name more) = some .var := by
    have hWord : CodeBlock.firstWord (variableLine name more) = some "var".toList :=
      firstWord_name isNameText_var (.cons (by decide) _)
    rw [directive_of?_word hWord]
    rfl
  unfold readEntry
  rw [hDrop]
  simp only [hSpaces, hDirective]
  cases readVar number indent (variableLine name more) <;> rfl

end Forms

/-! ## The region below -/

section Regions

variable {indent width : Nat} {text : List Char}

/-- Only blank lines belong to a region that is wider than the first line which is not blank. -/
theorem takeWhile_belongsTo {rows : List (List Char)}
    (h : ∀ row ∈ rows.find? (!allBlank ·), leadingSpaces row < width) :
    rows.takeWhile (belongsTo width) = rows.takeWhile allBlank := by
  induction rows with
  | nil => rfl
  | cons row rest ih =>
      cases hBlank : allBlank row with
      | true =>
          rw [List.find?_cons_of_neg (by simp [hBlank])] at h
          rw [List.takeWhile_cons_of_pos (by simp [belongsTo, hBlank]),
            List.takeWhile_cons_of_pos hBlank, ih h]
      | false =>
          rw [List.find?_cons_of_pos (by simp [hBlank])] at h
          have hRow := h row rfl
          rw [List.takeWhile_cons_of_neg (by simp [belongsTo, hBlank]; omega),
            List.takeWhile_cons_of_neg (by simp [hBlank])]

theorem dropWhile_belongsTo {rows : List (List Char)}
    (h : ∀ row ∈ rows.find? (!allBlank ·), leadingSpaces row < width) :
    rows.dropWhile (belongsTo width) = rows.dropWhile allBlank := by
  have hBoth := List.takeWhile_append_dropWhile (p := belongsTo width) (l := rows)
  conv at hBoth => rhs; rw [← List.takeWhile_append_dropWhile (p := allBlank) (l := rows)]
  rw [takeWhile_belongsTo h] at hBoth
  exact List.append_cancel_left hBoth

/-- A region that is wider than the first line which is not blank ends before that line. -/
theorem region_of_shallow (h : firstIndent text < width) :
    (region width text).body =
        written (List.replicate ((splitLines text).takeWhile allBlank).length []) ∧
      (region width text).rest = ((splitLines text).dropWhile allBlank).flatten := by
  have hFirst : ∀ row ∈ (splitLines text).find? (!allBlank ·), leadingSpaces row < width := by
    intro row hRow
    rw [firstIndent_eq, Option.mem_def.1 hRow] at h
    exact h
  rw [body_region, rest_region, takeWhile_belongsTo hFirst, dropWhile_belongsTo hFirst]
  refine ⟨?_, rfl⟩
  have hAll : ∀ row ∈ (splitLines text).takeWhile allBlank, unindent width row = ['\n'] :=
    fun row hRow => if_pos (List.all_eq_true.1 List.all_takeWhile row hRow)
  generalize (splitLines text).takeWhile allBlank = rows at hAll ⊢
  induction rows with
  | nil => rfl
  | cons row rest ih =>
      obtain ⟨hRow, hRest⟩ := List.forall_mem_cons.1 hAll
      rw [List.flatMap_cons, hRow, ih hRest, List.length_cons, List.replicate_succ, written_cons]
      rfl

/-- The lines that a region takes in front of that line are not empty. -/
theorem rest_of_deep (h : width ≤ firstIndent text) (hSome : 0 < firstIndent text) :
    (region width text).rest.length < ((splitLines text).dropWhile allBlank).flatten.length := by
  rw [rest_region]
  rw [firstIndent_eq] at h hSome
  have hNonempty : ∀ row ∈ splitLines text, row ≠ [] := fun row => ne_nil_of_mem_splitLines
  generalize splitLines text = rows at h hSome hNonempty ⊢
  induction rows with
  | nil => cases hSome
  | cons row rest ih =>
      obtain ⟨hRow, hRest⟩ := List.forall_mem_cons.1 hNonempty
      cases hBlank : allBlank row with
      | true =>
          rw [List.find?_cons_of_neg (by simp [hBlank])] at h hSome
          rw [List.dropWhile_cons_of_pos (by simp [belongsTo, hBlank]),
            List.dropWhile_cons_of_pos hBlank]
          exact ih h hSome hRest
      | false =>
          rw [List.find?_cons_of_pos (by simp [hBlank])] at h
          have hWhole := congrArg (fun rows => rows.flatten.length)
            (List.takeWhile_append_dropWhile (p := belongsTo width) (l := rest))
          simp only [List.flatten_append, List.length_append] at hWhole
          have hLength := List.length_pos_iff.2 hRow
          rw [List.dropWhile_cons_of_pos (by simpa [belongsTo, hBlank] using h),
            List.dropWhile_cons_of_neg (by simp [hBlank]), List.flatten_cons, List.length_append]
          omega

/-- The body of a block below its header. -/
theorem readBlock_below (number : Nat) (most : Nat → Nat) {head header remainder : List Char}
    (hLine : '\n' ∉ head) (hSplit : splitHeader (head ++ ['\n']) = .ok (some (header, remainder)))
    (hBlank : allBlank remainder = true) (hDeeper : indent < firstIndent text) :
    readBlock number indent most (head ++ '\n' :: text) =
      let below := indentedBlock (indent + most (firstIndent text - indent)) text
      .ok ⟨header, below.body, number + 1, number + 1 + below.newlines, below.rest⟩ := by
  have hDepth : firstIndent text - indent ≠ 0 := by omega
  unfold readBlock
  simp only [splitLine_append_newline hLine, hSplit, hBlank, if_true, if_neg hDepth,
    countNewlines_line hLine]

theorem readFragment_blank (number count : Nat) :
    ∃ content, readFragment number (List.replicate count []) = .ok content ∧
      content.map TextLine.pieces = List.replicate count [.text ['\n']] := by
  induction count generalizing number with
  | zero => exact ⟨[], rfl, rfl⟩
  | succ count ih =>
      obtain ⟨content, hContent, hPieces⟩ := ih (number + 1)
      have hLine : readLine number [] = .ok ⟨number, []⟩ := by
        rw [readLine, readPieces]
      refine ⟨⟨number, [.text ['\n']]⟩ :: content, ?_, ?_⟩
      · rw [List.replicate_succ, readFragment, hLine, hContent]
        rfl
      · rw [List.map_cons, hPieces]
        rfl

/-- An output variable takes the region that a block takes at the same place when the first line of
the region is a whole step deeper than the header. Else it takes none of the lines that are not
blank: they stay in the text behind it. -/
theorem variable_region {number : Nat} {name unseen head header remainder : List Char}
    (hName : IsNameText name) (hBody : name ≠ "body".toList) (hUnseen : isUnseen unseen = true)
    (hOneLine : '\n' ∉ unseen) (hLine : '\n' ∉ head)
    (hSplit : splitHeader (head ++ ['\n']) = .ok (some (header, remainder)))
    (hBlank : allBlank remainder = true) (hDeeper : indent < firstIndent text) :
    ∃ block, readBlock number indent (min · indentStep) (head ++ '\n' :: text) = .ok block ∧
      (indent + indentStep ≤ firstIndent text →
        readVar number indent (variableLine name unseen ++ '\n' :: text) =
          (fun content => (.varFragment number (String.ofList name) content, block.next,
            block.rest)) <$> readFragment block.bodyLine (lines block.body)) ∧
      (firstIndent text < indent + indentStep → ∃ content next rest,
        readVar number indent (variableLine name unseen ++ '\n' :: text) =
          .ok (.varFragment number (String.ofList name) content, next, rest) ∧
        (∀ line ∈ content, line.pieces = [.text ['\n']]) ∧
        rest = ((splitLines text).dropWhile allBlank).flatten ∧
        block.rest.length < rest.length) := by
  have hRead := readVar_eq number indent hName hBody hOneLine text
  rw [if_pos hUnseen] at hRead
  have hWidth : indent + min (firstIndent text - indent) indentStep ≠ 0 := by
    have hStep : 0 < indentStep := by decide
    omega
  have hBlock := readBlock_below number (min · indentStep) hLine hSplit hBlank hDeeper
  rw [indentedBlock_of_pos hWidth] at hBlock
  refine ⟨_, hBlock, fun hDeep => ?_, fun hShallow => ?_⟩
  · rw [hRead, show min (firstIndent text - indent) indentStep = indentStep by omega]
  · obtain ⟨hTaken, hRest⟩ := region_of_shallow hShallow
    obtain ⟨content, hContent, hPieces⟩ :=
      readFragment_blank (number + 1) ((splitLines text).takeWhile allBlank).length
    simp only [hTaken] at hRead
    rw [lines_written, hContent] at hRead
    · refine ⟨content, _, _, hRead, fun line hMem => ?_, hRest, ?_⟩
      · have hMem := List.mem_map_of_mem (f := TextLine.pieces) hMem
        rw [hPieces] at hMem
        exact List.eq_of_mem_replicate hMem
      · rw [hRest]
        exact rest_of_deep (by omega) (by omega)
    · intro line hMem
      rw [List.eq_of_mem_replicate hMem]
      simp

end Regions

/-! ## What is set -/

section Running

variable (services : Services) (scene : Scene)

/-- The texts of pieces, each one rendered after those before it. Code that does not compile has
none. -/
def renderPieces (out : Rendering Value) : List Piece → Run (List String)
  | [] => return []
  | .text content :: rest => do
      let texts ← renderPieces (out.push (String.ofList content)) rest
      return String.ofList content :: texts
  | .expression code escape :: rest =>
      match Expr.read code with
      | .error _ => renderPieces out rest
      | .ok tree => do
          let value ← tree.evaluate services scene out
          let text := scene.shown value escape
          let texts ← renderPieces (out.push text) rest
          return text :: texts

theorem renderPieces_append (out : Rendering Value) (first second : List Piece) :
    renderPieces services scene out (first ++ second) = do
      let texts ← renderPieces services scene out first
      let others ← renderPieces services scene (out.push (String.join texts)) second
      return texts ++ others := by
  induction first generalizing out with
  | nil =>
      show renderPieces services scene out second =
        (renderPieces services scene (out.push "") second >>= fun others => pure others)
      rw [Rendering.push_empty, bind_pure]
  | cons piece rest ih =>
      cases piece with
      | text content =>
          simp only [List.cons_append, renderPieces, ih, bind_assoc, pure_bind, String.join_cons,
            Rendering.push_append]
      | expression code escape =>
          cases hCode : Expr.read code with
          | error fault => simp only [List.cons_append, renderPieces, hCode, ih]
          | ok tree =>
              simp only [List.cons_append, renderPieces, hCode, ih, bind_assoc, pure_bind,
                String.join_cons, Rendering.push_append]

end Running

/-- Instructions that render the texts of these pieces, whatever comes behind them. -/
def Renders (pieces : List Piece) (instrs : List Instr) : Prop :=
  ∀ services scene out rest, executeAll services scene out (instrs ++ rest) = do
    let texts ← renderPieces services scene out pieces
    executeAll services scene (out.push (String.join texts)) rest

theorem Renders.nil : Renders [] [] := fun services scene out rest =>
  congrArg (executeAll services scene · rest) (Rendering.push_empty out).symm

theorem Renders.append {first second : List Piece} {instrs others : List Instr}
    (h : Renders first instrs) (h' : Renders second others) :
    Renders (first ++ second) (instrs ++ others) := by
  intro services scene out rest
  rw [List.append_assoc, h, renderPieces_append, bind_assoc]
  refine bind_congr fun texts => ?_
  rw [h', bind_assoc]
  refine bind_congr fun more => ?_
  rw [pure_bind, ← Rendering.push_append, String.join_append]

theorem exists_of_compilePieces {number : Nat} {pieces : List Piece} {out after : Emitted}
    (h : compilePieces number out pieces = .ok after) :
    ∃ instrs, after = out.addAll instrs ∧ Renders pieces instrs := by
  induction pieces generalizing out with
  | nil =>
      cases h
      exact ⟨[], rfl, .nil⟩
  | cons piece pieces ih =>
      cases piece with
      | text content =>
          obtain ⟨instrs, hInstrs, hRenders⟩ := ih h
          have hText : Renders [.text content] [.text (String.ofList content)] :=
            fun services scene out rest => by simp [renderPieces]; rfl
          exact ⟨.text (String.ofList content) :: instrs, hInstrs, hText.append hRenders⟩
      | expression code escape =>
          rw [compilePieces] at h
          cases hCode : Expr.read code with
          | error fault =>
              rw [hCode] at h
              cases h
          | ok tree =>
              rw [hCode] at h
              obtain ⟨instrs, hInstrs, hRenders⟩ := ih h
              have hValue : Renders [.expression code escape] [.emit tree escape] := by
                intro services scene out rest
                rw [List.singleton_append, executeAll_cons, execute, renderPieces, hCode]
                simp only [bind_assoc, pure_bind]
                refine bind_congr fun value => ?_
                rw [Scene.emit_eq]
                simp [renderPieces]
              exact ⟨.emit tree escape :: instrs, hInstrs, hValue.append hRenders⟩

theorem exists_of_compileLines {rows : List TextLine} {out after : Emitted}
    (h : compileLines out rows = .ok after) :
    ∃ instrs, after = out.addAll instrs ∧ Renders (rows.flatMap TextLine.pieces) instrs := by
  induction rows generalizing out with
  | nil =>
      cases h
      exact ⟨[], rfl, .nil⟩
  | cons row rest ih =>
      obtain ⟨next, hFirst, hRest⟩ := exists_of_bind_eq_ok h
      obtain ⟨instrs, rfl, hInstrs⟩ := exists_of_compilePieces hFirst
      obtain ⟨others, rfl, hOthers⟩ := ih hRest
      exact ⟨instrs ++ others, (List.foldl_append ..).symm, hInstrs.append hOthers⟩

/-- An output variable that is set to lines is set to the texts of their pieces, one after another,
and the text so far stays as it is. -/
theorem execute_fragment {within : Surroundings} {out after : Emitted} {number : Nat}
    {name : String} {rows : List TextLine} (hName : name ≠ bodyName)
    (h : compileSimple within out (.varFragment number name rows) = .ok after) :
    ∃ instr, after = instr :: out ∧ ∀ services scene rendered,
      execute services scene rendered instr = do
        let texts ← renderPieces services scene .empty (rows.flatMap TextLine.pieces)
        let text ← Run.settle (.ofString (String.join texts))
        return (.normal, rendered.set name text) := by
  obtain ⟨body, hBody, rfl⟩ := exists_of_map_eq_ok h
  obtain ⟨instrs, rfl, hRenders⟩ := exists_of_compileLines hBody
  refine ⟨_, rfl, fun services scene rendered => ?_⟩
  have hRun := hRenders services scene .empty []
  rw [List.append_nil] at hRun
  rw [Emitted.addAll_empty, List.reverse_reverse, execute, executeAll_mergeTexts, hRun, bind_assoc]
  refine bind_congr fun texts => ?_
  rw [executeAll_nil, pure_bind]
  simp only [Rendering.text_push, Rendering.text_empty, String.empty_append, Rendering.insert,
    if_neg hName]

/-! ## Whole lines -/

/-- A text that is seen is read like a line of text without the blanks around it. The line ends
where it ends, and the variable is set to the texts of its pieces. -/
theorem variable_line_is_exact {number indent : Nat} {name text : List Char} {pieces : List Piece}
    (hName : IsNameText name) (hBody : name ≠ "body".toList) (hLine : '\n' ∉ text)
    (hSeen : isUnseen text = false) (hPieces : readPieces (trim text) = .ok pieces)
    (more : List Char) :
    readEntry (List.replicate indent ' ' ++ '$' :: variableLine name (text ++ '\n' :: more))
        number =
      .ok (.whole (.varFragment number (String.ofList name) [⟨number, pieces⟩]), number + 1,
        more) ∧
    ∀ within out after,
      compileSimple within out (.varFragment number (String.ofList name) [⟨number, pieces⟩]) =
        .ok after →
      ∃ instr, after = instr :: out ∧ ∀ services scene rendered,
        execute services scene rendered instr = do
          let texts ← renderPieces services scene .empty pieces
          let value ← Run.settle (.ofString (String.join texts))
          return (.normal, rendered.set (String.ofList name) value) := by
  constructor
  · have hRead := readVar_eq number indent hName hBody hLine more
    have hOnly : readLine number (trim text) = .ok ⟨number, pieces⟩ := by rw [readLine, hPieces]
    rw [hSeen, hOnly] at hRead
    rw [readEntry_variableLine, variableLine, ← List.append_assoc, ← variableLine, hRead]
    rfl
  · intro within out after hCompile
    have hLabel : String.ofList name ≠ bodyName := fun hSame => by
      rw [← String.toList_ofList (l := name), hSame] at hBody
      exact hBody rfl
    obtain ⟨instr, hInstr, hExecute⟩ := execute_fragment hLabel hCompile
    rw [List.flatMap_singleton] at hExecute
    exact ⟨instr, hInstr, hExecute⟩

/-- A text that is not seen is as good as none. -/
theorem readVar_unseen {number indent : Nat} {name text : List Char} (hName : IsNameText name)
    (hBody : name ≠ "body".toList) (hLine : '\n' ∉ text) (hUnseen : isUnseen text = true)
    (more : List Char) :
    readVar number indent (variableLine name text ++ '\n' :: more) =
      readVar number indent (variableLine name [] ++ '\n' :: more) := by
  have hNone : isUnseen [] = true := rfl
  rw [readVar_eq number indent hName hBody hLine, if_pos hUnseen,
    readVar_eq number indent hName hBody List.not_mem_nil, if_pos hNone]

example : readVar 1 0 "var color: #fff\nbody\n".toList =
    .ok (.varFragment 1 "color" [], 2, "body\n".toList) := by cbv

end Stencil
