import Stencil.Proofs.Comments.Texts
import Stencil.Proofs.Variables

/-!
# Entries with a comment in them

The first entry of a text is a line, a block or an output variable. With a comment in the text it is
the same entry, and the comment is in the text behind it, or it is the entry with the comment in it:
a line with a comment for its newline, a block with the comment in its body, or an output variable
that is set to a newline more.

## Main results

* `Remarked.readBlock`, `Remarked.readVar`: what a line above a comment is read to.
* `readsNoted_line`, `readsNoted_body`, `readsNoted_inlineVar`: a line with the comment at its end.
* `Remarked.readsNoted`: the first entry of a text, with the comment anywhere.
-/

namespace Stencil

open Stencil.Text

/-! ## Directives -/

variable {line remark text other more row rest behind : List Char} {number indent next : Nat}

/-- A block below a line takes the comment in its body or leaves it in the text behind it. -/
theorem Remarked.readBlock (h : Remarked remark text other) (hRow : '\n' ∉ row)
    {most : Nat → Nat} {block : BlockText}
    (hRead : readBlock number indent most (row ++ '\n' :: text) = .ok block) :
    ∃ found, readBlock number indent most (row ++ '\n' :: other) = .ok found ∧
      found.header = block.header ∧ found.bodyLine = block.bodyLine ∧ found.next = block.next ∧
      RemarkedIn remark block.body found.body block.rest found.rest := by
  unfold Stencil.readBlock at hRead ⊢
  simp only [splitLine_append_newline hRow, h.firstIndent_eq] at hRead ⊢
  split at hRead
  · cases hRead
  · cases hRead
  · rename_i header remainder hHeader
    split at hRead
    · rename_i hBlank
      rw [if_pos hBlank]
      split at hRead
      · rename_i hNone
        cases hRead
        rw [if_pos hNone]
        exact ⟨_, rfl, rfl, rfl, rfl, .inr ⟨rfl, h⟩⟩
      · rename_i hDeeper
        cases hRead
        rw [if_neg hDeeper]
        obtain ⟨hNewlines, hIn⟩ := h.indentedBlock (indent + most (firstIndent text - indent))
        exact ⟨_, rfl, rfl, rfl, by rw [hNewlines], hIn⟩
    · rename_i hBlank
      cases hRead
      rw [if_neg hBlank]
      exact ⟨_, rfl, rfl, rfl, rfl, .inr ⟨rfl, h⟩⟩

/-- The other section is the same but for the comment in a line of its fragment. -/
inductive VarNoted : Section → Section → Prop
  | fragment {number : Nat} {name : String} {rows others : List TextLine}
      (noted : RowsNoted rows others) :
      VarNoted (.varFragment number name rows) (.varFragment number name others)

/-- An output variable above a line takes the comment in its fragment or leaves it in the text
behind it. -/
theorem Remarked.readVar (h : Remarked remark text other) (hRow : '\n' ∉ row)
    {content : Section} (hRead : readVar number indent (row ++ '\n' :: text) =
      .ok (content, next, rest)) :
    ∃ found behind, readVar number indent (row ++ '\n' :: other) = .ok (found, next, behind) ∧
      (VarNoted content found ∧ behind = rest ∨ found = content ∧ Remarked remark rest behind) := by
  unfold Stencil.readVar at hRead ⊢
  simp only [splitLine_append_newline hRow] at hRead ⊢
  split at hRead
  · rename_i word name mark value others hTokens
    split at hRead
    · cases hRead
    rename_i hName
    rw [if_neg hName]
    split at hRead
    · cases hRead
    rename_i hFree
    rw [if_neg hFree]
    split at hRead
    · rename_i hEquals
      cases hRead
      rw [if_pos hEquals]
      exact ⟨_, _, rfl, .inr ⟨rfl, h⟩⟩
    rename_i hEquals
    rw [if_neg hEquals]
    split at hRead
    · cases hRead
    rename_i hColon
    rw [if_neg hColon]
    split at hRead
    · rename_i hBelow
      rw [if_pos hBelow]
      obtain ⟨hNewlines, hIn⟩ := h.indentedBlock (indent + indentStep)
      split at hRead
      · cases hRead
      rename_i rows hRows
      cases hRead
      rcases hIn with ⟨hBody, hRest⟩ | ⟨hBody, hRest⟩
      · obtain ⟨others, hOthers, hNoted⟩ := hBody.readFragment hRows
        rw [hOthers, hNewlines]
        exact ⟨_, _, rfl, .inl ⟨.fragment hNoted, hRest⟩⟩
      · rw [hBody, hRows, hNewlines]
        exact ⟨_, _, rfl, .inr ⟨rfl, hRest⟩⟩
    · rename_i hInline
      rw [if_neg hInline]
      split at hRead
      · cases hRead
      rename_i only hOnly
      cases hRead
      exact ⟨_, _, rfl, .inr ⟨rfl, h⟩⟩
  · cases hRead

/-! ## Entries -/

/-- The other entry is the same but for the comment. -/
inductive EntryNoted (remark : List Char) : Entry → Entry → Prop
  | line {number : Nat} {pieces others : List Piece} (stands : DoFor others pieces) :
      EntryNoted remark (.whole (.line ⟨number, pieces⟩)) (.whole (.line ⟨number, others⟩))
  | code {number : Nat} {text other : List Char} (below : Remarked remark text other) :
      EntryNoted remark (.whole (.code number text)) (.whole (.code number other))
  | fragment {content other : Section} (noted : VarNoted content other) :
      EntryNoted remark (.whole content) (.whole other)
  | body {start indent bodyLine : Nat} {keyword : BlockKeyword} {header text other : List Char}
      (below : Remarked remark text other) :
      EntryNoted remark (.block start keyword header indent bodyLine text)
        (.block start keyword header indent bodyLine other)

/-- What is read from the start of the other text: the same in front of the comment, or the entry
with the comment in it. -/
def ReadsNoted (remark other : List Char) (number : Nat) (entry : Entry) (next : Nat)
    (rest : List Char) : Prop :=
  ∃ found behind, readEntry other number = .ok (found, next, behind) ∧
    (found = entry ∧ Remarked remark rest behind ∨ behind = rest ∧ EntryNoted remark entry found)

theorem spaces_line (row rest : List Char) :
    leadingSpaces (row ++ '\n' :: rest) = leadingSpaces row ∧
      dropSpaces (row ++ '\n' :: rest) = dropSpaces row ++ '\n' :: rest := by
  constructor
  · have hMem : '\n' ∈ row ++ ['\n'] := by simp
    have hTake := (takeWhile_append_of_mem (p := (· == ' ')) hMem (by decide) rest).1
    rw [List.append_assoc] at hTake
    exact (congrArg List.length hTake).trans (leadingSpaces_newline row)
  · rw [dropSpaces, List.dropWhile_append]
    split
    · rename_i hNone
      rw [dropSpaces, List.isEmpty_iff.1 hNone]
      rfl
    · rfl

theorem directive_of?_line (row rest : List Char) :
    Directive.of? (row ++ '\n' :: rest) = Directive.of? (row ++ ['\n']) := by
  have hWhole : Directive.of? ((row ++ ['\n']) ++ rest) = Directive.of? (row ++ ['\n']) :=
    directive_of?_append (.inr List.getLast?_concat) (by simp) rest
  rwa [List.append_assoc] at hWhole

theorem suffix_of_dropSpaces {c : Char} {after : List Char} (h : dropSpaces row = c :: after) :
    after <:+ row := by
  have hDrop : c :: after <:+ row := h ▸ List.dropWhile_suffix (· == ' ')
  exact (List.suffix_cons c after).trans hDrop

/-- A line above a comment that is read as text. -/
theorem Remarked.textEntry (h : Remarked remark text other) (hRow : '\n' ∉ row) {entry : Entry}
    (hRead : readEntry.textEntry (row ++ '\n' :: text) number = .ok (entry, next, rest)) :
    ∃ behind, readEntry.textEntry (row ++ '\n' :: other) number = .ok (entry, next, behind) ∧
      Remarked remark rest behind := by
  unfold readEntry.textEntry at hRead ⊢
  simp only [splitLine_append_newline hRow] at hRead ⊢
  split at hRead
  · cases hRead
  · cases hRead
    exact ⟨other, rfl, h⟩

theorem dropSpaces_line_ne_sigil (h : ¬ ∃ after, dropSpaces row = '$' :: after)
    (rest after : List Char) : dropSpaces (row ++ '\n' :: rest) ≠ '$' :: after := by
  rw [(spaces_line row rest).2]
  intro hSame
  cases hFirst : dropSpaces row with
  | nil =>
      rw [hFirst] at hSame
      cases hSame
  | cons c others =>
      rw [hFirst] at hSame
      obtain rfl := (List.cons.inj hSame).1
      exact h ⟨others, hFirst⟩

/-- The entry above a line. -/
theorem Remarked.readEntry (h : Remarked remark text other) (hRow : '\n' ∉ row) {entry : Entry}
    (hRead : readEntry (row ++ '\n' :: text) number = .ok (entry, next, rest)) :
    ReadsNoted remark (row ++ '\n' :: other) number entry next rest := by
  obtain ⟨hIndent, hDrop⟩ := spaces_line row text
  obtain ⟨hIndent', hDrop'⟩ := spaces_line row other
  by_cases hSigil : ∃ after, dropSpaces row = '$' :: after
  · obtain ⟨after, hAfter⟩ := hSigil
    have hLine : '\n' ∉ after := fun hMem => hRow ((suffix_of_dropSpaces hAfter).subset hMem)
    unfold ReadsNoted
    unfold Stencil.readEntry at hRead ⊢
    rw [hDrop, hAfter] at hRead
    rw [hDrop', hAfter]
    simp only [List.cons_append, hIndent, hIndent', directive_of?_line after,
      splitLine_append_newline hLine] at hRead ⊢
    split at hRead
    · split at hRead
      · cases hRead
      rename_i hVar
      cases hRead
      obtain ⟨found, behind, hFound, hNoted⟩ := h.readVar hLine hVar
      rw [hFound]
      refine ⟨_, _, rfl, ?_⟩
      rcases hNoted with ⟨hNoted, hBehind⟩ | ⟨hSame, hBehind⟩
      · exact .inr ⟨hBehind, .fragment hNoted⟩
      · exact .inl ⟨congrArg _ hSame, hBehind⟩
    · split at hRead
      · cases hRead
      rename_i block hBlock
      cases hRead
      obtain ⟨found, hFound, -, hBodyLine, hNext, hIn⟩ := h.readBlock hLine hBlock
      rw [hFound, ← hNext, ← hBodyLine]
      refine ⟨_, _, rfl, ?_⟩
      rcases hIn with ⟨hBody, hRest⟩ | ⟨hBody, hRest⟩
      · exact .inr ⟨hRest, .code hBody⟩
      · exact .inl ⟨by rw [hBody], hRest⟩
    · split at hRead
      · cases hRead
      rename_i block hBlock
      split at hRead
      · cases hRead
      rename_i hBlank
      cases hRead
      obtain ⟨found, hFound, hHeader, hBodyLine, hNext, hIn⟩ := h.readBlock hLine hBlock
      have hSome : ¬ allBlank found.body = true := by
        rcases hIn with ⟨hBody, -⟩ | ⟨hBody, -⟩
        · rw [hBody.notBlank]
          exact Bool.false_ne_true
        · rwa [hBody]
      rw [hFound, ← hHeader, ← hBodyLine, ← hNext]
      simp only [if_neg hSome]
      refine ⟨_, _, rfl, ?_⟩
      rcases hIn with ⟨hBody, hRest⟩ | ⟨hBody, hRest⟩
      · exact .inr ⟨hRest, .body hBody⟩
      · exact .inl ⟨by rw [hBody], hRest⟩
    · cases hRead
      exact ⟨_, _, rfl, .inl ⟨rfl, h⟩⟩
    · cases hRead
      exact ⟨_, _, rfl, .inl ⟨rfl, h⟩⟩
    · obtain ⟨behind, hFound, hBehind⟩ := h.textEntry hRow hRead
      exact ⟨entry, behind, hFound, .inl ⟨rfl, hBehind⟩⟩
  · rw [readEntry_text (dropSpaces_line_ne_sigil hSigil text)] at hRead
    obtain ⟨behind, hFound, hBehind⟩ := h.textEntry hRow hRead
    refine ⟨entry, behind, ?_, .inl ⟨rfl, hBehind⟩⟩
    rw [readEntry_text (dropSpaces_line_ne_sigil hSigil other), hFound]

theorem readEntry_noDirective (h : NoDirective text) (number : Nat) :
    Stencil.readEntry text number = readEntry.textEntry text number := by
  unfold Stencil.readEntry
  split
  · rename_i after hAfter
    simp only [h after hAfter]
  · rfl

theorem noDirective_line (h : NoDirective (row ++ ['\n'])) (rest : List Char) :
    NoDirective (row ++ '\n' :: rest) := by
  intro after hAfter
  rw [(spaces_line row rest).2] at hAfter
  have hLine := (spaces_line row []).2
  cases hFirst : dropSpaces row with
  | nil =>
      rw [hFirst] at hAfter
      cases hAfter
  | cons c others =>
      rw [hFirst] at hAfter hLine
      obtain ⟨rfl, rfl⟩ := List.cons.inj hAfter
      exact (directive_of?_line others rest).trans (h _ hLine)

theorem TakesComment.noDirective (h : TakesComment line remark)
    (isLine : NoDirective (line ++ ['\n'])) : NoDirective (withRemark line remark ++ ['\n']) := by
  intro after hAfter
  rw [withRemark, List.append_assoc, (spaces_append h.notBlank _).2] at hAfter
  have hLine := (spaces_append h.notBlank ['\n']).2
  cases hFirst : dropSpaces line with
  | nil =>
      have hBlank := allBlank_drop h.notBlank (Nat.le_refl (leadingSpaces line))
      rw [drop_eq (Nat.le_refl _), hFirst, Nat.sub_self] at hBlank
      cases hBlank
  | cons c others =>
      rw [hFirst] at hAfter hLine
      obtain ⟨rfl, rfl⟩ := List.cons.inj hAfter
      cases others with
      | nil => exact NoDirective.directive_of?_eq_none (.inl rfl) _
      | cons d more =>
          have hEnds := (h.endsWith (List.Subset.refl remark) (.inr rfl)).mono
            (suffix_of_dropSpaces hFirst).subset
          have hNewline : EndsWith (d :: more) ['\n'] := .newline hEnds.oneLine
          have hNone : Directive.of? (d :: (more ++ ['\n'])) = none := isLine _ hLine
          rw [directive_of?_append_lineEnd hNewline] at hNone
          exact (directive_of?_append_lineEnd hEnds).trans hNone

/-- A line of text with a comment behind it. -/
theorem readsNoted_line (takes : TakesComment line remark) (isLine : NoDirective (line ++ ['\n']))
    {entry : Entry} (rest : List Char)
    (hRead : Stencil.readEntry (line ++ '\n' :: rest) number = .ok (entry, next, behind)) :
    ReadsNoted remark (withRemark line remark ++ '\n' :: rest) number entry next behind := by
  have hOther := noDirective_line (takes.noDirective isLine) rest
  rw [readEntry_noDirective (noDirective_line isLine rest)] at hRead
  unfold readEntry.textEntry readLine at hRead
  simp only [splitLine_append_newline takes.oneLine, countNewlines_line takes.oneLine,
    joinLine_append_newline takes.noBackslash] at hRead
  cases hPieces : readPieces (line ++ ['\n']) with
  | error cause =>
      rw [hPieces] at hRead
      cases hRead
  | ok pieces =>
      rw [hPieces] at hRead
      cases hRead
      obtain ⟨part, ending, hPart, hEnding, hJoin⟩ := joinLine_withRemark line remark
      obtain ⟨ended, hEnded, hDoFor⟩ := exists_doFor (takes.endsWith hPart hEnding) hPieces
      refine ⟨_, behind, ?_, .inr ⟨rfl, .line hDoFor⟩⟩
      rw [readEntry_noDirective hOther, readEntry.textEntry]
      simp only [splitLine_append_newline takes.oneLine_withRemark, readLine, hJoin, hEnded,
        countNewlines_line takes.oneLine_withRemark]

theorem trimStart_append (h : allBlank line = false) (more : List Char) :
    trimStart (line ++ more) = trimStart line ++ more := by
  rw [trimStart, List.dropWhile_append, if_neg]
  · rfl
  · rw [List.isEmpty_iff]
    intro hNone
    rw [trimStart_eq_nil_iff.1 hNone] at h
    cases h

theorem allBlank_trimStart (h : allBlank line = false) : allBlank (trimStart line) = false := by
  refine Bool.eq_false_iff.2 fun hBlank => ?_
  have hSame : trimStart (trimStart line) = trimStart line :=
    dropWhile_eq_self (head?_dropWhile isBlank line)
  rw [trimStart_eq_nil_iff.2 hBlank] at hSame
  rw [trimStart_eq_nil_iff.1 hSame.symm] at h
  cases h

/-- A block with its body on its own line, whatever ends the line. -/
theorem readEntry_body {after header body : List Char} {keyword : BlockKeyword}
    (hLine : '\n' ∉ line ++ more) (hBlank : allBlank line = false)
    (isSigil : dropSpaces line = '$' :: after) (hEnds : EndsWith after (more ++ ['\n']))
    (isBlock : Directive.of? after = some (.block keyword))
    (isHeader : splitHeader after = .ok (some (header, body))) (isSome : allBlank body = false)
    (rest : List Char) (number : Nat) :
    Stencil.readEntry (line ++ more ++ '\n' :: rest) number =
      .ok (.block number keyword header (leadingSpaces line) number
        (trimStart body ++ (more ++ ['\n'])), number + 1, rest) := by
  have hMore : '\n' ∉ more := fun hMem => hLine (List.mem_append_right line hMem)
  have hAfter : '\n' ∉ after ++ more :=
    fun hMem => (List.mem_append.1 hMem).elim hEnds.oneLine hMore
  have hSplit := (splitHeader_append_lineEnd hEnds).2 ⟨body, rfl, isHeader⟩
  have hDirective : Directive.of? (after ++ more ++ '\n' :: rest) = some (.block keyword) := by
    rw [directive_of?_line, List.append_assoc, ← isBlock]
    cases after with
    | nil => cases isBlock
    | cons c others => exact directive_of?_append_lineEnd hEnds
  obtain ⟨hIndent, hDrop⟩ := spaces_append hBlank (more ++ '\n' :: rest)
  rw [isSigil] at hDrop
  rw [← List.append_assoc] at hSplit
  unfold Stencil.readEntry Stencil.readBlock
  rw [List.append_assoc line, hDrop, List.cons_append, ← List.append_assoc after]
  have hSome := allBlank_append isSome (more ++ ['\n'])
  have hBody := trimStart_append isSome (more ++ ['\n'])
  have hStart := allBlank_append (allBlank_trimStart isSome) (more ++ ['\n'])
  simp only [hIndent, hDirective, splitLine_append_newline hAfter, hSplit, hSome, hBody, hStart,
    Bool.false_eq_true, if_false, countNewlines_line hAfter]

/-- A block with a comment behind its body on the same line. -/
theorem readsNoted_body (takes : TakesComment line remark) {after header body : List Char}
    {keyword : BlockKeyword} (isSigil : dropSpaces line = '$' :: after)
    (isBlock : Directive.of? after = some (.block keyword))
    (isHeader : splitHeader after = .ok (some (header, body))) (isSome : allBlank body = false)
    (below : TakesText (trimStart body)) {entry : Entry} (rest : List Char)
    (hRead : Stencil.readEntry (line ++ '\n' :: rest) number = .ok (entry, next, behind)) :
    ReadsNoted remark (withRemark line remark ++ '\n' :: rest) number entry next behind := by
  have hAfter := suffix_of_dropSpaces isSigil
  have hEnds := (takes.endsWith (List.Subset.refl remark) (.inr rfl)).mono hAfter.subset
  have hNewline : EndsWith after ([] ++ ['\n']) := .newline hEnds.oneLine
  have hLine : '\n' ∉ line ++ [] := by simpa using takes.oneLine
  have hEntry := readEntry_body hLine takes.notBlank isSigil hNewline isBlock isHeader isSome rest
    number
  rw [List.append_nil, hRead] at hEntry
  cases hEntry
  have hOther := readEntry_body takes.oneLine_withRemark takes.notBlank isSigil hEnds isBlock
    isHeader isSome behind number
  have hBody : trimStart body <:+ line :=
    (List.dropWhile_suffix isBlank).trans ((suffix_of_splitHeader isHeader).trans hAfter)
  have hTakes := takes.of_suffix hBody (allBlank_trimStart isSome) below
  have hHere := Remarked.here hTakes []
  rw [withRemark, List.append_assoc] at hHere
  exact ⟨_, behind, hOther, .inr ⟨rfl, .body hHere⟩⟩

theorem trimEnd_ne_nil (h : allBlank line = false) : trimEnd line ≠ [] := by
  intro hNone
  have hReverse : trimStart line.reverse = [] := List.reverse_eq_nil_iff.1 hNone
  rw [trimStart_eq_nil_iff, allBlank, List.all_reverse, ← allBlank, h] at hReverse
  cases hReverse

theorem trimEnd_append (h : allBlank more = false) (line : List Char) :
    trimEnd (line ++ more) = line ++ trimEnd more := by
  have hSome : ¬ (more.reverse.dropWhile isBlank).isEmpty = true := by
    intro hNone
    refine trimEnd_ne_nil h ?_
    rw [trimEnd, List.isEmpty_iff.1 hNone]
    rfl
  rw [trimEnd, List.reverse_append, List.dropWhile_append, if_neg hSome, List.reverse_append,
    List.reverse_reverse]
  rfl

/-- Trimming a text with a comment behind it trims the comment. -/
theorem trim_withRemark {content : List Char} (hBlank : allBlank content = false)
    (remark : List Char) :
    trim (withRemark content remark) = withRemark (trimStart content) (trimEnd remark) := by
  have hSigil : isBlank '$' = false := by decide
  have hTail : allBlank ('$' :: '#' :: remark) = false := by
    rw [allBlank, List.all_cons, hSigil, Bool.false_and]
  rw [trim, withRemark, trimStart_append hBlank, trimEnd_append hTail, trimEnd_cons hSigil,
    trimEnd_cons (by decide)]
  rfl

theorem isUnseen_withRemark (h : isUnseen line = false) (remark : List Char) :
    isUnseen (withRemark line remark) = false := by
  rw [isUnseen] at h ⊢
  rw [withRemark, List.dropWhile_append]
  cases hFirst : line.dropWhile isGap with
  | nil =>
      rw [hFirst] at h
      cases h
  | cons c rest =>
      rw [hFirst] at h
      exact h

/-- A text that is seen and has no blank at its end is not blank. -/
theorem allBlank_of_seen (h : isUnseen line = false) (hTrim : trimEnd line = line) :
    allBlank line = false := by
  refine Bool.eq_false_iff.2 fun hBlank => ?_
  have hNone : trimEnd line = [] := by
    have hReverse : trimStart line.reverse = [] := by
      rw [trimStart_eq_nil_iff, allBlank, List.all_reverse]
      exact hBlank
    exact List.reverse_eq_nil_iff.2 hReverse
  rw [hTrim] at hNone
  rw [hNone] at h
  cases h

theorem trim_of_trimEnd (h : allBlank line = false) (hTrim : trimEnd line = line) :
    trim line = trimStart line := by
  obtain ⟨front, hFront⟩ : trimStart line <:+ line := List.dropWhile_suffix isBlank
  have hEnd := trimEnd_append (allBlank_trimStart h) front
  rw [hFront, hTrim] at hEnd
  exact (List.append_cancel_left (hFront.trans hEnd)).symm

/-- An output variable with a text that is seen. -/
theorem readEntry_inlineVar {name value : List Char} (isName : IsNameText name)
    (isFree : name ≠ "body".toList) (hLine : '\n' ∉ value) (isSeen : isUnseen value = false) :
    Stencil.readEntry (List.replicate indent ' ' ++
        '$' :: variableLine name (value ++ '\n' :: rest)) number =
      (fun only => (.whole (.varFragment number (String.ofList name) [only]), number + 1, rest)) <$>
        readLine number (trim value) := by
  have hEq := readVar_eq number indent isName isFree hLine rest
  rw [if_neg (Bool.eq_false_iff.1 isSeen), variableLine, List.append_assoc, ← variableLine] at hEq
  rw [readEntry_variableLine, hEq]
  cases readLine number (trim value) <;> rfl

/-- An output variable with a comment behind its text. -/
theorem readsNoted_inlineVar (takes : TakesComment line remark) {name content : List Char}
    (isSigil : dropSpaces line = '$' :: variableLine name content) (isName : IsNameText name)
    (isFree : name ≠ "body".toList) (isSeen : isUnseen content = false)
    (isTrimmed : trimEnd content = content) {entry : Entry} (rest : List Char)
    (hRead : Stencil.readEntry (line ++ '\n' :: rest) number = .ok (entry, next, behind)) :
    ReadsNoted remark (withRemark line remark ++ '\n' :: rest) number entry next behind := by
  have hWhole (more : List Char) : line ++ more =
      List.replicate (leadingSpaces line) ' ' ++ '$' :: variableLine name (content ++ more) := by
    conv => lhs; rw [← replicate_append_dropSpaces line, isSigil]
    simp [variableLine]
  have hContent : content <:+ line :=
    (List.suffix_append _ _).trans (suffix_of_dropSpaces isSigil)
  have hBlank : allBlank content = false := allBlank_of_seen isSeen isTrimmed
  have hOneLine : '\n' ∉ content := fun hMem => takes.oneLine (hContent.subset hMem)
  have hRemarkLine : '\n' ∉ withRemark content remark := by
    simp [withRemark, hOneLine, takes.remarkLine]
  rw [hWhole, readEntry_inlineVar isName isFree hOneLine isSeen, trim_of_trimEnd hBlank isTrimmed,
    readLine] at hRead
  cases hPieces : readPieces (trimStart content) with
  | error cause =>
      rw [hPieces] at hRead
      cases hRead
  | ok pieces =>
      rw [hPieces] at hRead
      cases hRead
      have hEnds := (takes.endsWith (isPrefix_trimEnd remark).subset (.inl rfl)).mono
        ((List.dropWhile_suffix isBlank).trans hContent).subset
      obtain ⟨ended, hEnded, hDoFor⟩ := exists_doFor_withNewline hEnds hPieces
      rw [List.append_nil] at hEnded
      have hNoted : RowsNoted [⟨number, pieces ++ []⟩] [⟨number, ended ++ []⟩] :=
        .here hDoFor [] []
      rw [List.append_nil, List.append_nil] at hNoted
      refine ⟨_, _, ?_, .inr ⟨rfl, .fragment (.fragment hNoted)⟩⟩
      have hRead : readPieces (withRemark (trimStart content) (trimEnd remark)) = .ok ended :=
        hEnded
      rw [withRemark, List.append_assoc, hWhole, ← List.append_assoc, ← withRemark,
        readEntry_inlineVar isName isFree hRemarkLine (isUnseen_withRemark isSeen remark),
        trim_withRemark hBlank, readLine, hRead]
      rfl

example : readVar 1 0 "var t: Hi$# note\nbody\n".toList =
    .ok (.varFragment 1 "t" [⟨1, [.text "Hi".toList, .text ['\n']]⟩], 2, "body\n".toList) := by cbv

/-- A comment is in the first entry of a text or in the text behind it. -/
theorem Remarked.readsNoted (h : Remarked remark text other) {entry : Entry}
    (hRead : Stencil.readEntry text number = .ok (entry, next, rest)) :
    ReadsNoted remark other number entry next rest := by
  cases h with
  | later oneLine below => exact below.readEntry oneLine hRead
  | here takes behind =>
      cases takes.takesText with
      | line isLine => exact readsNoted_line takes isLine behind hRead
      | body isSigil isBlock isHeader isSome below =>
          exact readsNoted_body takes isSigil isBlock isHeader isSome below behind hRead
      | inlineVar isSigil isName isFree isSeen isTrimmed =>
          exact readsNoted_inlineVar takes isSigil isName isFree isSeen isTrimmed behind hRead

end Stencil
