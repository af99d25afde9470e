import Stencil.Proofs.Numbering.Excerpts

/-!
# The lines that sections are read from

Every section carries a number. `Section.StandsIn` says what it has to do with the line of the
source that has this number: what the section holds is what the reader finds on that line. The lines
of a code block are told from the number on, one by one.

What an entry is read from is told by `Reading`, once for all that follows. The entries of a text
tile it: each one starts on the line behind the one before it. A block is read in two steps: first
its body is cut out of the text, then sections are read from that body. The body is an excerpt
again, so the argument goes on inside it.

## Main results

* `readEntry_reading`: what an entry is read from.
* `readSuite_tiles`: the sections of a text start on its lines, one behind the other.
* `Tiles.stands`: all sections of an excerpt, at every depth, stand on their lines.
* `readSuite_stops`: a text is refused on the line that the reader stops on.
-/

namespace Stencil

open Stencil.Text

/-! ## Two steps in a row -/

section Steps

variable {ε α β : Type} {action : Except ε α} {next : α → Except ε β}

theorem exists_of_bind_eq_ok {result : β} (h : action >>= next = .ok result) :
    ∃ value, action = .ok value ∧ next value = .ok result := by
  cases action with
  | error cause => cases h
  | ok value => exact ⟨value, rfl, h⟩

theorem error_of_bind_eq_error {cause : ε} (h : action >>= next = .error cause) :
    action = .error cause ∨ ∃ value, action = .ok value ∧ next value = .error cause := by
  cases action with
  | error cause =>
      cases h
      exact Or.inl rfl
  | ok value => exact Or.inr ⟨value, rfl, h⟩

end Steps

/-! ## Entries -/

/-- What stands after the sigil of the directive on the first line of a text. -/
def Directs (text content : List Char) : Prop := dropSpaces (splitLine text).1 = '$' :: content

/-- `BodyAt text number most remainder line body rest`: the body of a block whose header is the
first line of the text and has this number. After the header's colon comes the remainder; the body
starts on a line with the number `line`, and the text goes on with `rest`. -/
inductive BodyAt (text : List Char) (number : Nat) (most : Nat → Nat) (remainder : List Char) :
    Nat → List Char → List Char → Prop
  /-- The rest of the header's line. -/
  | inline : allBlank remainder = false →
      BodyAt text number most remainder number (trimStart remainder) (splitLine text).2
  /-- No line below is indented more. -/
  | missing : allBlank remainder = true → firstIndent (splitLine text).2 ≤ leadingSpaces text →
      BodyAt text number most remainder (number + 1) [] (splitLine text).2
  /-- The region below. -/
  | below {width : Nat} : allBlank remainder = true →
      leadingSpaces text < firstIndent (splitLine text).2 →
      width = leadingSpaces text + most (firstIndent (splitLine text).2 - leadingSpaces text) →
      BodyAt text number most remainder (number + 1) (region width (splitLine text).2).body
        (region width (splitLine text).2).rest

/-- `Reading text number entry rest`: what the first entry of a text is read from, when its line has
this number, and the text behind it. -/
inductive Reading (text : List Char) (number : Nat) : Entry → List Char → Prop
  | line {pieces : List Piece} : readPieces (joinLine (splitLine text).1) = .ok pieces →
      Reading text number (.whole (.line ⟨number, pieces⟩)) (splitLine text).2
  | assignment {content : List Char} : Directs text content →
      Reading text number (.whole (.assignment number (trim content))) (splitLine text).2
  | flow {content : List Char} (keyword : FlowKeyword) : Directs text content →
      Reading text number (.whole (.flow number keyword (trim content))) (splitLine text).2
  | code {content header remainder body rest : List Char} {line : Nat} : Directs text content →
      splitHeader content = .ok (some (header, remainder)) →
      BodyAt text number id remainder line body rest →
      Reading text number (.whole (.code line body)) rest
  | block {content header remainder body rest : List Char} {line : Nat} (keyword : BlockKeyword) :
      Directs text content → splitHeader content = .ok (some (header, remainder)) →
      BodyAt text number (min · indentStep) remainder line body rest → allBlank body = false →
      Reading text number (.block number keyword header (leadingSpaces text) line body) rest
  | varExpression {content name code : List Char} : Directs text content → name <:+: content →
      code <:+: content →
      Reading text number (.whole (.varExpression number (String.ofList name) code))
        (splitLine text).2
  | varLine {content name value : List Char} {pieces : List Piece} : Directs text content →
      name <:+: content → value <:+: content → readPieces value = .ok pieces →
      Reading text number (.whole (.varFragment number (String.ofList name) [⟨number, pieces⟩]))
        (splitLine text).2
  | varLines {content name : List Char} {lines : List TextLine} {width : Nat} :
      Directs text content → name <:+: content → width ≠ 0 →
      readFragment (number + 1) (Text.lines (region width (splitLine text).2).body) = .ok lines →
      Reading text number (.whole (.varFragment number (String.ofList name) lines))
        (region width (splitLine text).2).rest

variable {text after content rest : List Char} {number next : Nat} {entry : Entry}

theorem directs_of_dropSpaces (h : dropSpaces text = '$' :: after) :
    Directs text (splitLine after).1 := by
  rw [Directs, splitLine_of_dropSpaces h (by decide)]
  exact dropSpaces_replicate _ (by simp)

theorem indentedBlock_of_pos {width : Nat} (h : width ≠ 0) (text : List Char) :
    indentedBlock width text = region width text := if_neg h

theorem readBlock_body {most : Nat → Nat} {block : BlockText}
    (hMost : ∀ deeper, 0 < deeper → 0 < most deeper) (hAfter : dropSpaces text = '$' :: after)
    (h : readBlock number (leadingSpaces text) most after = .ok block) :
    ∃ remainder, splitHeader (splitLine after).1 = .ok (some (block.header, remainder)) ∧
      BodyAt text number most remainder block.bodyLine block.body block.rest := by
  have hRest : (splitLine after).2 = (splitLine text).2 := by
    rw [splitLine_of_dropSpaces hAfter (by decide)]
  unfold readBlock at h
  simp only [hRest] at h
  split at h
  · cases h
  · cases h
  · rename_i header remainder hHeader
    refine ⟨remainder, ?_⟩
    split at h
    · rename_i hBlank
      split at h
      · rename_i hNone
        cases h
        exact ⟨hHeader, .missing hBlank (Nat.sub_eq_zero_iff_le.1 hNone)⟩
      · rename_i hDeeper
        have hWidth := hMost _ (Nat.pos_of_ne_zero hDeeper)
        rw [indentedBlock_of_pos (by omega)] at h
        cases h
        exact ⟨hHeader, .below hBlank (by omega) rfl⟩
    · rename_i hBlank
      cases h
      exact ⟨hHeader, .inline (Bool.eq_false_iff.2 hBlank)⟩

theorem infix_flatMap {tokens : List Token} {t : Token} (h : t ∈ tokens) :
    t.text <:+: tokens.flatMap Token.text := by
  obtain ⟨first, last, rfl⟩ := List.append_of_mem h
  rw [List.flatMap_append, List.flatMap_cons]
  exact ⟨first.flatMap Token.text, last.flatMap Token.text, by rw [List.append_assoc]⟩

theorem infix_trim (text : List Char) : trim text <:+: text := by
  have hEnd : trim text <+: trimStart text := by
    rw [trim, trimEnd, ← List.reverse_suffix, List.reverse_reverse]
    exact List.dropWhile_suffix _
  exact hEnd.isInfix.trans (List.dropWhile_suffix _).isInfix

theorem readVar_reading {section_ : Section} (hAfter : dropSpaces text = '$' :: after)
    (h : readVar number (leadingSpaces text) after = .ok (section_, next, rest)) :
    Reading text number (.whole section_) rest := by
  have hRest : (splitLine after).2 = (splitLine text).2 := by
    rw [splitLine_of_dropSpaces hAfter (by decide)]
  have hDirects := directs_of_dropSpaces hAfter
  have hTokens : (lenientTokens (splitLine after).1).flatMap Token.text = (splitLine after).1 :=
    flatMap_text_scanFrom 0 _
  unfold readVar at h
  simp only [hRest] at h
  split at h
  · rename_i word name mark value others hMeaningful
    have hMem : name ∈ (lenientTokens (splitLine after).1).filter (!·.isTrivia) := by
      rw [hMeaningful]
      simp
    have hName : name.text <:+: (splitLine after).1 := by
      rw [← hTokens]
      exact infix_flatMap (List.mem_filter.1 hMem).1
    have hValue : trim (((lenientTokens (splitLine after).1).dropWhile
        (·.start ≤ mark.start)).flatMap Token.text) <:+: (splitLine after).1 := by
      refine (infix_trim _).trans ?_
      obtain ⟨passed, hPassed⟩ :=
        List.dropWhile_suffix (l := lenientTokens (splitLine after).1) (·.start ≤ mark.start)
      conv => rhs; rw [← hTokens, ← hPassed, List.flatMap_append]
      exact (List.suffix_append ..).isInfix
    split at h
    · cases h
    split at h
    · cases h
    split at h
    · cases h
      exact .varExpression hDirects hName hValue
    split at h
    · cases h
    split at h
    · have hWidth : leadingSpaces text + indentStep ≠ 0 := Nat.succ_ne_zero _
      rw [indentedBlock_of_pos hWidth] at h
      split at h
      · cases h
      · rename_i lines hLines
        cases h
        exact .varLines hDirects hName hWidth hLines
    · unfold readLine at h
      cases hPieces : readPieces (trim (((lenientTokens (splitLine after).1).dropWhile
          (·.start ≤ mark.start)).flatMap Token.text)) with
      | error cause =>
          rw [hPieces] at h
          cases h
      | ok pieces =>
          rw [hPieces] at h
          cases h
          exact .varLine hDirects hName hValue hPieces
  · cases h

/-- What an entry is read from. -/
theorem readEntry_reading (h : readEntry text number = .ok (entry, next, rest)) :
    Reading text number entry rest := by
  have hText : ∀ {entry next rest}, readEntry.textEntry text number = .ok (entry, next, rest) →
      Reading text number entry rest := by
    intro entry next rest hEntry
    unfold readEntry.textEntry readLine at hEntry
    cases hPieces : readPieces (joinLine (splitLine text).1) with
    | error cause =>
        simp only [hPieces] at hEntry
        cases hEntry
    | ok pieces =>
        simp only [hPieces] at hEntry
        cases hEntry
        exact .line hPieces
  unfold readEntry at h
  split at h
  · rename_i after hAfter
    have hDirects := directs_of_dropSpaces hAfter
    have hRest : (splitLine after).2 = (splitLine text).2 := by
      rw [splitLine_of_dropSpaces hAfter (by decide)]
    simp only [hRest] at h
    split at h
    · split at h
      · cases h
      · rename_i hVar
        cases h
        exact readVar_reading hAfter hVar
    · split at h
      · cases h
      · rename_i block hBlock
        cases h
        obtain ⟨remainder, hHeader, hBody⟩ := readBlock_body (fun _ => id) hAfter hBlock
        exact .code hDirects hHeader hBody
    · rename_i keyword _
      split at h
      · cases h
      · rename_i block hBlock
        have hMost : ∀ deeper, 0 < deeper → 0 < min deeper indentStep :=
          fun deeper hDeeper => Nat.lt_min.2 ⟨hDeeper, by decide⟩
        obtain ⟨remainder, hHeader, hBody⟩ := readBlock_body hMost hAfter hBlock
        split at h
        · cases h
        · rename_i hBlank
          cases h
          exact .block keyword hDirects hHeader hBody (Bool.eq_false_iff.2 hBlank)
    · cases h
      exact .flow _ hDirects
    · cases h
      exact .assignment hDirects
    · exact hText h
  · exact hText h

/-! ## Sections and their lines -/

/-- The reader comes to the line of the source with this number and reads it as `line`. -/
def ComesTo (source : List Char) (number : Nat) (line : List Char) : Prop :=
  ∃ before text original, Excerpt source number before text ∧ (splitLines text).head? = some line ∧
    lineAt? source number = some original ∧ IsCut before original line

/-- The reader finds a directive on the line with this number, with `content` after its sigil. -/
def FindsDirective (source : List Char) (number : Nat) (line content : List Char) : Prop :=
  ComesTo source number line ∧ dropSpaces line = '$' :: content

/-- The lines of a fragment stand on the lines below its directive, or the only one on the same
line. -/
def FragmentStands (source : List Char) (number : Nat) (content : List Char)
    (lines : List TextLine) : Prop :=
  (∃ pieces value, lines = [⟨number, pieces⟩] ∧ value <:+: content ∧
      readPieces value = .ok pieces) ∨
    ∀ j textLine, lines[j]? = some textLine → ∃ line pieces, ComesTo source (number + 1 + j) line ∧
      readPieces (withoutEnd line) = .ok pieces ∧
      textLine = ⟨number + 1 + j, pieces ++ [.text ['\n']]⟩

/-- The lines of a code block are the lines of the source from this number on, without the
indentation that its first statement has; or all of it is the end of that line. -/
def CodeStands (source : List Char) (number : Nat) (text : List Char) : Prop :=
  (∃ line, ComesTo source number line ∧ text <:+ line) ∨
    ∃ width, firstIndent text = 0 ∧ ∀ j line, (splitLines text)[j]? = some line →
      ∃ original, lineAt? source (number + j) = some original ∧
        IsCut (List.replicate width ' ') original line

/-- What the section holds is what the reader finds on the line of its number. -/
def Section.StandsIn (source : List Char) : Section → Prop
  | .line content => ∃ line, ComesTo source content.number line ∧
      readPieces (joinLine line) = .ok content.pieces
  | .assignment number statement => ∃ line content, FindsDirective source number line content ∧
      statement = trim content
  | .flow number _ statement => ∃ line content, FindsDirective source number line content ∧
      statement = trim content
  | .block number _ header indent _ => ∃ line content remainder,
      FindsDirective source number line content ∧ leadingSpaces line = indent ∧
      splitHeader content = .ok (some (header, remainder))
  | .code number text => CodeStands source number text
  | .varExpression number name value => ∃ line content, FindsDirective source number line content ∧
      name.toList <:+: content ∧ value <:+: content
  | .varFragment number name lines => ∃ line content, FindsDirective source number line content ∧
      name.toList <:+: content ∧ FragmentStands source number content lines

mutual

/-- A section and the sections inside it, at every depth. -/
def Section.within : Section → List Section
  | .block number keyword header indent body =>
      .block number keyword header indent body :: everySection body
  | other => [other]

/-- All sections of a list, at every depth. -/
def everySection : List Section → List Section
  | [] => []
  | first :: rest => first.within ++ everySection rest

end

theorem Section.mem_within (s : Section) : s ∈ s.within := by
  cases s <;> exact List.mem_cons_self

section Standing

variable {source before line : List Char} {j : Nat}

theorem Excerpt.comesTo (h : Excerpt source number before text)
    (hLine : (splitLines text)[j]? = some line) : ComesTo source (number + j) line := by
  obtain ⟨original, hOriginal, hCut⟩ := h.stands hLine
  refine ⟨before, _, original, h.behind j, ?_, hOriginal, hCut⟩
  rw [splitLines_drop, List.head?_drop, hLine]

theorem Excerpt.comesTo_first (h : Excerpt source number before text) (hText : text ≠ []) :
    ComesTo source number (splitLine text).1 := by
  refine h.comesTo (j := 0) ?_
  rw [← List.head?_eq_getElem?, head?_splitLines, if_neg hText]

theorem Excerpt.findsDirective (h : Excerpt source number before text) (hText : text ≠ [])
    (hDirects : Directs text content) :
    FindsDirective source number (splitLine text).1 content :=
  ⟨h.comesTo_first hText, hDirects⟩

/-- The text behind the first line. -/
theorem drop_one_flatten (text : List Char) :
    ((splitLines text).drop 1).flatten = (splitLine text).2 := by
  by_cases hText : text = []
  · subst hText
    rfl
  · rw [splitLines_of_ne_nil hText, List.drop_one, List.tail_cons, flatten_splitLines]

theorem Excerpt.lower (h : Excerpt source number before text) :
    Excerpt source (number + 1) before (splitLine text).2 := by
  have hNext := h.behind 1
  rwa [drop_one_flatten] at hNext

/-- The lines of a fragment are read one by one. -/
theorem getElem?_readFragment {physical : List (List Char)} {lines : List TextLine}
    (h : readFragment number physical = .ok lines) {textLine : TextLine}
    (hLine : lines[j]? = some textLine) : ∃ line pieces, physical[j]? = some line ∧
      readPieces line = .ok pieces ∧ textLine = ⟨number + j, pieces ++ [.text ['\n']]⟩ := by
  induction physical generalizing number lines j with
  | nil =>
      cases h
      cases hLine
  | cons first others ih =>
      rw [readFragment, readLine] at h
      cases hPieces : readPieces first with
      | error cause =>
          rw [hPieces] at h
          cases h
      | ok pieces =>
          cases hOthers : readFragment (number + 1) others with
          | error fault =>
              rw [hPieces, hOthers] at h
              cases h
          | ok more =>
              rw [hPieces, hOthers] at h
              cases h
              cases j with
              | zero =>
                  cases hLine
                  exact ⟨first, pieces, rfl, hPieces, rfl⟩
              | succ j =>
                  obtain ⟨line, pieces, hPhysical, hRead, hSame⟩ := ih hOthers hLine
                  refine ⟨line, pieces, hPhysical, hRead, ?_⟩
                  rw [hSame, Nat.add_right_comm, Nat.add_assoc]

theorem Excerpt.comesTo_lines (h : Excerpt source number before text)
    (hLine : (lines text)[j]? = some line) :
    ∃ whole, ComesTo source (number + j) whole ∧ withoutEnd whole = line := by
  rw [lines_eq, List.getElem?_map, Option.map_eq_some_iff] at hLine
  obtain ⟨whole, hWhole, hSame⟩ := hLine
  exact ⟨whole, h.comesTo hWhole, hSame⟩

/-- The text of a code block stands in the source. -/
theorem BodyAt.codeStands {remainder body : List Char} {number' : Nat}
    (h : BodyAt text number id remainder number' body rest) (hText : text ≠ [])
    (hExcerpt : Excerpt source number before text)
    (hRemainder : remainder <:+ (splitLine text).1) : CodeStands source number' body := by
  cases h with
  | inline _ =>
      refine Or.inl ⟨_, hExcerpt.comesTo_first hText, ?_⟩
      exact (List.dropWhile_suffix _).trans hRemainder
  | missing _ _ =>
      refine Or.inr ⟨0, by rw [firstIndent], fun j line hLine => ?_⟩
      cases hLine
  | @below width _ hDeeper hWidth =>
      have hSame : width = firstIndent (splitLine text).2 := by
        rw [hWidth, id, Nat.add_sub_cancel' (Nat.le_of_lt hDeeper)]
      subst hSame
      have hSome : (splitLine text).2 ≠ [] := by
        intro hNil
        rw [hNil, firstIndent] at hDeeper
        cases hDeeper
      have hBelow := hExcerpt.lower.region (firstIndent (splitLine text).2)
      -- Below a header there are lines, so what is left out before them is indentation.
      rcases hExcerpt.margin with ⟨spaces, rfl⟩ | hOne
      · rw [List.replicate_append_replicate] at hBelow
        exact Or.inr ⟨_, firstIndent_region _, fun j line hLine => hBelow.stands hLine⟩
      · rw [splitLines_of_ne_nil hText, splitLines_of_ne_nil hSome] at hOne
        simp at hOne

/-- The body of a block is an excerpt, unless it is empty. -/
theorem BodyAt.excerpt {most : Nat → Nat} {remainder passed body : List Char} {number' : Nat}
    (h : BodyAt text number most remainder number' body rest)
    (hExcerpt : Excerpt source number before text)
    (hRemainder : (splitLine text).1 = passed ++ remainder) (hBody : body ≠ []) :
    ∃ before, Excerpt source number' before body := by
  cases h with
  | inline hBlank =>
      obtain ⟨blanks, hBlanks⟩ : trimStart remainder <:+ remainder := List.dropWhile_suffix _
      have hLine : (splitLine text).1 = (passed ++ blanks) ++ trimStart remainder := by
        rw [hRemainder, List.append_assoc, hBlanks]
      refine ⟨_, hExcerpt.tail hLine ?_⟩
      · cases hTrim : allBlank (trimStart remainder) with
        | false => rfl
        | true =>
            have hSame : trimStart (trimStart remainder) = trimStart remainder :=
              dropWhile_eq_self (head?_dropWhile isBlank remainder)
            rw [trimStart_eq_nil_iff.2 hTrim] at hSame
            rw [trimStart_eq_nil_iff.1 hSame.symm] at hBlank
            cases hBlank
  | missing _ _ => exact absurd rfl hBody
  | below _ _ _ => exact ⟨_, hExcerpt.lower.region _⟩

/-- What follows the colon of a header is the end of the line. -/
theorem suffix_of_splitHeader {content header remainder : List Char}
    (h : splitHeader content = .ok (some (header, remainder))) : remainder <:+ content := by
  unfold splitHeader at h
  simp only at h
  split at h
  · cases h
    exact List.drop_suffix ..
  · cases h
  · split at h <;> cases h

theorem Directs.suffix {remainder : List Char} (h : Directs text content)
    (hRemainder : remainder <:+ content) : remainder <:+ (splitLine text).1 := by
  have hLine : content <:+ dropSpaces (splitLine text).1 := by
    rw [h]
    exact List.suffix_cons ..
  exact hRemainder.trans (hLine.trans (List.dropWhile_suffix _))

/-- Every entry of an excerpt stands on its line. -/
theorem Reading.stands {section_ : Section} (h : Reading text number (.whole section_) rest)
    (hText : text ≠ []) (hExcerpt : Excerpt source number before text) :
    section_.within = [section_] ∧ section_.StandsIn source := by
  cases h with
  | line hPieces => exact ⟨rfl, _, hExcerpt.comesTo_first hText, hPieces⟩
  | assignment hDirects => exact ⟨rfl, _, _, hExcerpt.findsDirective hText hDirects, rfl⟩
  | flow _ hDirects => exact ⟨rfl, _, _, hExcerpt.findsDirective hText hDirects, rfl⟩
  | code hDirects hHeader hBody =>
      have hRemainder := hDirects.suffix (suffix_of_splitHeader hHeader)
      exact ⟨rfl, hBody.codeStands hText hExcerpt hRemainder⟩
  | varExpression hDirects hName hCode =>
      refine ⟨rfl, _, _, hExcerpt.findsDirective hText hDirects, ?_, hCode⟩
      rwa [String.toList_ofList]
  | varLine hDirects hName hValue hPieces =>
      refine ⟨rfl, _, _, hExcerpt.findsDirective hText hDirects, ?_, ?_⟩
      · rwa [String.toList_ofList]
      · exact Or.inl ⟨_, _, rfl, hValue, hPieces⟩
  | varLines hDirects hName hWidth hLines =>
      refine ⟨rfl, _, _, hExcerpt.findsDirective hText hDirects, ?_, Or.inr ?_⟩
      · rwa [String.toList_ofList]
      · intro j textLine hLine
        obtain ⟨line, pieces, hPhysical, hPieces, hSame⟩ := getElem?_readFragment hLines hLine
        obtain ⟨whole, hWhole, hEnd⟩ := (hExcerpt.lower.region _).comesTo_lines hPhysical
        exact ⟨whole, pieces, hWhole, hEnd ▸ hPieces, hSame⟩

/-- A block stands on the line of its header. -/
theorem Reading.block_stands {keyword : BlockKeyword} {header body : List Char}
    {start indent number' : Nat}
    (h : Reading text number (.block start keyword header indent number' body) rest)
    (hText : text ≠ []) (hExcerpt : Excerpt source number before text) (suite : List Section) :
    (Section.block start keyword header indent suite).StandsIn source ∧
      ∃ before, Excerpt source number' before body := by
  cases h with
  | block _ hDirects hHeader hBody hBlank =>
      obtain ⟨passed, hPassed⟩ := hDirects.suffix (suffix_of_splitHeader hHeader)
      have hFinds := hExcerpt.findsDirective hText hDirects
      refine ⟨⟨_, _, _, hFinds, leadingSpaces_splitLine text, hHeader⟩, ?_⟩
      refine hBody.excerpt hExcerpt hPassed.symm ?_
      rintro rfl
      cases hBlank

/-- The text behind an entry starts on a line behind the first one. -/
theorem Reading.below (h : Reading text number entry rest) :
    splitLines rest <:+ splitLines (splitLine text).2 := by
  have hBody {most : Nat → Nat} {remainder body rest : List Char} {line : Nat}
      (hBody : BodyAt text number most remainder line body rest) :
      splitLines rest <:+ splitLines (splitLine text).2 := by
    cases hBody with
    | inline _ => exact List.suffix_rfl
    | missing _ _ => exact List.suffix_rfl
    | below _ _ _ => exact splitLines_region_rest ..
  cases h with
  | line _ => exact List.suffix_rfl
  | assignment _ => exact List.suffix_rfl
  | flow _ _ => exact List.suffix_rfl
  | code _ _ hCode => exact hBody hCode
  | block _ _ _ hBlock _ => exact hBody hBlock
  | varExpression _ _ _ => exact List.suffix_rfl
  | varLine _ _ _ _ => exact List.suffix_rfl
  | varLines _ _ _ _ => exact splitLines_region_rest ..

theorem Reading.suffix (h : Reading text number entry rest) :
    splitLines rest <:+ splitLines text :=
  h.below.trans (splitLines_rest_suffix text)

end Standing

/-! ## Tilings -/

/-- The sections are read from a text one after another, and the first line of the text has this
number. Every section starts on the line behind the one before it, and is given the number of that
line; the sections of a body are read from the body in the same way. -/
inductive Tiles : Nat → List Char → List Section → Prop
  | nil {number : Nat} : Tiles number [] []
  | whole {number count : Nat} {text : List Char} {first : Section} {others : List Section} :
      text ≠ [] → Reading text number (.whole first) ((splitLines text).drop count).flatten →
      Tiles (number + count) ((splitLines text).drop count).flatten others →
      Tiles number text (first :: others)
  | block {number count indent line : Nat} {text header body : List Char} {keyword : BlockKeyword}
      {suite others : List Section} : text ≠ [] →
      Reading text number (.block number keyword header indent line body)
        ((splitLines text).drop count).flatten → Tiles line body suite →
      Tiles (number + count) ((splitLines text).drop count).flatten others →
      Tiles number text (.block number keyword header indent suite :: others)

section Tiling

variable {source before : List Char} {sections : List Section}

theorem Reading.start {keyword : BlockKeyword} {header body : List Char} {start indent line : Nat}
    (h : Reading text number (.block start keyword header indent line body) rest) :
    start = number := by
  cases h
  rfl

/-- Behind an entry the text goes on with one of its lines, and with the number of that line. -/
theorem count_of_readEntry (h : readEntry text number = .ok (entry, next, rest)) :
    ∃ count, rest = ((splitLines text).drop count).flatten ∧
      (rest ≠ [] → next = number + count) := by
  have hDrop := List.suffix_iff_eq_drop.1 (readEntry_reading h).suffix
  have hText := congrArg List.flatten hDrop
  rw [flatten_splitLines] at hText
  refine ⟨_, hText, fun hRest => ?_⟩
  have hNumber := newlines_readEntry h
  rw [hText] at hRest
  have hCount := countNewlines_drop hRest
  rw [← hText] at hCount
  omega

theorem tiles_of_next {count : Nat} {others : List Section}
    (hNext : text ≠ [] → next = number + count) (h : Tiles next text others)
    (hNil : text = [] → others = []) : Tiles (number + count) text others := by
  by_cases hText : text = []
  · rw [hText, hNil hText]
    exact .nil
  · rw [← hNext hText]
    exact h

theorem ne_nil_of_readSuite {fault : LayoutFault} (h : readSuite text number = .error fault) :
    text ≠ [] := by
  rintro rfl
  rw [readSuite] at h
  cases h

theorem readSuite_nil {number : Nat} (h : readSuite [] number = .ok sections) : sections = [] := by
  rw [readSuite] at h
  cases h
  rfl

/-- What the reader makes of a text tiles it. -/
theorem readSuite_tiles (h : readSuite text number = .ok sections) :
    Tiles number text sections := by
  induction text, number using readSuite.induct generalizing sections with
  | case1 number =>
      rw [readSuite_nil h]
      exact .nil
  | case2 number c others fault hEntry =>
      rw [readSuite, hEntry] at h
      cases h
  | case3 number c others content next rest hEntry ih =>
      rw [readSuite, hEntry] at h
      obtain ⟨more, hMore, hSections⟩ := exists_of_bind_eq_ok h
      cases hSections
      obtain ⟨count, rfl, hNext⟩ := count_of_readEntry hEntry
      refine .whole (by simp) (readEntry_reading hEntry) ?_
      exact tiles_of_next hNext (ih hMore) fun hNil => readSuite_nil (hNil ▸ hMore)
  | case4 number c others start keyword header indent bodyLine body next rest hEntry ih ih' =>
      rw [readSuite, hEntry] at h
      obtain ⟨suite, hSuite, h⟩ := exists_of_bind_eq_ok h
      obtain ⟨more, hMore, hSections⟩ := exists_of_bind_eq_ok h
      cases hSections
      obtain ⟨count, rfl, hNext⟩ := count_of_readEntry hEntry
      have hReading := readEntry_reading hEntry
      obtain rfl := hReading.start
      refine .block (by simp) hReading (ih hSuite) ?_
      exact tiles_of_next hNext (ih' hMore) fun hNil => readSuite_nil (hNil ▸ hMore)

/-- The sections that tile an excerpt stand on their lines, at every depth. -/
theorem Tiles.stands (h : Tiles number text sections)
    (hExcerpt : text ≠ [] → ∃ before, Excerpt source number before text) :
    ∀ s ∈ everySection sections, s.StandsIn source := by
  induction h with
  | nil => exact List.forall_mem_nil _
  | whole hText hReading _ ih =>
      obtain ⟨before, hBefore⟩ := hExcerpt hText
      obtain ⟨hWithin, hStands⟩ := hReading.stands hText hBefore
      rw [everySection, hWithin]
      exact List.forall_mem_cons.2 ⟨hStands, ih fun _ => ⟨before, hBefore.behind _⟩⟩
  | @block number count indent line text header body keyword suite others hText hReading _ _ ih
      ih' =>
      obtain ⟨before, hBefore⟩ := hExcerpt hText
      obtain ⟨hStands, hBody⟩ := hReading.block_stands hText hBefore suite
      rw [everySection, Section.within]
      refine List.forall_mem_cons.2 ⟨hStands, List.forall_mem_append.2 ⟨ih fun _ => hBody, ?_⟩⟩
      exact ih' fun _ => ⟨before, hBefore.behind _⟩

end Tiling

/-! ## Refusals -/

/-- The reader goes through a text whose first line has this number, and refuses the entry that it
comes to then: on the line that the entry starts on, or on a line of a fragment. -/
inductive Stops : Nat → List Char → LayoutFault → Prop
  | entry {number : Nat} {text : List Char} {cause : LayoutCause} : text ≠ [] →
      readEntry text number = .error ⟨number, cause⟩ → Stops number text ⟨number, cause⟩
  | fragment {number width place : Nat} {text line : List Char} {cause : LayoutCause} :
      text ≠ [] → readEntry text number = .error ⟨number + 1 + place, cause⟩ →
      (splitLines (region width (splitLine text).2).body)[place]? = some line →
      readPieces (withoutEnd line) = .error cause →
      Stops number text ⟨number + 1 + place, cause⟩
  | later {number count : Nat} {text : List Char} {entry : Entry} {fault : LayoutFault} :
      text ≠ [] → Reading text number entry ((splitLines text).drop count).flatten →
      Stops (number + count) ((splitLines text).drop count).flatten fault →
      Stops number text fault
  | inside {number indent line : Nat} {text header body rest : List Char} {keyword : BlockKeyword}
      {fault : LayoutFault} : text ≠ [] →
      Reading text number (.block number keyword header indent line body) rest →
      Stops line body fault → Stops number text fault

section Refusals

variable {source before line : List Char}

theorem cause_of_readLine {fault : LayoutFault} (h : readLine number line = .error fault) :
    readPieces line = .error fault.cause ∧ fault.line = number := by
  unfold readLine at h
  split at h
  · rename_i cause hPieces
    cases h
    exact ⟨hPieces, rfl⟩
  · cases h

/-- A fragment is refused because of one of its lines. -/
theorem exists_of_readFragment {physical : List (List Char)} {fault : LayoutFault}
    (h : readFragment number physical = .error fault) :
    ∃ j line, physical[j]? = some line ∧ readPieces line = .error fault.cause ∧
      fault.line = number + j := by
  induction physical generalizing number with
  | nil => cases h
  | cons first others ih =>
      rw [readFragment] at h
      rcases error_of_bind_eq_error h with hFirst | ⟨textLine, -, h⟩
      · obtain ⟨hPieces, hNumber⟩ := cause_of_readLine hFirst
        exact ⟨0, first, rfl, hPieces, hNumber⟩
      · rcases error_of_bind_eq_error h with hOthers | ⟨more, -, hNone⟩
        · obtain ⟨j, line, hLine, hPieces, hNumber⟩ := ih hOthers
          exact ⟨j + 1, line, hLine, hPieces, by rw [hNumber, Nat.add_right_comm, Nat.add_assoc]⟩
        · cases hNone

/-- A variable is refused on its line, or because of a line of its fragment. -/
theorem line_of_readVar {indent : Nat} {fault : LayoutFault}
    (h : readVar number indent after = .error fault) :
    fault.line = number ∨ ∃ j line,
      (lines (region (indent + indentStep) (splitLine after).2).body)[j]? = some line ∧
      readPieces line = .error fault.cause ∧ fault.line = number + 1 + j := by
  unfold readVar at h
  simp only at h
  split at h
  · split at h
    · cases h
      exact Or.inl rfl
    split at h
    · cases h
      exact Or.inl rfl
    split at h
    · cases h
    split at h
    · cases h
      exact Or.inl rfl
    split at h
    · split at h
      · rename_i hFragment
        cases h
        have hWidth : indent + indentStep ≠ 0 := Nat.succ_ne_zero _
        rw [indentedBlock_of_pos hWidth] at hFragment
        exact Or.inr (exists_of_readFragment hFragment)
      · cases h
    · split at h
      · rename_i hOnly
        cases h
        exact Or.inl (cause_of_readLine hOnly).2
      · cases h
  · cases h
    exact Or.inl rfl

theorem line_of_readBlock {indent : Nat} {most : Nat → Nat} {fault : LayoutFault}
    (h : readBlock number indent most after = .error fault) : fault.line = number := by
  unfold readBlock at h
  simp only at h
  split at h
  · cases h
    rfl
  · cases h
    rfl
  · split at h
    · split at h <;> cases h
    · cases h

/-- An entry is refused on its line, or because of a line of its fragment. -/
theorem line_of_readEntry {fault : LayoutFault} (h : readEntry text number = .error fault) :
    fault.line = number ∨ ∃ width j line,
      (lines (region width (splitLine text).2).body)[j]? = some line ∧
      readPieces line = .error fault.cause ∧ fault.line = number + 1 + j := by
  have hText {fault : LayoutFault} (h : readEntry.textEntry text number = .error fault) :
      fault.line = number := by
    unfold readEntry.textEntry at h
    simp only at h
    split at h
    · rename_i hLine
      cases h
      exact (cause_of_readLine hLine).2
    · cases h
  unfold readEntry at h
  split at h
  · rename_i after hAfter
    have hRest : (splitLine after).2 = (splitLine text).2 := by
      rw [splitLine_of_dropSpaces hAfter (by decide)]
    simp only at h
    split at h
    · split at h
      · rename_i hVar
        cases h
        have hCause := line_of_readVar hVar
        rw [hRest] at hCause
        exact hCause.imp_right fun hFragment => ⟨_, hFragment⟩
      · cases h
    · split at h
      · rename_i hBlock
        cases h
        exact Or.inl (line_of_readBlock hBlock)
      · cases h
    · split at h
      · rename_i hBlock
        cases h
        exact Or.inl (line_of_readBlock hBlock)
      · split at h
        · cases h
          exact Or.inl rfl
        · cases h
    · cases h
    · cases h
    · exact Or.inl (hText h)
  · exact Or.inl (hText h)

theorem stops_of_readEntry {fault : LayoutFault} (hText : text ≠ [])
    (h : readEntry text number = .error fault) : Stops number text fault := by
  rcases line_of_readEntry h with hNumber | ⟨width, place, line, hLine, hPieces, hNumber⟩
  · obtain ⟨number', cause⟩ := fault
    obtain rfl : number' = number := hNumber
    exact .entry hText h
  · rw [lines_eq, List.getElem?_map, Option.map_eq_some_iff] at hLine
    obtain ⟨whole, hWhole, hEnd⟩ := hLine
    obtain ⟨number', cause⟩ := fault
    obtain rfl : number' = number + 1 + place := hNumber
    exact .fragment hText h hWhole (hEnd ▸ hPieces)

/-- A text is refused where the reader stops. -/
theorem readSuite_stops {fault : LayoutFault} (h : readSuite text number = .error fault) :
    Stops number text fault := by
  induction text, number using readSuite.induct with
  | case1 number =>
      rw [readSuite] at h
      cases h
  | case2 number c others cause hEntry =>
      rw [readSuite, hEntry] at h
      cases h
      exact stops_of_readEntry (by simp) hEntry
  | case3 number c others content next rest hEntry ih =>
      rw [readSuite, hEntry] at h
      obtain ⟨count, rfl, hNext⟩ := count_of_readEntry hEntry
      rcases error_of_bind_eq_error h with hRest | ⟨_, -, hNone⟩
      · refine .later (by simp) (readEntry_reading hEntry) ?_
        exact hNext (ne_nil_of_readSuite hRest) ▸ ih hRest
      · cases hNone
  | case4 number c others start keyword header indent bodyLine body next rest hEntry ih ih' =>
      rw [readSuite, hEntry] at h
      obtain ⟨count, rfl, hNext⟩ := count_of_readEntry hEntry
      have hReading := readEntry_reading hEntry
      obtain rfl := hReading.start
      rcases error_of_bind_eq_error h with hBody | ⟨suite, -, h⟩
      · exact .inside (by simp) hReading (ih hBody)
      · rcases error_of_bind_eq_error h with hRest | ⟨_, -, hNone⟩
        · exact .later (by simp) hReading (hNext (ne_nil_of_readSuite hRest) ▸ ih' hRest)
        · cases hNone

/-- The reader stops on a line of the source. -/
theorem Stops.comesTo {fault : LayoutFault} (h : Stops number text fault)
    (hExcerpt : Excerpt source number before text) :
    ∃ line, ComesTo source fault.line line := by
  induction h generalizing before with
  | entry hText _ => exact ⟨_, hExcerpt.comesTo_first hText⟩
  | fragment _ _ hLine _ => exact ⟨_, (hExcerpt.lower.region _).comesTo hLine⟩
  | later _ _ _ ih => exact ih (hExcerpt.behind _)
  | inside hText hReading _ ih =>
      obtain ⟨-, before, hBody⟩ := hReading.block_stands hText hExcerpt []
      exact ih hBody

end Refusals

end Stencil
