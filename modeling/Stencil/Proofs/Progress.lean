import Mathlib.Data.List.TakeWhile
import Stencil.Proofs.Comments

/-!
# Progress of the reader

Reading a text ends, whatever stands in it. A section takes whole lines off the text. The body that
is read inside a block is put together anew from the lines of the block, so it is no part of the
text: what bounds it is that a line never gets longer when its indentation is taken off, that a
blank line leaves a newline for at least one character, and that the header, too, is of some length.
A piece of a line takes at least one character off the line.

## Main results

* `Reading.length_lt`: an entry takes more than the body that is still to be read.
* `readSuite_cons`: a text is read section by section.
* `reader_makes_progress`: what the reader goes on with is always shorter, and what a region is cut
  into.
-/

namespace Stencil

open Stencil.Text

/-! ## Whole lines -/

/-- `consumed` is the front of the text up to the end of one of its lines, and `rest` is what stands
behind it. -/
structure TakesLines (text consumed rest : List Char) : Prop where
  text_eq : text = consumed ++ rest
  ne_nil : consumed ≠ []
  ends : rest = [] ∨ consumed.getLast? = some '\n'

theorem exists_append_of_suffix {text rest : List Char} (h : splitLines rest <:+ splitLines text) :
    ∃ consumed, text = consumed ++ rest ∧
      (rest = [] ∨ consumed = [] ∨ consumed.getLast? = some '\n') := by
  have hWhole {text : List Char} (hSame : splitLines rest = splitLines text) : text = rest := by
    have hFlat := congrArg List.flatten hSame
    rwa [flatten_splitLines, flatten_splitLines, eq_comm] at hFlat
  induction text using line_induction with
  | last text hText =>
      by_cases hSome : text = []
      · subst hSome
        have hRest : [] = rest := hWhole (List.suffix_nil.1 h)
        exact ⟨[], hRest, .inr (.inl rfl)⟩
      · rw [splitLines_of_not_mem hText hSome, List.suffix_cons_iff] at h
        rcases h with hSame | hNil
        · rw [← splitLines_of_not_mem hText hSome] at hSame
          exact ⟨[], hWhole hSame, .inr (.inl rfl)⟩
        · have hRest : [] = rest := hWhole (List.suffix_nil.1 hNil)
          exact ⟨text, by rw [← hRest, List.append_nil], .inl hRest.symm⟩
  | line content more hContent ih =>
      rw [splitLines_append_newline hContent, List.suffix_cons_iff] at h
      rcases h with hSame | hBelow
      · rw [← splitLines_append_newline hContent] at hSame
        exact ⟨[], hWhole hSame, .inr (.inl rfl)⟩
      · obtain ⟨consumed, rfl, hEnds⟩ := ih hBelow
        refine ⟨content ++ '\n' :: consumed, by rw [List.append_assoc]; rfl, ?_⟩
        rcases hEnds with hRest | rfl | hLast
        · exact .inl hRest
        · exact .inr (.inr List.getLast?_concat)
        · refine .inr (.inr ?_)
          rw [List.getLast?_append, List.getLast?_cons, hLast]
          rfl

/-- A rest that starts with a line of the text, and not with the first one. -/
theorem exists_takesLines {text rest : List Char} (h : splitLines rest <:+ splitLines text)
    (hShort : rest.length < text.length) : ∃ consumed, TakesLines text consumed rest := by
  obtain ⟨consumed, rfl, hEnds⟩ := exists_append_of_suffix h
  have hSome : consumed ≠ [] := by
    rintro rfl
    exact absurd hShort (Nat.lt_irrefl _)
  exact ⟨consumed, rfl, hSome, hEnds.imp_right (Or.resolve_left · hSome)⟩

/-! ## Sections -/

section Sections

variable {text rest content : List Char} {number : Nat} {entry : Entry}

/-- The sigil of a directive is no part of its content. -/
theorem Directs.length_lt (h : Directs text content) :
    content.length < (splitLine text).1.length := by
  have hSpaces := length_dropSpaces_le (splitLine text).1
  rw [h] at hSpaces
  exact hSpaces

theorem BodyAt.length_lt {most : Nat → Nat} {remainder body : List Char} {line : Nat}
    (h : BodyAt text number most remainder line body rest)
    (hRemainder : remainder.length < (splitLine text).1.length) :
    body.length + rest.length < text.length := by
  have hLine := length_splitLine text
  cases h with
  | inline _ =>
      have hTrim := length_trimStart_le remainder
      omega
  | missing _ _ =>
      rw [List.length_nil]
      omega
  | @below width _ _ _ =>
      have hRegion := length_region_le width (splitLine text).2
      omega

/-- An entry takes more characters than there are in the body that is still to be read. -/
theorem Reading.length_lt (h : Reading text number entry rest) (hText : text ≠ []) :
    entry.pending + rest.length < text.length := by
  have hRest := length_splitLine_rest_lt hText
  have hHeader {content header remainder : List Char} (hDirects : Directs text content)
      (hSplit : splitHeader content = .ok (some (header, remainder))) :
      remainder.length < (splitLine text).1.length :=
    Nat.lt_of_le_of_lt (length_splitHeader_le hSplit) hDirects.length_lt
  have hWhole {content : Section} {rest : List Char} (hShort : rest.length < text.length) :
      (Entry.whole content).pending + rest.length < text.length := by
    rw [Entry.pending, Nat.zero_add]
    exact hShort
  cases h with
  | line _ => exact hWhole hRest
  | assignment _ => exact hWhole hRest
  | flow _ _ => exact hWhole hRest
  | code hDirects hSplit hBody =>
      have hLength := hBody.length_lt (hHeader hDirects hSplit)
      exact hWhole (by omega)
  | block _ hDirects hSplit hBody _ => exact hBody.length_lt (hHeader hDirects hSplit)
  | varExpression _ _ _ => exact hWhole hRest
  | varLine _ _ _ _ => exact hWhole hRest
  | @varLines _ _ _ width _ _ _ _ =>
      have hRegion := length_region_le width (splitLine text).2
      exact hWhole (by omega)

/-- An entry takes whole lines, and more than the body that is still to be read. -/
theorem takesLines_of_readEntry {next : Nat} (hText : text ≠ [])
    (h : readEntry text number = .ok (entry, next, rest)) :
    ∃ consumed, TakesLines text consumed rest ∧ entry.pending < consumed.length := by
  have hReading := readEntry_reading h
  have hLength := hReading.length_lt hText
  obtain ⟨consumed, hTakes⟩ := exists_takesLines hReading.suffix (by omega)
  refine ⟨consumed, hTakes, ?_⟩
  rw [hTakes.text_eq, List.length_append] at hLength
  omega

theorem readEntry_of_readSection {section_ : Section}
    (h : readSection text number = .ok (section_, rest)) :
    ∃ entry next, readEntry text number = .ok (entry, next, rest) := by
  rw [readSection] at h
  split at h
  · cases h
  · rename_i content next behind hEntry
    cases h
    exact ⟨_, next, hEntry⟩
  · rename_i next behind hEntry
    obtain ⟨suite, -, hSection⟩ := exists_of_bind_eq_ok h
    cases hSection
    exact ⟨_, next, hEntry⟩

/-- The sections inside a block are read from the body that is cut out of its lines. -/
theorem readSection_block {next start indent line : Nat} {keyword : BlockKeyword}
    {header body : List Char} (h : readEntry text number =
      .ok (.block start keyword header indent line body, next, rest)) :
    readSection text number = (readSuite body line).map fun suite =>
      (.block start keyword header indent suite, rest) := by
  rw [readSection, h]
  dsimp only
  cases readSuite body line <;> rfl

/-- What an entry takes off the text holds the newlines that its number goes on by. -/
theorem next_of_readEntry {next : Nat} (hText : text ≠ [])
    (h : readEntry text number = .ok (entry, next, rest)) :
    next = number + countNewlines (text.take (text.length - rest.length)) := by
  obtain ⟨consumed, hTakes, -⟩ := takesLines_of_readEntry hText h
  have hNumber := newlines_readEntry h
  have hTake : text.take (text.length - rest.length) = consumed := by
    rw [hTakes.text_eq, List.length_append, Nat.add_sub_cancel, List.take_left]
  have hCount : countNewlines text = countNewlines consumed + countNewlines rest := by
    rw [hTakes.text_eq]
    exact List.count_append
  rw [hTake]
  omega

/-- A text is read section by section, and the next one has the number of the line it starts on. -/
theorem readSuite_cons (hText : text ≠ []) : readSuite text number = (do
    let (first, rest) ← readSection text number
    let others ←
      readSuite rest (number + countNewlines (text.take (text.length - rest.length)))
    return first :: others) := by
  rw [readSection]
  cases hEntry : readEntry text number with
  | error fault =>
      obtain ⟨c, others, rfl⟩ := List.exists_cons_of_ne_nil hText
      rw [readSuite, hEntry]
      rfl
  | ok found =>
      obtain ⟨entry, next, rest⟩ := found
      have hNext := next_of_readEntry hText hEntry
      cases entry with
      | whole content =>
          rw [readSuite_whole hText hEntry, hNext]
          rfl
      | block start keyword header indent line body =>
          rw [readSuite_nested hText hEntry, hNext]
          dsimp only
          cases readSuite body line <;> rfl

end Sections

/-! ## Pieces -/

theorem exists_append_of_readPiece {text rest : List Char} {piece : Piece}
    (h : readPiece text = .ok (piece, rest)) : ∃ consumed, text = consumed ++ rest := by
  have hExpression {escape : Bool} {text : List Char}
      (h : readExpression escape text = .ok (piece, rest)) : ∃ code, text = code ++ rest := by
    unfold readExpression at h
    split at h
    · cases h
    · rename_i code behind hRead
      simp only at h
      split at h
      · cases h
      · cases h
        exact ⟨code, (Inline.read_append hRead).symm⟩
  unfold readPiece at h
  split at h
  · cases h
    exact ⟨['$', '$'], rfl⟩
  · rename_i remark
    cases h
    refine ⟨'$' :: '#' :: (splitLine remark).1, ?_⟩
    rw [List.cons_append, List.cons_append, splitLine_append]
  · obtain ⟨code, rfl⟩ := hExpression h
    exact ⟨'$' :: ':' :: code, rfl⟩
  · obtain ⟨code, rfl⟩ := hExpression h
    exact ⟨'$' :: code, rfl⟩
  · cases h
    exact ⟨_, List.takeWhile_append_dropWhile.symm⟩

/-! ## What the reader goes on with -/

/-- `ReadsOn text later`: after a step in the first text the reader goes on with the second one. It
is what stands behind a section, the body of a block, or what stands behind a piece of a line. -/
inductive ReadsOn (text : List Char) : List Char → Prop
  | section_ {number next : Nat} {entry : Entry} {rest : List Char} : text ≠ [] →
      readEntry text number = .ok (entry, next, rest) → ReadsOn text rest
  | body {number next start indent line : Nat} {keyword : BlockKeyword}
      {header body rest : List Char} : text ≠ [] →
      readEntry text number = .ok (.block start keyword header indent line body, next, rest) →
      ReadsOn text body
  | piece {piece : Piece} {rest : List Char} : text ≠ [] →
      readPiece text = .ok (piece, rest) → ReadsOn text rest

theorem ReadsOn.length_lt {text later : List Char} (h : ReadsOn text later) :
    later.length < text.length := by
  cases h with
  | section_ hText hEntry =>
      have hLength := (readEntry_reading hEntry).length_lt hText
      omega
  | body hText hEntry =>
      have hLength := (readEntry_reading hEntry).length_lt hText
      rw [Entry.pending] at hLength
      omega
  | piece hText hPiece => exact length_readPiece_lt hPiece hText

/-- The reader does not go on for ever. -/
theorem wellFounded_readsOn : WellFounded fun later text => ReadsOn text later :=
  Subrelation.wf ReadsOn.length_lt (InvImage.wf List.length Nat.lt_wfRel.wf)

/-! ## Regions -/

/-- A line of a region is blank and becomes empty, or it loses as many spaces as the region is
wide. -/
theorem unindent_cases {width : Nat} {line : List Char} (h : belongsTo width line = true) :
    allBlank line = true ∧ unindent width line = ['\n'] ∨
      allBlank line = false ∧ line = List.replicate width ' ' ++ unindent width line := by
  rw [unindent]
  cases hBlank : allBlank line with
  | true => exact .inl ⟨rfl, rfl⟩
  | false =>
      rw [belongsTo, hBlank, Bool.false_or, decide_eq_true_eq] at h
      exact .inr ⟨rfl, (replicate_append_drop h).symm⟩

theorem indentedBlock_lines {width : Nat} (hWidth : 1 ≤ width) (text : List Char) :
    ∃ taken, splitLines text = taken ++ splitLines (indentedBlock width text).rest ∧
      splitLines (indentedBlock width text).body = taken.map (unindent width) ∧
      (∀ line ∈ taken, belongsTo width line = true) ∧
      ∀ line ∈ (splitLines (indentedBlock width text).rest).head?,
        belongsTo width line = false := by
  have hRest : splitLines (region width text).rest =
      (splitLines text).dropWhile (belongsTo width) := by
    rw [rest_region, splitLines_flatten_of_suffix (List.dropWhile_suffix _)]
  rw [indentedBlock_of_pos (by omega), hRest]
  refine ⟨_, List.takeWhile_append_dropWhile.symm, splitLines_region width text, ?_, ?_⟩
  · intro line hLine
    exact List.mem_takeWhile_imp hLine
  · intro line hLine
    have hNot := List.head?_dropWhile_not (belongsTo width) (splitLines text)
    rw [Option.mem_def.1 hLine] at hNot
    simpa using hNot

/-- The reader makes progress. What stands behind a section is behind whole lines of the text. The
body of a block, from which its sections are read, is shorter than what the block takes. A piece of
a line takes some of it. So the reader ends: it reads a text section by section, and cannot go on
for ever. A region has a line for each line that it takes, without as many spaces as it is wide; it
ends where a line that is not blank has fewer. -/
theorem reader_makes_progress :
    (∀ text number section_ rest, text ≠ [] → readSection text number = .ok (section_, rest) →
      ∃ consumed, TakesLines text consumed rest) ∧
    (∀ text number start keyword header indent line body next rest, text ≠ [] →
      readEntry text number = .ok (.block start keyword header indent line body, next, rest) →
      (readSection text number = (readSuite body line).map fun suite =>
        (.block start keyword header indent suite, rest)) ∧
      ∃ consumed, TakesLines text consumed rest ∧ body.length < consumed.length) ∧
    (∀ text piece rest, text ≠ [] → readPiece text = .ok (piece, rest) →
      ∃ consumed, consumed ≠ [] ∧ text = consumed ++ rest) ∧
    (∀ text number, text ≠ [] → readSuite text number = (do
      let (first, rest) ← readSection text number
      let others ←
        readSuite rest (number + countNewlines (text.take (text.length - rest.length)))
      return first :: others)) ∧
    (WellFounded fun later text => ReadsOn text later) ∧
    ∀ width text, 1 ≤ width → ∃ taken,
      splitLines text = taken ++ splitLines (indentedBlock width text).rest ∧
      splitLines (indentedBlock width text).body = taken.map (unindent width) ∧
      (∀ line ∈ taken, allBlank line = true ∧ unindent width line = ['\n'] ∨
        allBlank line = false ∧ line = List.replicate width ' ' ++ unindent width line) ∧
      ((indentedBlock width text).rest = [] ∨ ∃ line,
        (splitLines (indentedBlock width text).rest).head? = some line ∧
          allBlank line = false ∧ leadingSpaces line < width) := by
  refine ⟨?_, ?_, ?_, fun _ _ => readSuite_cons, wellFounded_readsOn, ?_⟩
  · intro text number section_ rest hText h
    obtain ⟨entry, next, hEntry⟩ := readEntry_of_readSection h
    obtain ⟨consumed, hTakes, -⟩ := takesLines_of_readEntry hText hEntry
    exact ⟨consumed, hTakes⟩
  · intro text number start keyword header indent line body next rest hText h
    exact ⟨readSection_block h, takesLines_of_readEntry hText h⟩
  · intro text piece rest hText h
    obtain ⟨consumed, rfl⟩ := exists_append_of_readPiece h
    refine ⟨consumed, ?_, rfl⟩
    rintro rfl
    exact absurd (length_readPiece_lt h hText) (Nat.lt_irrefl _)
  · intro width text hWidth
    obtain ⟨taken, hLines, hBody, hTaken, hRest⟩ := indentedBlock_lines hWidth text
    refine ⟨taken, hLines, hBody, fun line hLine => unindent_cases (hTaken line hLine), ?_⟩
    by_cases hNil : (indentedBlock width text).rest = []
    · exact .inl hNil
    · rw [head?_splitLines, if_neg hNil] at hRest ⊢
      have hNot := hRest _ rfl
      rw [belongsTo, Bool.or_eq_false_iff, decide_eq_false_iff_not] at hNot
      exact .inr ⟨_, rfl, hNot.1, Nat.lt_of_not_le hNot.2⟩

/-- A block with a blank line in its body and a line behind it, cut into its parts. -/
theorem block_before_line_is_taken :
    (∃ consumed, TakesLines "$if a:\n    x\n  \n    $y\nz".toList consumed "z".toList) ∧
    (∃ consumed, TakesLines "$if a:\n    x\n  \n    $y\nz".toList consumed "z".toList ∧
      "x\n\n$y\n".toList.length < consumed.length) ∧
    (∃ consumed, consumed ≠ [] ∧ "x $y".toList = consumed ++ "$y".toList) ∧
    ∃ taken, splitLines "    x\n  \n    $y\nz".toList = taken ++ ["z".toList] ∧
      ["x\n".toList, ['\n'], "$y\n".toList] = taken.map (unindent 4) := by
  have hEntry : readEntry "$if a:\n    x\n  \n    $y\nz".toList 1 =
      .ok (.block 1 .ifBranch "if a".toList 0 2 "x\n\n$y\n".toList, 5, "z".toList) := by
    with_unfolding_all rfl
  obtain ⟨hSections, hBodies, hPieces, -, -, hRegions⟩ := reader_makes_progress
  obtain ⟨hSection, hBody⟩ := hBodies _ _ _ _ _ _ _ _ _ _ (by decide) hEntry
  have hRead : readSuite "x\n\n$y\n".toList 2 = .ok
      [.line ⟨2, [.text "x\n".toList]⟩, .line ⟨3, [.text "\n".toList]⟩,
        .line ⟨4, [.expression "y".toList true, .text "\n".toList]⟩] := by
    with_unfolding_all rfl
  rw [hRead] at hSection
  refine ⟨hSections _ _ _ _ (by decide) hSection, hBody, hPieces _ _ _ (by decide) rfl, ?_⟩
  obtain ⟨taken, hLines, hTaken, -⟩ := hRegions 4 "    x\n  \n    $y\nz".toList (by decide)
  have hBlock : (indentedBlock 4 "    x\n  \n    $y\nz".toList).rest = "z".toList ∧
      (indentedBlock 4 "    x\n  \n    $y\nz".toList).body = "x\n\n$y\n".toList := by
    decide +kernel
  rw [hBlock.1] at hLines
  rw [hBlock.2] at hTaken
  exact ⟨taken, hLines, hTaken⟩

end Stencil
