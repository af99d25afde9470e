import Stencil.Proofs.Layout.Blocks
import Stencil.Proofs.Quoting.Lines
import Stencil.Proofs.Sections.Joining

/-!
# Lines of directives

What a line that starts with a sigil is read into, when it is written without anything else: a sigil
and a blank before a statement, a sigil before a flow word, and a sigil before a header with its
body on the lines below. Whatever the body holds, its lines come out of the region as they went in.

## Main results

* `region_written`: the lines of a region without their indentation.
* `readSuite_assignment`, `readSuite_flow`, `readSuite_block`, `readSuite_code`: the sections of one
  directive.
-/

namespace Stencil

open Stencil.Text

/-! ## Writing lines -/

/-- Lines as a text: each ends with a newline. -/
def written (lines : List (List Char)) : List Char := lines.flatMap (· ++ ['\n'])

/-- The lines with this many spaces before them. -/
def nested (width : Nat) (lines : List (List Char)) : List (List Char) :=
  lines.map (List.replicate width ' ' ++ ·)

/-- A line that is not blank. -/
structure IsTextLine (line : List Char) : Prop where
  oneLine : '\n' ∉ line
  notBlank : allBlank line = false

variable {line : List Char} {lines : List (List Char)} {width : Nat}

theorem written_cons (line : List Char) (lines : List (List Char)) :
    written (line :: lines) = line ++ '\n' :: written lines := by
  rw [written, List.flatMap_cons, List.append_assoc]
  rfl

theorem written_singleton (line : List Char) : written [line] = line ++ ['\n'] :=
  List.flatMap_singleton ..

theorem written_append (lines more : List (List Char)) :
    written (lines ++ more) = written lines ++ written more := List.flatMap_append

theorem endsLine_written (lines : List (List Char)) : EndsLine (written lines) := by
  cases hLast : lines.getLast? with
  | none =>
      rw [List.getLast?_eq_none_iff.1 hLast]
      exact Or.inl rfl
  | some last =>
      obtain ⟨before, rfl⟩ := List.getLast?_eq_some_iff.1 hLast
      right
      rw [written_append, written_cons, ← List.append_assoc]
      exact List.getLast?_concat

theorem IsTextLine.replicate (h : IsTextLine line) (width : Nat) :
    IsTextLine (List.replicate width ' ' ++ line) := by
  constructor
  · rw [List.mem_append, not_or]
    exact ⟨fun hMem => absurd (List.eq_of_mem_replicate hMem) (by decide), h.oneLine⟩
  · rw [allBlank, List.all_append, ← allBlank, ← allBlank, h.notBlank, Bool.and_false]

theorem IsTextLine.newline (h : IsTextLine line) : allBlank (line ++ ['\n']) = false := by
  rw [allBlank, List.all_append, ← allBlank, h.notBlank, Bool.false_and]

theorem countNewlines_line (h : '\n' ∉ line) : countNewlines (line ++ ['\n']) = 1 := by
  rw [countNewlines, List.count_append, List.count_eq_zero_of_not_mem h]
  rfl

theorem linesFrom_append_newline (h : '\n' ∉ line) (current more : List Char) :
    linesFrom current (line ++ '\n' :: more) =
      finishLine (line.reverse ++ current) :: linesFrom [] more := by
  induction line generalizing current with
  | nil => rfl
  | cons c rest ih =>
      rw [List.mem_cons, not_or] at h
      have hStep : linesFrom current (c :: (rest ++ '\n' :: more)) =
          linesFrom (c :: current) (rest ++ '\n' :: more) := by
        rw [linesFrom]
        rintro rfl
        exact h.1 rfl
      rw [List.cons_append, hStep, ih h.2, List.reverse_cons, List.append_assoc]
      rfl

theorem finishLine_reverse (h : line.getLast? ≠ some '\r') : finishLine line.reverse = line := by
  rw [← List.head?_reverse] at h
  cases hReverse : line.reverse with
  | nil => exact (List.reverse_eq_nil_iff.1 hReverse).symm
  | cons c before =>
      rw [hReverse] at h
      have hOther : finishLine (c :: before) = (c :: before).reverse := by
        unfold finishLine
        split
        · rename_i hReturn
          cases hReturn
          exact absurd rfl h
        · rfl
      rw [hOther, ← hReverse, List.reverse_reverse]

/-- Lines that are written are read again, unless a carriage return stands at their end. -/
theorem lines_written (h : ∀ line ∈ lines, '\n' ∉ line ∧ line.getLast? ≠ some '\r') :
    Text.lines (written lines) = lines := by
  induction lines with
  | nil => rfl
  | cons line rest ih =>
      obtain ⟨hLine, hRest⟩ := List.forall_mem_cons.1 h
      rw [written_cons, Text.lines, linesFrom_append_newline hLine.1, List.append_nil,
        finishLine_reverse hLine.2, ← Text.lines, ih hRest]

/-! ## Regions -/

theorem leadingSpaces_nested (width : Nat) (line : List Char) :
    width ≤ leadingSpaces (List.replicate width ' ' ++ line) := by
  rw [leadingSpaces, List.takeWhile_append_of_pos (by simp), List.length_append,
    List.length_replicate]
  exact Nat.le_add_right ..

/-- The first line of indented lines. -/
theorem splitLine_nested (h : IsTextLine line) (width : Nat) (lines : List (List Char)) :
    splitLine (written (nested width (line :: lines))) =
      (List.replicate width ' ' ++ line ++ ['\n'], written (nested width lines)) := by
  rw [nested, List.map_cons, written_cons]
  exact splitLine_append_newline (h.replicate width).oneLine _

theorem written_ne_nil (h : lines ≠ []) : written lines ≠ [] := by
  obtain ⟨line, rest, rfl⟩ := List.exists_cons_of_ne_nil h
  rw [written_cons]
  simp

theorem region_of_ne_nil {text : List Char} (h : text ≠ []) (width : Nat) :
    region width text =
      if belongsTo width (splitLine text).1 then
        let below := region width (splitLine text).2
        ⟨unindent width (splitLine text).1 ++ below.body,
          countNewlines (splitLine text).1 + below.newlines, below.rest⟩
      else ⟨[], 0, text⟩ := by
  cases text with
  | nil => exact absurd rfl h
  | cons c others => rw [region]

theorem firstIndent_of_ne_nil {text : List Char} (h : text ≠ []) :
    firstIndent text = if allBlank (splitLine text).1 then firstIndent (splitLine text).2
      else leadingSpaces (splitLine text).1 := by
  cases text with
  | nil => exact absurd rfl h
  | cons c others => rw [firstIndent]

/-- The lines of a region come out without their indentation. -/
theorem region_written (width : Nat) (h : ∀ line ∈ lines, IsTextLine line) :
    region width (written (nested width lines)) = ⟨written lines, lines.length, []⟩ := by
  induction lines with
  | nil =>
      show region width [] = _
      rw [region]
      rfl
  | cons line rest ih =>
      obtain ⟨hLine, hRest⟩ := List.forall_mem_cons.1 h
      have hNested := hLine.replicate width
      have hBelongs : belongsTo width (List.replicate width ' ' ++ line ++ ['\n']) = true := by
        rw [belongsTo, List.append_assoc, decide_eq_true (leadingSpaces_nested width _),
          Bool.or_true]
      have hDrop :
          unindent width (List.replicate width ' ' ++ line ++ ['\n']) = line ++ ['\n'] := by
        rw [unindent, hNested.newline, if_neg Bool.false_ne_true, List.append_assoc,
          List.drop_left' List.length_replicate]
      rw [region_of_ne_nil (written_ne_nil (by simp [nested])), splitLine_nested hLine]
      simp only [hBelongs, if_true, ih hRest, hDrop, countNewlines_line hNested.oneLine]
      rw [written_cons, List.append_assoc, List.length_cons, Nat.add_comm]
      rfl

/-- A region is as deep as its first line, which has no spaces of its own. -/
theorem firstIndent_written (width : Nat) (h : IsTextLine line) (hSpace : line.head? ≠ some ' ')
    (lines : List (List Char)) : firstIndent (written (nested width (line :: lines))) = width := by
  have hHead : (line ++ ['\n']).head? ≠ some ' ' := by
    cases line with
    | nil => decide
    | cons d more => exact hSpace
  rw [firstIndent_of_ne_nil (written_ne_nil (by simp [nested])), splitLine_nested h]
  simp only [(h.replicate width).newline, Bool.false_eq_true, if_false]
  rw [List.append_assoc, leadingSpaces_replicate width hHead]

/-! ## One directive -/

section Entries

open CodeBlock

variable {number next : Nat} {text : List Char}

theorem readSuite_last {content : Section} (hText : text ≠ [])
    (h : readEntry text number = .ok (.whole content, next, [])) :
    readSuite text number = .ok [content] := by
  obtain ⟨c, others, rfl⟩ := List.exists_cons_of_ne_nil hText
  rw [readSuite, h]
  simp only
  rw [readSuite]
  rfl

theorem readSuite_opened {start : Nat} {keyword : BlockKeyword} {header : List Char}
    {indent bodyLine : Nat} {body : List Char} {suite : List Section} (hText : text ≠ [])
    (h : readEntry text number = .ok (.block start keyword header indent bodyLine body, next, []))
    (hBody : readSuite body bodyLine = .ok suite) :
    readSuite text number = .ok [.block start keyword header indent suite] := by
  obtain ⟨c, others, rfl⟩ := List.exists_cons_of_ne_nil hText
  rw [readSuite, h]
  simp only [hBody]
  rw [readSuite]
  rfl

/-- What a sigil announces is told by the word behind it. -/
theorem directive_of?_word {word : List Char} (h : firstWord text = some word) :
    Directive.of? text =
      if word == "var".toList then some .var
      else if word == "code".toList then some .code
      else match BlockKeyword.ofWord? word with
        | some keyword => some (.block keyword)
        | none => (FlowKeyword.ofWord? word).map .flow := by
  unfold firstWord LogicalLine.word? at h
  cases hToken : firstToken? text with
  | none =>
      rw [hToken] at h
      cases h
  | some t =>
      rw [hToken] at h
      obtain ⟨hName, hText⟩ := Option.ite_none_right_eq_some.1 h
      cases Option.some.inj hText
      have hIs (name : String) : t.isName name = (t.text == name.toList) := by
        rw [Token.isName, hName, beq_self_eq_true, Bool.true_and]
      rw [Directive.of?, hToken]
      dsimp only
      cases BlockKeyword.ofWord? t.text with
      | some keyword => simp only [hName, hIs]
      | none => simp only [hName, hIs]

theorem directive_of?_block {keyword : BlockKeyword}
    (h : firstWord text = some keyword.word.toList) :
    Directive.of? text = some (.block keyword) := by
  rw [directive_of?_word h]
  cases keyword <;> decide

theorem directive_of?_flow {keyword : FlowKeyword}
    (h : firstWord text = some keyword.word.toList) :
    Directive.of? text = some (.flow keyword) := by
  rw [directive_of?_word h]
  cases keyword <;> decide

theorem allBlank_written (h : IsTextLine line) : allBlank (written (line :: lines)) = false := by
  rw [written_cons, allBlank, List.all_append, ← allBlank, h.notBlank, Bool.false_and]

theorem dropSpaces_sigil (after : List Char) : dropSpaces ('$' :: after) = '$' :: after := rfl

theorem trim_append_newline (text : List Char) : trim (text ++ ['\n']) = trim text := by
  have hEnd (code : List Char) : trimEnd (code ++ ['\n']) = trimEnd code := by
    rw [trimEnd, List.reverse_append]
    rfl
  rw [trim, trimStart, List.dropWhile_append]
  split
  · rename_i hNone
    rw [trim, trimStart, List.isEmpty_iff.1 hNone]
    rfl
  · exact hEnd _

theorem trim_newline {code : List Char} (h : trim code = code) : trim (code ++ ['\n']) = code :=
  (trim_append_newline code).trans h

/-- A statement behind a sigil and a blank. -/
theorem readSuite_assignment {code : List Char} (hLine : '\n' ∉ code) (hTrim : trim code = code) :
    readSuite (written ['$' :: ' ' :: code]) number = .ok [.assignment number code] := by
  have hSplit : splitLine (' ' :: code ++ '\n' :: []) = (' ' :: code ++ ['\n'], []) :=
    splitLine_append_newline (by simp [hLine]) []
  have hDirective : Directive.of? (' ' :: code ++ '\n' :: []) = some .assignment := rfl
  have hCode : trim (' ' :: code ++ ['\n']) = code := trim_newline hTrim
  have hEntry : readEntry ('$' :: (' ' :: code ++ '\n' :: [])) number =
      .ok (.whole (.assignment number code), number + countNewlines (' ' :: code ++ ['\n']),
        []) := by
    unfold readEntry
    rw [dropSpaces_sigil]
    simp only [hDirective, hSplit, hCode]
  rw [written_singleton]
  exact readSuite_last (List.cons_ne_nil _ _) hEntry

/-- A flow word and what stands behind it. -/
theorem readSuite_flow {keyword : FlowKeyword} {code : List Char} (hLine : '\n' ∉ code)
    (hTrim : trim code = code) (hWord : firstWord (code ++ ['\n']) = some keyword.word.toList) :
    readSuite (written ['$' :: code]) number = .ok [.flow number keyword code] := by
  have hSplit : splitLine (code ++ '\n' :: []) = (code ++ ['\n'], []) :=
    splitLine_append_newline hLine []
  have hDirective := directive_of?_flow hWord
  have hCode := trim_newline hTrim
  have hEntry : readEntry ('$' :: (code ++ ['\n'])) number =
      .ok (.whole (.flow number keyword code), number + countNewlines (code ++ ['\n']), []) := by
    unfold readEntry
    rw [dropSpaces_sigil]
    simp only [hDirective, hSplit, hCode]
  rw [written_singleton]
  exact readSuite_last (List.cons_ne_nil _ _) hEntry

/-- The body below a header is all that is indented, without its indentation. -/
theorem readBlock_written (number : Nat) (most : Nat → Nat) {head header first : List Char}
    (hLine : '\n' ∉ head) (hSplit : splitHeader (head ++ ['\n']) = .ok (some (header, ['\n'])))
    (hMost : most width = width) (hWidth : width ≠ 0)
    (hBody : ∀ line ∈ first :: lines, IsTextLine line) (hFirst : first.head? ≠ some ' ') :
    readBlock number 0 most (head ++ '\n' :: written (nested width (first :: lines))) =
      .ok ⟨header, written (first :: lines), number + 1, number + 1 + (first :: lines).length,
        []⟩ := by
  have hHead := splitLine_append_newline hLine (written (nested width (first :: lines)))
  have hIndent := firstIndent_written width (hBody first List.mem_cons_self) hFirst lines
  have hBlank : allBlank ['\n'] = true := rfl
  have hRegion := region_written width hBody
  unfold readBlock
  simp only [hHead, hSplit, hBlank, if_true, hIndent, Nat.sub_zero, if_neg hWidth, hMost,
    Nat.zero_add, indentedBlock, hRegion, countNewlines_line hLine]

/-- A header with its body below it. -/
theorem readSuite_block {keyword : BlockKeyword} {header first : List Char} {suite : List Section}
    (hLine : '\n' ∉ header) (hHeader : IsHeader keyword.word header)
    (hBody : ∀ line ∈ first :: lines, IsTextLine line) (hFirst : first.head? ≠ some ' ')
    (hRead : readSuite (written (first :: lines)) (number + 1) = .ok suite) :
    readSuite (written (('$' :: header ++ [':']) :: nested indentStep (first :: lines))) number =
      .ok [.block number keyword header 0 suite] := by
  have hHead : '\n' ∉ header ++ [':'] := by simp [hLine]
  have hSplit : splitHeader (header ++ [':'] ++ ['\n']) = .ok (some (header, ['\n'])) := by
    rw [List.append_assoc]
    exact hHeader.split ['\n']
  have hBlock := readBlock_written number (min · indentStep) hHead hSplit (Nat.min_self indentStep)
    (by decide) hBody hFirst
  have hDirective :
      Directive.of? (header ++ [':'] ++ '\n' :: written (nested indentStep (first :: lines))) =
        some (.block keyword) := by
    refine directive_of?_block ?_
    rw [List.append_assoc]
    exact hHeader.word _
  have hIndent (after : List Char) : leadingSpaces ('$' :: after) = 0 := rfl
  have hEntry : readEntry
      ('$' :: (header ++ [':'] ++ '\n' :: written (nested indentStep (first :: lines)))) number =
        .ok (.block number keyword header 0 (number + 1) (written (first :: lines)),
          number + 1 + (first :: lines).length, []) := by
    unfold readEntry
    rw [dropSpaces_sigil]
    simp only [hIndent, hDirective, hBlock, allBlank_written (hBody first List.mem_cons_self),
      Bool.false_eq_true, if_false]
  rw [written_cons]
  exact readSuite_opened (List.cons_ne_nil _ _) hEntry hRead

/-- A code block with its statements below it. -/
theorem readSuite_code {first : List Char} (hWidth : width ≠ 0)
    (hBody : ∀ line ∈ first :: lines, IsTextLine line) (hFirst : first.head? ≠ some ' ') :
    readSuite (written ("$code:".toList :: nested width (first :: lines))) number =
      .ok [.code (number + 1) (written (first :: lines))] := by
  have hSplit : splitHeader ("code:".toList ++ ['\n']) = .ok (some ("code".toList, ['\n'])) :=
    ok_of_toOption (by decide +kernel)
  have hBlock := readBlock_written number id (by decide) hSplit rfl hWidth hBody hFirst
  have hDirective :
      Directive.of? ("code:".toList ++ '\n' :: written (nested width (first :: lines))) =
        some .code := by
    rw [show "code:".toList ++ '\n' :: written (nested width (first :: lines)) =
      ("code:".toList ++ ['\n']) ++ written (nested width (first :: lines)) from rfl,
      directive_of?_append (Or.inr rfl) (by decide)]
    decide
  have hIndent (after : List Char) : leadingSpaces ('$' :: after) = 0 := rfl
  have hEntry : readEntry
      ('$' :: ("code:".toList ++ '\n' :: written (nested width (first :: lines)))) number =
        .ok (.whole (.code (number + 1) (written (first :: lines))),
          number + 1 + (first :: lines).length, []) := by
    unfold readEntry
    rw [dropSpaces_sigil]
    simp only [hIndent, hDirective, hBlock]
  rw [written_cons]
  exact readSuite_last (List.cons_ne_nil _ _) hEntry

end Entries

end Stencil
