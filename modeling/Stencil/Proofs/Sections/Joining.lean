import Stencil.Section.Reader
import Stencil.Proofs.Quoting.Lexing

/-!
# Texts in a row

A text whose last line ends can be followed by another text that starts with a line of its own: one
that is neither blank nor indented. No section of the first text reaches into the second one then,
since every region ends before a line that is not indented, and what stands on a line is told by
that line. So reading both is reading one after the other.

## Main results

* `readEntry_append`: the first section of the first text is the first section of both.
* `readSuite_append`: the sections of both are those of the first and those of the second.
* `sections_of_joined_texts`: which fault is reported, and which numbers the lines have.
-/

namespace Stencil

open Stencil.Text

/-- The text has no last line that is left open. -/
def EndsLine (text : List Char) : Prop := text = [] ∨ text.getLast? = some '\n'

/-- The text starts with a line that is neither blank nor indented, if it starts with any. -/
def StartsOutside (text : List Char) : Prop :=
  text = [] ∨ allBlank (splitLine text).1 = false ∧ leadingSpaces (splitLine text).1 = 0

instance : DecidablePred EndsLine := fun _ => inferInstanceAs (Decidable (_ ∨ _))

instance : DecidablePred StartsOutside := fun _ => inferInstanceAs (Decidable (_ ∨ _ ∧ _))

/-! ## Lines that end -/

theorem EndsLine.of_append (first : List Char) {rest : List Char} (h : EndsLine (first ++ rest)) :
    EndsLine rest := by
  by_cases hRest : rest = []
  · exact Or.inl hRest
  · right
    rcases h with hNil | hLast
    · exact absurd (List.append_eq_nil_iff.1 hNil).2 hRest
    · rwa [List.getLast?_append, List.getLast?_eq_some_getLast hRest, Option.some_or,
        ← List.getLast?_eq_some_getLast hRest] at hLast

theorem EndsLine.of_cons {c : Char} {rest : List Char} (h : EndsLine (c :: rest)) : EndsLine rest :=
  EndsLine.of_append [c] h

theorem EndsLine.dropSpaces {text : List Char} (h : EndsLine text) :
    EndsLine (Text.dropSpaces text) := by
  rw [← List.takeWhile_append_dropWhile (p := (· == ' ')) (l := text)] at h
  exact EndsLine.of_append _ h

theorem EndsLine.newline_mem {text : List Char} (h : EndsLine text) (hText : text ≠ []) :
    '\n' ∈ text := by
  rcases h with hNil | hLast
  · exact absurd hNil hText
  · exact List.mem_of_getLast? hLast

theorem EndsLine.splitLine_rest {text : List Char} (h : EndsLine text) :
    EndsLine (splitLine text).2 := by
  rw [← splitLine_append text] at h
  exact EndsLine.of_append _ h

/-- What follows a sigil on a line that ends is not empty. -/
theorem EndsLine.ne_nil_of_cons {c : Char} {rest : List Char} (hc : c ≠ '\n')
    (h : EndsLine (c :: rest)) : rest ≠ [] := by
  rintro rfl
  rcases h with hNil | hLast
  · cases hNil
  · exact hc (Option.some.inj hLast)

/-- The first line of a text that has a whole line. -/
theorem splitLine_append_of_mem {first : List Char} (h : '\n' ∈ first) (second : List Char) :
    splitLine (first ++ second) = ((splitLine first).1, (splitLine first).2 ++ second) := by
  fun_induction splitLine first with
  | case1 => cases h
  | case2 rest => rfl
  | case3 c rest hc ih =>
      have hRest : '\n' ∈ rest := by
        rcases List.mem_cons.1 h with hSame | hRest
        · exact absurd hSame.symm hc
        · exact hRest
      rw [List.cons_append, splitLine, ih hRest]
      exact hc

theorem takeWhile_append_of_mem {p : Char → Bool} {first : List Char} {c : Char} (hMem : c ∈ first)
    (hc : p c = false) (second : List Char) :
    (first ++ second).takeWhile p = first.takeWhile p ∧
      (first ++ second).dropWhile p = first.dropWhile p ++ second := by
  induction first with
  | nil => cases hMem
  | cons d rest ih =>
      by_cases hd : p d = true
      · have hRest : c ∈ rest := by
          rcases List.mem_cons.1 hMem with rfl | hRest
          · rw [hc] at hd
            cases hd
          · exact hRest
        obtain ⟨hTake, hDrop⟩ := ih hRest
        constructor
        · rw [List.cons_append, List.takeWhile_cons_of_pos hd, List.takeWhile_cons_of_pos hd, hTake]
        · rw [List.cons_append, List.dropWhile_cons_of_pos hd, List.dropWhile_cons_of_pos hd, hDrop]
      · constructor
        · rw [List.cons_append, List.takeWhile_cons_of_neg hd, List.takeWhile_cons_of_neg hd]
        · rw [List.cons_append, List.dropWhile_cons_of_neg hd, List.dropWhile_cons_of_neg hd]
          rfl

/-! ## Regions -/

section Regions

variable {first second : List Char}

theorem StartsOutside.not_belongsTo {width : Nat} {c : Char} {others : List Char}
    (h : StartsOutside (c :: others)) (hWidth : width ≠ 0) :
    belongsTo width (splitLine (c :: others)).1 = false := by
  rcases h with hNil | ⟨hBlank, hSpaces⟩
  · cases hNil
  · rw [belongsTo, hBlank, hSpaces, Bool.false_or, decide_eq_false_iff_not]
    omega

/-- A region of the first text ends with it. -/
theorem region_append {width : Nat} (hWidth : width ≠ 0) (hFirst : EndsLine first)
    (hSecond : StartsOutside second) : region width (first ++ second) =
      { region width first with rest := (region width first).rest ++ second } := by
  fun_induction region width first with
  | case1 =>
      cases second with
      | nil => rw [List.nil_append, region]
      | cons c others =>
          rw [List.nil_append, region]
          simp only [hSecond.not_belongsTo hWidth, Bool.false_eq_true, if_false]
  | case2 c others line hBelongs below ih =>
      have hSplit := splitLine_append_of_mem (hFirst.newline_mem (List.cons_ne_nil c others)) second
      have hBelow := ih hFirst.splitLine_rest
      rw [List.cons_append] at hSplit ⊢
      rw [region]
      simp only [hSplit]
      rw [if_pos hBelongs, hBelow]
  | case3 c others line hBelongs =>
      have hSplit := splitLine_append_of_mem (hFirst.newline_mem (List.cons_ne_nil c others)) second
      rw [List.cons_append] at hSplit ⊢
      rw [region]
      simp only [hSplit]
      rw [if_neg hBelongs]

theorem indentedBlock_append (width : Nat) (hFirst : EndsLine first)
    (hSecond : StartsOutside second) : indentedBlock width (first ++ second) =
      { indentedBlock width first with rest := (indentedBlock width first).rest ++ second } := by
  unfold indentedBlock
  split
  · rfl
  · rename_i hWidth
    exact region_append hWidth hFirst hSecond

theorem endsLine_region {width : Nat} (h : EndsLine first) :
    EndsLine (region width first).rest := by
  fun_induction region width first with
  | case1 => exact Or.inl rfl
  | case2 c others line hBelongs below ih => exact ih h.splitLine_rest
  | case3 c others line hBelongs => exact h

theorem endsLine_indentedBlock (width : Nat) (h : EndsLine first) :
    EndsLine (indentedBlock width first).rest := by
  unfold indentedBlock
  split
  · exact h
  · exact endsLine_region h

theorem StartsOutside.firstIndent (h : StartsOutside second) : firstIndent second = 0 := by
  cases second with
  | nil => rw [Stencil.firstIndent]
  | cons c others =>
      rcases h with hNil | ⟨hBlank, hSpaces⟩
      · cases hNil
      · rw [Stencil.firstIndent]
        simp only [hBlank, hSpaces, Bool.false_eq_true, if_false]

theorem firstIndent_append (hFirst : EndsLine first) (hSecond : StartsOutside second) :
    firstIndent (first ++ second) = firstIndent first := by
  fun_induction firstIndent first with
  | case1 => exact hSecond.firstIndent
  | case2 c others line hBlank ih =>
      have hSplit := splitLine_append_of_mem (hFirst.newline_mem (List.cons_ne_nil c others)) second
      have hRest := ih hFirst.splitLine_rest
      rw [List.cons_append] at hSplit ⊢
      rw [firstIndent]
      simp only [hSplit]
      rw [if_pos hBlank, hRest]
  | case3 c others line hBlank =>
      have hSplit := splitLine_append_of_mem (hFirst.newline_mem (List.cons_ne_nil c others)) second
      rw [List.cons_append] at hSplit ⊢
      rw [firstIndent]
      simp only [hSplit]
      rw [if_neg hBlank]

end Regions

/-! ## Directives -/

/-- A word of one letter announces nothing. -/
theorem ofWord?_letter (c : Char) :
    BlockKeyword.ofWord? [c] = none ∧ FlowKeyword.ofWord? [c] = none := by
  constructor
  · exact List.find?_eq_none.2 fun keyword _ => by cases keyword <;> simp [BlockKeyword.word]
  · exact List.find?_eq_none.2 fun keyword _ => by cases keyword <;> simp [FlowKeyword.word]

/-- What starts like a string announces nothing, whether or not the string is closed. -/
theorem directive_of?_string {c : Char} {rest : List Char} {letters : Nat}
    (hBlank : ¬ (c = ' ' ∨ c = '\t')) (hNewline : c ≠ '\n') (hComment : c ≠ '#')
    (h : stringMark? (c :: rest) = some letters) : Directive.of? (c :: rest) = none := by
  rw [Directive.of?, firstToken?, lexeme]
  simp only [if_neg hBlank, if_neg hNewline, if_neg hComment, h]
  cases hQuoted : quotedLength ((c :: rest).drop letters) with
  | some length => rfl
  | none =>
      by_cases hLetters : letters = 0
      · simp only [if_pos hLetters]
        rfl
      · -- A letter in front of the quote is a name of its own.
        have hName : nameLength (c :: rest) ≤ 1 := by
          cases rest with
          | nil =>
              rw [nameLength]
              exact (List.takeWhile_sublist _).length_le
          | cons q others =>
              have hQuote : isQuote q = true := by
                simp only [stringMark?] at h
                split at h
                · cases h
                  exact absurd rfl hLetters
                · split at h
                  · rename_i hBoth
                    exact (Bool.and_eq_true_iff.1 hBoth).2
                  · cases h
              have hEnd : continuesName q = false := by
                rw [isQuote, Bool.or_eq_true, beq_iff_eq, beq_iff_eq] at hQuote
                rcases hQuote with rfl | rfl <;> decide
              rw [nameLength, List.takeWhile_cons]
              split
              · rw [List.takeWhile_cons_of_neg (Bool.eq_false_iff.1 hEnd)]
                exact Nat.le_refl 1
              · exact Nat.zero_le 1
        have hTake : rest.take (nameLength (c :: rest) - 1) = [] := by
          rw [Nat.sub_eq_zero_of_le hName, List.take_zero]
        obtain ⟨hBlock, hFlow⟩ := ofWord?_letter c
        have hWord {word : String} (hLong : 1 < word.toList.length) :
            ([c] == word.toList) = false := by
          refine beq_eq_false_iff_ne.2 fun hSame => ?_
          rw [← hSame] at hLong
          exact Nat.lt_irrefl 1 hLong
        simp only [if_neg hLetters, Option.map_some, hTake, Token.isName, hBlock, hFlow,
          hWord (show 1 < "var".toList.length by decide),
          hWord (show 1 < "code".toList.length by decide), Bool.and_false, Bool.false_eq_true,
          if_false, Option.map_none]

theorem plainLexeme_append (c : Char) {text : List Char} (h : '\n' ∈ text) (more : List Char) :
    (plainLexeme c (text ++ more)).1 = (plainLexeme c text).1 ∧
      ((plainLexeme c text).1 = .name →
        (plainLexeme c (text ++ more)).2 = (plainLexeme c text).2) := by
  have hName : nameLength (text ++ more) = nameLength text := by
    rw [nameLength, (takeWhile_append_of_mem h (by decide) more).1, nameLength]
  unfold plainLexeme
  rw [hName]
  repeat' split
  all_goals simp_all

/-- The first line tells what a text announces. -/
theorem directive_of?_append {text : List Char} (h : EndsLine text) (hText : text ≠ [])
    (more : List Char) : Directive.of? (text ++ more) = Directive.of? text := by
  obtain ⟨c, rest, rfl⟩ := List.exists_cons_of_ne_nil hText
  by_cases hBlank : c = ' ' ∨ c = '\t'
  · rw [List.cons_append, Directive.of?, Directive.of?, firstToken?, firstToken?, lexeme, lexeme]
    simp only [if_pos hBlank]
    rfl
  by_cases hNewline : c = '\n'
  · subst hNewline
    rfl
  by_cases hComment : c = '#'
  · subst hComment
    rfl
  have hRest : rest ≠ [] := h.ne_nil_of_cons hNewline
  have hMark : stringMark? (c :: (rest ++ more)) = stringMark? (c :: rest) := by
    obtain ⟨q, others, rfl⟩ := List.exists_cons_of_ne_nil hRest
    rfl
  cases hLetters : stringMark? (c :: rest) with
  | some letters =>
      rw [List.cons_append, directive_of?_string hBlank hNewline hComment hLetters,
        directive_of?_string hBlank hNewline hComment (hMark.trans hLetters)]
  | none =>
      have hMem : '\n' ∈ c :: rest := h.newline_mem hText
      obtain ⟨hKind, hLength⟩ := plainLexeme_append c hMem more
      rw [List.cons_append] at hKind hLength ⊢
      rw [Directive.of?, Directive.of?, firstToken?, firstToken?, lexeme, lexeme]
      simp only [if_neg hBlank, if_neg hNewline, if_neg hComment, hMark, hLetters,
        Option.map_some, hKind]
      by_cases hName : (plainLexeme c (c :: rest)).1 = .name
      · have hTake : (rest ++ more).take ((plainLexeme c (c :: rest)).2 - 1) =
            rest.take ((plainLexeme c (c :: rest)).2 - 1) := by
          have hLe := plainLexeme_le c rest
          exact List.take_append_of_le_length (by omega)
        rw [hLength hName, hTake]
      · cases hOther : (plainLexeme c (c :: rest)).1 with
        | name => exact absurd hOther hName
        | _ => rfl

/-! ## Entries -/

section Entries

variable {first second : List Char}

/-- What is read from the start of a text, with more text behind what is left. -/
def withMore {α ε : Type} (more : List Char) (result : Except ε (α × Nat × List Char)) :
    Except ε (α × Nat × List Char) :=
  (fun read => (read.1, read.2.1, read.2.2 ++ more)) <$> result

theorem readVar_append (number indent : Nat) (hFirst : EndsLine first) (hSome : first ≠ [])
    (hSecond : StartsOutside second) :
    readVar number indent (first ++ second) = withMore second (readVar number indent first) := by
  have hSplit := splitLine_append_of_mem (hFirst.newline_mem hSome) second
  have hBelow := indentedBlock_append (indent + indentStep) hFirst.splitLine_rest hSecond
  unfold readVar
  simp only [hSplit, hBelow]
  repeat' split
  all_goals rfl

theorem readBlock_append (number indent : Nat) (most : Nat → Nat) (hFirst : EndsLine first)
    (hSome : first ≠ []) (hSecond : StartsOutside second) :
    readBlock number indent most (first ++ second) =
      (fun block => { block with rest := block.rest ++ second }) <$>
        readBlock number indent most first := by
  have hSplit := splitLine_append_of_mem (hFirst.newline_mem hSome) second
  have hIndent := firstIndent_append hFirst.splitLine_rest hSecond
  have hBelow (width : Nat) := indentedBlock_append width hFirst.splitLine_rest hSecond
  unfold readBlock
  simp only [hSplit, hIndent, hBelow]
  repeat' split
  all_goals rfl

theorem readEntry_text {text : List Char} (h : ∀ after, dropSpaces text ≠ '$' :: after)
    (number : Nat) : readEntry text number = readEntry.textEntry text number := by
  unfold readEntry
  split
  · rename_i after hAfter
    exact absurd hAfter (h after)
  · rfl

/-- The first section of the first text is the first section of both. -/
theorem readEntry_append (number : Nat) (hFirst : EndsLine first) (hSome : first ≠ [])
    (hSecond : StartsOutside second) :
    readEntry (first ++ second) number = withMore second (readEntry first number) := by
  have hMem := hFirst.newline_mem hSome
  have hSplit := splitLine_append_of_mem hMem second
  obtain ⟨hSpaces, hDrop⟩ := takeWhile_append_of_mem (p := (· == ' ')) hMem (by decide) second
  have hDrop : dropSpaces (first ++ second) = dropSpaces first ++ second := hDrop
  have hText : readEntry.textEntry (first ++ second) number =
      withMore second (readEntry.textEntry first number) := by
    unfold readEntry.textEntry
    simp only [hSplit]
    split <;> rfl
  obtain ⟨c, after, hAfter⟩ : ∃ c after, dropSpaces first = c :: after := by
    refine List.exists_cons_of_ne_nil fun hNil => ?_
    have hWhole := List.takeWhile_append_dropWhile (p := (· == ' ')) (l := first)
    rw [show first.dropWhile (· == ' ') = [] from hNil, List.append_nil] at hWhole
    have hAll : first.all (· == ' ') = true := by
      rw [← hWhole]
      exact List.all_takeWhile
    exact absurd (List.all_eq_true.1 hAll '\n' hMem) (by decide)
  by_cases hSigil : c = '$'
  · subst hSigil
    have hDollar : EndsLine ('$' :: after) := hAfter ▸ hFirst.dropSpaces
    have hAfterSome : after ≠ [] := hDollar.ne_nil_of_cons (by decide)
    have hEnds : EndsLine after := hDollar.of_cons
    have hIndent : leadingSpaces (first ++ second) = leadingSpaces first := by
      rw [leadingSpaces, hSpaces, leadingSpaces]
    have hLine := splitLine_append_of_mem (hEnds.newline_mem hAfterSome) second
    unfold readEntry
    rw [hDrop, hAfter, List.cons_append]
    simp only [hIndent, directive_of?_append hEnds hAfterSome, hLine, hText,
      readVar_append number _ hEnds hAfterSome hSecond,
      readBlock_append number _ _ hEnds hAfterSome hSecond]
    cases Directive.of? after with
    | none => rfl
    | some directive =>
        cases directive with
        | var => cases readVar number (leadingSpaces first) after <;> rfl
        | code => cases readBlock number (leadingSpaces first) id after <;> rfl
        | block keyword =>
            cases readBlock number (leadingSpaces first) (min · indentStep) after with
            | error fault => rfl
            | ok block =>
                dsimp only [Functor.map, Except.map]
                split <;> rfl
        | flow keyword => rfl
        | assignment => rfl
  · have hOther {more : List Char} : ∀ rest, c :: more ≠ '$' :: rest :=
      fun rest hSame => hSigil (List.cons.inj hSame).1
    rw [readEntry_text (hDrop ▸ hAfter ▸ hOther), readEntry_text (hAfter ▸ hOther), hText]

theorem endsLine_readVar {number indent next : Nat} {rest : List Char} {content : Section}
    (hFirst : EndsLine first) (h : readVar number indent first = .ok (content, next, rest)) :
    EndsLine rest := by
  have hLine := hFirst.splitLine_rest
  have hBelow := endsLine_indentedBlock (indent + indentStep) hLine
  unfold readVar at h
  grind

theorem endsLine_readBlock {number indent : Nat} {most : Nat → Nat} {block : BlockText}
    (hFirst : EndsLine first) (h : readBlock number indent most first = .ok block) :
    EndsLine block.rest := by
  have hLine := hFirst.splitLine_rest
  have hBelow (width : Nat) := endsLine_indentedBlock width hLine
  unfold readBlock at h
  grind

/-- What follows a section of a text whose last line ends is such a text again. -/
theorem endsLine_readEntry {number next : Nat} {rest : List Char} {entry : Entry}
    (hFirst : EndsLine first) (h : readEntry first number = .ok (entry, next, rest)) :
    EndsLine rest := by
  have hLine := hFirst.splitLine_rest
  have hDrop := hFirst.dropSpaces
  unfold readEntry readEntry.textEntry at h
  split at h
  · rename_i after hAfter
    rw [hAfter] at hDrop
    have hAfterEnds : EndsLine after := hDrop.of_cons
    have hAfterLine := hAfterEnds.splitLine_rest
    have hVar {number indent next : Nat} {rest : List Char} {content : Section}
        (h : readVar number indent after = .ok (content, next, rest)) : EndsLine rest :=
      endsLine_readVar hAfterEnds h
    have hBlock {number indent : Nat} {most : Nat → Nat} {block : BlockText}
        (h : readBlock number indent most after = .ok block) : EndsLine block.rest :=
      endsLine_readBlock hAfterEnds h
    grind
  · grind

end Entries

/-! ## Whole texts -/

/-- The sections of both texts are those of the first and those of the second. -/
theorem readSuite_append {first second : List Char} (hFirst : EndsLine first)
    (hSecond : StartsOutside second) (number : Nat) :
    readSuite (first ++ second) number = (do
      let sections ← readSuite first number
      let others ← readSuite second (number + countNewlines first)
      return sections ++ others) := by
  induction first, number using readSuite.induct with
  | case1 number =>
      rw [List.nil_append, readSuite]
      show _ = (readSuite second number >>= fun others => .ok others)
      cases readSuite second number <;> rfl
  | case2 number c others fault hEntry =>
      have hBoth := readEntry_append number hFirst (List.cons_ne_nil c others) hSecond
      rw [hEntry, List.cons_append] at hBoth
      rw [List.cons_append, readSuite, readSuite, hEntry, hBoth]
      rfl
  | case3 number c others content next rest hEntry ih =>
      have hBoth := readEntry_append number hFirst (List.cons_ne_nil c others) hSecond
      have hNumber := newlines_readEntry hEntry
      rw [hEntry, List.cons_append] at hBoth
      rw [List.cons_append, readSuite, readSuite, hEntry, hBoth, ← hNumber]
      simp only [withMore, Functor.map, Except.map]
      rw [ih (endsLine_readEntry hFirst hEntry)]
      cases readSuite rest next with
      | error fault => rfl
      | ok sections => cases readSuite second (next + countNewlines rest) <;> rfl
  | case4 number c others start keyword header indent bodyLine body next rest hEntry ih ih' =>
      have hBoth := readEntry_append number hFirst (List.cons_ne_nil c others) hSecond
      have hNumber := newlines_readEntry hEntry
      rw [hEntry, List.cons_append] at hBoth
      rw [List.cons_append, readSuite, readSuite, hEntry, hBoth, ← hNumber]
      simp only [withMore, Functor.map, Except.map]
      rw [ih' (endsLine_readEntry hFirst hEntry)]
      cases readSuite body bodyLine with
      | error fault => rfl
      | ok suite =>
          cases readSuite rest next with
          | error fault => rfl
          | ok sections => cases readSuite second (next + countNewlines rest) <;> rfl

/-- A fault of the first text is the fault of both. Else a fault of the second one is, at the line
that it has behind the lines of the first. -/
theorem sections_of_joined_texts (first second : List Char) (number : Nat)
    (hFirst : EndsLine first) (hSecond : StartsOutside second) :
    readSuite (first ++ second) number =
      match readSuite first number with
      | .error fault => .error fault
      | .ok sections =>
          match readSuite second (number + countNewlines first) with
          | .error fault => .error fault
          | .ok others => .ok (sections ++ others) := by
  rw [readSuite_append hFirst hSecond]
  cases readSuite first number with
  | error fault => rfl
  | ok sections => cases readSuite second (number + countNewlines first) <;> rfl

/-- Two blocks, the first of which ends with a blank line and stands before a line of text. -/
theorem sections_of_joined_blocks :
    EndsLine "$def f(x):\n    $x\n\n  $if x:\n      a\n\n".toList ∧
    StartsOutside "b\n    c".toList ∧
    readSuite ("$def f(x):\n    $x\n\n  $if x:\n      a\n\n".toList ++ "b\n    c".toList) 3 =
      match readSuite "$def f(x):\n    $x\n\n  $if x:\n      a\n\n".toList 3 with
      | .error fault => .error fault
      | .ok sections =>
          match readSuite "b\n    c".toList
            (3 + countNewlines "$def f(x):\n    $x\n\n  $if x:\n      a\n\n".toList) with
          | .error fault => .error fault
          | .ok others => .ok (sections ++ others) := by
  constructor
  · decide
  constructor
  · decide
  · exact sections_of_joined_texts _ _ 3 (by decide) (by decide)

end Stencil
