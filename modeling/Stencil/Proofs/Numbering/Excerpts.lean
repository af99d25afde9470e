import Stencil.Proofs.Sections.Directives

/-!
# Excerpts of a source

The reader never looks at the source itself again once it is inside a block: it reads a text that
was put together from lines of the source, each without its indentation. Such a text is an excerpt.
It starts on some line of the source, it leaves the same characters out at the start of every line,
and its lines are consecutive lines of the source.

`Excerpt` says by which cuts a text is taken from the source, and which number its first line has.
What the numbers are for is said in `Excerpt.stands`: where a line of an excerpt stands in the
source.

## Main results

* `Excerpt.stands`: a line of an excerpt, with its number, is that line of the source.
* `splitLines_region`: the lines of a region are lines of the text without their indentation.
* `lines_eq`: the lines without their ends are the lines.
-/

namespace Stencil

open Stencil.Text

namespace Text

/-! ## Lines -/

/-- The first line ends with the only newline in it, or the text is one line without a newline. -/
theorem splitLine_cases (text : List Char) :
    (∃ content, '\n' ∉ content ∧ (splitLine text).1 = content ++ ['\n']) ∨
      '\n' ∉ text ∧ splitLine text = (text, []) := by
  fun_induction splitLine text with
  | case1 => exact Or.inr ⟨List.not_mem_nil, rfl⟩
  | case2 rest => exact Or.inl ⟨[], List.not_mem_nil, rfl⟩
  | case3 c rest hNewline ih =>
      have hOther : '\n' ≠ c := fun hSame => hNewline hSame.symm
      rcases ih with ⟨content, hContent, hLine⟩ | ⟨hRest, hLine⟩
      · refine Or.inl ⟨c :: content, ?_, by rw [hLine]; rfl⟩
        exact List.not_mem_cons_of_ne_of_not_mem hOther hContent
      · refine Or.inr ⟨List.not_mem_cons_of_ne_of_not_mem hOther hRest, by rw [hLine]⟩

/-- A text is one line without a newline, or a line and the text after it. -/
@[elab_as_elim]
theorem line_induction {motive : List Char → Prop}
    (last : ∀ text, '\n' ∉ text → motive text)
    (line : ∀ content rest, '\n' ∉ content → motive rest → motive (content ++ '\n' :: rest))
    (text : List Char) : motive text := by
  rcases splitLine_cases text with ⟨content, hContent, hLine⟩ | ⟨hText, -⟩
  · have hText := splitLine_append text
    rw [hLine, List.append_assoc, List.singleton_append] at hText
    have hShort : (splitLine text).2.length < text.length := by
      conv => rhs; rw [← hText]
      simp only [List.length_append, List.length_cons]
      omega
    rw [← hText]
    exact line content _ hContent (line_induction last line (splitLine text).2)
  · exact last text hText
termination_by text.length

theorem splitLines_append_newline {content : List Char} (h : '\n' ∉ content) (more : List Char) :
    splitLines (content ++ '\n' :: more) = (content ++ ['\n']) :: splitLines more := by
  rw [splitLines_of_ne_nil (by simp), splitLine_append_newline h]

theorem splitLine_of_not_mem {text : List Char} (h : '\n' ∉ text) :
    splitLine text = (text, []) := by
  rcases splitLine_cases text with ⟨content, -, hLine⟩ | ⟨-, hLine⟩
  · have hMem : '\n' ∈ (splitLine text).1 ++ (splitLine text).2 := by
      rw [hLine]
      simp
    rw [splitLine_append] at hMem
    exact absurd hMem h
  · exact hLine

theorem splitLines_of_not_mem {text : List Char} (h : '\n' ∉ text) (hSome : text ≠ []) :
    splitLines text = [text] := by
  rw [splitLines_of_ne_nil hSome, splitLine_of_not_mem h]
  rfl

/-- What is left behind whole lines has the other lines. -/
theorem splitLines_drop (text : List Char) (count : Nat) :
    splitLines ((splitLines text).drop count).flatten = (splitLines text).drop count := by
  induction count generalizing text with
  | zero => rw [List.drop_zero, flatten_splitLines]
  | succ count ih =>
      by_cases hText : text = []
      · subst hText
        rfl
      · rw [splitLines_of_ne_nil hText, List.drop_succ_cons]
        exact ih _

theorem splitLines_flatten_of_suffix {text : List Char} {lines : List (List Char)}
    (h : lines <:+ splitLines text) : splitLines lines.flatten = lines := by
  rw [List.suffix_iff_eq_drop.1 h]
  exact splitLines_drop text _

theorem splitLines_rest_suffix (text : List Char) :
    splitLines (splitLine text).2 <:+ splitLines text := by
  by_cases hText : text = []
  · subst hText
    exact List.suffix_rfl
  · rw [splitLines_of_ne_nil hText]
    exact List.suffix_cons ..

theorem head?_splitLines (text : List Char) :
    (splitLines text).head? = if text = [] then none else some (splitLine text).1 := by
  split
  · rename_i hText
    subst hText
    rfl
  · rename_i hText
    rw [splitLines_of_ne_nil hText]
    rfl

/-- As long as lines follow, every line before them ends with a newline. -/
theorem countNewlines_drop {text : List Char} {count : Nat}
    (h : ((splitLines text).drop count).flatten ≠ []) :
    countNewlines ((splitLines text).drop count).flatten + count = countNewlines text := by
  induction count generalizing text with
  | zero => rw [List.drop_zero, flatten_splitLines, Nat.add_zero]
  | succ count ih =>
      by_cases hText : text = []
      · subst hText
        exact absurd rfl h
      · rw [splitLines_of_ne_nil hText, List.drop_succ_cons] at h ⊢
        have hRest := ih h
        have hLine := countNewlines_splitLine text
        rcases splitLine_cases text with ⟨content, hContent, hFirst⟩ | ⟨-, hFirst⟩
        · have hOne : countNewlines (splitLine text).1 = 1 := by
            rw [hFirst, countNewlines_line hContent]
          omega
        · rw [hFirst] at h
          simp [splitLines] at h

/-! ## Line ends -/

/-- The line without its newline, and without a carriage return before that. -/
def withoutEnd (line : List Char) : List Char :=
  match line.reverse with
  | '\n' :: before => finishLine before
  | _ => line

theorem withoutEnd_newline (content : List Char) :
    withoutEnd (content ++ ['\n']) = finishLine content.reverse := by
  rw [withoutEnd, List.reverse_append]
  rfl

theorem withoutEnd_of_not_mem {text : List Char} (h : '\n' ∉ text) : withoutEnd text = text := by
  unfold withoutEnd
  split
  · rename_i before hReverse
    exact absurd (List.mem_reverse.1 (hReverse ▸ List.mem_cons_self)) h
  · rfl

theorem linesFrom_of_not_mem {text : List Char} (h : '\n' ∉ text) (current : List Char) :
    linesFrom current text =
      if (text.reverse ++ current).isEmpty then [] else [(text.reverse ++ current).reverse] := by
  induction text generalizing current with
  | nil => rfl
  | cons c rest ih =>
      rw [List.mem_cons, not_or] at h
      have hStep : linesFrom current (c :: rest) = linesFrom (c :: current) rest := by
        rw [linesFrom]
        rintro rfl
        exact h.1 rfl
      rw [hStep, ih h.2, List.reverse_cons, List.append_assoc]
      rfl

/-- The lines without their ends are the lines. -/
theorem lines_eq (text : List Char) : lines text = (splitLines text).map withoutEnd := by
  induction text using line_induction with
  | last text hText =>
      by_cases hSome : text = []
      · subst hSome
        rfl
      · have hNone : text.reverse.isEmpty = false := by simpa using hSome
        rw [splitLines_of_not_mem hText hSome, lines, linesFrom_of_not_mem hText, List.append_nil,
          hNone, List.map_singleton, withoutEnd_of_not_mem hText, List.reverse_reverse]
        rfl
  | line content rest hContent ih =>
      rw [splitLines_append_newline hContent, List.map_cons, ← ih, withoutEnd_newline, lines,
        linesFrom_append_newline hContent, List.append_nil]
      rfl

/-! ## Spaces -/

/-- The first line goes on until the first newline. -/
theorem splitLine_append_of_not_mem {first : List Char} (h : '\n' ∉ first) (second : List Char) :
    splitLine (first ++ second) = (first ++ (splitLine second).1, (splitLine second).2) := by
  induction first with
  | nil => rfl
  | cons c rest ih =>
      rw [List.mem_cons, not_or] at h
      rw [List.cons_append, splitLine, ih h.2]
      · rfl
      · exact fun hSame => h.1 hSame.symm

theorem newline_not_mem_replicate (spaces : Nat) : '\n' ∉ List.replicate spaces ' ' :=
  fun hMem => absurd (List.eq_of_mem_replicate hMem) (by decide)

theorem replicate_append_dropSpaces (text : List Char) :
    List.replicate (leadingSpaces text) ' ' ++ dropSpaces text = text := by
  have hSpaces : text.takeWhile (· == ' ') = List.replicate (leadingSpaces text) ' ' := by
    refine List.eq_replicate_iff.2 ⟨rfl, fun c hc => ?_⟩
    have hAll := List.all_eq_true.1 (List.all_takeWhile (p := (· == ' ')) (l := text)) c hc
    exact beq_iff_eq.1 hAll
  rw [← hSpaces]
  exact List.takeWhile_append_dropWhile

theorem replicate_append_drop {width : Nat} {line : List Char} (h : width ≤ leadingSpaces line) :
    List.replicate width ' ' ++ line.drop width = line := by
  induction width generalizing line with
  | zero => rfl
  | succ width ih =>
      cases line with
      | nil => cases h
      | cons c rest =>
          rw [leadingSpaces, List.takeWhile_cons] at h
          split at h
          · rename_i hSpace
            have hRest : width ≤ leadingSpaces rest := Nat.le_of_succ_le_succ h
            rw [List.replicate_succ, List.drop_succ_cons, List.cons_append, ih hRest,
              beq_iff_eq.1 hSpace]
          · cases h

theorem leadingSpaces_splitLine (text : List Char) :
    leadingSpaces (splitLine text).1 = leadingSpaces text := by
  fun_induction splitLine text with
  | case1 => rfl
  | case2 rest => rfl
  | case3 c rest hNewline ih =>
      rw [leadingSpaces, leadingSpaces, List.takeWhile_cons, List.takeWhile_cons]
      split
      · exact congrArg (· + 1) ih
      · rfl

theorem head?_dropSpaces_ne (text : List Char) : (dropSpaces text).head? ≠ some ' ' := by
  intro hHead
  have hNot := head?_dropWhile (· == ' ') text ' ' hHead
  cases hNot

theorem drop_leadingSpaces (line : List Char) :
    line.drop (leadingSpaces line) = dropSpaces line := by
  conv => lhs; rw [← replicate_append_dropSpaces line]
  rw [leadingSpaces_replicate _ (head?_dropSpaces_ne line), List.drop_left' List.length_replicate]

theorem allBlank_replicate (spaces : Nat) : allBlank (List.replicate spaces ' ') = true :=
  List.all_eq_true.2 fun c hc => by
    rw [List.eq_of_mem_replicate hc]
    rfl

/-- A line that has something but spaces in it ends where the rest of it does. -/
theorem splitLine_of_dropSpaces {text after : List Char} {c : Char}
    (h : dropSpaces text = c :: after) (hc : c ≠ '\n') :
    splitLine text = (List.replicate (leadingSpaces text) ' ' ++ c :: (splitLine after).1,
      (splitLine after).2) := by
  conv => lhs; rw [← replicate_append_dropSpaces text, h,
    splitLine_append_of_not_mem (newline_not_mem_replicate _)]
  rw [splitLine]
  exact hc

end Text

/-! ## Regions -/

theorem leadingSpaces_le (line : List Char) : leadingSpaces line ≤ line.length :=
  (List.takeWhile_sublist _).length_le

theorem leadingSpaces_newline (content : List Char) :
    leadingSpaces (content ++ ['\n']) = leadingSpaces content := by
  induction content with
  | nil => rfl
  | cons c rest ih =>
      rw [leadingSpaces, leadingSpaces, List.cons_append, List.takeWhile_cons, List.takeWhile_cons]
      split
      · exact congrArg (· + 1) ih
      · rfl

/-- A line is blank without its indentation when it is blank with it. -/
theorem allBlank_unindent {width : Nat} {line : List Char} (h : belongsTo width line = true) :
    allBlank (unindent width line) = allBlank line := by
  unfold unindent
  split
  · rename_i hBlank
    rw [hBlank]
    rfl
  · rename_i hBlank
    rw [belongsTo, Bool.eq_false_iff.2 hBlank, Bool.false_or, decide_eq_true_eq] at h
    conv => rhs; rw [← replicate_append_drop h]
    have hSpaces := allBlank_replicate width
    rw [allBlank] at hSpaces
    rw [allBlank, allBlank, List.all_append, hSpaces, Bool.true_and]

/-- A line keeps its newline when its indentation is taken off. -/
theorem unindent_newline {width : Nat} {content : List Char} (hContent : '\n' ∉ content)
    (h : belongsTo width (content ++ ['\n']) = true) :
    ∃ inner, '\n' ∉ inner ∧ unindent width (content ++ ['\n']) = inner ++ ['\n'] := by
  unfold unindent
  split
  · exact ⟨[], List.not_mem_nil, rfl⟩
  · rename_i hBlank
    rw [belongsTo, Bool.eq_false_iff.2 hBlank, Bool.false_or, decide_eq_true_eq,
      leadingSpaces_newline] at h
    have hLength := leadingSpaces_le content
    refine ⟨content.drop width, fun hMem => hContent (List.mem_of_mem_drop hMem), ?_⟩
    exact List.drop_append_of_le_length (by omega)

/-- The lines of a region are the lines that belong to it, without their indentation. -/
theorem splitLines_region (width : Nat) (text : List Char) :
    splitLines (region width text).body =
      ((splitLines text).takeWhile (belongsTo width)).map (unindent width) := by
  rw [body_region]
  induction text using line_induction with
  | last text hText =>
      by_cases hSome : text = []
      · subst hSome
        rfl
      rw [splitLines_of_not_mem hText hSome]
      by_cases hBelongs : belongsTo width text = true
      · rw [List.takeWhile_cons_of_pos hBelongs, List.takeWhile_nil, List.flatMap_singleton,
          List.map_singleton]
        unfold unindent
        split
        · rfl
        · rename_i hBlank
          rw [belongsTo, Bool.eq_false_iff.2 hBlank, Bool.false_or, decide_eq_true_eq] at hBelongs
          have hNewline : '\n' ∉ text.drop width := fun hMem => hText (List.mem_of_mem_drop hMem)
          refine splitLines_of_not_mem hNewline fun hNil => ?_
          -- A line of spaces alone is blank.
          have hSpaces : dropSpaces text = [] := by
            have hLength := leadingSpaces_le text
            have hDrop := List.drop_eq_nil_iff.1 hNil
            have hWhole := congrArg List.length (replicate_append_dropSpaces text)
            rw [List.length_append, List.length_replicate] at hWhole
            exact List.length_eq_zero_iff.1 (by omega)
          have hWhole := replicate_append_dropSpaces text
          rw [hSpaces, List.append_nil] at hWhole
          rw [← hWhole] at hBlank
          exact hBlank (allBlank_replicate _)
      · rw [List.takeWhile_cons_of_neg hBelongs]
        rfl
  | line content rest hContent ih =>
      rw [splitLines_append_newline hContent]
      by_cases hBelongs : belongsTo width (content ++ ['\n']) = true
      · obtain ⟨inner, hInner, hUnindent⟩ := unindent_newline hContent hBelongs
        rw [List.takeWhile_cons_of_pos hBelongs, List.flatMap_cons, List.map_cons, hUnindent,
          List.append_assoc, List.singleton_append, splitLines_append_newline hInner, ih]
      · rw [List.takeWhile_cons_of_neg hBelongs]
        rfl

theorem splitLines_region_rest (width : Nat) (text : List Char) :
    splitLines (region width text).rest <:+ splitLines text := by
  have hSuffix := List.dropWhile_suffix (l := splitLines text) (belongsTo width)
  rwa [rest_region, splitLines_flatten_of_suffix hSuffix]

theorem firstIndent_eq (text : List Char) : firstIndent text =
    (((splitLines text).find? (!allBlank ·)).map leadingSpaces).getD 0 := by
  fun_induction firstIndent text with
  | case1 => rfl
  | case2 c others line hBlank ih =>
      rw [splitLines_of_ne_nil (List.cons_ne_nil c others), List.find?_cons_of_neg]
      · exact ih
      · simpa using hBlank
  | case3 c others line hBlank =>
      rw [splitLines_of_ne_nil (List.cons_ne_nil c others), List.find?_cons_of_pos]
      · rfl
      · simpa using hBlank

/-- When the indentation of the first statement is taken off, it stands at the margin. -/
theorem firstIndent_region (text : List Char) :
    firstIndent (region (firstIndent text) text).body = 0 := by
  rw [firstIndent_eq (region _ _).body, splitLines_region, firstIndent_eq text]
  induction splitLines text with
  | nil => rfl
  | cons first others ih =>
      cases hBlank : allBlank first with
      | true =>
          have hNot : ¬ (!allBlank first) = true := by simp [hBlank]
          rw [List.find?_cons_of_neg (by exact hNot)]
          generalize ((others.find? (!allBlank ·)).map leadingSpaces).getD 0 = width at ih ⊢
          have hBelongs : belongsTo width first = true := by rw [belongsTo, hBlank, Bool.true_or]
          have hEmpty : unindent width first = ['\n'] := if_pos hBlank
          rw [List.takeWhile_cons_of_pos hBelongs, List.map_cons, hEmpty,
            List.find?_cons_of_neg (by decide)]
          exact ih
      | false =>
          have hFind : (first :: others).find? (!allBlank ·) = some first :=
            List.find?_cons_of_pos (by simp [hBlank])
          have hBelongs : belongsTo (leadingSpaces first) first = true := by
            rw [belongsTo, hBlank, Bool.false_or, decide_eq_true (Nat.le_refl _)]
          have hUnindent : unindent (leadingSpaces first) first = dropSpaces first := by
            rw [unindent, if_neg (by simp [hBlank]), drop_leadingSpaces]
          have hSome : allBlank (dropSpaces first) = false := by
            rw [← hUnindent, allBlank_unindent hBelongs, hBlank]
          rw [hFind, Option.map_some, Option.getD_some, List.takeWhile_cons_of_pos hBelongs,
            List.map_cons, hUnindent, List.find?_cons_of_pos (by simp [hSome]), Option.map_some,
            Option.getD_some]
          exact leadingSpaces_replicate 0 (head?_dropSpaces_ne first)

/-! ## Excerpts -/

/-- The line with this number, counted from one, with its newline. -/
def lineAt? (source : List Char) : Nat → Option (List Char)
  | 0 => none
  | before + 1 => (splitLines source)[before]?

/-- `Excerpt source number before text`: the text is taken from the source. Its first line is from
the line with this number, and `before` is left out at the start of its lines. -/
inductive Excerpt (source : List Char) : Nat → List Char → List Char → Prop
  | whole : Excerpt source 1 [] source
  /-- The lines behind some lines. -/
  | behind {number : Nat} {before text : List Char} (count : Nat) :
      Excerpt source number before text →
      Excerpt source (number + count) before ((splitLines text).drop count).flatten
  /-- The first lines that belong to a region, without their indentation. -/
  | region {number : Nat} {before text : List Char} (width : Nat) :
      Excerpt source number before text →
      Excerpt source number (before ++ List.replicate width ' ') (Stencil.region width text).body
  /-- The end of the first line, where something stands in it. -/
  | tail {number : Nat} {before text passed rest : List Char} :
      Excerpt source number before text → (splitLine text).1 = passed ++ rest →
      allBlank rest = false → Excerpt source number (before ++ passed) rest

/-- The line of an excerpt that `original` is read as: what follows the characters that are left
out. A blank line may be read as an empty one. -/
def IsCut (before original line : List Char) : Prop :=
  allBlank original = allBlank line ∧ (original = before ++ line ∨ line = ['\n'])

/-- A line without indentation is a cut of whatever the line with it is a cut of. -/
theorem IsCut.unindent {before original line : List Char} {width : Nat}
    (h : IsCut before original line) (hBelongs : belongsTo width line = true) :
    IsCut (before ++ List.replicate width ' ') original (Stencil.unindent width line) := by
  obtain ⟨hBlank, hCut⟩ := h
  refine ⟨hBlank.trans (allBlank_unindent hBelongs).symm, ?_⟩
  unfold Stencil.unindent
  split
  · exact Or.inr rfl
  · rename_i hLine
    rw [belongsTo, Bool.eq_false_iff.2 hLine, Bool.false_or, decide_eq_true_eq] at hBelongs
    rcases hCut with hCut | hCut
    · left
      rw [hCut, List.append_assoc, replicate_append_drop hBelongs]
    · rw [hCut] at hLine
      exact absurd rfl hLine

namespace Excerpt

variable {source before text rest line : List Char} {number j : Nat}

/-- The end of a line is a line. -/
theorem splitLines_tail {passed : List Char} (hLine : (splitLine text).1 = passed ++ rest)
    (hRest : rest ≠ []) : splitLines rest = [rest] := by
  rcases splitLine_cases text with ⟨content, hContent, hFirst⟩ | ⟨hText, hFirst⟩
  · -- The newline is the last character of what is left.
    rw [hFirst] at hLine
    rw [← List.dropLast_concat_getLast hRest, ← List.append_assoc] at hLine
    obtain ⟨hContent', hLast⟩ := List.append_inj' hLine rfl
    rw [← List.dropLast_concat_getLast hRest, ← hLast]
    refine splitLines_append_newline (fun hMem => hContent ?_) []
    rw [hContent']
    exact List.mem_append_right _ hMem
  · rw [hFirst] at hLine
    refine splitLines_of_not_mem (fun hMem => hText ?_) hRest
    rw [show text = passed ++ rest from hLine]
    exact List.mem_append_right _ hMem

/-- A line of an excerpt is that line of the source. -/
theorem stands (h : Excerpt source number before text) (hLine : (splitLines text)[j]? = some line) :
    ∃ original, lineAt? source (number + j) = some original ∧ IsCut before original line := by
  induction h generalizing j line with
  | whole =>
      refine ⟨line, ?_, rfl, Or.inl rfl⟩
      rw [Nat.add_comm]
      exact hLine
  | behind count _ ih =>
      rw [splitLines_drop, List.getElem?_drop] at hLine
      rw [Nat.add_assoc]
      exact ih hLine
  | region width _ ih =>
      rw [splitLines_region, List.getElem?_map, Option.map_eq_some_iff] at hLine
      obtain ⟨inner, hInner, rfl⟩ := hLine
      have hBelongs := List.all_eq_true.1 List.all_takeWhile inner (List.mem_of_getElem? hInner)
      obtain ⟨hLess, hGet⟩ := List.getElem?_eq_some_iff.1 hInner
      have hWhole := List.prefix_iff_getElem?.1 (List.takeWhile_prefix (belongsTo width)) j hLess
      rw [hGet] at hWhole
      obtain ⟨original, hOriginal, hBlank, hCut⟩ := ih hWhole
      refine ⟨original, hOriginal, ?_⟩
      exact IsCut.unindent ⟨hBlank, hCut⟩ hBelongs
  | @tail number before text passed rest _ hText hRest ih =>
      have hSome : rest ≠ [] := by
        rintro rfl
        cases hRest
      rw [splitLines_tail hText hSome] at hLine
      obtain ⟨rfl, rfl⟩ : j = 0 ∧ line = rest := by
        cases j with
        | zero => exact ⟨rfl, (Option.some.inj hLine).symm⟩
        | succ j => cases hLine
      have hFirst : (splitLines text)[0]? = some (splitLine text).1 := by
        rw [← List.head?_eq_getElem?, head?_splitLines, if_neg]
        rintro rfl
        exact hSome (List.append_eq_nil_iff.1 hText.symm).2
      obtain ⟨original, hOriginal, hBlank, hCut⟩ := ih hFirst
      refine ⟨original, hOriginal, ?_⟩
      have hNot : allBlank (splitLine text).1 = false := by
        rw [hText, allBlank, List.all_append, ← allBlank, ← allBlank, hRest, Bool.and_false]
      rcases hCut with hCut | hCut
      · refine ⟨by rw [hBlank, hNot, hRest], Or.inl ?_⟩
        rw [hCut, hText, List.append_assoc]
      · rw [hCut] at hNot
        cases hNot

/-- What is left out before the lines of a longer excerpt is indentation. -/
theorem margin (h : Excerpt source number before text) :
    (∃ spaces, before = List.replicate spaces ' ') ∨ (splitLines text).length ≤ 1 := by
  induction h with
  | whole => exact Or.inl ⟨0, rfl⟩
  | behind count _ ih =>
      refine ih.imp_right fun hOne => ?_
      rw [splitLines_drop, List.length_drop]
      omega
  | region width _ ih =>
      rcases ih with ⟨spaces, rfl⟩ | hOne
      · exact Or.inl ⟨spaces + width, List.replicate_append_replicate⟩
      · right
        rw [splitLines_region, List.length_map]
        exact Nat.le_trans (List.takeWhile_sublist _).length_le hOne
  | tail _ hText hRest _ =>
      right
      rw [splitLines_tail hText]
      · exact Nat.le_refl 1
      · rintro rfl
        cases hRest

end Excerpt

end Stencil
