import Mathlib.Algebra.GroupWithZero.Nat
import Stencil.Proofs.Indentation.Glyphs
import Stencil.Proofs.Numbering

/-!
# The indentation of the output

The body of a block loses its indentation when it is read, and gets the indentation of the headers
around it back when it is compiled. What is lost for good is what a body is indented more than its
header, as far as this is taken off: at most four spaces for each block. So a line of text is
emitted behind as many spaces as it has in the source, less these.

A body that stands behind its header on the same line has no indentation of its own; the blocks that
count here have their bodies below their headers. The lines of fragments are not indented at all.

## Main results

* `emits_of_lies`: what a line of an excerpt is emitted behind.
* `indentation_follows_source`: what a line of a template is emitted behind.
-/

namespace Stencil

open Stencil.Text

/-! ## Where a line lies -/

/-- The number of the line that the section has. -/
def Section.number : Section → Nat
  | .line content => content.number
  | .assignment number _ => number
  | .flow number _ _ => number
  | .block number _ _ _ _ => number
  | .code number _ => number
  | .varExpression number _ _ => number
  | .varFragment number _ _ => number

/-- `Lies sections headers before content after`: a line of text lies in blocks of the sections
whose headers have these numbers, the outermost one first. The bodies of the blocks stand below
their headers, and in the innermost one the line is between the sections before it and after it. -/
inductive Lies : List Section → List Nat → List Section → TextLine → List Section → Prop
  | here {before after : List Section} {content : TextLine} :
      Lies (before ++ .line content :: after) [] before content after
  | inside {sections rest body before after : List Section} {number indent : Nat}
      {keyword : BlockKeyword} {header : List Char} {headers : List Nat} {content : TextLine} :
      (∀ s ∈ body, number < s.number) → Lies body headers before content after →
      Lies (sections ++ .block number keyword header indent body :: rest) (number :: headers)
        before content after

/-- `Contains instrs depth inner`: a list of instructions is inside so many instructions. -/
inductive Contains : List Instr → Nat → List Instr → Prop
  | here {instrs : List Instr} : Contains instrs 0 instrs
  | inside {instrs body inner : List Instr} {instr : Instr} {depth : Nat} : instr ∈ instrs →
      body ∈ instr.bodies → Contains body depth inner → Contains instrs (depth + 1) inner

/-- How deep the line with this number is indented in the source. -/
def indentAt (source : List Char) (number : Nat) : Nat :=
  ((lineAt? source number).map leadingSpaces).getD 0

/-- What is taken off the body of the block whose header has this number: what the first line of the
body that is not blank is indented more than the header, and at most four spaces. -/
def bodyStep (source : List Char) (number : Nat) : Nat :=
  min indentStep
    (firstIndent ((splitLines source).drop number).flatten - indentAt source number)

/-- The sections around a line are compiled to `suite`. There, behind what the sections before the
line are compiled to, stand so many spaces, and behind them what `rest` stands for, the line from
its first character on that is no space. -/
def EmitsLine (suite : List Instr) (before : List Section) (content : TextLine)
    (after : List Section) (spaces : Nat) (rest : List Char) : Prop :=
  ∃ within earlier pieces alone later,
    compileSuite within .nothing [] (before ++ .line content :: after) = .ok suite ∧
    compileSuite within .nothing [] before = .ok earlier ∧
    readPieces (joinLine rest) = .ok pieces ∧
    compilePieces content.number [] pieces = .ok alone ∧
    glyphs suite = glyphs earlier ++ List.replicate spaces (.char ' ') ++ glyphs alone.reverse ++
      later

/-! ## Spaces before a line -/

section Spaces

variable {text rest : List Char} {pieces : List Piece}

/-- A character that is no sigil is text before what follows it. -/
theorem readPieces_char {c : Char} (hc : c ≠ '$') (h : readPieces (c :: rest) = .ok pieces) :
    ∃ others, readPieces rest = .ok others ∧ ∀ number out,
      compilePieces number out pieces =
        compilePieces number (out.addText (String.ofList [c])) others := by
  rw [readPieces_cons (readPiece_text hc rest)] at h
  obtain ⟨later, hLater, rfl⟩ := exists_of_map_eq_ok h
  cases rest with
  | nil => exact ⟨later, hLater, fun number out => rfl⟩
  | cons d others =>
      by_cases hd : d = '$'
      · subst hd
        exact ⟨later, hLater, fun number out => rfl⟩
      · -- Two characters of one text are added one after the other.
        have hPlain : (d != '$') = true := bne_iff_ne.2 hd
        have hDrop : (d :: others).dropWhile (· != '$') = others.dropWhile (· != '$') :=
          List.dropWhile_cons_of_pos hPlain
        have hTake : (d :: others).takeWhile (· != '$') = d :: others.takeWhile (· != '$') :=
          List.takeWhile_cons_of_pos hPlain
        rw [hDrop] at hLater
        refine ⟨_, (readPieces_cons (readPiece_text hd others)).trans (congrArg _ hLater), ?_⟩
        intro number out
        rw [hTake, compilePieces, compilePieces, ← Emitted.addText_append, ← ofList_cons]

/-- Spaces before a text are text before what the text stands for. -/
theorem readPieces_replicate (spaces : Nat)
    (h : readPieces (List.replicate spaces ' ' ++ rest) = .ok pieces) :
    ∃ others, readPieces rest = .ok others ∧ ∀ number out,
      compilePieces number out pieces =
        compilePieces number (out.addText (String.ofList (List.replicate spaces ' '))) others := by
  induction spaces generalizing pieces with
  | zero => exact ⟨pieces, h, fun number out => rfl⟩
  | succ spaces ih =>
      obtain ⟨later, hLater, hFirst⟩ := readPieces_char (by decide) h
      obtain ⟨others, hOthers, hRest⟩ := ih hLater
      refine ⟨others, hOthers, fun number out => ?_⟩
      rw [hFirst, hRest, ← Emitted.addText_append, ← ofList_cons]
      rfl

/-- A line goes on in the next one whether it is indented or not. -/
theorem joinLine_replicate (spaces : Nat) (h : allBlank rest = false) :
    joinLine (List.replicate spaces ' ' ++ rest) = List.replicate spaces ' ' ++ joinLine rest := by
  have hReverse : rest.reverse.reverse = rest := List.reverse_reverse rest
  unfold joinLine
  rw [List.reverse_append]
  cases hRest : rest.reverse with
  | nil =>
      rw [hRest] at hReverse
      rw [← hReverse] at h
      cases h
  | cons c others =>
      cases others with
      | nil =>
          have hNewline : c ≠ '\n' := by
            rintro rfl
            rw [hRest] at hReverse
            rw [← hReverse] at h
            cases h
          split
          · rename_i before hBefore
            exact absurd (List.cons.inj hBefore).1 hNewline
          · split
            · rename_i before hBefore
              cases hBefore
            · rfl
      | cons d others =>
          by_cases hJoin : c = '\n' ∧ d = '\\'
          · obtain ⟨rfl, rfl⟩ := hJoin
            show (others ++ (List.replicate spaces ' ').reverse).reverse =
              List.replicate spaces ' ' ++ others.reverse
            rw [List.reverse_append, List.reverse_reverse]
          · split
            · rename_i before hBefore
              cases hBefore
              exact absurd ⟨rfl, rfl⟩ hJoin
            · split
              · rename_i before hBefore
                cases hBefore
                exact absurd ⟨rfl, rfl⟩ hJoin
              · rfl

end Spaces

/-! ## Where a section stands -/

section Standing

variable {source text before rest header body : List Char} {number indent line most width : Nat}

/-- A section of a tiling starts on one of the lines of the text. -/
theorem Tiles.at_section {sections others : List Section} {content : Section}
    (h : Tiles number text (sections ++ content :: others)) :
    ∃ count, count < (splitLines text).length ∧
      Tiles (number + count) ((splitLines text).drop count).flatten (content :: others) := by
  induction sections generalizing number text with
  | nil =>
      have hText : text ≠ [] := by
        cases h with
        | whole hText _ _ => exact hText
        | block hText _ _ _ => exact hText
      refine ⟨0, ?_, by rwa [List.drop_zero, flatten_splitLines, Nat.add_zero]⟩
      rw [splitLines_of_ne_nil hText]
      exact Nat.succ_pos _
  | cons first sections ih =>
      obtain ⟨count, hRest⟩ : ∃ count, Tiles (number + count)
          ((splitLines text).drop count).flatten (sections ++ content :: others) := by
        cases h with
        | whole _ _ hRest => exact ⟨_, hRest⟩
        | block _ _ _ hRest => exact ⟨_, hRest⟩
      obtain ⟨more, hLess, hSection⟩ := ih hRest
      rw [splitLines_drop, List.length_drop] at hLess
      rw [splitLines_drop, List.drop_drop, Nat.add_assoc] at hSection
      exact ⟨count + more, by omega, hSection⟩

theorem Reading.of_line {content : TextLine}
    (h : Reading text number (.whole (.line content)) rest) :
    content.number = number ∧ readPieces (joinLine (splitLine text).1) = .ok content.pieces := by
  cases h with
  | line hPieces => exact ⟨rfl, hPieces⟩

theorem Reading.not_block {start : Nat} {keyword : BlockKeyword} {suite : List Section} :
    ¬ Reading text number (.whole (.block start keyword header indent suite)) rest := by
  intro h
  cases h

/-- The line that tiles the start of a text is its first line. -/
theorem Tiles.of_line {content : TextLine} {others : List Section}
    (h : Tiles number text (.line content :: others)) :
    text ≠ [] ∧ content.number = number ∧
      readPieces (joinLine (splitLine text).1) = .ok content.pieces := by
  generalize hSections : Section.line content :: others = sections at h
  cases h with
  | nil => cases hSections
  | whole hText hReading _ =>
      cases hSections
      exact ⟨hText, hReading.of_line⟩
  | block _ _ _ _ => cases hSections

/-- The block that tiles the start of a text has its header on the first line. -/
theorem Tiles.of_block {keyword : BlockKeyword} {start : Nat} {suite others : List Section}
    (h : Tiles number text (.block start keyword header indent suite :: others)) :
    text ≠ [] ∧ start = number ∧ ∃ line body rest,
      Reading text number (.block number keyword header indent line body) rest ∧
      Tiles line body suite := by
  generalize hSections : Section.block start keyword header indent suite :: others = sections at h
  cases h with
  | nil => cases hSections
  | whole _ hReading _ =>
      cases hSections
      exact absurd hReading Reading.not_block
  | block hText hReading hSuite _ =>
      cases hSections
      exact ⟨hText, rfl, _, _, _, hReading, hSuite⟩

/-- Around a line of text there is a line or a block, which has the number of a line of the text. -/
theorem Lies.exists_number {sections earlier later : List Section} {headers : List Nat}
    {content : TextLine} (h : Lies sections headers earlier content later)
    (hTiles : Tiles number text sections) :
    ∃ s ∈ sections, ∃ count, count < (splitLines text).length ∧ s.number = number + count := by
  cases h with
  | here =>
      obtain ⟨count, hLess, hSection⟩ := hTiles.at_section
      refine ⟨.line content, List.mem_append_right _ List.mem_cons_self, count, hLess, ?_⟩
      exact hSection.of_line.2.1
  | @inside _ _ _ _ _ start =>
      obtain ⟨count, hLess, hSection⟩ := hTiles.at_section
      refine ⟨_, List.mem_append_right _ List.mem_cons_self, count, hLess, ?_⟩
      exact hSection.of_block.2.1

/-- What is left of a line that is not blank is the line behind the indentation that was taken
off. -/
theorem IsCut.replicate {original : List Char} {margin : Nat}
    (h : IsCut (List.replicate margin ' ') original rest) (hOriginal : allBlank original = false) :
    leadingSpaces original = margin + leadingSpaces rest ∧
      dropSpaces original = dropSpaces rest := by
  obtain ⟨hBlank, hCut⟩ := h
  rcases hCut with rfl | rfl
  · have hSpaces : List.replicate margin ' ' ++ rest =
        List.replicate (margin + leadingSpaces rest) ' ' ++ dropSpaces rest := by
      rw [← List.replicate_append_replicate, List.append_assoc, replicate_append_dropSpaces]
    rw [hSpaces]
    exact ⟨leadingSpaces_replicate _ (head?_dropSpaces_ne rest),
      dropSpaces_replicate _ (head?_dropSpaces_ne rest)⟩
  · rw [hBlank] at hOriginal
    cases hOriginal

/-- The first line of an excerpt that is not blank is the first such line of the source from there
on. -/
theorem Excerpt.firstIndent_source {margin : Nat}
    (h : Excerpt source (number + 1) (List.replicate margin ' ') text)
    (hText : 0 < firstIndent text) :
    firstIndent ((splitLines source).drop number).flatten =
      margin + firstIndent text := by
  rw [firstIndent_eq text] at hText ⊢
  cases hFind : (splitLines text).find? (!allBlank ·) with
  | none =>
      rw [hFind] at hText
      cases hText
  | some first =>
      obtain ⟨hFirst, j, hLess, hGet, hBlank⟩ := List.find?_eq_some_iff_getElem.1 hFind
      have hFirst : allBlank first = false := by simpa using hFirst
      have hOriginal {i : Nat} {line : List Char} (hLine : (splitLines text)[i]? = some line) :
          ∃ original, (splitLines source)[number + i]? = some original ∧
            IsCut (List.replicate margin ' ') original line := by
        obtain ⟨original, hAt, hCut⟩ := h.stands hLine
        rw [Nat.add_right_comm] at hAt
        exact ⟨original, hAt, hCut⟩
      obtain ⟨original, hAt, hCut⟩ := hOriginal (List.getElem?_eq_some_iff.2 ⟨hLess, hGet⟩)
      have hSome : allBlank original = false := hCut.1.trans hFirst
      have hSource : ((splitLines source).drop number).find? (!allBlank ·) = some original := by
        obtain ⟨hInside, hGetAt⟩ := List.getElem?_eq_some_iff.1 hAt
        refine List.find?_eq_some_iff_getElem.2 ⟨by simp [hSome], j, ?_, ?_, fun i hi => ?_⟩
        · rw [List.length_drop]
          omega
        · rw [List.getElem_drop, hGetAt]
        · obtain ⟨other, hOther, hOtherCut⟩ :=
            hOriginal (List.getElem?_eq_getElem (Nat.lt_trans hi hLess))
          have hOtherBlank := hBlank i hi
          rw [← hOtherCut.1] at hOtherBlank
          rw [List.getElem_drop, (List.getElem?_eq_some_iff.1 hOther).2]
          exact hOtherBlank
      rw [firstIndent_eq, splitLines_drop, hSource]
      exact (hCut.replicate hSome).1

/-- What a header takes off its body. -/
theorem Excerpt.bodyStep_eq {content : List Char} {margin : Nat}
    (h : Excerpt source number (List.replicate margin ' ') text) (hText : text ≠ [])
    (hDirects : Directs text content)
    (hDeeper : leadingSpaces text < firstIndent (splitLine text).2) :
    bodyStep source number =
      min (firstIndent (splitLine text).2 - leadingSpaces text) indentStep := by
  have hFirst : (splitLines text)[0]? = some (splitLine text).1 := by
    rw [← List.head?_eq_getElem?, head?_splitLines, if_neg hText]
  obtain ⟨original, hOriginal, hCut⟩ := h.stands hFirst
  have hSome : allBlank original = false := by
    rw [hCut.1, ← replicate_append_dropSpaces (splitLine text).1,
      show dropSpaces (splitLine text).1 = '$' :: content from hDirects]
    simp [allBlank, isBlank]
  have hHeader : indentAt source number = margin + leadingSpaces text := by
    rw [indentAt, show lineAt? source number = some original from hOriginal, Option.map_some,
      Option.getD_some, (hCut.replicate hSome).1, leadingSpaces_splitLine]
  rw [bodyStep, h.lower.firstIndent_source (Nat.zero_lt_of_lt hDeeper), hHeader,
    Nat.add_sub_add_left, Nat.min_comm]

end Standing

/-! ## What a line is emitted behind -/

theorem allBlank_ne_nil {text : List Char} (h : allBlank text = false) : text ≠ [] := by
  rintro rfl
  cases h

section Emitting

variable {source text : List Char} {number margin : Nat} {within : Surroundings}
  {sections before after : List Section} {headers : List Nat} {content : TextLine}
  {result : List Instr}

/-- A line among the sections that an excerpt is read as keeps the indentation it has there. -/
theorem emitsLine_of_tiles (hTiles : Tiles number text (.line content :: after))
    (hExcerpt : Excerpt source number (List.replicate margin ' ') text)
    (hCompile : compileSuite within .nothing [] (before ++ .line content :: after) = .ok result) :
    ∃ original, lineAt? source content.number = some original ∧
      (allBlank original = false → ∃ spaces, spaces + margin = leadingSpaces original +
        within.indent ∧ EmitsLine result before content after spaces (dropSpaces original)) := by
  obtain ⟨hText, hNumber, hPieces⟩ := hTiles.of_line
  have hFirst : (splitLines text)[0]? = some (splitLine text).1 := by
    rw [← List.head?_eq_getElem?, head?_splitLines, if_neg hText]
  obtain ⟨original, hOriginal, hCut⟩ := hExcerpt.stands hFirst
  refine ⟨original, by rwa [hNumber], fun hSome => ?_⟩
  obtain ⟨hIndent, hRest⟩ := hCut.replicate hSome
  generalize (splitLine text).1 = line at hPieces hCut hIndent hRest
  obtain ⟨earlier, more, later, hEarlier, hMore, hLater⟩ := compileSuite_append_line hCompile
  -- The indentation that is left of the line is text, like the indentation that is added.
  have hVisible : allBlank (dropSpaces line) = false := by
    have hLine := hCut.1
    rw [hSome, ← replicate_append_dropSpaces line] at hLine
    simpa [allBlank, isBlank] using hLine.symm
  rw [← replicate_append_dropSpaces line, joinLine_replicate _ hVisible] at hPieces
  obtain ⟨pieces, hOthers, hSame⟩ := readPieces_replicate _ hPieces
  rw [compileLine, hSame] at hMore
  obtain ⟨alone, added, hAlone, hGlyphs, hAdded⟩ := glyphs_compilePieces hMore []
  refine ⟨within.indent + leadingSpaces line, by omega, within, earlier, pieces, alone, later,
    hCompile, hEarlier, by rw [hRest]; exact hOthers, hAlone, ?_⟩
  rw [hLater, hGlyphs, hAdded, glyphs_addText, glyphs_addText, List.reverse_reverse,
    ← List.replicate_append_replicate]
  simp [glyphs]

/-- What a line of an excerpt is emitted behind: its indentation in the source and the indentation
around it, without what is left out before the excerpt and what the blocks around the line take
off. -/
theorem emits_of_lies (hLies : Lies sections headers before content after)
    (hTiles : Tiles number text sections)
    (hExcerpt : Excerpt source number (List.replicate margin ' ') text)
    (hCompile : compileSuite within .nothing [] sections = .ok result) :
    ∃ original, lineAt? source content.number = some original ∧
      (allBlank original = false → ∃ spaces suite,
        spaces + (margin + (headers.map (bodyStep source)).sum) =
          leadingSpaces original + within.indent ∧
        Contains result headers.length suite ∧
        EmitsLine suite before content after spaces (dropSpaces original)) := by
  induction hLies generalizing number text margin within result with
  | here =>
      obtain ⟨count, -, hLine⟩ := hTiles.at_section
      obtain ⟨original, hOriginal, hEmits⟩ :=
        emitsLine_of_tiles hLine (hExcerpt.behind count) hCompile
      refine ⟨original, hOriginal, fun hSome => ?_⟩
      obtain ⟨spaces, hSpaces, hLine⟩ := hEmits hSome
      exact ⟨spaces, result, hSpaces, .here, hLine⟩
  | inside hBelow hLies ih =>
      obtain ⟨count, -, hBlock⟩ := hTiles.at_section
      have hHere := hExcerpt.behind count
      obtain ⟨hText, rfl, line, body, rest, hReading, hSuite⟩ := hBlock.of_block
      generalize ((splitLines text).drop count).flatten = text at hReading hText hHere
      obtain ⟨around, inner, hAround, hInner, instr, hInstr, hBody⟩ := compileSuite_block hCompile
      cases hReading with
      | block _ hDirects hHeader hAt hVisible =>
        cases hAt with
        | inline _ =>
            -- A body behind the header has the number of the header.
            obtain ⟨s, hMem, place, hPlace, hNumber⟩ := hLies.exists_number hSuite
            have hLess := hBelow s hMem
            obtain ⟨passed, hPassed⟩ := (List.dropWhile_suffix _).trans
              (hDirects.suffix (suffix_of_splitHeader hHeader))
            have hOne := Excerpt.splitLines_tail hPassed.symm (allBlank_ne_nil hVisible)
            rw [trimStart, hOne, List.length_singleton] at hPlace
            omega
        | missing _ _ => cases hVisible
        | @below width _ hDeeper hWidth =>
            have hInside := hHere.lower.region width
            rw [List.replicate_append_replicate] at hInside
            obtain ⟨original, hOriginal, hEmits⟩ := ih hSuite hInside hInner
            refine ⟨original, hOriginal, fun hSome => ?_⟩
            obtain ⟨spaces, suite, hSpaces, hNested, hLine⟩ := hEmits hSome
            refine ⟨spaces, suite, ?_, .inside hInstr hBody hNested, hLine⟩
            rw [List.map_cons, List.sum_cons, hHere.bodyStep_eq hText hDirects hDeeper]
            rw [hAround, hWidth] at hSpaces
            omega

end Emitting

theorem compileSuite_of_ofDocument {document : Document} {program : Program}
    (h : Program.ofDocument document = .ok program) :
    compileSuite .outside .nothing [] document.body = .ok program.body := by
  have hRest {parameters : List Parameter} (h : (fun body => (⟨parameters, body⟩ : Program)) <$>
      compileSuite .outside .nothing [] document.body = .ok program) :
      compileSuite .outside .nothing [] document.body = .ok program.body := by
    obtain ⟨body, hBody, rfl⟩ := exists_of_map_eq_ok h
    exact hBody
  unfold Program.ofDocument at h
  cases hText : document.parameters with
  | none =>
      rw [hText] at h
      exact hRest h
  | some text =>
      rw [hText] at h
      obtain ⟨parameters, -, h⟩ := exists_of_bind_eq_ok h
      exact hRest h

/-- The output is indented like the source. A line of text that lies in blocks whose bodies stand
below their headers is emitted behind as many spaces as it has in the source, less what each of the
blocks takes off. -/
theorem indentation_follows_source {source : List Char} {document : Document} {program : Program}
    {headers : List Nat} {before after : List Section} {content : TextLine}
    (hRead : Document.read source = .ok document)
    (hProgram : Program.ofDocument document = .ok program)
    (hLies : Lies document.body headers before content after) :
    ∃ original, lineAt? source content.number = some original ∧
      (allBlank original = false →
        (headers.map (bodyStep source)).sum ≤ leadingSpaces original ∧
        ∃ suite, Contains program.body headers.length suite ∧
          EmitsLine suite before content after
            (leadingSpaces original - (headers.map (bodyStep source)).sum)
            (dropSpaces original)) := by
  have hBody := compileSuite_of_ofDocument hProgram
  have hExcerpt : Excerpt source (1 + declaredLines source) (List.replicate 0 ' ')
    (undeclared source) := undeclared_excerpt source
  obtain ⟨original, hOriginal, hEmits⟩ :=
    emits_of_lies hLies (tiles_of_read hRead) hExcerpt hBody
  refine ⟨original, hOriginal, fun hSome => ?_⟩
  obtain ⟨spaces, suite, hSpaces, hNested, hLine⟩ := hEmits hSome
  have hOutside : Surroundings.outside.indent = 0 := rfl
  rw [hOutside] at hSpaces
  obtain rfl : spaces = leadingSpaces original - (headers.map (bodyStep source)).sum := by omega
  exact ⟨by omega, suite, hNested, hLine⟩

/-! ### A loop in a conditional -/

namespace Stepped

/-- The body of the conditional is indented by six spaces, the body of the loop by two more. -/
def source : List Char := "$if a:\n      $for x in b:\n        $x go\n".toList

def content : TextLine := ⟨3, [.expression "x".toList true, .text " go\n".toList]⟩

def sections : List Section :=
  [.block 1 .ifBranch "if a".toList 0 [.block 2 .forLoop "for x in b".toList 2 [.line content]]]

/-- Are these the sections of the source? -/
def isDocument : Except LayoutFault Document → Bool
  | .ok ⟨none, [.block 1 .ifBranch outer 0 [.block 2 .forLoop inner 2 [.line line]]]⟩ =>
      (outer, inner, line) == ("if a".toList, "for x in b".toList, content)
  | _ => false

theorem read_source : Document.read source = .ok ⟨none, sections⟩ := by
  have hCheck : isDocument (Document.read source) = true := by decide +kernel
  unfold isDocument at hCheck
  split at hCheck
  · rename_i hDocument
    rw [hDocument]
    simp only [beq_iff_eq, Prod.mk.injEq] at hCheck
    obtain ⟨rfl, rfl, rfl⟩ := hCheck
    rfl
  · cases hCheck

theorem exists_of_isSome {ε α : Type} {action : Except ε α}
    (h : action.toOption.isSome = true) : ∃ value, action = .ok value := by
  cases action with
  | error cause => cases h
  | ok value => exact ⟨value, rfl⟩

theorem exists_program : ∃ program, Program.ofDocument ⟨none, sections⟩ = .ok program := by
  obtain ⟨test, hTest⟩ : ∃ test, Expr.readAfter "if" "if a".toList = .ok test :=
    exists_of_isSome (by decide +kernel)
  obtain ⟨items, hItems⟩ : ∃ items, readForHeader "for x in b".toList = .ok items :=
    exists_of_isSome (by decide +kernel)
  obtain ⟨value, hValue⟩ : ∃ value, Expr.read "x".toList = .ok value :=
    exists_of_isSome (by decide +kernel)
  have hBody : ∃ body, compileSuite .outside .nothing [] sections = .ok body := by
    simp only [sections, content, compileSuite, OpenBlock.close, loopInstr, compileLine,
      compilePieces, onLine, hTest, hItems, hValue]
    exact ⟨_, rfl⟩
  obtain ⟨body, hBody⟩ := hBody
  exact ⟨⟨[], body⟩, congrArg ((fun body => (⟨[], body⟩ : Program)) <$> ·) hBody⟩

end Stepped

/-- The line in the loop has eight spaces in the source, of which the conditional takes off four and
the loop two. -/
theorem two_spaces_are_left : ∃ document program suite,
    Document.read Stepped.source = .ok document ∧ Program.ofDocument document = .ok program ∧
    Lies document.body [1, 2] [] Stepped.content [] ∧
    [1, 2].map (bodyStep Stepped.source) = [4, 2] ∧
    Contains program.body 2 suite ∧
    EmitsLine suite [] Stepped.content [] 2 "$x go\n".toList := by
  obtain ⟨program, hProgram⟩ := Stepped.exists_program
  have hLies : Lies Stepped.sections [1, 2] [] Stepped.content [] := by
    have hLine : Lies ([] ++ [.line Stepped.content]) [] [] Stepped.content [] := .here
    have hLoop : Lies ([] ++ [.block 2 .forLoop "for x in b".toList 2 [.line Stepped.content]]) [2]
        [] Stepped.content [] := .inside (by simp [Section.number, Stepped.content]) hLine
    have hTest : Lies ([] ++ Stepped.sections) [1, 2] [] Stepped.content [] :=
      .inside (by simp [Section.number]) hLoop
    exact hTest
  have hSteps : [1, 2].map (bodyStep Stepped.source) = [4, 2] := by decide +kernel
  obtain ⟨original, hOriginal, hEmits⟩ :=
    indentation_follows_source Stepped.read_source hProgram hLies
  obtain rfl : original = "        $x go\n".toList := by
    have hLine : lineAt? Stepped.source 3 = some "        $x go\n".toList := by decide +kernel
    exact Option.some.inj (hOriginal.symm.trans hLine)
  obtain ⟨-, suite, hContains, hLine⟩ := hEmits (by decide +kernel)
  rw [hSteps] at hLine
  exact ⟨_, program, suite, Stepped.read_source, hProgram, hLies, hSteps, hContains, hLine⟩

end Stencil
