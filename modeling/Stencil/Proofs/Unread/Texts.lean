import Stencil.Proofs.Numbering
import Stencil.Proofs.Unread.Words

/-!
# The words of a template's code

The code in a template's text is cut out of it: a directive's code is a part of its line, an
expression is a part of a line of text, a body is a region without its indentation, and a statement
that goes on over several lines is put together again with a blank or a newline between them. None
of this makes a word that does not stand in the text.

## Main results

* `Tiles.spells`: the words of the code in sections are words of the text they are read from.
* `Template.isInfix_of_mem_identifiers`: the names that a template's text mentions stand in it.
-/

namespace Stencil

open Stencil.Text

variable {Word : String → Prop}

/-- Every word of the pieces of code is one of the words that are meant. -/
def CodesSpell (Word : String → Prop) (codes : List (List Char)) : Prop :=
  ∀ code ∈ codes, Spells Word code

theorem CodesSpell.flatMap {α : Type} {xs : List α} {codes : α → List (List Char)}
    (h : ∀ x ∈ xs, CodesSpell Word (codes x)) : CodesSpell Word (xs.flatMap codes) := by
  intro code hCode
  obtain ⟨x, hx, hCode⟩ := List.mem_flatMap.1 hCode
  exact h x hx code hCode

/-! ## Lines -/

section Lines

variable {text : List Char}

theorem infix_joinLine (line : List Char) : joinLine line <:+: line := by
  unfold joinLine
  split
  · rename_i before hReverse
    have hLine : line = before.reverse ++ ['\\', '\n'] := by
      rw [← List.reverse_reverse line, hReverse]
      simp
    conv => rhs; rw [hLine]
    exact (List.prefix_append ..).isInfix
  · exact List.infix_rfl

theorem infix_withoutEnd (line : List Char) : withoutEnd line <:+: line := by
  unfold withoutEnd
  split
  · rename_i before hReverse
    have hLine : line = before.reverse ++ ['\n'] := by
      rw [← List.reverse_reverse line, hReverse, List.reverse_cons]
    conv => rhs; rw [hLine]
    refine List.IsInfix.trans ?_ (List.prefix_append ..).isInfix
    unfold finishLine
    split
    · rw [List.reverse_cons]
      exact (List.prefix_append ..).isInfix
    · exact List.infix_rfl
  · exact List.infix_rfl

/-- The first line and what follows it are parts of a text. -/
theorem Spells.splitLine (h : Spells Word text) :
    Spells Word (splitLine text).1 ∧ Spells Word (splitLine text).2 := by
  rw [← splitLine_append text] at h
  exact ⟨h.of_isInfix (List.prefix_append ..).isInfix, h.of_isInfix (List.suffix_append ..).isInfix⟩

theorem Spells.lines (h : Spells Word text) : CodesSpell Word (lines text) := by
  intro line hLine
  rw [lines_eq] at hLine
  obtain ⟨raw, hRaw, rfl⟩ := List.mem_map.1 hLine
  rw [← flatten_splitLines text] at h
  exact (h.of_isInfix (List.infix_of_mem_flatten hRaw)).of_isInfix (infix_withoutEnd raw)

/-- Taking indentation off adds no words. -/
theorem Spells.unindent {line : List Char} (h : Spells Word line) (width : Nat) :
    Spells Word (unindent width line) := by
  unfold Stencil.unindent
  split
  · exact (h.of_isInfix (List.nil_infix (l := line)) : Spells Word []).cons (by decide)
  · exact h.of_isInfix (List.drop_suffix ..).isInfix

/-- A region has the words of its lines. -/
theorem Spells.region (h : Spells Word text) (width : Nat) :
    Spells Word (region width text).body ∧ Spells Word (region width text).rest := by
  fun_induction Stencil.region width text with
  | case1 => exact ⟨h, h⟩
  | case2 c others line hBelongs below ih =>
      obtain ⟨hLine, hRest⟩ := h.splitLine
      obtain ⟨hBody, hAfter⟩ := ih hRest
      refine ⟨?_, hAfter⟩
      rcases splitLine_cases (c :: others) with ⟨content, hContent, hEnd⟩ | ⟨-, hLast⟩
      · have hContentBelongs : belongsTo width (content ++ ['\n']) = true := hEnd ▸ hBelongs
        obtain ⟨inner, -, hInner⟩ := unindent_newline hContent hContentBelongs
        have hUnindented := hLine.unindent width
        rw [hEnd, hInner] at hUnindented
        simp only [line, hEnd, hInner, List.append_assoc, List.singleton_append]
        exact (hUnindented.of_isInfix (List.prefix_append ..).isInfix).append_cons hBody (by decide)
      · have hNone : below.body = [] := by
          simp only [below, hLast]
          rw [Stencil.region]
        simp only [hNone, List.append_nil]
        exact hLine.unindent width
  | case3 c others line hBelongs => exact ⟨h.of_isInfix List.nil_infix, h⟩

theorem Spells.trim (h : Spells Word text) :
    Spells Word (trim text) := h.of_isInfix (infix_trim text)

/-- The two sides of a header's colon are parts of its line. -/
theorem Spells.splitHeader {header rest : List Char} (h : Spells Word text)
    (hSplit : splitHeader text = .ok (some (header, rest))) :
    Spells Word header ∧ Spells Word rest := by
  refine ⟨?_, h.of_isInfix (suffix_of_splitHeader hSplit).isInfix⟩
  unfold Stencil.splitHeader at hSplit
  simp only at hSplit
  split at hSplit
  · cases hSplit
    exact h.of_isInfix ((infix_trimEnd _).trans (List.take_prefix ..).isInfix)
  · cases hSplit
  · split at hSplit <;> cases hSplit

end Lines

/-! ## Pieces -/

section Pieces

variable {text : List Char}

/-- The brackets that are put around an expression are in no word. -/
theorem Spells.normalize (h : Spells Word text) : Spells Word (Inline.normalize text) := by
  have hTrim := h.trim
  unfold Inline.normalize
  generalize Text.trim text = code at hTrim ⊢
  simp only
  split
  · rename_i rest
    split
    · have hInner : rest.dropLast <:+: '{' :: rest :=
        (List.dropLast_prefix rest).isInfix.trans (List.suffix_cons ..).isInfix
      exact ((hTrim.of_isInfix hInner).concat (by decide)).cons (by decide)
    · exact hTrim
  · exact hTrim

theorem spells_readExpression {escape : Bool} {rest : List Char} {piece : Piece}
    (h : Spells Word text) (hRead : readExpression escape text = .ok (piece, rest)) :
    CodesSpell Word piece.codes ∧ Spells Word rest := by
  unfold readExpression at hRead
  split at hRead
  · cases hRead
  · rename_i code after hInline
    simp only at hRead
    split at hRead
    · cases hRead
    · cases hRead
      rw [← Inline.read_append hInline] at h
      exact ⟨List.forall_mem_singleton.2
          (h.of_isInfix (List.prefix_append ..).isInfix).normalize,
        h.of_isInfix (List.suffix_append ..).isInfix⟩

theorem spells_readPiece {rest : List Char} {piece : Piece} (h : Spells Word text)
    (hRead : readPiece text = .ok (piece, rest)) :
    CodesSpell Word piece.codes ∧ Spells Word rest := by
  have hTail {c : Char} {others : List Char} (h : Spells Word (c :: others)) :
      Spells Word others := h.of_isInfix (List.suffix_cons ..).isInfix
  unfold readPiece at hRead
  split at hRead
  · cases hRead
    exact ⟨nofun, hTail (hTail h)⟩
  · cases hRead
    exact ⟨nofun, (hTail (hTail h)).splitLine.2⟩
  · exact spells_readExpression (hTail (hTail h)) hRead
  · exact spells_readExpression (hTail h) hRead
  · cases hRead
    exact ⟨nofun, h.of_isInfix (List.dropWhile_suffix _).isInfix⟩

/-- The words of the expressions in a line are words of it. -/
theorem spells_readPieces {pieces : List Piece} (h : Spells Word text)
    (hRead : readPieces text = .ok pieces) : CodesSpell Word (pieces.flatMap Piece.codes) := by
  induction text using readPieces.induct generalizing pieces with
  | case1 =>
      rw [readPieces] at hRead
      cases hRead
      exact List.forall_mem_nil _
  | case2 c rest cause hPiece =>
      rw [readPieces, hPiece] at hRead
      cases hRead
  | case3 c rest piece others hPiece ih =>
      rw [readPieces, hPiece] at hRead
      obtain ⟨more, hMore, hPieces⟩ := exists_of_bind_eq_ok hRead
      cases hPieces
      obtain ⟨hFirst, hOthers⟩ := spells_readPiece h hPiece
      exact List.forall_mem_append.2 ⟨hFirst, ih hOthers hMore⟩

end Pieces

/-! ## Code blocks -/

namespace CodeBlock

theorem spells_statementCodes (depth : Nat) {text : List Char} (h : Spells Word text) :
    CodesSpell Word (statementCodes depth text) := by
  induction depth generalizing text with
  | zero => exact List.forall_mem_singleton.2 h
  | succ depth ih =>
      unfold statementCodes
      refine List.forall_mem_cons.2 ⟨h, ?_⟩
      split
      · rename_i header rest hSplit
        obtain ⟨hHeader, hRest⟩ := h.splitHeader hSplit
        exact List.forall_mem_cons.2 ⟨hHeader, ih hRest.trim⟩
      · exact nofun

/-- Joining a statement with its next line puts a blank or a newline between them. -/
theorem spells_continueWith {text next : List Char} (h : Spells Word text)
    (hNext : Spells Word next) : Spells Word (continueWith text next) := by
  unfold continueWith
  split
  · rw [List.append_assoc, List.singleton_append]
    exact (h.of_isInfix (List.dropLast_prefix text).isInfix).append_cons hNext.trim (by decide)
  · rw [List.append_assoc, List.singleton_append]
    exact h.append_cons hNext.trim (by decide)

/-- The words of logical lines are words of the lines that they are put together from. -/
theorem spells_joinLines {raws : List (List Char)} (hRaws : CodesSpell Word raws)
    (pending : Option LogicalLine) (hPending : ∀ line ∈ pending, Spells Word line.text)
    (number : Nat) :
    Ensures (∀ line ∈ ·, Spells Word (LogicalLine.text line)) (joinLines pending number raws) := by
  induction raws generalizing pending number with
  | nil =>
      cases pending with
      | none =>
          rw [joinLines]
          exact .pure (List.forall_mem_nil _)
      | some line =>
          rw [joinLines]
          exact .error _
  | cons raw rest ih =>
      obtain ⟨hRaw, hRest⟩ := List.forall_mem_cons.1 hRaws
      have hNone := ih hRest none (fun _ hFound => absurd hFound (Option.not_mem_none _))
        (number + 1)
      have hFinish (line : LogicalLine) (hLine : Spells Word line.text) :
          Ensures (∀ line ∈ ·, Spells Word (LogicalLine.text line))
            (joinLines.finish number line rest) := by
        unfold joinLines.finish
        refine .ite (fun _ => ih hRest (some line) ?_ _) fun _ => ?_
        · exact fun _ hFound => Option.some.inj hFound ▸ hLine
        · exact .map (hNone.mono fun _ hMore => List.forall_mem_cons.2 ⟨hLine, hMore⟩)
      cases pending with
      | some line =>
          rw [joinLines]
          exact hFinish _ (spells_continueWith (hPending line rfl) hRaw)
      | none =>
          rw [joinLines]
          refine .ite (fun _ => hNone) fun _ => .ite (fun _ => .error _) fun _ => hFinish _ ?_
          exact hRaw.of_isInfix ((infix_trimEnd _).trans (List.dropWhile_suffix _).isInfix)

/-- The words of the statements in a code block are words of its text. -/
theorem spells_codes {text : List Char} (h : Spells Word text) (number : Nat) :
    CodesSpell Word (codes text number) := by
  unfold codes
  split
  · rename_i lines hLines
    have hSpells := spells_joinLines h.lines none nofun number lines hLines
    exact .flatMap fun line hLine => spells_statementCodes _ (hSpells line hLine)
  · exact nofun

end CodeBlock

/-! ## Sections -/

section Sections

variable {text body rest : List Char} {number : Nat}

/-- The line of a directive. -/
theorem Directs.spells {content : List Char} (h : Directs text content) (hText : Spells Word text) :
    Spells Word content :=
  hText.splitLine.1.of_isInfix (h.suffix (List.suffix_refl _)).isInfix

theorem BodyAt.spells {most : Nat → Nat} {remainder : List Char} {line : Nat}
    (h : BodyAt text number most remainder line body rest) (hText : Spells Word text)
    (hRemainder : Spells Word remainder) : Spells Word body ∧ Spells Word rest := by
  have hBelow := hText.splitLine.2
  cases h with
  | inline _ => exact ⟨hRemainder.of_isInfix (infix_trimStart _), hBelow⟩
  | missing _ _ => exact ⟨hBelow.of_isInfix List.nil_infix, hBelow⟩
  | below _ _ _ => exact hBelow.region _

/-- The words of the code in the lines of a fragment are words of these lines. -/
theorem spells_readFragment {physical : List (List Char)} (h : CodesSpell Word physical)
    (number : Nat) : Ensures (fun lines => CodesSpell Word (lines.flatMap TextLine.codes))
      (readFragment number physical) := by
  induction physical generalizing number with
  | nil => exact .pure nofun
  | cons line others ih =>
      obtain ⟨hLine, hOthers⟩ := List.forall_mem_cons.1 h
      have hFirst : Ensures (fun first => CodesSpell Word first.codes) (readLine number line) := by
        unfold readLine
        split
        · exact .error _
        · rename_i pieces hPieces
          exact .pure (spells_readPieces hLine hPieces)
      refine hFirst.bind fun first hFirst => (ih hOthers (number + 1)).bind fun more hMore =>
        .pure (List.forall_mem_append.2 ⟨?_, hMore⟩)
      have hEnd : TextLine.codes { first with pieces := first.pieces ++ [.text ['\n']] } =
          first.codes := by
        rw [TextLine.codes, List.flatMap_append]
        exact List.append_nil _
      rw [hEnd]
      exact hFirst

/-- The words of the code in an entry are words of the text it is read from, and so are the words of
what follows it. -/
theorem Reading.spells {content : Section} (h : Reading text number (.whole content) rest)
    (hText : Spells Word text) : CodesSpell Word content.codes ∧ Spells Word rest := by
  obtain ⟨hLine, hBelow⟩ := hText.splitLine
  cases h with
  | line hPieces => exact ⟨spells_readPieces (hLine.of_isInfix (infix_joinLine _)) hPieces, hBelow⟩
  | assignment hDirects =>
      exact ⟨List.forall_mem_singleton.2 (hDirects.spells hText).trim, hBelow⟩
  | flow _ hDirects => exact ⟨List.forall_mem_singleton.2 (hDirects.spells hText).trim, hBelow⟩
  | code hDirects hHeader hBody =>
      obtain ⟨hCode, hRest⟩ := hBody.spells hText ((hDirects.spells hText).splitHeader hHeader).2
      exact ⟨CodeBlock.spells_codes hCode _, hRest⟩
  | varExpression hDirects _ hCode =>
      exact ⟨List.forall_mem_singleton.2 ((hDirects.spells hText).of_isInfix hCode), hBelow⟩
  | varLine hDirects _ hValue hPieces =>
      have hPieces := spells_readPieces ((hDirects.spells hText).of_isInfix hValue) hPieces
      exact ⟨.flatMap (List.forall_mem_singleton.2 hPieces), hBelow⟩
  | varLines hDirects _ _ hLines =>
      obtain ⟨hBody, hRest⟩ := hBelow.region _
      exact ⟨spells_readFragment hBody.lines _ _ hLines, hRest⟩

/-- The words of the code in sections are words of the text they are read from. -/
theorem Tiles.spells {sections : List Section} (h : Tiles number text sections)
    (hText : Spells Word text) : CodesSpell Word (suiteCodes sections) := by
  induction h with
  | nil => exact nofun
  | whole _ hReading _ ih =>
      obtain ⟨hContent, hRest⟩ := hReading.spells hText
      exact List.forall_mem_append.2 ⟨hContent, ih hRest⟩
  | block _ hReading _ _ ihBody ihRest =>
      cases hReading with
      | block _ hDirects hHeader hBody _ =>
          obtain ⟨hHead, hRemainder⟩ := (hDirects.spells hText).splitHeader hHeader
          obtain ⟨hBody, hRest⟩ := hBody.spells hText hRemainder
          exact List.forall_mem_append.2
            ⟨List.forall_mem_cons.2 ⟨hHead, ihBody hBody⟩, ihRest hRest⟩

end Sections

/-! ## Whole texts -/

/-- The words of the code in a document are words of its text. -/
theorem Document.spells_codes {text : List Char} (h : Spells Word text) :
    Ensures (fun document => CodesSpell Word document.codes) (Document.read text) := by
  have hSuite {text : List Char} (h : Spells Word text) (number : Nat) :
      Ensures (fun sections => CodesSpell Word (suiteCodes sections)) (readSuite text number) :=
    fun sections hSections => (readSuite_tiles hSections).spells h
  unfold Document.read
  split
  · rename_i rest hDeclaration
    have hRest : Spells Word rest := by
      rw [← append_of_declaration hDeclaration] at h
      exact h.of_isInfix (List.suffix_append ..).isInfix
    obtain ⟨hHeader, hBody⟩ := hRest.splitLine
    refine (hSuite hBody 2).bind fun sections hSections => .pure ?_
    exact List.forall_mem_cons.2 ⟨hHeader.trim, hSections⟩
  · exact (hSuite h 1).bind fun sections hSections => .pure hSections

/-- The names that a template's text mentions stand in it. -/
theorem Template.isInfix_of_mem_identifiers {text name : String}
    (h : name ∈ Template.identifiers text) : name.toList <:+: text.toList := by
  have hWords : Spells (fun word => word.toList <:+: text.toList) text.toList := by
    intro word _ hWord
    rwa [String.toList_ofList]
  unfold Template.identifiers at h
  split at h
  · rename_i document hRead
    obtain ⟨code, hCode, hName⟩ := List.mem_flatMap.1 h
    exact (Document.spells_codes (spells_normalizeText hWords) document hRead code hCode).namesIn
      name hName
  · exact absurd h List.not_mem_nil

end Stencil
