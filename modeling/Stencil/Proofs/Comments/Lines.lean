import Stencil.Proofs.Comments.Expressions
import Stencil.Proofs.Indentation.Glyphs
import Stencil.Proofs.Sections.Joining

/-!
# Comments at the ends of lines

A comment in a line stands for the newline that it takes with it. So a line has the same pieces
with a comment at its end as with a newline there, but that the newline is a piece of its own. What
is compiled is the same.

## Main results

* `readPieces_append_lineEnd`: the pieces of a line with something at its end.
* `exists_readPieces_of_newline`: a line that can be read with a newline can be read without.
* `exists_doFor`: a comment in the place of the newline changes no instruction.
* `exists_doFor_withNewline`: where the newline is gone, a comment is a newline more.
-/

namespace Stencil

open Stencil.Text

variable {text rest others tail : List Char} {escape : Bool} {piece : Piece}

/-! ## Pieces that compile -/

/-- The code can be read. -/
def Piece.Compiles : Piece → Prop
  | .text _ => True
  | .expression code _ => ∃ value, Expr.read code = .ok value

theorem compiles_of_compilePieces {number : Nat} {out after : Emitted} {pieces : List Piece}
    (h : compilePieces number out pieces = .ok after) : ∀ piece ∈ pieces, piece.Compiles := by
  induction pieces generalizing out with
  | nil => simp
  | cons piece pieces ih =>
      cases piece with
      | text content => exact List.forall_mem_cons.2 ⟨trivial, ih h⟩
      | expression code escape =>
          rw [compilePieces] at h
          cases hCode : Expr.read code with
          | error fault =>
              rw [hCode] at h
              cases h
          | ok value =>
              rw [hCode] at h
              exact List.forall_mem_cons.2 ⟨⟨value, hCode⟩, ih h⟩

theorem exists_compilePieces {pieces : List Piece} (h : ∀ piece ∈ pieces, piece.Compiles)
    (number : Nat) (out : Emitted) : ∃ after, compilePieces number out pieces = .ok after := by
  induction pieces generalizing out with
  | nil => exact ⟨out, rfl⟩
  | cons piece pieces ih =>
      obtain ⟨hPiece, hPieces⟩ := List.forall_mem_cons.1 h
      cases piece with
      | text content => exact ih hPieces _
      | expression code escape =>
          obtain ⟨value, hCode⟩ := hPiece
          rw [compilePieces, hCode]
          exact ih hPieces _

theorem compilePieces_append (number : Nat) (out : Emitted) (first second : List Piece) :
    compilePieces number out (first ++ second) =
      compilePieces number out first >>= fun after => compilePieces number after second := by
  induction first generalizing out with
  | nil => rfl
  | cons piece rest ih =>
      cases piece with
      | text content => exact ih _
      | expression code escape =>
          rw [List.cons_append, compilePieces, compilePieces]
          cases Expr.read code with
          | error fault => rfl
          | ok value => exact ih _

/-- Lines compile if all their pieces do. -/
theorem exists_compileLines_iff {rows : List TextLine} {out : Emitted} :
    (∃ after, compileLines out rows = .ok after) ↔
      ∀ piece ∈ rows.flatMap TextLine.pieces, piece.Compiles := by
  induction rows generalizing out with
  | nil => exact ⟨fun _ => List.forall_mem_nil _, fun _ => ⟨out, rfl⟩⟩
  | cons row rest ih =>
      rw [List.flatMap_cons, List.forall_mem_append]
      constructor
      · rintro ⟨after, h⟩
        obtain ⟨next, hFirst, hRest⟩ := exists_of_bind_eq_ok h
        exact ⟨compiles_of_compilePieces hFirst, ih.1 ⟨after, hRest⟩⟩
      · rintro ⟨hFirst, hRest⟩
        obtain ⟨next, hNext⟩ := exists_compilePieces hFirst row.number
          (out.addText (String.ofList (List.replicate 0 ' ')))
        rw [compileLines, compileLine, hNext]
        exact ih.2 hRest

/-! ## The first piece -/

theorem readPiece_sigil {c : Char} (h : c ≠ '$' ∧ c ≠ '#' ∧ c ≠ ':') (rest : List Char) :
    readPiece ('$' :: c :: rest) = readExpression true (c :: rest) := by
  unfold readPiece
  split
  · rename_i hText
    exact absurd (List.cons.inj (List.cons.inj hText).2).1 h.1
  · rename_i hText
    exact absurd (List.cons.inj (List.cons.inj hText).2).1 h.2.1
  · rename_i hText
    exact absurd (List.cons.inj (List.cons.inj hText).2).1 h.2.2
  · rename_i hText
    rw [(List.cons.inj hText).2]
  · rename_i hNone
    exact absurd rfl (hNone (c :: rest))

/-- What a line starts with that goes on behind it: a piece of text, or a sigil with an expression
behind it. -/
theorem readPiece_forms {c : Char} (hSigil : '$' ∈ c :: rest)
    (hComment : ¬ ['$', '#'] <+: c :: rest) :
    (∃ content others, content ⊆ c :: rest ∧ others <:+ c :: rest ∧
      ∀ tail, readPiece (c :: (rest ++ tail)) = .ok (.text content, others ++ tail)) ∨
    ∃ escape text, text <:+ c :: rest ∧ ∀ tail, (text = [] → tail = [] ∨ tail = ['\n']) →
      readPiece (c :: (rest ++ tail)) = readExpression escape (text ++ tail) := by
  by_cases hc : c = '$'
  · subst hc
    cases rest with
    | nil =>
        refine .inr ⟨true, [], List.nil_suffix, fun tail hTail => ?_⟩
        rcases hTail rfl with rfl | rfl <;> rfl
    | cons d more =>
        by_cases hSame : d = '$'
        · subst hSame
          exact .inl ⟨['$'], more, by simp, List.suffix_append ['$', '$'] more, fun tail => rfl⟩
        by_cases hNumber : d = '#'
        · subst hNumber
          exact absurd (List.prefix_append ['$', '#'] more) hComment
        by_cases hColon : d = ':'
        · subst hColon
          exact .inr ⟨false, more, List.suffix_append ['$', ':'] more, fun tail _ => rfl⟩
        · exact .inr ⟨true, d :: more, List.suffix_cons _ _, fun tail _ =>
            readPiece_sigil ⟨hSame, hNumber, hColon⟩ (more ++ tail)⟩
  · have hRest : '$' ∈ rest := (List.mem_cons.1 hSigil).resolve_left (Ne.symm hc)
    refine .inl ⟨c :: rest.takeWhile (· != '$'), rest.dropWhile (· != '$'), ?_, ?_,
      fun tail => ?_⟩
    · exact List.cons_subset_cons c (List.takeWhile_prefix _).subset
    · exact (List.dropWhile_suffix _).trans (List.suffix_cons c rest)
    · obtain ⟨hTake, hDrop⟩ := takeWhile_append_of_mem (p := (· != '$')) hRest (by decide) tail
      rw [readPiece_text hc, hTake, hDrop]

theorem readExpression_eq_ok (h : readExpression escape text = .ok (piece, others)) :
    others <:+ text ∧ ∃ code, piece = .expression code escape := by
  rw [readExpression, Inline.read_eq] at h
  cases hSkip : Inline.skip text with
  | error fault =>
      rw [hSkip] at h
      cases h
  | ok rest =>
      rw [hSkip] at h
      simp only [Functor.map, Except.map] at h
      split at h
      · cases h
      · cases h
        exact ⟨Inline.skip_suffix hSkip, _, rfl⟩

/-- Code that starts with a comment does not compile. It takes the end of its line, too. -/
theorem readExpression_unseen (h : EndsWith text tail) (hUnseen : isUnseen text = true)
    (hRead : readExpression escape text = .ok (piece, others)) : ¬ piece.Compiles ∧
      ∃ found ending, IsEnding ending ∧
        readExpression escape (text ++ tail) = .ok (found, ending) := by
  cases hSome : text.dropWhile isGap with
  | nil =>
      have hDrop : text.dropWhile (fun c => c == ' ' || c == '\t') = [] := hSome
      rw [readExpression, Inline.read, Inline.skip, hDrop] at hRead
      cases hRead
  | cons c rest =>
      rw [isUnseen, hSome] at hUnseen
      obtain rfl : c = '#' := beq_iff_eq.1 hUnseen
      have hRest : '\n' ∉ rest := fun hMem => h.oneLine <|
        (List.dropWhile_suffix isGap).subset (hSome ▸ List.mem_cons_of_mem '#' hMem)
      have hAlone : readExpression escape (text ++ []) =
          .ok (.expression ('#' :: trimEnd rest) escape, []) :=
        readExpression_comment hRest hSome (.inl rfl)
      rw [List.append_nil, hRead] at hAlone
      cases hAlone
      refine ⟨fun hCompiles => ?_, ?_⟩
      · obtain ⟨value, hValue⟩ := hCompiles
        exact not_readExpression_comment (fun hMem => hRest ((isPrefix_trimEnd rest).subset hMem))
          value hValue
      · obtain ⟨more, ending, rfl, hMore, hEnding⟩ := h.lineEnd.exists_ending
        have hLonger : (text ++ more).dropWhile isGap = '#' :: (rest ++ more) := by
          rw [List.dropWhile_append, hSome]
          rfl
        have hBoth : '\n' ∉ rest ++ more := by simp [hRest, hMore]
        rw [← List.append_assoc]
        exact ⟨_, ending, hEnding, readExpression_comment hBoth hLonger hEnding⟩

/-! ## The end of a line -/

/-- The pieces of a line with a newline behind them, unless a comment stands for one. -/
def withNewline : List Piece → List Piece
  | [] => [.text ['\n']]
  | piece :: rest => if piece = .text ['\n'] then piece :: rest else piece :: withNewline rest

/-- Plain text is a piece up to the first sigil. -/
theorem readPieces_plain (h : '$' ∉ text) (hSome : text ≠ []) (hMore : NoHead (· != '$') others) :
    readPieces (text ++ others) = (.text text :: ·) <$> readPieces others := by
  obtain ⟨c, rest, rfl⟩ := List.exists_cons_of_ne_nil hSome
  rw [List.mem_cons, not_or] at h
  have hRest : ∀ d ∈ rest, (d != '$') = true :=
    fun d hd => bne_iff_ne.2 fun hSame => h.2 (hSame ▸ hd)
  have hTake : (rest ++ others).takeWhile (· != '$') = rest :=
    takeWhile_append_noHead _ hRest hMore
  have hDrop : (rest ++ others).dropWhile (· != '$') = others := by
    rw [List.dropWhile_append_of_pos hRest]
    exact dropWhile_eq_self hMore
  rw [List.cons_append, readPieces_cons (readPiece_text (Ne.symm h.1) (rest ++ others)), hTake,
    hDrop]

theorem readPieces_text (h : '$' ∉ text) (hSome : text ≠ []) :
    readPieces text = .ok [.text text] := by
  have hText := readPieces_plain h hSome (.nil _)
  rw [List.append_nil] at hText
  rw [hText, readPieces]
  rfl

/-- The pieces of a comment. -/
theorem readPieces_comment {remark ending : List Char} (hRemark : '\n' ∉ remark)
    (hEnding : IsEnding ending) :
    readPieces ('$' :: '#' :: (remark ++ ending)) = .ok [.text ['\n']] := by
  have hRest : (splitLine (remark ++ ending)).2 = [] := by
    rcases hEnding with rfl | rfl
    · rw [List.append_nil, splitLine_of_not_mem hRemark]
    · rw [splitLine_append_newline hRemark]
  have hPiece : readPiece ('$' :: '#' :: (remark ++ ending)) = .ok (.text ['\n'], []) := by
    rw [readPiece, hRest]
  rw [readPieces_cons hPiece, readPieces]
  rfl

/-- Plain text or a comment goes on to the end of its line. -/
theorem readPieces_last {line : List Char} (hLine : '\n' ∉ line)
    (hLast : '$' ∉ line ∨ ['$', '#'] <+: line) : ∃ pieces, readPieces line = .ok pieces ∧
      ∀ tail, LineEnd tail → ∃ ended, readPieces (line ++ tail) = .ok ended ∧
        ∀ number out, compilePieces number out ended =
          compilePieces number out (withNewline pieces) := by
  rcases hLast with hPlain | ⟨remark, rfl⟩
  · by_cases hSome : line = []
    · subst hSome
      refine ⟨[], by rw [readPieces], fun tail hTail => ⟨_, ?_, fun _ _ => rfl⟩⟩
      cases hTail with
      | newline => exact readPieces_text (by decide) (by decide)
      | comment hRemark hEnding => exact readPieces_comment hRemark hEnding
    · have hNewline : Piece.text line ≠ .text ['\n'] := by
        intro hSame
        rw [Piece.text.inj hSame] at hLine
        exact hLine (List.mem_singleton_self _)
      have hEnded : withNewline [.text line] = [.text line, .text ['\n']] := if_neg hNewline
      refine ⟨_, readPieces_text hPlain hSome, fun tail hTail => ?_⟩
      rw [hEnded]
      cases hTail with
      | newline =>
          have hBoth : '$' ∉ line ++ ['\n'] := by simp [hPlain]
          refine ⟨_, readPieces_text hBoth (by simp), fun number out => ?_⟩
          show Except.ok _ = Except.ok _
          rw [String.ofList_append, Emitted.addText_append]
      | comment hRemark hEnding =>
          refine ⟨_, ?_, fun _ _ => rfl⟩
          rw [readPieces_plain hPlain hSome (.cons (by decide) _),
            readPieces_comment hRemark hEnding]
          rfl
  · have hRemark : '\n' ∉ remark := fun hMem => hLine (by simp [hMem])
    have hText : readPieces ('$' :: '#' :: remark) = .ok [.text ['\n']] := by
      have hPieces := readPieces_comment hRemark (.inl rfl)
      rwa [List.append_nil] at hPieces
    refine ⟨_, hText, fun tail hTail => ⟨[.text ['\n']], ?_, fun _ _ => rfl⟩⟩
    cases hTail with
    | newline => exact readPieces_comment hRemark (.inr rfl)
    | @comment more ending hMore hEnding =>
        have hBoth : '\n' ∉ remark ++ '$' :: '#' :: more := by simp [hRemark, hMore]
        have hPieces := readPieces_comment hBoth hEnding
        rwa [List.append_assoc] at hPieces

theorem readPieces_error {c : Char} {cause : LayoutCause}
    (h : readPiece (c :: rest) = .error cause) : readPieces (c :: rest) = .error cause := by
  rw [readPieces.eq_def]
  simp only
  split
  · rename_i found hFound
    rw [h] at hFound
    cases hFound
    rfl
  · rename_i hFound
    rw [h] at hFound
    cases hFound

/-! ## Whole lines -/

/-- A line that can be read with a newline behind it can be read without. -/
theorem exists_readPieces_of_newline {line : List Char} {ended : List Piece} (hLine : '\n' ∉ line)
    (h : readPieces (line ++ ['\n']) = .ok ended) : ∃ pieces, readPieces line = .ok pieces := by
  by_cases hLast : '$' ∉ line ∨ ['$', '#'] <+: line
  · obtain ⟨pieces, hPieces, -⟩ := readPieces_last hLine hLast
    exact ⟨pieces, hPieces⟩
  obtain ⟨hSigil, hComment⟩ := not_or.1 hLast
  cases line with
  | nil => exact absurd List.not_mem_nil hSigil
  | cons c rest =>
      have hNext {piece : Piece} {others : List Char} (hOthers : others <:+ c :: rest)
          (hRead : readPiece (c :: rest) = .ok (piece, others))
          (hLonger : readPiece (c :: (rest ++ ['\n'])) = .ok (piece, others ++ ['\n'])) :
          ∃ pieces, readPieces (c :: rest) = .ok pieces := by
        have hShort := length_readPiece_lt hRead (List.cons_ne_nil c rest)
        rw [List.cons_append, readPieces_cons hLonger] at h
        obtain ⟨more, hMore, -⟩ := exists_of_map_eq_ok h
        obtain ⟨pieces, hPieces⟩ :=
          exists_readPieces_of_newline (fun hMem => hLine (hOthers.subset hMem)) hMore
        exact ⟨piece :: pieces, by rw [readPieces_cons hRead, hPieces]; rfl⟩
      rcases readPiece_forms (Decidable.not_not.1 hSigil) hComment with
        ⟨content, others, -, hOthers, hForm⟩ | ⟨escape, text, hText, hForm⟩
      · have hRead := hForm []
        rw [List.append_nil, List.append_nil] at hRead
        exact hNext hOthers hRead (hForm ['\n'])
      · have hRead := hForm [] fun _ => .inl rfl
        have hLonger := hForm ['\n'] fun _ => .inr rfl
        rw [List.append_nil, List.append_nil] at hRead
        rw [readExpression_append_lineEnd (.newline fun hMem => hLine (hText.subset hMem))
          fun _ => rfl] at hLonger
        cases hFound : readExpression escape text with
        | error cause =>
            rw [hFound] at hLonger
            rw [List.cons_append, readPieces_error hLonger] at h
            cases h
        | ok found =>
            rw [hFound] at hRead hLonger
            exact hNext ((readExpression_eq_ok hFound).1.trans hText) hRead hLonger
termination_by line.length

/-- A line with something at its end is compiled like the line with a newline behind its pieces. -/
theorem readPieces_append_lineEnd {line : List Char} {pieces : List Piece} (h : EndsWith line tail)
    (hPieces : readPieces line = .ok pieces) : ∃ ended, readPieces (line ++ tail) = .ok ended ∧
      (tail = ['\n'] ∨ (∀ piece ∈ pieces, piece.Compiles) → ∀ number out,
        compilePieces number out ended = compilePieces number out (withNewline pieces)) := by
  by_cases hLast : '$' ∉ line ∨ ['$', '#'] <+: line
  · obtain ⟨found, hFound, hEnded⟩ := readPieces_last h.oneLine hLast
    rw [hPieces] at hFound
    cases hFound
    obtain ⟨ended, hRead, hCompile⟩ := hEnded tail h.lineEnd
    exact ⟨ended, hRead, fun _ => hCompile⟩
  obtain ⟨hSigil, hComment⟩ := not_or.1 hLast
  cases line with
  | nil => exact absurd List.not_mem_nil hSigil
  | cons c rest =>
      have hNext {piece : Piece} {others : List Char} (hOthers : others <:+ c :: rest)
          (hNewline : piece ≠ .text ['\n']) (hRead : readPiece (c :: rest) = .ok (piece, others))
          (hLonger : readPiece (c :: (rest ++ tail)) = .ok (piece, others ++ tail)) :
          ∃ ended, readPieces (c :: rest ++ tail) = .ok ended ∧
            (tail = ['\n'] ∨ (∀ piece ∈ pieces, piece.Compiles) → ∀ number out,
              compilePieces number out ended =
                compilePieces number out (withNewline pieces)) := by
        have hShort := length_readPiece_lt hRead (List.cons_ne_nil c rest)
        rw [readPieces_cons hRead] at hPieces
        obtain ⟨more, hMore, rfl⟩ := exists_of_map_eq_ok hPieces
        obtain ⟨ended, hEnded, hCompile⟩ :=
          readPieces_append_lineEnd (h.mono hOthers.subset) hMore
        have hWhole : readPieces (c :: rest ++ tail) = .ok (piece :: ended) := by
          rw [List.cons_append, readPieces_cons hLonger, hEnded]
          rfl
        refine ⟨piece :: ended, hWhole, fun hAll number out => ?_⟩
        have hSame := hCompile (hAll.imp_right fun hAll => (List.forall_mem_cons.1 hAll).2)
        rw [withNewline, if_neg hNewline]
        cases piece with
        | text content => exact hSame number _
        | expression code escape =>
            rw [compilePieces, compilePieces]
            cases Expr.read code with
            | error fault => rfl
            | ok value => exact hSame number _
      rcases readPiece_forms (Decidable.not_not.1 hSigil) hComment with
        ⟨content, others, hContent, hOthers, hForm⟩ | ⟨escape, text, hText, hForm⟩
      · have hRead := hForm []
        rw [List.append_nil, List.append_nil] at hRead
        refine hNext hOthers (fun hSame => h.oneLine (hContent ?_)) hRead (hForm tail)
        rw [Piece.text.inj hSame]
        exact List.mem_singleton_self _
      · have hRead := hForm [] fun _ => .inl rfl
        rw [List.append_nil, List.append_nil] at hRead
        have hLine := h.mono hText.subset
        cases hFound : readExpression escape text with
        | error cause =>
            rw [hFound] at hRead
            rw [readPieces_error hRead] at hPieces
            cases hPieces
        | ok found =>
            obtain ⟨piece, others⟩ := found
            obtain ⟨hOthers, code, rfl⟩ := readExpression_eq_ok hFound
            have hSome : text ≠ [] := by
              rintro rfl
              cases hFound
            have hLonger := hForm tail fun hNil => absurd hNil hSome
            rw [hFound] at hRead
            by_cases hUnseen : isUnseen text = true → tail = ['\n']
            · rw [readExpression_append_lineEnd hLine hUnseen, hFound] at hLonger
              exact hNext (hOthers.trans hText) Piece.noConfusion hRead hLonger
            · -- The code is a comment: the line is read in some way, and does not compile.
              obtain ⟨hUnseen, hOther⟩ := Decidable.not_imp_iff_and_not.1 hUnseen
              obtain ⟨hCompiles, found, ending, hEnding, hRead'⟩ :=
                readExpression_unseen hLine hUnseen hFound
              rw [readPieces_cons hRead] at hPieces
              obtain ⟨more, -, rfl⟩ := exists_of_map_eq_ok hPieces
              have hWhole : readPieces (c :: rest ++ tail) =
                  (found :: ·) <$> readPieces ending :=
                readPieces_cons (hLonger.trans hRead')
              have hEnd : ∃ last, readPieces ending = .ok last := by
                rcases hEnding with rfl | rfl
                · exact ⟨[], by rw [readPieces]⟩
                · exact ⟨_, readPieces_text (by decide) (by decide)⟩
              obtain ⟨last, hLast⟩ := hEnd
              rw [hLast] at hWhole
              refine ⟨found :: last, hWhole, fun hAll => ?_⟩
              exact absurd (hAll.resolve_left hOther _ List.mem_cons_self) hCompiles
termination_by line.length

/-! ## A comment for a newline -/

/-- What the first action gives, the other gives, too. -/
def Grants {ε α : Type} (action other : Except ε α) : Prop :=
  ∀ result, action = .ok result → other = .ok result

/-- The others do for the pieces: where these compile, the others compile to the same. -/
def DoFor (others pieces : List Piece) : Prop :=
  ∀ number out, Grants (compilePieces number out pieces) (compilePieces number out others)

/-- The newline is the last piece, where there is none before. -/
theorem withNewline_eq (pieces : List Piece) :
    ∃ newline, withNewline pieces = pieces ++ newline ∧
      (newline = [] ∨ newline = [.text ['\n']]) := by
  induction pieces with
  | nil => exact ⟨[.text ['\n']], rfl, .inr rfl⟩
  | cons piece rest ih =>
      obtain ⟨newline, hRest, hNewline⟩ := ih
      rw [withNewline, hRest]
      split
      · exact ⟨[], (List.append_nil _).symm, .inl rfl⟩
      · exact ⟨newline, rfl, hNewline⟩

theorem subset_withNewline (pieces : List Piece) : pieces ⊆ withNewline pieces := by
  obtain ⟨newline, hEq, -⟩ := withNewline_eq pieces
  rw [hEq]
  exact List.subset_append_left pieces newline

/-- At the end of a line without a newline, a comment is a newline more. -/
theorem exists_doFor_withNewline {line : List Char} {pieces : List Piece} (h : EndsWith line tail)
    (hPieces : readPieces line = .ok pieces) :
    ∃ ended, readPieces (line ++ tail) = .ok ended ∧ DoFor ended (withNewline pieces) := by
  obtain ⟨ended, hRead, hSame⟩ := readPieces_append_lineEnd h hPieces
  refine ⟨ended, hRead, fun number out after hCompile => ?_⟩
  have hAll := compiles_of_compilePieces hCompile
  rw [hSame (.inr fun piece hMem => hAll piece (subset_withNewline pieces hMem))]
  exact hCompile

/-- In the place of the newline, a comment changes nothing. -/
theorem exists_doFor {line : List Char} {pieces : List Piece} (h : EndsWith line tail)
    (hPieces : readPieces (line ++ ['\n']) = .ok pieces) :
    ∃ ended, readPieces (line ++ tail) = .ok ended ∧ DoFor ended pieces := by
  obtain ⟨alone, hAlone⟩ := exists_readPieces_of_newline h.oneLine hPieces
  obtain ⟨found, hFound, hSame⟩ := readPieces_append_lineEnd (.newline h.oneLine) hAlone
  rw [hPieces] at hFound
  cases hFound
  obtain ⟨ended, hRead, hDoFor⟩ := exists_doFor_withNewline h hAlone
  refine ⟨ended, hRead, fun number out after hCompile => hDoFor number out after ?_⟩
  rw [← hSame (.inl rfl)]
  exact hCompile

end Stencil
