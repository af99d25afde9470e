import Stencil.Program
import Stencil.Proofs.Quoting.Parsing

/-!
# Quoted lines

Text is quoted by doubling every sigil in it, and code by putting it in brackets after a sigil. A
line that is written so holds no directive, whatever its text and its code are: after a sigil comes
another one, a bracket, or the mark of raw output. Its pieces are the text and the code that were
quoted.

The pieces of a line do not tell where one text ends and the next one starts. What they tell is how
they are compiled, so a line is said to read as the instructions that its pieces add to a program.

## Main results

* `ReadsAs.line`: a quoted line reads as the instructions for its parts.
* `readEntry_line`: a quoted line is read as a line of text.
-/

namespace Stencil

open Stencil.Text

/-! ## Writing -/

/-- Code that can stand in a line: an expression with balanced brackets and no comment. -/
structure InlineCode where
  code : List Char
  tokens : List Token
  tree : Expr
  tokens_eq : strictTokens code = .ok tokens
  uncommented : ∀ t ∈ tokens, t.kind ≠ .comment
  balanced : openAfter [] tokens = some []
  oneLine : '\n' ∉ code
  tree_eq : Expr.read code = .ok tree

/-- A part of a line to be written. -/
inductive Quoted where
  /-- Text that is to appear as it is. -/
  | literal (content : List Char) (oneLine : '\n' ∉ content)
  /-- Code whose value is to appear, escaped or not. -/
  | expression (code : InlineCode) (escape : Bool)

/-- The text with two sigils in place of each. -/
def doubleSigils (text : List Char) : List Char :=
  text.flatMap fun c => if c = '$' then ['$', '$'] else [c]

namespace Quoted

/-- The part as it is written. -/
def write : Quoted → List Char
  | literal content _ => doubleSigils content
  | expression code true => '$' :: '(' :: (code.code ++ [')'])
  | expression code false => '$' :: ':' :: '(' :: (code.code ++ [')'])

/-- What the part is compiled to. -/
def instr : Quoted → Instr
  | literal content _ => .text (String.ofList content)
  | expression code escape => .emit code.tree escape

end Quoted

/-- The line as it is written. -/
def writeLine (line : List Quoted) : List Char := line.flatMap Quoted.write ++ ['\n']

/-- What the line is compiled to, its newline included. -/
def lineInstrs (line : List Quoted) : List Instr := line.map Quoted.instr ++ [.text "\n"]

theorem doubleSigils_cons (c : Char) (text : List Char) : doubleSigils (c :: text) =
    (if c = '$' then ['$', '$'] else [c]) ++ doubleSigils text := rfl

theorem newline_not_mem_doubleSigils {text : List Char} (h : '\n' ∉ text) :
    '\n' ∉ doubleSigils text := by
  intro hMem
  obtain ⟨c, hc, hMem⟩ := List.mem_flatMap.1 hMem
  by_cases hSigil : c = '$'
  · rw [if_pos hSigil] at hMem
    simp at hMem
  · rw [if_neg hSigil, List.mem_singleton] at hMem
    exact h (hMem ▸ hc)

/-- The newline at the end of a line is the only one in it. -/
theorem newline_not_mem_write (part : Quoted) : '\n' ∉ part.write := by
  rcases part with ⟨content, oneLine⟩ | ⟨code, _ | _⟩
  · exact newline_not_mem_doubleSigils oneLine
  · simp [Quoted.write, code.oneLine]
  · simp [Quoted.write, code.oneLine]

/-! ## Adding instructions -/

namespace Emitted

/-- Adds an instruction; text joins the text before it. -/
def add (out : Emitted) : Instr → Emitted
  | .text content => out.addText content
  | instr => instr :: out

/-- Adds instructions in order. -/
def addAll (out : Emitted) (instrs : List Instr) : Emitted := instrs.foldl add out

theorem addText_text (before content : String) (rest : Emitted) :
    addText (.text before :: rest) content = .text (before ++ content) :: rest := by
  by_cases h : content = ""
  · rw [h, String.append_empty]
    rfl
  · rw [addText, if_neg (by rwa [String.isEmpty_iff])]

theorem addText_other {content : String} (h : content ≠ "") {out : Emitted}
    (hOut : ∀ before rest, out ≠ .text before :: rest) :
    out.addText content = .text content :: out := by
  unfold addText
  rw [if_neg (by rwa [String.isEmpty_iff])]
  split
  · rename_i before rest
    exact absurd rfl (hOut before rest)
  · rfl

/-- Text can be added in two parts. -/
theorem addText_append (out : Emitted) (first second : String) :
    out.addText (first ++ second) = (out.addText first).addText second := by
  by_cases hFirst : first = ""
  · rw [hFirst, String.empty_append]
    rfl
  by_cases hText : ∃ before rest, out = .text before :: rest
  · obtain ⟨before, rest, rfl⟩ := hText
    rw [addText_text, addText_text, addText_text, String.append_assoc]
  · have hOut : ∀ before rest, out ≠ .text before :: rest :=
      fun before rest hEq => hText ⟨before, rest, hEq⟩
    have hBoth : first ++ second ≠ "" :=
      fun hEmpty => hFirst (String.append_eq_empty_iff.1 hEmpty).1
    rw [addText_other hFirst hOut, addText_other hBoth hOut, addText_text]

end Emitted

/-! ## Pieces -/

theorem ofList_cons (c : Char) (rest : List Char) :
    String.ofList (c :: rest) = String.ofList [c] ++ String.ofList rest := by
  rw [← String.ofList_append, List.singleton_append]

/-- After a piece come the pieces of the rest. -/
theorem readPieces_cons {c : Char} {others rest : List Char} {piece : Piece}
    (h : readPiece (c :: others) = .ok (piece, rest)) :
    readPieces (c :: others) = (piece :: ·) <$> readPieces rest := by
  rw [readPieces.eq_def]
  simp only
  split
  · rename_i cause hError
    rw [h] at hError
    cases hError
  · rename_i first more hFirst
    rw [h] at hFirst
    cases hFirst
    cases readPieces rest <;> rfl

/-- A piece of text goes up to the next sigil. -/
theorem readPiece_text {c : Char} (h : c ≠ '$') (rest : List Char) : readPiece (c :: rest) =
    .ok (.text (c :: rest.takeWhile (· != '$')), rest.dropWhile (· != '$')) := by
  have hPlain : (c != '$') = true := bne_iff_ne.2 h
  unfold readPiece
  split
  case h_5 => simp only [List.takeWhile_cons, List.dropWhile_cons, hPlain, if_true]
  all_goals
    rename_i hSigil
    exact absurd (List.cons.inj hSigil).1 h

/-- Code in brackets after a sigil is a piece. -/
theorem readExpression_group (code : InlineCode) (escape : Bool) (rest : List Char) :
    readExpression escape ('(' :: (code.code ++ ')' :: rest)) =
      .ok (.expression ('(' :: (code.code ++ [')'])) escape, rest) := by
  rw [readExpression, Inline.read_group rest code.tokens_eq code.uncommented code.balanced]
  simp only [Inline.normalize_group]
  rfl

/-- The pieces of the text add these instructions to a program. -/
def ReadsAs (text : List Char) (instrs : List Instr) : Prop :=
  ∃ pieces, readPieces text = .ok pieces ∧
    ∀ number out, compilePieces number out pieces = .ok (Emitted.addAll out instrs)

namespace ReadsAs

variable {text : List Char} {instrs : List Instr}

theorem nil : ReadsAs [] [] := by
  refine ⟨[], ?_, fun _ _ => rfl⟩
  rw [readPieces]

/-- A piece and the pieces of the text after it. -/
theorem cons {c : Char} {others : List Char} (piece : Piece) {instr : Instr}
    (hRead : readPiece (c :: others) = .ok (piece, text))
    (hPiece : ∀ number out rest,
      compilePieces number out (piece :: rest) = compilePieces number (Emitted.add out instr) rest)
    (h : ReadsAs text instrs) : ReadsAs (c :: others) (instr :: instrs) := by
  obtain ⟨pieces, hPieces, hCompile⟩ := h
  refine ⟨piece :: pieces, ?_, fun number out => ?_⟩
  · rw [readPieces_cons hRead, hPieces]
    rfl
  · rw [hPiece, hCompile]
    rfl

/-- Two sigils are one sigil of text. -/
theorem sigil (h : ReadsAs text instrs) : ReadsAs ('$' :: '$' :: text) (.text "$" :: instrs) :=
  cons (.text ['$']) rfl (fun _ _ _ => rfl) h

/-- A character other than the sigil is text. Before such a character it joins the piece that
starts there. -/
theorem char {c : Char} (hc : c ≠ '$') (h : ReadsAs text instrs) :
    ReadsAs (c :: text) (.text (String.ofList [c]) :: instrs) := by
  have hPiece := readPiece_text hc text
  have hAlone (hTake : text.takeWhile (· != '$') = [])
      (hDrop : text.dropWhile (· != '$') = text) :
      ReadsAs (c :: text) (.text (String.ofList [c]) :: instrs) := by
    rw [hTake, hDrop] at hPiece
    exact cons _ hPiece (fun _ _ _ => rfl) h
  cases text with
  | nil => exact hAlone rfl rfl
  | cons d others =>
      by_cases hd : d = '$'
      · subst hd
        exact hAlone rfl rfl
      have hPlain : (d != '$') = true := bne_iff_ne.2 hd
      simp only [List.takeWhile_cons, List.dropWhile_cons, hPlain, if_true] at hPiece
      obtain ⟨pieces, hPieces, hCompile⟩ := h
      rw [readPieces_cons (readPiece_text hd others)] at hPieces
      cases hRest : readPieces (others.dropWhile (· != '$')) with
      | error cause =>
          rw [hRest] at hPieces
          cases hPieces
      | ok rest =>
          rw [hRest] at hPieces
          cases hPieces
          refine ⟨_, (readPieces_cons hPiece).trans (congrArg _ hRest), fun number out => ?_⟩
          have hSplit := ofList_cons c (d :: others.takeWhile (· != '$'))
          have hJoined := hCompile number (out.addText (String.ofList [c]))
          rw [compilePieces, ← Emitted.addText_append, ← hSplit] at hJoined
          exact hJoined

/-- Code in brackets is emitted. -/
theorem expression (code : InlineCode) (escape : Bool) (h : ReadsAs text instrs) :
    ReadsAs ((Quoted.expression code escape).write ++ text)
      (.emit code.tree escape :: instrs) := by
  have hCompile (number : Nat) (out : Emitted) (rest : List Piece) :
      compilePieces number out (.expression ('(' :: (code.code ++ [')'])) escape :: rest) =
        compilePieces number (Emitted.add out (.emit code.tree escape)) rest := by
    rw [compilePieces, Expr.read_group code.tokens_eq code.uncommented code.tree_eq]
    rfl
  have hGroup := readExpression_group code escape text
  have hText : code.code ++ ')' :: text = (code.code ++ [')']) ++ text := by simp
  rw [hText] at hGroup
  cases escape with
  | true => exact cons _ hGroup hCompile h
  | false => exact cons _ hGroup hCompile h

/-- Two texts in a row are one text. -/
theorem join {first second : String} (h : ReadsAs text (.text first :: .text second :: instrs)) :
    ReadsAs text (.text (first ++ second) :: instrs) := by
  obtain ⟨pieces, hPieces, hCompile⟩ := h
  refine ⟨pieces, hPieces, fun number out => (hCompile number out).trans ?_⟩
  show Except.ok (Emitted.addAll ((out.addText first).addText second) instrs) = _
  rw [← Emitted.addText_append]
  rfl

/-- Text whose sigils are doubled is read as the text. -/
theorem literal (content : List Char) (h : ReadsAs text instrs) :
    ReadsAs (doubleSigils content ++ text) (.text (String.ofList content) :: instrs) := by
  induction content with
  | nil => exact h
  | cons c rest ih =>
      rw [ofList_cons]
      refine join ?_
      by_cases hc : c = '$'
      · subst hc
        exact sigil ih
      · rw [doubleSigils_cons, if_neg hc]
        exact char hc ih

/-- A quoted line reads as the instructions for its parts. -/
theorem line (line : List Quoted) : ReadsAs (writeLine line) (lineInstrs line) := by
  induction line with
  | nil => exact char (by decide) nil
  | cons part rest ih =>
      have hWrite : writeLine (part :: rest) = part.write ++ writeLine rest :=
        List.append_assoc ..
      rw [hWrite]
      cases part with
      | literal content oneLine => exact literal content ih
      | expression code escape => exact expression code escape ih

end ReadsAs

/-! ## No directive -/

/-- No directive starts the text. -/
def NoDirective (text : List Char) : Prop :=
  ∀ after, dropSpaces text = '$' :: after → Directive.of? after = none

namespace NoDirective

variable {text : List Char}

/-- Neither a sigil nor a bracket nor a colon starts a directive. -/
theorem directive_of?_eq_none {c : Char} (h : c = '$' ∨ c = '(' ∨ c = ':') (rest : List Char) :
    Directive.of? (c :: rest) = none := by
  have hMark : stringMark? (c :: rest) = none := by
    rcases h with rfl | rfl | rfl <;> cases rest <;> rfl
  have hLexeme : lexeme .lenient (c :: rest) = some (plainLexeme c (c :: rest)) := by
    rcases h with rfl | rfl | rfl <;> simp only [lexeme, hMark] <;> rfl
  have hKind : (plainLexeme c (c :: rest)).1 = .operator ∨
      (plainLexeme c (c :: rest)).1 = .opening := by
    unfold plainLexeme
    rcases h with rfl | rfl | rfl
    case inr.inl => exact Or.inr rfl
    all_goals
      left
      iterate 5 rw [if_neg (by decide)]
      split <;> rfl
  rw [Directive.of?, firstToken?, hLexeme]
  simp only [Option.map_some]
  rcases hKind with hKind | hKind <;> rw [hKind]

theorem char {c : Char} (hc : c ≠ '$') (h : NoDirective text) : NoDirective (c :: text) := by
  intro after hAfter
  by_cases hSpace : c = ' '
  · subst hSpace
    exact h after hAfter
  · have hKeep : dropSpaces (c :: text) = c :: text :=
      List.dropWhile_cons_of_neg (by rwa [beq_iff_eq])
    rw [hKeep] at hAfter
    exact absurd (List.cons.inj hAfter).1 hc

theorem sigil {c : Char} (h : c = '$' ∨ c = '(' ∨ c = ':') (rest : List Char) :
    NoDirective ('$' :: c :: rest) := by
  intro after hAfter
  cases hAfter
  exact directive_of?_eq_none h rest

theorem literal (content : List Char) (h : NoDirective text) :
    NoDirective (doubleSigils content ++ text) := by
  induction content with
  | nil => exact h
  | cons c rest ih =>
      by_cases hc : c = '$'
      · subst hc
        exact sigil (Or.inl rfl) _
      · rw [doubleSigils_cons, if_neg hc]
        exact char hc ih

/-- No directive starts a quoted line. -/
theorem line (line : List Quoted) (more : List Char) : NoDirective (writeLine line ++ more) := by
  induction line with
  | nil =>
      intro after hAfter
      cases hAfter
  | cons part rest ih =>
      have hWrite : writeLine (part :: rest) ++ more = part.write ++ (writeLine rest ++ more) := by
        simp [writeLine]
      rw [hWrite]
      rcases part with ⟨content, oneLine⟩ | ⟨code, _ | _⟩
      · exact literal content ih
      · exact sigil (Or.inr (Or.inr rfl)) _
      · exact sigil (Or.inr (Or.inl rfl)) _

end NoDirective

/-! ## Entries -/

/-- The first line of a text that starts with a line. -/
theorem splitLine_append_newline {line : List Char} (h : '\n' ∉ line) (more : List Char) :
    splitLine (line ++ '\n' :: more) = (line ++ ['\n'], more) := by
  induction line with
  | nil => rfl
  | cons c rest ih =>
      rw [List.mem_cons, not_or] at h
      have hStep : splitLine (c :: (rest ++ '\n' :: more)) =
          (c :: (splitLine (rest ++ '\n' :: more)).1, (splitLine (rest ++ '\n' :: more)).2) := by
        rw [splitLine]
        rintro rfl
        exact h.1 rfl
      rw [List.cons_append, hStep, ih h.2]
      rfl

theorem newline_not_mem_flatMap_write (line : List Quoted) : '\n' ∉ line.flatMap Quoted.write := by
  intro hMem
  obtain ⟨part, -, hPart⟩ := List.mem_flatMap.1 hMem
  exact newline_not_mem_write part hPart

/-- A line that ends with no backslash goes on in no other line. -/
theorem joinLine_append_newline {line : List Char} (h : line.getLast? ≠ some '\\') :
    joinLine (line ++ ['\n']) = line ++ ['\n'] := by
  unfold joinLine
  split
  · rename_i before hReverse
    rw [List.reverse_append] at hReverse
    have hLine : line.reverse = '\\' :: before := (List.cons.inj hReverse).2
    rw [List.getLast?_eq_head?_reverse, hLine] at h
    exact absurd rfl h
  · rfl

/-- A quoted line is read as a line of text. -/
theorem readEntry_line (line : List Quoted) (h : (line.flatMap Quoted.write).getLast? ≠ some '\\')
    (more : List Char) (number : Nat) :
    ∃ pieces, readEntry (writeLine line ++ more) number =
        .ok (.whole (.line ⟨number, pieces⟩), number + 1, more) ∧
      ∀ number out, compilePieces number out pieces =
        .ok (Emitted.addAll out (lineInstrs line)) := by
  obtain ⟨pieces, hPieces, hCompile⟩ := ReadsAs.line line
  refine ⟨pieces, ?_, hCompile⟩
  have hNone := NoDirective.line line more
  have hEntry : readEntry (writeLine line ++ more) number =
      readEntry.textEntry (writeLine line ++ more) number := by
    unfold readEntry
    split
    · rename_i after hAfter
      simp only [hNone after hAfter]
    · rfl
  have hNewline := newline_not_mem_flatMap_write line
  have hSplit : splitLine (writeLine line ++ more) = (writeLine line, more) := by
    rw [writeLine, List.append_assoc]
    exact splitLine_append_newline hNewline more
  have hJoin : joinLine (writeLine line) = writeLine line := joinLine_append_newline h
  have hCount : countNewlines (writeLine line) = 1 := by
    rw [countNewlines, writeLine, List.count_append, List.count_eq_zero_of_not_mem hNewline]
    rfl
  rw [hEntry, readEntry.textEntry, hSplit]
  simp only [hJoin, readLine, hPieces, hCount]

end Stencil
