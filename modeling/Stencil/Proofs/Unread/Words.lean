import Stencil.Template

/-!
# Words of a template's text

A template is read in two steps. Its text is cut into sections first, which hold plain text and
pieces of code; the grammars of expressions and statements then read each piece of code. The names
that a text mentions are the names in its pieces of code: of values, attributes, arguments, targets,
parameters and definitions. What stands in plain text, in strings or in comments is not mentioned.

A word of a text is a run of name characters that stands in it. What the readers of templates do to
a text, cutting it, taking indentation off, or joining lines with a blank between them, gives texts
without new words, since only characters that stand in no word are put in. Which words are meant is
left open: `Spells Word text` says that every word of the text is one.

## Main definitions

* `namesIn`: the names in a piece of code.
* `Document.codes`: the pieces of code in a template's text.
* `Template.identifiers`: the names that a template's text mentions.

## Main results

* `Spells.of_isInfix`, `Spells.append_cons`: parts of a text, and texts that are joined.
* `spells_normalizeText`: unifying line ends adds no words.
* `Spells.namesIn`: the names in a piece of code are words of it.
-/

namespace Stencil

open Stencil.Text

/-! ## Names -/

/-- The names in a piece of code, keywords left out. -/
def namesIn (code : List Char) : List String :=
  ((scan .strict code).tokens.filter fun t => t.kind == .name && !isKeyword t.text).map
    fun t => String.ofList t.text

/-- The pieces of code that a statement is read from: all of it and, when it has a header, that
header and the pieces of what follows on the same line. Headers that stand in one another are
counted up to this depth. -/
def CodeBlock.statementCodes : Nat → List Char → List (List Char)
  | 0, text => [text]
  | depth + 1, text =>
      text :: match splitHeader text with
        | .ok (some (header, rest)) => header :: statementCodes depth (trim rest)
        | _ => []

/-- The pieces of code that a logical line is read from. Each header takes a character. -/
def CodeBlock.LogicalLine.codes (line : LogicalLine) : List (List Char) :=
  statementCodes line.text.length line.text

/-- The pieces of code in a block of statements whose first line has this number. -/
def CodeBlock.codes (text : List Char) (number : Nat) : List (List Char) :=
  match logicalLines text number with
  | .ok lines => lines.flatMap LogicalLine.codes
  | .error _ => []

/-- The code of a piece of a line. -/
def Piece.codes : Piece → List (List Char)
  | .text _ => []
  | .expression code _ => [code]

/-- The pieces of code in a line of text. -/
def TextLine.codes (line : TextLine) : List (List Char) := line.pieces.flatMap Piece.codes

mutual

/-- The pieces of code in a section. -/
def Section.codes : Section → List (List Char)
  | .line content => content.codes
  | .assignment _ code => [code]
  | .flow _ _ code => [code]
  | .block _ _ header _ body => header :: suiteCodes body
  | .code number text => CodeBlock.codes text number
  | .varExpression _ _ code => [code]
  | .varFragment _ _ lines => lines.flatMap TextLine.codes

/-- The pieces of code in a list of sections. -/
def suiteCodes : List Section → List (List Char)
  | [] => []
  | content :: rest => content.codes ++ suiteCodes rest

end

/-- The pieces of code in a document, its parameter list first. -/
def Document.codes (document : Document) : List (List Char) :=
  document.parameters.toList ++ suiteCodes document.body

/-- The names that a template's text mentions. A text that is no template mentions none. -/
def Template.identifiers (text : String) : List String :=
  match Document.read (normalizeText text.toList) with
  | .ok document => document.codes.flatMap namesIn
  | .error _ => []

example : Template.identifiers "$def with (x, y=a)\nHello $x.b! $('text' + f(k=2))\n" =
    ["x", "y", "a", "x", "b", "f", "k"] := by decide +kernel

/-! ## Words -/

/-- Every word of the text is one of the words that are meant. -/
def Spells (Word : String → Prop) (text : List Char) : Prop :=
  ∀ word : List Char, (∀ c ∈ word, continuesName c = true) → word <:+: text →
    Word (String.ofList word)

section Words

variable {Word : String → Prop} {text part first rest : List Char} {c : Char}

theorem Spells.of_isInfix (h : Spells Word text) (hPart : part <:+: text) : Spells Word part :=
  fun word hWord hInfix => h word hWord (hInfix.trans hPart)

theorem notMem_of_continuesName {word : List Char} (hWord : ∀ d ∈ word, continuesName d = true)
    (hc : continuesName c = false) : c ∉ word :=
  fun hMem => by rw [hWord c hMem] at hc; cases hc

/-- What stands at the start of a text, and does not hold a character of it, stands before that. -/
theorem prefix_of_prefix_append_cons {word : List Char} (hc : c ∉ word)
    (h : word <+: first ++ c :: rest) : word <+: first := by
  induction first generalizing word with
  | nil =>
      cases word with
      | nil => exact List.nil_prefix
      | cons d others =>
          obtain ⟨rfl, -⟩ := List.cons_prefix_cons.1 h
          exact absurd List.mem_cons_self hc
  | cons e first ih =>
      cases word with
      | nil => exact List.nil_prefix
      | cons d others =>
          obtain ⟨rfl, hOthers⟩ := List.cons_prefix_cons.1 h
          exact List.cons_prefix_cons.2
            ⟨rfl, ih (fun hMem => hc (List.mem_cons_of_mem _ hMem)) hOthers⟩

/-- A word on the two sides of a character that is not in it stands on one of them. -/
theorem infix_or_infix_of_infix_append_cons {word : List Char} (hc : c ∉ word)
    (h : word <:+: first ++ c :: rest) : word <:+: first ∨ word <:+: rest := by
  induction first with
  | nil =>
      rcases List.infix_cons_iff.1 h with hPrefix | hInfix
      · exact .inl (prefix_of_prefix_append_cons hc hPrefix).isInfix
      · exact .inr hInfix
  | cons d first ih =>
      rcases List.infix_cons_iff.1 h with hPrefix | hInfix
      · exact .inl (prefix_of_prefix_append_cons hc hPrefix).isInfix
      · exact (ih hInfix).imp_left fun hFirst => List.infix_cons_iff.2 (.inr hFirst)

/-- Texts that are joined by a character that stands in no word. -/
theorem Spells.append_cons (h : Spells Word first) (hRest : Spells Word rest)
    (hc : continuesName c = false) : Spells Word (first ++ c :: rest) := fun word hWord hInfix =>
  (infix_or_infix_of_infix_append_cons (notMem_of_continuesName hWord hc) hInfix).elim
    (h word hWord) (hRest word hWord)

theorem Spells.cons (h : Spells Word rest) (hc : continuesName c = false) :
    Spells Word (c :: rest) :=
  (h.of_isInfix List.nil_infix : Spells Word []).append_cons h hc

theorem Spells.concat (h : Spells Word first) (hc : continuesName c = false) :
    Spells Word (first ++ [c]) :=
  h.append_cons (h.of_isInfix List.nil_infix) hc

/-! ## Line ends -/

theorem infix_trimEnd (text : List Char) : trimEnd text <:+: text := by
  have hEnd : trimEnd text <+: text := by
    rw [trimEnd, ← List.reverse_suffix, List.reverse_reverse]
    exact List.dropWhile_suffix _
  exact hEnd.isInfix

theorem infix_trimStart (text : List Char) : trimStart text <:+: text :=
  (List.dropWhile_suffix _).isInfix

/-- A word is read in the text just when it is, and stands at its start when it does. -/
def KeepsWords (f : List Char → List Char) (text : List Char) : Prop :=
  ∀ word : List Char, (∀ c ∈ word, continuesName c = true) →
    (word <+: f text → word <+: text) ∧ (word <:+: f text → word <:+: text)

theorem keepsWords_cons {f : List Char → List Char} {rest : List Char} (h : KeepsWords f rest)
    (c : Char) (hText : f (c :: rest) = c :: f rest) : KeepsWords f (c :: rest) := by
  intro word hWord
  have hPrefix : word <+: f (c :: rest) → word <+: c :: rest := by
    rw [hText]
    intro hStart
    cases word with
    | nil => exact List.nil_prefix
    | cons d others =>
        obtain ⟨rfl, hOthers⟩ := List.cons_prefix_cons.1 hStart
        exact List.cons_prefix_cons.2
          ⟨rfl, (h others fun e he => hWord e (List.mem_cons_of_mem _ he)).1 hOthers⟩
  refine ⟨hPrefix, fun hInfix => ?_⟩
  rw [hText] at hInfix
  rcases List.infix_cons_iff.1 hInfix with hStart | hInfix
  · exact (hPrefix (hText ▸ hStart)).isInfix
  · exact ((h word hWord).2 hInfix).trans (List.suffix_cons ..).isInfix

/-- A character that stands in no word is put in the place of characters. -/
theorem keepsWords_replace {f : List Char → List Char} (passed : List Char) {rest : List Char}
    (h : KeepsWords f rest) (hc : continuesName c = false) (before : List Char)
    (hBefore : ∀ d ∈ before, continuesName d = false)
    (hText : f (passed ++ rest) = c :: before ++ f rest) : KeepsWords f (passed ++ rest) := by
  intro word hWord
  have hStart : word <+: c :: (before ++ f rest) → word = [] := by
    intro hStart
    cases word with
    | nil => rfl
    | cons d others =>
        obtain ⟨rfl, -⟩ := List.cons_prefix_cons.1 hStart
        rw [hWord d List.mem_cons_self] at hc
        cases hc
  have hRest : word <:+: before ++ f rest → word <:+: f rest := by
    clear hText hStart
    induction before with
    | nil => exact id
    | cons d before ih =>
        obtain ⟨hd, hBefore⟩ := List.forall_mem_cons.1 hBefore
        intro hInfix
        have hInfix : word <:+: [] ++ d :: (before ++ f rest) := hInfix
        rcases infix_or_infix_of_infix_append_cons (notMem_of_continuesName hWord hd) hInfix with
          hNone | hRest
        · rw [List.infix_nil.1 hNone]
          exact List.nil_infix
        · exact ih hBefore hRest
  rw [hText]
  refine ⟨fun hPrefix => ?_, fun hInfix => ?_⟩
  · rw [hStart hPrefix]
    exact List.nil_prefix
  · rcases List.infix_cons_iff.1 hInfix with hPrefix | hInfix
    · rw [hStart hPrefix]
      exact List.nil_infix
    · exact ((h word hWord).2 (hRest hInfix)).trans (List.suffix_append ..).isInfix

theorem keepsWords_unifyLineEnds (text : List Char) : KeepsWords unifyLineEnds text := by
  fun_induction unifyLineEnds text with
  | case1 rest ih =>
      exact keepsWords_replace ['\r', '\n'] ih (c := '\n') (by decide) []
        (by simp) rfl
  | case2 rest hNot ih =>
      refine keepsWords_replace ['\r'] ih (c := '\n') (by decide) []
        (by simp) ?_
      rw [List.singleton_append, unifyLineEnds]
      · rfl
      · exact hNot
  | case3 c rest hNot hOther ih =>
      refine keepsWords_cons ih c ?_
      rw [unifyLineEnds]
      · exact hNot
      · exact hOther
  | case4 => exact fun word _ => ⟨id, id⟩

theorem keepsWords_doubleEscaped (text : List Char) : KeepsWords doubleEscaped text := by
  induction text using doubleEscaped.induct with
  | case1 rest ih =>
      exact keepsWords_replace ['\\', '$'] ih (c := '$') (by decide) ['$']
        (List.forall_mem_singleton.2 (by decide)) rfl
  | case2 c rest hNot ih =>
      refine keepsWords_cons ih c ?_
      rw [doubleEscaped]
      exact hNot
  | case3 => exact fun word _ => ⟨id, id⟩

/-- Unifying line ends adds no words. -/
theorem spells_normalizeText (h : Spells Word text) : Spells Word (normalizeText text) := by
  unfold normalizeText
  intro word hWord hInfix
  have hEnded := ((keepsWords_doubleEscaped _) word hWord).2 hInfix
  have hUnified {unified : List Char} (hEnd : word <:+: endLine unified) : word <:+: unified := by
    unfold endLine at hEnd
    split at hEnd
    · exact hEnd
    · refine (infix_or_infix_of_infix_append_cons ?_ hEnd).elim id fun hNone => ?_
      · exact notMem_of_continuesName hWord (by decide)
      · rw [List.infix_nil.1 hNone]
        exact List.nil_infix
  have hText := ((keepsWords_unifyLineEnds _) word hWord).2 (hUnified hEnded)
  refine h word hWord (hText.trans ?_)
  split
  · exact (List.suffix_cons ..).isInfix
  · exact List.infix_refl _

end Words

/-! ## Tokens -/

section Tokens

variable {Word : String → Prop} {reading : QuoteReading}

/-- A letter that may stand before a string may stand in a name. -/
theorem continuesName_of_stringMark? {c : Char} {rest : List Char} {letters : Nat}
    (h : stringMark? (c :: rest) = some letters) (hLetters : letters ≠ 0) :
    continuesName c = true := by
  rw [stringMark?.eq_def] at h
  simp only at h
  split at h
  · cases h
    exact absurd rfl hLetters
  · cases rest with
    | nil => cases h
    | cons quote others =>
        obtain ⟨hMark, -⟩ := Option.ite_none_right_eq_some.1 h
        have hMem : c ∈ ['r', 'R', 'u', 'U', 'b', 'B'] := by
          simpa [isStringMark] using (Bool.and_eq_true_iff.1 hMark).1
        have hAll : ['r', 'R', 'u', 'U', 'b', 'B'].all continuesName = true := by decide
        exact List.all_eq_true.1 hAll c hMem

/-- The characters of a name. -/
theorem continuesName_of_lexeme {c : Char} {rest : List Char} {length : Nat}
    (h : lexeme reading (c :: rest) = some (.name, length)) :
    ∀ d ∈ c :: rest.take (length - 1), continuesName d = true := by
  have hRun (hc : continuesName c = true) :
      ∀ d ∈ c :: rest.take (nameLength (c :: rest) - 1), continuesName d = true := by
    have hTake : c :: rest.take (nameLength (c :: rest) - 1) =
        (c :: rest).takeWhile continuesName := by
      rw [nameLength, List.takeWhile_cons, if_pos hc, List.length_cons, Nat.add_sub_cancel]
      exact congrArg (c :: ·) (List.prefix_iff_eq_take.1 (List.takeWhile_prefix _)).symm
    rw [hTake]
    exact List.all_eq_true.1 (List.all_takeWhile ..)
  unfold lexeme plainLexeme at h
  simp only at h
  split at h
  · cases h
  split at h
  · cases h
  split at h
  · cases h
  split at h
  · split at h
    · rename_i hStart
      cases h
      exact hRun (continuesName_of_startsName hStart)
    · repeat' split at h
      all_goals cases h
  · rename_i letters hMark
    split at h
    · cases h
    · cases h
    · split at h
      · cases h
      · rename_i hLetters
        cases h
        exact hRun (continuesName_of_stringMark? hMark hLetters)

/-- The names among the tokens of a text are words of it. -/
theorem Spells.tokens {text : List Char} (h : Spells Word text) (reading : QuoteReading)
    (start : Nat) : ∀ t ∈ (scanFrom reading start text).tokens, t.kind = .name →
      Word (String.ofList t.text) := by
  fun_induction scanFrom reading start text with
  | case1 => exact List.forall_mem_nil _
  | case2 => exact List.forall_mem_nil _
  | case3 start c rest kind length hLexeme token after ih =>
      refine List.forall_mem_cons.2 ⟨fun hName => ?_, ih (h.of_isInfix ?_)⟩
      · obtain rfl : kind = .name := hName
        refine h _ (continuesName_of_lexeme hLexeme) ?_
        exact (List.cons_prefix_cons.2 ⟨rfl, List.take_prefix _ _⟩).isInfix
      · exact ((List.drop_suffix _ _).trans (List.suffix_cons ..)).isInfix

/-- The names in a piece of code are words of it. -/
theorem Spells.namesIn {code : List Char} (h : Spells Word code) :
    ∀ name ∈ Stencil.namesIn code, Word name := by
  intro name hName
  obtain ⟨t, ht, rfl⟩ := List.mem_map.1 hName
  obtain ⟨hToken, hKind⟩ := List.mem_filter.1 ht
  rw [Bool.and_eq_true_iff, beq_iff_eq] at hKind
  exact h.tokens .strict 0 t hToken hKind.1

end Tokens

end Stencil
