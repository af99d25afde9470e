import Stencil.Proofs.Writing.Literals

/-!
# Written words are tokens

The scanner cuts written text exactly between its words. Whether it does depends on the character
after a word: a name must not go on, an operator must not grow into a longer one, and the full stop
after an integer must not be its point. What may follow an expression and what may be its first
character are therefore fixed once, and each way of putting words together keeps to it.

## Main results

* `Expr.IsWritable.isPhrase`: the words of an expression are tokens, before all that may follow it.
* `Expr.strictTokens_write`: the tokens of a written expression are its words.
-/

namespace Stencil

open Stencil.Text Stencil.Number

/-! ## What stands around a word -/

/-- The characters that stand right after an expression. -/
def followers : List Char := [' ', ',', ')', ']', '\x7d', ':', '.', '(', '[']

/-- The text may stand right after an expression: a full stop in front is not the point of a
number. -/
structure Follows (more : List Char) : Prop where
  head : ∀ c ∈ more.head?, c ∈ followers
  point : ∀ rest, more = '.' :: rest → ∀ d ∈ rest.head?, d.isDigit = false

theorem Follows.nil : Follows [] :=
  ⟨fun _ h => absurd h (by simp), fun _ h => absurd h (by simp)⟩

theorem Follows.cons {c : Char} (h : c ∈ followers) (hPoint : c ≠ '.') (rest : List Char) :
    Follows (c :: rest) where
  head d hd := by
    cases hd
    exact h
  point _ hEq := absurd (List.cons.inj hEq).1 hPoint

/-- The text does not start with a character of this kind. -/
def NoHead (p : Char → Bool) (more : List Char) : Prop := ∀ c ∈ more.head?, p c = false

theorem NoHead.nil (p : Char → Bool) : NoHead p [] := fun _ h => absurd h (by simp)

theorem NoHead.cons {p : Char → Bool} {c : Char} (h : p c = false) (rest : List Char) :
    NoHead p (c :: rest) := by
  intro d hd
  cases hd
  exact h

theorem NoHead.takeWhile {p : Char → Bool} {more : List Char} (h : NoHead p more) :
    more.takeWhile p = [] := by
  cases more with
  | nil => rfl
  | cons c rest => rw [List.takeWhile_cons, h c rfl]; rfl

/-- A run of characters of one kind ends where the text goes on with another one. -/
theorem takeWhile_append_noHead {p : Char → Bool} (text : List Char) {more : List Char}
    (hText : ∀ c ∈ text, p c = true) (hMore : NoHead p more) :
    (text ++ more).takeWhile p = text := by
  rw [List.takeWhile_append_of_pos hText, hMore.takeWhile, List.append_nil]

theorem Follows.noHead {more : List Char} (h : Follows more) {p : Char → Bool}
    (hp : followers.any p = false) : NoHead p more := fun c hc =>
  Bool.eq_false_iff.2 (List.any_eq_false.1 hp c (h.head c hc))

/-! ## Single words -/

namespace Word

/-- The word is a token of its own before this text. -/
structure ScansBefore (word : Word) (more : List Char) : Prop where
  lexeme : lexeme .strict (word.text ++ more) = some (word.kind, word.text.length)
  nonempty : word.text ≠ []

end Word

/-- A character that starts no blank, line end, comment or string. -/
def startsPlain (c : Char) : Bool :=
  !([' ', '\t', '\n', '#'].contains c || isQuote c || isStringMark c)

theorem lexeme_plain {c : Char} (h : startsPlain c = true) (rest : List Char) :
    lexeme .strict (c :: rest) = some (plainLexeme c (c :: rest)) := by
  simp only [startsPlain, Bool.not_eq_true', Bool.or_eq_false_iff, List.contains_eq_mem,
    List.mem_cons, List.not_mem_nil, or_false, decide_eq_false_iff_not, not_or] at h
  obtain ⟨⟨⟨hSpace, hTab, hNewline, hNumber⟩, hQuote⟩, hMark⟩ := h
  have hNone : stringMark? (c :: rest) = none := by
    cases rest <;> simp [stringMark?, hQuote, hMark]
  simp only [lexeme, hSpace, hTab, hNewline, hNumber, or_self, if_false, hNone]

/-! ### Names -/

theorem ne_of_continuesName {c d : Char} (h : continuesName c = true)
    (hd : continuesName d = false) : c ≠ d := by
  rintro rfl
  rw [h] at hd
  cases hd

theorem isQuote_of_continuesName {c : Char} (h : continuesName c = true) : isQuote c = false := by
  rw [isQuote, Bool.or_eq_false_iff]
  exact ⟨beq_false_of_ne (ne_of_continuesName h (by decide)),
    beq_false_of_ne (ne_of_continuesName h (by decide))⟩

/-- The text is that of a name or a keyword. -/
def IsNameText (text : List Char) : Prop :=
  ∃ c rest, text = c :: rest ∧ startsName c = true ∧ ∀ d ∈ rest, continuesName d = true

/-- The characters that a name does not end before. -/
def extendsName (c : Char) : Bool := continuesName c || isQuote c

theorem lexeme_name {text more : List Char} (hText : IsNameText text)
    (hMore : NoHead extendsName more) :
    lexeme .strict (text ++ more) = some (.name, text.length) := by
  obtain ⟨c, rest, rfl, hStart, hRest⟩ := hText
  have hc := continuesName_of_startsName hStart
  have hNot {d : Char} (hd : continuesName d = false) : c ≠ d := ne_of_continuesName hc hd
  have hNext : NoHead isQuote (rest ++ more) := by
    cases rest with
    | nil => exact fun d hd => (Bool.or_eq_false_iff.1 (hMore d hd)).2
    | cons d others => exact .cons (isQuote_of_continuesName (hRest d (by simp))) _
  have hNone : stringMark? (c :: (rest ++ more)) = none := by
    generalize rest ++ more = after at hNext
    cases after with
    | nil => simp [stringMark?, isQuote_of_continuesName hc]
    | cons d others => simp [stringMark?, isQuote_of_continuesName hc, hNext d rfl]
  have hRun : (c :: rest ++ more).takeWhile continuesName = c :: rest :=
    takeWhile_append_noHead (c :: rest) (List.forall_mem_cons.2 ⟨hc, hRest⟩)
      fun d hd => (Bool.or_eq_false_iff.1 (hMore d hd)).1
  rw [List.cons_append] at hRun ⊢
  simp only [lexeme, hNot (show continuesName ' ' = false by decide),
    hNot (show continuesName '\t' = false by decide),
    hNot (show continuesName '\n' = false by decide),
    hNot (show continuesName '#' = false by decide), or_self, if_false, hNone, plainLexeme, hStart,
    if_true, nameLength, hRun]

theorem Word.scansBefore_name {label : String} (h : IsNameText label.toList) {more : List Char}
    (hMore : NoHead extendsName more) : (Word.name label).ScansBefore more where
  lexeme := lexeme_name h hMore
  nonempty := by
    obtain ⟨c, rest, hEq, -⟩ := h
    rw [Word.name, hEq]
    exact List.cons_ne_nil c rest

theorem Follows.noName {more : List Char} (h : Follows more) : NoHead extendsName more :=
  h.noHead (by decide)

/-- The keywords that are written. -/
def writtenKeywords : List String :=
  ["None", "True", "False", "not", "in", "is", "and", "or", "if", "else"]

theorem isNameText_keyword {word : String} (h : word ∈ writtenKeywords) :
    IsNameText word.toList := by
  have hHead : ∀ word ∈ writtenKeywords, word.toList.head?.any startsName = true ∧
      word.toList.tail.all continuesName = true := by decide
  obtain ⟨hStart, hRest⟩ := hHead word h
  cases hText : word.toList with
  | nil =>
      rw [hText] at hStart
      cases hStart
  | cons c rest =>
      rw [hText] at hStart hRest
      exact ⟨c, rest, rfl, hStart, List.all_eq_true.1 hRest⟩

/-! ### Numbers -/

theorem isDigit_of_startsName {c : Char} (h : startsName c = true) : c.isDigit = false := by
  rw [Bool.eq_false_iff]
  intro hDigit
  simp only [Char.isDigit, Bool.and_eq_true, decide_eq_true_eq] at hDigit
  have hLow : 48 ≤ c.toNat := UInt32.le_iff_toNat_le.1 hDigit.1
  have hHigh : c.toNat ≤ 57 := UInt32.le_iff_toNat_le.1 hDigit.2
  rw [startsName, isLetter_ascii (by omega), Bool.or_eq_true, beq_iff_eq] at h
  rcases h with hAlpha | rfl
  · rcases Bool.or_eq_true_iff.1 hAlpha with hUpper | hLower
    · have hBounds : 'A'.val ≤ c.val ∧ c.val ≤ 'Z'.val := of_decide_eq_true hUpper
      have hLetter : 65 ≤ c.toNat := UInt32.le_iff_toNat_le.1 hBounds.1
      omega
    · have hBounds : ('a'.val ≤ c.val && c.val ≤ 'z'.val) = true := hLower
      have hLetter : 97 ≤ c.toNat :=
        UInt32.le_iff_toNat_le.1 (of_decide_eq_true (Bool.and_eq_true_iff.1 hBounds).1)
      omega
  · exact absurd hHigh (by decide)

theorem hasBaseMark_digits {c : Char} {rest more : List Char} (hRest : ∀ d ∈ rest, d.isDigit = true)
    (hMore : Follows more) : hasBaseMark (c :: (rest ++ more)) = false := by
  have hMark : NoHead (['x', 'X', 'o', 'O', 'b', 'B'].contains ·) (rest ++ more) := by
    cases rest with
    | nil => exact hMore.noHead (by decide)
    | cons d others =>
        have hNot {e : Char} (he : e.isDigit = false) :
          d ≠ e := ne_of_isDigit (hRest d (by simp)) he
        exact .cons (by simp [hNot]) _
  generalize rest ++ more = after at hMark
  unfold hasBaseMark
  split
  · rename_i mark others hEq
    rw [(List.cons.inj hEq).2] at hMark
    exact hMark _ rfl
  · rfl

theorem fractionLength_follows {more : List Char} (h : Follows more) : fractionLength more = 0 := by
  unfold fractionLength
  split
  · rename_i rest
    have hDigits : rest.takeWhile Char.isDigit = [] := NoHead.takeWhile (h.point rest rfl)
    simp [hDigits]
  · rfl

theorem exponentLength_follows {more : List Char} (h : Follows more) : exponentLength more = 0 := by
  have hMark : NoHead (['e', 'E'].contains ·) more := h.noHead (by decide)
  cases more with
  | nil => rfl
  | cons c rest =>
      have hNot : ¬(c = 'e' ∨ c = 'E') := by simpa using hMark c rfl
      simp only [exponentLength, if_neg hNot]

theorem lexeme_digits {text more : List Char} (hNil : text ≠ [])
    (hDigits : ∀ c ∈ text, c.isDigit = true) (hMore : Follows more) :
    lexeme .strict (text ++ more) = some (.number, text.length) := by
  obtain ⟨c, rest, rfl⟩ := List.exists_cons_of_ne_nil hNil
  have hc := hDigits c (by simp)
  have hPlain : startsPlain c = true := by
    have hNot {d : Char} (hd : d.isDigit = false) : c ≠ d := ne_of_isDigit hc hd
    simp [startsPlain, isQuote, isStringMark, hNot]
  have hName : startsName c = false := by
    rw [Bool.eq_false_iff]
    intro hStart
    rw [isDigit_of_startsName hStart] at hc
    cases hc
  have hRun : (c :: (rest ++ more)).takeWhile (fun d => d.isDigit || d == '_') = c :: rest :=
    takeWhile_append_noHead (c :: rest)
      (fun d hd => Bool.or_eq_true_iff.2 (Or.inl (hDigits d hd))) (hMore.noHead (by decide))
  have hDrop : (c :: (rest ++ more)).drop (c :: rest).length = more :=
    @List.drop_left _ (c :: rest) more
  have hBase : hasBaseMark (c :: (rest ++ more)) = false :=
    hasBaseMark_digits (fun d hd => hDigits d (List.mem_cons_of_mem c hd)) hMore
  rw [List.cons_append, lexeme_plain hPlain]
  simp only [plainLexeme, hName, Bool.false_eq_true, if_false, hc, if_true, numberLength, hBase,
    hRun, hDrop, fractionLength_follows hMore, Nat.add_zero, exponentLength_follows hMore]

/-! ### Operators, brackets and spaces -/

/-- The characters that make an operator longer. -/
def growsOperator (c : Char) : Bool := ['=', '*', '/', '<', '>'].contains c

/-- The operators that are written. -/
def writtenOperators : List String :=
  ["+", "-", "*", "/", "//", "%", "**", "==", "!=", "<", "<=", ">", ">=", ",", ":", "="]

/-- A text starts with what its first part starts with, when the next character is none that could
stand there. -/
theorem isPrefixOf_append_of_noHead {symbol text more : List Char} (hText : text ≠ [])
    (hMore : ∀ c ∈ more.head?, c ∉ symbol.tail) :
    symbol.isPrefixOf (text ++ more) = symbol.isPrefixOf text := by
  induction text generalizing symbol with
  | nil => exact absurd rfl hText
  | cons c rest ih =>
      cases symbol with
      | nil => rfl
      | cons d others =>
          simp only [List.cons_append, List.isPrefixOf]
          congr 1
          cases rest with
          | nil =>
              cases others with
              | nil => rw [List.isPrefixOf, List.isPrefixOf]
              | cons e last =>
                  cases more with
                  | nil => rfl
                  | cons f after =>
                      have hNe : f ∉ e :: last := hMore f rfl
                      rw [List.mem_cons, not_or] at hNe
                      simp [List.isPrefixOf, Ne.symm hNe.1]
          | cons f after =>
              exact ih (List.cons_ne_nil f after)
                fun e he hMem => hMore e he (List.mem_of_mem_tail hMem)

theorem lexeme_operator {symbol : String} (h : symbol ∈ writtenOperators) {more : List Char}
    (hMore : NoHead growsOperator more) :
    lexeme .strict (symbol.toList ++ more) = some (.operator, symbol.toList.length) := by
  have hFind : longOperators.find? (fun long => long.toList.isPrefixOf (symbol.toList ++ more)) =
      longOperators.find? (fun long => long.toList.isPrefixOf symbol.toList) := by
    have hTails : ∀ long ∈ longOperators, long.toList.tail.all growsOperator = true := by decide
    have hNonempty : ∀ symbol ∈ writtenOperators, symbol.toList ≠ [] := by decide
    have hSame : ∀ long ∈ longOperators, long.toList.isPrefixOf (symbol.toList ++ more) =
        long.toList.isPrefixOf symbol.toList := by
      intro long hLong
      refine isPrefixOf_append_of_noHead (hNonempty symbol h) fun c hc hMem => ?_
      exact absurd (List.all_eq_true.1 (hTails long hLong) c hMem) (by simp [hMore c hc])
    generalize longOperators = symbols at hSame
    induction symbols with
    | nil => rfl
    | cons long others ih =>
        rw [List.forall_mem_cons] at hSame
        rw [List.find?_cons, List.find?_cons, hSame.1, ih hSame.2]
  have hClosed : ∀ symbol ∈ writtenOperators, symbol.toList.head?.any (fun c =>
      startsPlain c && !startsName c && !c.isDigit &&
        plainLexeme c symbol.toList == (.operator, symbol.toList.length)) = true := by decide
  obtain ⟨c, hHead, hFacts⟩ := (Option.any_eq_true _ _).1 (hClosed symbol h)
  obtain ⟨rest, hText⟩ := List.head?_eq_some_iff.1 hHead
  simp only [Bool.and_eq_true, Bool.not_eq_true', beq_iff_eq] at hFacts
  obtain ⟨⟨⟨hPlain, hName⟩, hDigit⟩, hLexeme⟩ := hFacts
  have hSame : plainLexeme c (symbol.toList ++ more) = plainLexeme c symbol.toList := by
    simp only [plainLexeme, hName, hDigit, Bool.false_eq_true, if_false, hFind]
  rw [← hLexeme, ← hSame, hText]
  exact lexeme_plain hPlain _

namespace Word

theorem scansBefore_operator {symbol : String} (h : symbol ∈ writtenOperators) {more : List Char}
    (hMore : NoHead growsOperator more) : (operator symbol).ScansBefore more where
  lexeme := lexeme_operator h hMore
  nonempty := by
    have hNonempty : ∀ symbol ∈ writtenOperators, symbol.toList ≠ [] := by decide
    exact hNonempty symbol h

theorem scansBefore_opening {bracket : Char} (h : bracket ∈ ['(', '[', '\x7b']) (more : List Char) :
    (opening bracket).ScansBefore more where
  lexeme := by
    have hClosed : ∀ bracket ∈ ['(', '[', '\x7b'], startsPlain bracket = true ∧
        plainLexeme bracket (bracket :: more) = (.opening, 1) := by
      simp only [List.forall_mem_cons, List.not_mem_nil, false_imp_iff, implies_true, and_true]
      exact ⟨⟨rfl, rfl⟩, ⟨rfl, rfl⟩, ⟨rfl, rfl⟩⟩
    rw [opening, List.singleton_append, lexeme_plain (hClosed bracket h).1, (hClosed bracket h).2]
    rfl
  nonempty := List.cons_ne_nil _ _

theorem scansBefore_closing {bracket : Char} (h : bracket ∈ [')', ']', '\x7d']) (more : List Char) :
    (closing bracket).ScansBefore more where
  lexeme := by
    have hClosed : ∀ bracket ∈ [')', ']', '\x7d'], startsPlain bracket = true ∧
        plainLexeme bracket (bracket :: more) = (.closing, 1) := by
      simp only [List.forall_mem_cons, List.not_mem_nil, false_imp_iff, implies_true, and_true]
      exact ⟨⟨rfl, rfl⟩, ⟨rfl, rfl⟩, ⟨rfl, rfl⟩⟩
    rw [closing, List.singleton_append, lexeme_plain (hClosed bracket h).1, (hClosed bracket h).2]
    rfl
  nonempty := List.cons_ne_nil _ _

theorem scansBefore_dot (more : List Char) : dot.ScansBefore more where
  lexeme := lexeme_plain (by decide) more
  nonempty := List.cons_ne_nil _ _

theorem scansBefore_space {more : List Char}
    (hMore : NoHead (fun c => c == ' ' || c == '\t') more) :
    space.ScansBefore more where
  lexeme := by
    have hRun := takeWhile_append_noHead [' '] (by simp) hMore
    rw [List.singleton_append] at hRun
    simp only [space, List.singleton_append, lexeme, true_or, if_true, hRun]
  nonempty := List.cons_ne_nil _ _

theorem scansBefore_literal {value : Literal} (h : value.IsWritable) {more : List Char}
    (hMore : Follows more) : value.word.ScansBefore more := by
  cases value with
  | none => exact scansBefore_name (isNameText_keyword (by decide)) hMore.noName
  | bool value =>
      cases value <;> exact scansBefore_name (isNameText_keyword (by decide)) hMore.noName
  | int value =>
      exact ⟨lexeme_digits (decimalText_ne_nil h) (fun c => isDigit_of_mem_decimalText h) hMore,
        decimalText_ne_nil h⟩
  | float value => exact absurd h id
  | string text =>
      refine ⟨lexeme_quoteChars text.toList more fun hHead => ?_, List.cons_ne_nil _ _⟩
      have hQuote : isQuote (quoteFor text.toList) = false :=
        hMore.noHead (by decide) _ hHead
      rw [isQuote_quoteFor] at hQuote
      cases hQuote

end Word

/-! ## Words one after another -/

/-- Each word is a token of its own, before the words after it and the text after those. -/
def Scans : List Word → List Char → Prop
  | [], _ => True
  | word :: words, more => word.ScansBefore (writeWords words ++ more) ∧ Scans words more

@[simp] theorem writeWords_nil : writeWords [] = [] := rfl

@[simp] theorem writeWords_cons (word : Word) (words : List Word) :
    writeWords (word :: words) = word.text ++ writeWords words := rfl

@[simp] theorem writeWords_append (first second : List Word) :
    writeWords (first ++ second) = writeWords first ++ writeWords second :=
  List.flatMap_append

@[simp] theorem scans_append {first second : List Word} {more : List Char} :
    Scans (first ++ second) more ↔ Scans first (writeWords second ++ more) ∧ Scans second more := by
  induction first with
  | nil => simp [Scans]
  | cons word words ih =>
      simp only [List.cons_append, Scans, ih, writeWords_append, List.append_assoc, and_assoc]

theorem scans_cons {word : Word} {words : List Word} {more : List Char} :
    Scans (word :: words) more ↔ word.ScansBefore (writeWords words ++ more) ∧ Scans words more :=
  .rfl

/-- The tokens of words, from an offset on. -/
def tokensFrom : Nat → List Word → List Token
  | _, [] => []
  | start, word :: words =>
      ⟨word.kind, word.text, start⟩ :: tokensFrom (start + byteLength word.text) words

/-- Words that are tokens of their own are the tokens of their text. -/
theorem scanFrom_writeWords {words : List Word} (h : Scans words []) (start : Nat) :
    scanFrom .strict start (writeWords words) = ⟨tokensFrom start words, none⟩ := by
  induction words generalizing start with
  | nil =>
      show scanFrom .strict start [] = _
      rw [scanFrom]
      rfl
  | cons word words ih =>
      obtain ⟨⟨hLexeme, hNonempty⟩, hWords⟩ := scans_cons.1 h
      rw [List.append_nil] at hLexeme
      obtain ⟨kind, text⟩ := word
      cases text with
      | nil => exact absurd rfl hNonempty
      | cons c rest =>
          have hText : writeWords (⟨kind, c :: rest⟩ :: words) =
              c :: (rest ++ writeWords words) := rfl
          have hTake : (rest ++ writeWords words).take ((c :: rest).length - 1) = rest :=
            List.take_left
          have hDrop : (rest ++ writeWords words).drop ((c :: rest).length - 1) =
              writeWords words := List.drop_left
          rw [hText, scanFrom]
          rw [List.cons_append] at hLexeme
          simp only [hLexeme, hTake, hDrop, Token.stop, ih hWords, tokensFrom]

/-! ## Phrases -/

/-- The characters that an expression starts with. -/
def leads (c : Char) : Bool :=
  startsName c || c.isDigit || isQuote c || ['(', '[', '\x7b', '-', '+'].contains c

/-- The words are tokens of their own before all that may follow an expression, and they start as
one. -/
structure IsPhrase (words : List Word) : Prop where
  scans : ∀ more, Follows more → Scans words more
  lead : ∃ c rest, writeWords words = c :: rest ∧ leads c = true

/-- The words are tokens of their own before all that may follow an expression, and an operator
before them does not grow. -/
structure IsFilling (words : List Word) : Prop where
  scans : ∀ more, Follows more → Scans words more
  head : ∀ more, Follows more → NoHead growsOperator (writeWords words ++ more)

/-- The words stand between two spaces. -/
structure IsJoint (words : List Word) : Prop where
  scans : ∀ more, Scans words (' ' :: more)
  lead : ∃ c rest, writeWords words = c :: rest ∧ (c == ' ' || c == '\t') = false

theorem IsPhrase.noHead {words : List Word} (h : IsPhrase words) {p : Char → Bool}
    (hp : ∀ c, leads c = true → p c = false) (more : List Char) :
    NoHead p (writeWords words ++ more) := by
  obtain ⟨c, rest, hText, hLead⟩ := h.lead
  rw [hText]
  exact .cons (hp c hLead) _

theorem IsPhrase.noOperator {words : List Word} (h : IsPhrase words) (more : List Char) :
    NoHead growsOperator (writeWords words ++ more) := by
  have hAll : ['=', '*', '/', '<', '>'].any leads = false := by decide
  refine h.noHead (fun c hLead => ?_) more
  rw [Bool.eq_false_iff]
  intro hGrows
  exact List.any_eq_false.1 hAll c (List.contains_iff_mem.1 hGrows) hLead

theorem IsPhrase.noBlank {words : List Word} (h : IsPhrase words) (more : List Char) :
    NoHead (fun c => c == ' ' || c == '\t') (writeWords words ++ more) := by
  refine h.noHead (fun c hLead => ?_) more
  rw [Bool.or_eq_false_iff]
  refine ⟨beq_false_of_ne ?_, beq_false_of_ne ?_⟩ <;> rintro rfl <;> cases hLead

theorem IsPhrase.filling {words : List Word} (h : IsPhrase words) : IsFilling words :=
  ⟨h.scans, fun more _ => h.noOperator more⟩

theorem IsFilling.nil : IsFilling [] :=
  ⟨fun _ _ => trivial, fun _ h => h.noHead (by decide)⟩

/-! ### Ways to put words together -/

/-- A mark between two parts, without spaces. -/
theorem IsFilling.colon {first second : List Word} (hFirst : IsFilling first)
    (hSecond : IsFilling second) : IsFilling (first ++ .operator ":" :: second) where
  scans more hMore :=
    scans_append.2 ⟨hFirst.scans _ (.cons (by decide) (by decide) _),
      Word.scansBefore_operator (by decide) (hSecond.head more hMore), hSecond.scans more hMore⟩
  head more _ := by
    rw [writeWords_append, List.append_assoc]
    exact hFirst.head _ (.cons (by decide) (by decide) _)

/-- A comma after the last part. -/
theorem IsFilling.comma {words : List Word} (h : IsFilling words) :
    IsFilling (words ++ [.operator ","]) where
  scans more hMore :=
    scans_append.2 ⟨h.scans _ (.cons (by decide) (by decide) _),
      Word.scansBefore_operator (by decide) (hMore.noHead (by decide)), trivial⟩
  head more _ := by
    rw [writeWords_append, List.append_assoc]
    exact h.head _ (.cons (by decide) (by decide) _)

theorem IsFilling.enclosed {first last : Char} (hFirst : first ∈ ['(', '[', '\x7b'])
    (hLast : last ∈ [')', ']', '\x7d']) {words : List Word} (h : IsFilling words)
    (more : List Char) : Scans (.opening first :: (words ++ [.closing last])) more := by
  have hClosers : ∀ c ∈ [')', ']', '\x7d'], c ∈ followers ∧ c ≠ '.' := by simp [followers]
  obtain ⟨hMem, hPoint⟩ := hClosers last hLast
  exact ⟨Word.scansBefore_opening hFirst _, scans_append.2 ⟨h.scans _ (.cons hMem hPoint _),
    Word.scansBefore_closing hLast _, trivial⟩⟩

theorem IsPhrase.enclosed {first last : Char} (hFirst : first ∈ ['(', '[', '\x7b'])
    (hLast : last ∈ [')', ']', '\x7d']) {words : List Word} (h : IsFilling words) :
    IsPhrase (.opening first :: (words ++ [.closing last])) where
  scans more _ := h.enclosed hFirst hLast more
  lead := by
    have hOpeners : ['(', '[', '\x7b'].all leads = true := by decide
    exact ⟨first, _, rfl, List.all_eq_true.1 hOpeners first hFirst⟩

/-- A subscript or the arguments of a call. -/
theorem IsPhrase.applied (first last : Char) (hFirst : first ∈ ['(', '['])
    (hLast : last ∈ [')', ']', '\x7d']) {value words : List Word} (hValue : IsPhrase value)
    (h : IsFilling words) : IsPhrase (value ++ .opening first :: (words ++ [.closing last])) where
  scans more _ := by
    have hOpeners : ∀ c ∈ ['(', '['], c ∈ followers ∧ c ≠ '.' ∧ c ∈ ['(', '[', '\x7b'] := by
      simp [followers]
    obtain ⟨hMem, hPoint, hOpening⟩ := hOpeners first hFirst
    exact scans_append.2 ⟨hValue.scans _ (.cons hMem hPoint _), h.enclosed hOpening hLast more⟩
  lead := by
    obtain ⟨c, rest, hText, hLead⟩ := hValue.lead
    exact ⟨c, _, by rw [writeWords_append, hText, List.cons_append], hLead⟩

theorem IsPhrase.bracketed {words : List Word} (h : IsPhrase words) (place level : Nat) :
    IsPhrase (bracketed place level words) := by
  unfold Stencil.bracketed
  split
  · exact .enclosed (by decide) (by decide) h.filling
  · exact h

/-- Two parts with a word or two between them, and spaces around these. -/
theorem IsPhrase.joined {left joint right : List Word} (hLeft : IsPhrase left)
    (hJoint : IsJoint joint) (hRight : IsPhrase right) :
    IsPhrase (left ++ .space :: (joint ++ .space :: right)) where
  scans more hMore := by
    obtain ⟨c, rest, hText, hLead⟩ := hJoint.lead
    refine scans_append.2 ⟨hLeft.scans _ (.cons (by decide) (by decide) _),
      Word.scansBefore_space ?_, scans_append.2 ⟨hJoint.scans _,
        Word.scansBefore_space (hRight.noBlank more), hRight.scans more hMore⟩⟩
    rw [writeWords_append, hText]
    exact .cons hLead _
  lead := by
    obtain ⟨c, rest, hText, hLead⟩ := hLeft.lead
    exact ⟨c, _, by rw [writeWords_append, hText, List.cons_append], hLead⟩

/-- Two parts with a mark after the first one. -/
theorem IsPhrase.punctuated {mark : String} (hMark : mark ∈ [",", ":"]) {left right : List Word}
    (hLeft : IsPhrase left) (hRight : IsPhrase right) :
    IsPhrase (left ++ .operator mark :: .space :: right) where
  scans more hMore := by
    have hMarks : ∀ mark ∈ [",", ":"], mark ∈ writtenOperators ∧
        ∃ c, mark.toList = [c] ∧ c ∈ followers ∧ c ≠ '.' := by
      simp only [List.forall_mem_cons, List.not_mem_nil, false_imp_iff, implies_true, and_true]
      exact ⟨⟨by decide, ',', rfl, by decide, by decide⟩,
        ⟨by decide, ':', rfl, by decide, by decide⟩⟩
    obtain ⟨hWritten, c, hText, hMem, hPoint⟩ := hMarks mark hMark
    refine scans_append.2 ⟨hLeft.scans _ ?_,
      Word.scansBefore_operator hWritten (.cons (by decide) _),
        Word.scansBefore_space (hRight.noBlank more), hRight.scans more hMore⟩
    show Follows (mark.toList ++ _ ++ _)
    rw [hText]
    exact .cons hMem hPoint _
  lead := by
    obtain ⟨c, rest, hText, hLead⟩ := hLeft.lead
    exact ⟨c, _, by rw [writeWords_append, hText, List.cons_append], hLead⟩

theorem isPhrase_sign {sign : String} (hSign : sign ∈ ["-", "+"]) {operand : List Word}
    (h : IsPhrase operand) : IsPhrase (.operator sign :: operand) where
  scans more hMore := by
    have hSigns : ∀ sign ∈ ["-", "+"], sign ∈ writtenOperators := by decide
    exact ⟨Word.scansBefore_operator (hSigns sign hSign) (h.noOperator more), h.scans more hMore⟩
  lead := by
    have hSigns : ∀ sign ∈ ["-", "+"], ∃ c rest, sign.toList = c :: rest ∧ leads c = true := by
      simp only [List.forall_mem_cons, List.not_mem_nil, false_imp_iff, implies_true, and_true]
      exact ⟨⟨'-', [], rfl, by decide⟩, ⟨'+', [], rfl, by decide⟩⟩
    obtain ⟨c, rest, hText, hLead⟩ := hSigns sign hSign
    refine ⟨c, rest ++ writeWords operand, ?_, hLead⟩
    show sign.toList ++ writeWords operand = _
    rw [hText, List.cons_append]

theorem isPhrase_not {operand : List Word} (h : IsPhrase operand) :
    IsPhrase (.name "not" :: .space :: operand) where
  scans more hMore :=
    ⟨Word.scansBefore_name (isNameText_keyword (by decide)) (.cons (by decide) _),
      Word.scansBefore_space (h.noBlank more), h.scans more hMore⟩
  lead := ⟨'n', _, rfl, by decide⟩

theorem isPhrase_name {label : String} (h : IsNameText label.toList) :
    IsPhrase [.name label] where
  scans _ hMore := ⟨Word.scansBefore_name h hMore.noName, trivial⟩
  lead := by
    obtain ⟨c, rest, hText, hStart, -⟩ := h
    refine ⟨c, rest, ?_, by rw [leads, hStart]; rfl⟩
    rw [writeWords_cons, writeWords_nil, List.append_nil]
    exact hText

theorem IsIdentifier.isNameText {label : String} (h : IsIdentifier label) :
    IsNameText label.toList := h.start

/-- An attribute of a value. The full stop is no point, since the name starts with no digit. -/
theorem IsPhrase.attribute {value : List Word} {label : String} (h : IsPhrase value)
    (hLabel : IsNameText label.toList) : IsPhrase (value ++ [.dot, .name label]) where
  scans more hMore := by
    obtain ⟨c, rest, hText, hStart, -⟩ := id hLabel
    refine scans_append.2 ⟨h.scans _ ⟨?_, ?_⟩, Word.scansBefore_dot _,
      Word.scansBefore_name hLabel hMore.noName, trivial⟩
    · intro d hd
      cases hd
      decide
    · intro others hOthers d hd
      have hEq : others = label.toList ++ more := by
        have hTail := (List.cons.inj hOthers).2
        rw [← hTail]
        simp [Word.name]
      rw [hEq, hText] at hd
      cases hd
      exact isDigit_of_startsName hStart
  lead := by
    obtain ⟨c, rest, hText, hLead⟩ := h.lead
    exact ⟨c, _, by rw [writeWords_append, hText, List.cons_append], hLead⟩

/-- An argument with its name. -/
theorem isPhrase_named {label : String} {value : List Word} (hLabel : IsNameText label.toList)
    (h : IsPhrase value) : IsPhrase (.name label :: .operator "=" :: value) where
  scans more hMore :=
    ⟨Word.scansBefore_name hLabel (.cons (by decide) _),
      Word.scansBefore_operator (by decide) (h.noOperator more), h.scans more hMore⟩
  lead := by
    obtain ⟨c, rest, hText, hStart, -⟩ := hLabel
    refine ⟨c, rest ++ writeWords (.operator "=" :: value), ?_, by rw [leads, hStart]; rfl⟩
    show label.toList ++ writeWords (.operator "=" :: value) = _
    rw [hText, List.cons_append]

theorem isPhrase_commaSeparated {groups : List (List Word)} (hNil : groups ≠ [])
    (h : ∀ group ∈ groups, IsPhrase group) : IsPhrase (commaSeparated groups) := by
  induction groups with
  | nil => exact absurd rfl hNil
  | cons group rest ih =>
      rw [List.forall_mem_cons] at h
      cases rest with
      | nil => exact h.1
      | cons next others =>
          exact h.1.punctuated (by decide) (ih (List.cons_ne_nil next others) h.2)

theorem isFilling_commaSeparated {groups : List (List Word)}
    (h : ∀ group ∈ groups, IsPhrase group) : IsFilling (commaSeparated groups) := by
  cases groups with
  | nil => exact .nil
  | cons group rest => exact (isPhrase_commaSeparated (List.cons_ne_nil group rest) h).filling

/-! ### Operators between operands -/

theorem isJoint_name {word : String} (h : word ∈ writtenKeywords) : IsJoint [.name word] where
  scans _ := ⟨Word.scansBefore_name (isNameText_keyword h) (.cons (by decide) _), trivial⟩
  lead := by
    obtain ⟨c, rest, hText, hStart, -⟩ := isNameText_keyword h
    have hNot {d : Char} (hd : continuesName d = false) : c ≠ d :=
      ne_of_continuesName (continuesName_of_startsName hStart) hd
    refine ⟨c, rest, ?_, ?_⟩
    · rw [writeWords_cons, writeWords_nil, List.append_nil]
      exact hText
    · rw [Bool.or_eq_false_iff]
      exact ⟨beq_false_of_ne (hNot (by decide)), beq_false_of_ne (hNot (by decide))⟩

theorem isJoint_operator {symbol : String} (h : symbol ∈ writtenOperators) :
    IsJoint [.operator symbol] where
  scans _ := ⟨Word.scansBefore_operator h (.cons (by decide) _), trivial⟩
  lead := by
    have hHeads : ∀ symbol ∈ writtenOperators,
        symbol.toList.head?.any (fun c => !(c == ' ' || c == '\t')) = true := by decide
    obtain ⟨c, hHead, hBlank⟩ := (Option.any_eq_true _ _).1 (hHeads symbol h)
    obtain ⟨rest, hText⟩ := List.head?_eq_some_iff.1 hHead
    rw [Bool.not_eq_true'] at hBlank
    refine ⟨c, rest, ?_, hBlank⟩
    rw [writeWords_cons, writeWords_nil, List.append_nil]
    exact hText

/-- Two keywords with a space between them. -/
theorem isJoint_names {first second : String} (hFirst : first ∈ writtenKeywords)
    (hSecond : second ∈ writtenKeywords) : IsJoint [.name first, .space, .name second] where
  scans more := by
    obtain ⟨c, rest, hText, hLead⟩ := (isJoint_name hSecond).lead
    refine ⟨Word.scansBefore_name (isNameText_keyword hFirst) (.cons (by decide) _),
      Word.scansBefore_space ?_, (isJoint_name hSecond).scans more⟩
    rw [hText]
    exact .cons hLead _
  lead := by
    obtain ⟨c, rest, hText, hLead⟩ := (isJoint_name hFirst).lead
    refine ⟨c, rest ++ writeWords [.space, .name second], ?_, hLead⟩
    rw [← List.singleton_append, writeWords_append, hText, List.cons_append]

theorem isJoint_compare (op : CompareOp) : IsJoint op.words := by
  cases op with
  | isIn => exact isJoint_name (by decide)
  | notIn => exact isJoint_names (by decide) (by decide)
  | same => exact isJoint_name (by decide)
  | notSame => exact isJoint_names (by decide) (by decide)
  | _ => exact isJoint_operator (by decide)

theorem BinaryOp.symbol_mem (op : BinaryOp) : op.symbol ∈ writtenOperators := by
  cases op <;> decide

/-! ## Expressions -/

namespace Expr

theorem isPhrase_groups {items : List Expr} (h : ∀ item ∈ items, IsPhrase item.words) :
    ∀ group ∈ groups items, IsPhrase group := by
  induction items with
  | nil => simp [groups]
  | cons item rest ih =>
      rw [List.forall_mem_cons] at h
      rw [groups]
      exact List.forall_mem_cons.2 ⟨h.1, ih h.2⟩

theorem isPhrase_entryGroups {entries : List (Expr × Expr)}
    (hKeys : ∀ entry ∈ entries, IsPhrase entry.1.words)
    (hValues : ∀ entry ∈ entries, IsPhrase entry.2.words) :
    ∀ group ∈ entryGroups entries, IsPhrase group := by
  induction entries with
  | nil => simp [entryGroups]
  | cons entry rest ih =>
      rw [List.forall_mem_cons] at hKeys hValues
      rw [entryGroups]
      exact List.forall_mem_cons.2
        ⟨hKeys.1.punctuated (by decide) hValues.1, ih hKeys.2 hValues.2⟩

theorem isPhrase_namedGroups {named : List (String × Expr)}
    (hLabels : ∀ entry ∈ named, IsIdentifier entry.1)
    (h : ∀ entry ∈ named, IsPhrase entry.2.words) :
    ∀ group ∈ namedGroups named, IsPhrase group := by
  induction named with
  | nil => simp [namedGroups]
  | cons entry rest ih =>
      rw [List.forall_mem_cons] at hLabels h
      rw [namedGroups]
      exact List.forall_mem_cons.2 ⟨isPhrase_named hLabels.1.isNameText h.1, ih hLabels.2 h.2⟩

theorem isPhrase_linkWords {left : List Word} (hLeft : IsPhrase left)
    {links : List (CompareOp × Expr)} (h : ∀ link ∈ links, IsPhrase link.2.words) :
    IsPhrase (left ++ linkWords links) := by
  induction links generalizing left with
  | nil => simpa [linkWords] using hLeft
  | cons link rest ih =>
      rw [List.forall_mem_cons] at h
      have hNext := hLeft.joined (isJoint_compare link.1) (h.1.bracketed 5 link.2.level)
      have hAll := ih hNext h.2
      simpa [linkWords] using hAll

theorem isFilling_boundWords {bound : Option Expr} (h : ∀ item ∈ bound, IsPhrase item.words) :
    IsFilling (boundWords bound) := by
  cases bound with
  | none => exact .nil
  | some item => exact (h item rfl).filling

theorem isPhrase_literal {value : Literal} (h : value.IsWritable) :
    IsPhrase [value.word] where
  scans _ hMore := ⟨Word.scansBefore_literal h hMore, trivial⟩
  lead := by
    cases value with
    | none => exact ⟨'N', _, rfl, by decide⟩
    | bool value => cases value <;> exact ⟨_, _, rfl, by decide⟩
    | int value =>
        obtain ⟨c, rest, hText⟩ := List.exists_cons_of_ne_nil (decimalText_ne_nil h)
        have hDigit : c.isDigit = true := isDigit_of_mem_decimalText h (by simp [hText])
        exact ⟨c, rest, by simp [Literal.word, hText], by simp [leads, hDigit]⟩
    | float value => exact absurd h id
    | string text =>
        exact ⟨quoteFor text.toList, _, rfl, by simp [leads, isQuote_quoteFor]⟩

theorem isPhrase_wordsAt {expr : Expr} (h : IsPhrase expr.words) (place : Nat) :
    IsPhrase (expr.wordsAt place) := h.bracketed place expr.level

/-- The words of an expression are tokens, before all that may follow it. -/
theorem IsWritable.isPhrase {expr : Expr} (h : expr.IsWritable) : IsPhrase expr.words := by
  induction h with
  | literal h =>
      rw [words]
      exact isPhrase_literal h
  | name h =>
      rw [words]
      exact isPhrase_name h.isNameText
  | list h ih =>
      rw [words]
      exact .enclosed (by decide) (by decide) (isFilling_commaSeparated (isPhrase_groups ih))
  | tuple h ih =>
      have hItems := isFilling_commaSeparated (isPhrase_groups ih)
      rw [words]
      refine .enclosed (by decide) (by decide) ?_
      split
      · exact hItems.comma
      · show IsFilling (commaSeparated _ ++ [])
        rwa [List.append_nil]
  | dict hKeys hValues ihKeys ihValues =>
      rw [words]
      exact .enclosed (by decide) (by decide)
        (isFilling_commaSeparated (isPhrase_entryGroups ihKeys ihValues))
  | «attribute» h hLabel ih =>
      rw [words]
      exact (isPhrase_wordsAt ih 9).attribute hLabel.isNameText
  | index h hKey ih ihKey =>
      have hPhrase := (isPhrase_wordsAt ih 9).applied '[' ']' (by decide) (by decide)
        ihKey.filling
      simpa [words, wordsAt] using hPhrase
  | @slice value start stop step h hStart hStop hStep ih ihStart ihStop ihStep =>
      have hBounds := (isFilling_boundWords ihStart).colon (isFilling_boundWords ihStop)
      have hParts : IsFilling (boundWords start ++ .operator ":" :: boundWords stop ++
          stepWords step) := by
        cases step with
        | none => simpa [stepWords] using hBounds
        | some step =>
            have hStep := hBounds.colon (ihStep step rfl).filling
            rwa [stepWords]
      have hPhrase := (isPhrase_wordsAt ih 9).applied '[' ']' (by decide) (by decide)
        hParts
      simpa [words, wordsAt] using hPhrase
  | call h hArguments hNamed hLabels hDistinct ih ihArguments ihNamed =>
      have hGroups := List.forall_mem_append.2
        ⟨isPhrase_groups ihArguments, isPhrase_namedGroups hLabels ihNamed⟩
      have hPhrase := (isPhrase_wordsAt ih 9).applied '(' ')' (by decide) (by decide)
        (isFilling_commaSeparated hGroups)
      simpa [words, wordsAt] using hPhrase
  | @unary op operand h ih =>
      cases op with
      | negative =>
          rw [words]
          exact isPhrase_sign (by decide) (isPhrase_wordsAt ih 7)
      | positive =>
          rw [words]
          exact isPhrase_sign (by decide) (isPhrase_wordsAt ih 7)
      | not =>
          rw [words]
          exact isPhrase_not (isPhrase_wordsAt ih 3)
  | @binary op left right hLeft hRight ihLeft ihRight =>
      rw [words]
      exact (isPhrase_wordsAt ihLeft _).joined (isJoint_operator op.symbol_mem)
        (isPhrase_wordsAt ihRight _)
  | compare hLeft hLinks hSome ihLeft ihLinks =>
      rw [words]
      exact isPhrase_linkWords (isPhrase_wordsAt ihLeft 5) ihLinks
  | and hLeft hRight ihLeft ihRight =>
      rw [words]
      exact (isPhrase_wordsAt ihLeft 2).joined (isJoint_name (by decide))
        (isPhrase_wordsAt ihRight 3)
  | or hLeft hRight ihLeft ihRight =>
      rw [words]
      exact (isPhrase_wordsAt ihLeft 1).joined (isJoint_name (by decide))
        (isPhrase_wordsAt ihRight 2)
  | conditional hTest hBody hOtherwise ihTest ihBody ihOtherwise =>
      have hChoice := (isPhrase_wordsAt ihBody 1).joined (isJoint_name (show "if" ∈ _ by decide))
        (isPhrase_wordsAt ihTest 1)
      have hPhrase := hChoice.joined (isJoint_name (show "else" ∈ _ by decide)) ihOtherwise
      simpa [words, wordsAt] using hPhrase

/-- The tokens of a written expression are its words. -/
theorem strictTokens_write {expr : Expr} (h : expr.IsWritable) :
    strictTokens expr.write = .ok (tokensFrom 0 expr.words) := by
  rw [strictTokens, scan, write, scanFrom_writeWords (h.isPhrase.scans [] .nil)]

end Expr

end Stencil
