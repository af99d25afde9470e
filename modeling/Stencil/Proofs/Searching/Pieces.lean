import Mathlib.Data.List.TakeWhile
import Stencil.Text.Search

/-!
# Pieces of a text

A text is split at the places where a separator stands. The places are found from left to right:
each is the leftmost one in what the places before it have left over, so no two of them overlap.
`Splits` says so without a search. What is true of all pieces together is an induction on it.

Words are the pieces between blanks. A limit on their number leaves the rest of the text as it is,
from the next word on.

## Main results

* `isLeftmost_of_cut`, `cut_eq_none_iff`: a search finds the leftmost place, or there is none.
* `splitOn_splits`: a text is split at the leftmost places, up to the limit.
* `Splits.intercalate_eq`: the pieces with the separator between them are the text.
* `wordsWithin_eq`: the first words, and the text from the next word on.
-/

namespace Stencil.Text

/-! ## The leftmost place -/

/-- Does `needle` stand in the text after so many characters? -/
def StandsAt (needle text : List Char) (place : Nat) : Prop := needle <+: text.drop place

/-- There is `needle` in the text between `before` and `after`, and nowhere further left. -/
structure IsLeftmost (needle text before after : List Char) : Prop where
  text_eq : before ++ needle ++ after = text
  first : ∀ place < before.length, ¬ StandsAt needle text place

section Places

variable {needle text before after : List Char}

theorem IsLeftmost.standsAt (h : IsLeftmost needle text before after) :
    StandsAt needle text before.length := by
  rw [StandsAt, ← h.text_eq, List.append_assoc, List.drop_left]
  exact List.prefix_append needle after

theorem IsLeftmost.length_lt (hNeedle : needle ≠ []) (h : IsLeftmost needle text before after) :
    after.length < text.length := by
  have hLength := congrArg List.length h.text_eq
  have hPositive := List.length_pos_iff.2 hNeedle
  simp only [List.length_append] at hLength
  omega

/-- Nowhere in what a search passes over does `needle` stand. -/
theorem first_of_cutFrom {passed : List Char}
    (h : cutFrom needle passed text = some (before, after)) :
    ∃ skipped, before = passed.reverse ++ skipped ∧
      ∀ place < skipped.length, ¬ StandsAt needle text place := by
  fun_induction cutFrom needle passed text with
  | case1 passed hEmpty =>
      obtain ⟨rfl, rfl⟩ := Prod.mk.inj (Option.some.inj h)
      exact ⟨[], (List.append_nil _).symm, fun place h => absurd h (Nat.not_lt_zero _)⟩
  | case2 => cases h
  | case3 passed c rest hPrefix =>
      obtain ⟨rfl, rfl⟩ := Prod.mk.inj (Option.some.inj h)
      exact ⟨[], (List.append_nil _).symm, fun place h => absurd h (Nat.not_lt_zero _)⟩
  | case4 passed c rest hPrefix ih =>
      obtain ⟨skipped, rfl, hFirst⟩ := ih h
      refine ⟨c :: skipped, by simp, fun place hPlace => ?_⟩
      cases place with
      | zero => exact mt List.isPrefixOf_iff_prefix.2 hPrefix
      | succ place => exact hFirst place (Nat.lt_of_succ_lt_succ hPlace)

theorem isLeftmost_of_cut (h : cut needle text = some (before, after)) :
    IsLeftmost needle text before after := by
  refine ⟨append_of_cut h, ?_⟩
  rw [cut_eq] at h
  obtain ⟨skipped, rfl, hFirst⟩ := first_of_cutFrom h
  exact hFirst

/-- A search finds a place when there is one. -/
theorem cut_eq_none_iff (hNeedle : needle ≠ []) :
    cut needle text = none ↔ ∀ place, ¬ StandsAt needle text place := by
  rw [cut_eq]
  generalize [] = passed
  fun_induction cutFrom needle passed text with
  | case1 passed hEmpty => exact absurd (List.isEmpty_iff.1 hEmpty) hNeedle
  | case2 => simp [StandsAt, hNeedle]
  | case3 passed c rest hPrefix =>
      refine ⟨fun h => absurd h (Option.some_ne_none _), fun hNone => ?_⟩
      exact absurd (List.isPrefixOf_iff_prefix.1 hPrefix) (hNone 0)
  | case4 passed c rest hPrefix ih =>
      rw [ih]
      constructor
      · intro hNone place
        cases place with
        | zero => exact mt List.isPrefixOf_iff_prefix.2 hPrefix
        | succ place => exact hNone place
      · exact fun hNone place => hNone (place + 1)

theorem occurs_iff (hNeedle : needle ≠ []) :
    occurs needle text = true ↔ ∃ place, StandsAt needle text place := by
  have hNone := not_congr (@cut_eq_none_iff needle text hNeedle)
  rw [occurs, Option.isSome_iff_ne_none]
  simpa using hNone

end Places

/-! ## Splitting -/

/-- The pieces of a text between the places of a separator, from left to right, with at most `limit`
of them taken when there is a limit. -/
inductive Splits (separator : List Char) : Option Nat → List Char → List (List Char) → Prop
  /-- There is no place, or none is to be taken. -/
  | whole {limit : Option Nat} {text : List Char}
      (h : limit = some 0 ∨ ∀ place, ¬ StandsAt separator text place) :
      Splits separator limit text [text]
  | next {limit : Option Nat} {text before after : List Char} {pieces : List (List Char)}
      (hLimit : limit ≠ some 0) (h : IsLeftmost separator text before after)
      (rest : Splits separator (limit.map (· - 1)) after pieces) :
      Splits separator limit text (before :: pieces)

section Splitting

variable {separator text : List Char} {limit : Option Nat} {pieces : List (List Char)}

/-- A budget that is greater than the length of the text is enough. -/
theorem splitWithin_splits (hSeparator : separator ≠ []) (budget : Nat) (limit : Option Nat)
    (done : List (List Char)) (text : List Char) (hBudget : text.length < budget) :
    ∃ pieces, splitWithin separator budget limit done text = done.reverse ++ pieces ∧
      Splits separator limit text pieces := by
  fun_induction splitWithin separator budget limit done text with
  | case1 => cases hBudget
  | case2 budget done text => exact ⟨[text], List.reverse_cons, .whole (.inl rfl)⟩
  | case3 budget limit done text hLimit hNone =>
      exact ⟨[text], List.reverse_cons, .whole (.inr ((cut_eq_none_iff hSeparator).1 hNone))⟩
  | case4 budget limit done text hLimit before after hCut ih =>
      have hLeftmost := isLeftmost_of_cut hCut
      have hShorter := hLeftmost.length_lt hSeparator
      obtain ⟨pieces, hPieces, hSplits⟩ := ih (by omega)
      exact ⟨before :: pieces, by simp [hPieces], .next hLimit hLeftmost hSplits⟩

theorem splitOn_splits (hSeparator : separator ≠ []) (limit : Option Nat) (text : List Char) :
    Splits separator limit text (splitOn separator limit text) := by
  obtain ⟨pieces, hPieces, hSplits⟩ :=
    splitWithin_splits hSeparator (text.length + 1) limit [] text (Nat.lt_succ_self _)
  rw [splitOn, hPieces]
  exact hSplits

namespace Splits

theorem ne_nil (h : Splits separator limit text pieces) : pieces ≠ [] := by
  cases h <;> exact List.cons_ne_nil _ _

/-- Nothing but the separators is lost. -/
theorem intercalate_eq (h : Splits separator limit text pieces) :
    separator.intercalate pieces = text := by
  induction h with
  | whole => exact List.intercalate_singleton
  | next hLimit h rest ih =>
      rw [List.intercalate_cons_of_ne_nil rest.ne_nil, ih, h.text_eq]

theorem length_le {most : Nat} (h : Splits separator (some most) text pieces) :
    pieces.length ≤ most + 1 := by
  generalize hLimit : some most = limit at h
  induction h generalizing most with
  | whole => simp
  | next hPositive h rest ih =>
      subst hLimit
      have hLength := @ih (most - 1) rfl
      have hMost : most ≠ 0 := fun h => hPositive (congrArg some h)
      rw [List.length_cons]
      omega

/-- Each piece but the last one stands before a separator, which has a character at least. -/
theorem length_le_length (hSeparator : separator ≠ []) (h : Splits separator limit text pieces) :
    pieces.length ≤ text.length + 1 := by
  induction h with
  | whole => simp
  | next hLimit h rest ih =>
      have hShorter := h.length_lt hSeparator
      rw [List.length_cons]
      omega

/-- There are several pieces when the separator stands somewhere. -/
theorem one_lt_length_iff (h : Splits separator none text pieces) :
    1 < pieces.length ↔ ∃ place, StandsAt separator text place := by
  cases h with
  | whole h =>
      have hNone := h.resolve_left (Option.some_ne_none 0).symm
      exact ⟨fun hMore => absurd hMore (Nat.lt_irrefl 1),
        fun hPlace => hPlace.elim fun place hStands => absurd hStands (hNone place)⟩
  | next hLimit h rest =>
      have hSome := List.length_pos_iff.2 rest.ne_nil
      exact ⟨fun _ => ⟨_, h.standsAt⟩, fun _ => Nat.succ_lt_succ hSome⟩

end Splits

theorem countOf_add_one (hSeparator : separator ≠ []) (text : List Char) :
    countOf separator text + 1 = (splitOn separator none text).length := by
  have hSome := List.length_pos_iff.2 (splitOn_splits hSeparator none text).ne_nil
  rw [countOf, if_neg (by simpa using hSeparator)]
  omega

end Splitting

/-! ## Words -/

section Words

variable {text : List Char}

theorem wordsFrom_nil (done : List (List Char)) (word : List Char) :
    wordsFrom done word [] = done.reverse ++ if word.isEmpty then [] else [word.reverse] := by
  rw [wordsFrom]
  split <;> simp

theorem wordsFrom_blank {c : Char} (hBlank : isBlank c = true) (done : List (List Char))
    (word rest : List Char) : wordsFrom done word (c :: rest) =
      wordsFrom (if word.isEmpty then done else word.reverse :: done) [] rest := by
  rw [wordsFrom, if_pos hBlank]

theorem wordsFrom_other {c : Char} (hOther : isBlank c = false) (done : List (List Char))
    (word rest : List Char) :
    wordsFrom done word (c :: rest) = wordsFrom done (c :: word) rest := by
  rw [wordsFrom, if_neg (by simp [hOther])]

theorem wordsFrom_eq (done : List (List Char)) (word text : List Char) :
    wordsFrom done word text = done.reverse ++ wordsFrom [] word text := by
  induction text generalizing done word with
  | nil => rw [wordsFrom_nil, wordsFrom_nil, List.reverse_nil, List.nil_append]
  | cons c rest ih =>
      cases hBlank : isBlank c with
      | true =>
          rw [wordsFrom_blank hBlank, wordsFrom_blank hBlank, ih,
            ih (if word.isEmpty then [] else [word.reverse])]
          split <;> simp
      | false => rw [wordsFrom_other hBlank, wordsFrom_other hBlank, ih]

/-- A blank ends the words before it. -/
theorem wordsFrom_append {blank : Char} (hBlank : isBlank blank = true)
    (word before after : List Char) :
    wordsFrom [] word (before ++ blank :: after) = wordsFrom [] word before ++ words after := by
  induction before generalizing word with
  | nil =>
      rw [List.nil_append, wordsFrom_blank hBlank, wordsFrom_eq, wordsFrom_nil, words]
      split <;> rfl
  | cons c rest ih =>
      rw [List.cons_append]
      cases hBlank : isBlank c with
      | true =>
          have hWords (others : List Char) :=
            wordsFrom_eq (if word.isEmpty then [] else [word.reverse]) [] others
          rw [wordsFrom_blank hBlank, wordsFrom_blank hBlank, hWords, hWords, ih, List.append_assoc]
      | false => rw [wordsFrom_other hBlank, wordsFrom_other hBlank, ih]

theorem words_append {blank : Char} (hBlank : isBlank blank = true) (before after : List Char) :
    words (before ++ blank :: after) = words before ++ words after :=
  wordsFrom_append hBlank [] before after

theorem words_trimStart (text : List Char) : words (trimStart text) = words text := by
  induction text with
  | nil => rfl
  | cons c rest ih =>
      cases hBlank : isBlank c with
      | true =>
          have hTrim : trimStart (c :: rest) = trimStart rest := List.dropWhile_cons_of_pos hBlank
          rw [hTrim, ih, words, words, wordsFrom_blank hBlank]
          rfl
      | false => rw [trimStart, List.dropWhile_cons_of_neg (by simp [hBlank])]

theorem head_trimStart (text : List Char) : ∀ c ∈ (trimStart text).head?, isBlank c = false := by
  intro c hc
  have hHead := List.head?_dropWhile_not isBlank text
  rw [← trimStart, Option.mem_def.1 hc] at hHead
  simpa using hHead

/-- Characters that are no blanks make one word. -/
theorem wordsFrom_of_noBlank (word : List Char) {text : List Char}
    (h : ∀ c ∈ text, isBlank c = false) :
    wordsFrom [] word text =
      if (text.reverse ++ word).isEmpty then [] else [(text.reverse ++ word).reverse] := by
  induction text generalizing word with
  | nil => rw [wordsFrom_nil, List.reverse_nil, List.nil_append, List.reverse_nil, List.nil_append]
  | cons c rest ih =>
      rw [List.forall_mem_cons] at h
      rw [wordsFrom_other h.1, ih _ h.2, List.reverse_cons, List.append_assoc,
        List.singleton_append]

theorem words_of_noBlank {word : List Char} (hWord : word ≠ [])
    (h : ∀ c ∈ word, isBlank c = false) : words word = [word] := by
  rw [words, wordsFrom_of_noBlank [] h]
  simp [hWord]

/-- A word and what follows it, which goes on with a blank if it goes on. -/
structure IsWord (word after : List Char) : Prop where
  ne_nil : word ≠ []
  inside : ∀ c ∈ word, isBlank c = false
  behind : ∀ c ∈ after.head?, isBlank c = true

theorem IsWord.words_append {word after : List Char} (h : IsWord word after) :
    words (word ++ after) = word :: words after := by
  cases after with
  | nil =>
      rw [List.append_nil, words_of_noBlank h.ne_nil h.inside]
      rfl
  | cons c rest =>
      have hBlank := h.behind c rfl
      have hSame : words (c :: rest) = words rest := Text.words_append hBlank [] rest
      rw [Text.words_append hBlank, words_of_noBlank h.ne_nil h.inside, hSame,
        List.singleton_append]

/-- What begins with no blank begins with a word. -/
theorem isWord_takeWhile {text : List Char} (hSome : text ≠ [])
    (h : ∀ c ∈ text.head?, isBlank c = false) :
    IsWord (text.takeWhile (!isBlank ·)) (text.dropWhile (!isBlank ·)) where
  ne_nil := by
    obtain ⟨c, rest, rfl⟩ := List.exists_cons_of_ne_nil hSome
    rw [List.takeWhile_cons_of_pos (by simpa using h c rfl)]
    exact List.cons_ne_nil _ _
  inside c hc := by simpa using List.mem_takeWhile_imp hc
  behind c hc := by
    have hHead := List.head?_dropWhile_not (!isBlank ·) text
    rw [Option.mem_def.1 hc] at hHead
    simpa using hHead

theorem words_blanks_append {blanks : List Char} (h : ∀ c ∈ blanks, isBlank c = true)
    (text : List Char) : words (blanks ++ text) = words text := by
  induction blanks with
  | nil => rfl
  | cons c rest ih =>
      rw [List.forall_mem_cons] at h
      have hFirst : words (c :: (rest ++ text)) = words (rest ++ text) := words_append h.1 [] _
      rw [List.cons_append, hFirst, ih h.2]

/-- The text from the word on that so many others precede. -/
structure IsFromWord (count : Nat) (text before rest : List Char) : Prop where
  text_eq : before ++ rest = text
  words_before : words before = (words text).take count
  words_rest : words rest = (words text).drop count
  /-- The rest begins with the word, not with blanks before it. -/
  begins : ∃ word, (words text)[count]? = some word ∧ word <+: rest

namespace IsFromWord

variable {count : Nat} {text before rest : List Char}

/-- The text from the first word on is the text without the blanks before it. -/
theorem zero (hWord : IsWord ((trimStart text).takeWhile (!isBlank ·))
    ((trimStart text).dropWhile (!isBlank ·))) :
    IsFromWord 0 text (text.takeWhile isBlank) (trimStart text) where
  text_eq := List.takeWhile_append_dropWhile
  words_before := by
    have hBlanks := words_blanks_append (fun c (hc : c ∈ text.takeWhile isBlank) =>
      List.mem_takeWhile_imp hc) []
    rwa [List.append_nil] at hBlanks
  words_rest := words_trimStart text
  begins := by
    have hWords := hWord.words_append
    rw [List.takeWhile_append_dropWhile, words_trimStart] at hWords
    refine ⟨(trimStart text).takeWhile (!isBlank ·), ?_, List.takeWhile_prefix _⟩
    rw [hWords, List.getElem?_cons_zero]

/-- One word more before the text is one word more to count. -/
theorem succ {blanks word : List Char} (h : IsFromWord count text before rest)
    (hBlanks : ∀ c ∈ blanks, isBlank c = true) (hWord : IsWord word text) :
    IsFromWord (count + 1) (blanks ++ (word ++ text)) (blanks ++ (word ++ before)) rest := by
  have hBefore : IsWord word before := by
    refine ⟨hWord.ne_nil, hWord.inside, fun c hc => hWord.behind c ?_⟩
    rw [← h.text_eq, List.head?_append, Option.mem_def.1 hc]
    rfl
  have hWords : words (blanks ++ (word ++ text)) = word :: words text := by
    rw [words_blanks_append hBlanks, hWord.words_append]
  constructor
  · rw [← h.text_eq, List.append_assoc, List.append_assoc]
  · rw [hWords, words_blanks_append hBlanks, hBefore.words_append, h.words_before,
      List.take_succ_cons]
  · rw [hWords, h.words_rest, List.drop_succ_cons]
  · rw [hWords]
    exact h.begins

end IsFromWord

/-- The first words are taken as they are, and the text from the next word on is one more piece. -/
theorem wordsWithin_eq (limit : Nat) (text : List Char) :
    (words text).length ≤ limit ∧ wordsWithin limit text = words text ∨
    ∃ before rest, IsFromWord limit text before rest ∧
      wordsWithin limit text = (words text).take limit ++ [rest] := by
  have hBlanks (text : List Char) : ∀ c ∈ text.takeWhile isBlank, isBlank c = true :=
    fun c hc => List.mem_takeWhile_imp hc
  fun_induction wordsWithin limit text with
  | case1 limit text hNone =>
      have hWords : words text = [] := by rw [← words_trimStart, hNone]; rfl
      exact .inl ⟨by simp [hWords], hWords.symm⟩
  | case2 text hSome =>
      exact .inr ⟨_, _, .zero (isWord_takeWhile hSome (head_trimStart text)), rfl⟩
  | case3 text limit hSome ih =>
      have hWord := isWord_takeWhile hSome (head_trimStart text)
      have hText : text.takeWhile isBlank ++ ((trimStart text).takeWhile (!isBlank ·) ++
          (trimStart text).dropWhile (!isBlank ·)) = text := by
        rw [List.takeWhile_append_dropWhile, trimStart, List.takeWhile_append_dropWhile]
      have hWords := hWord.words_append
      rw [List.takeWhile_append_dropWhile, words_trimStart] at hWords
      rcases ih with ⟨hLength, hSame⟩ | ⟨before, rest, hFrom, hSame⟩
      · exact .inl ⟨hWords ▸ Nat.succ_le_succ hLength, by rw [hSame, hWords]⟩
      · refine .inr ⟨_, rest, hText ▸ hFrom.succ (hBlanks text) hWord, ?_⟩
        rw [hSame, hWords, List.take_succ_cons, List.cons_append]

end Words

end Stencil.Text
