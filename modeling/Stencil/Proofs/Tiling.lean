import Stencil.Proofs.Layout.Headers
import Stencil.Proofs.Tiling.Bytes

/-!
# Tokens tile their source

The tokens of a lenient reading leave nothing of the source out and share nothing: each starts on
the byte where the one before it stops. How far a strict reading gets is told by the literals alone.
A literal is a quote, with a letter in front of it or not, the characters inside, and the same quote
again; a backslash hides the character behind it. As long as every token that starts like a literal
is one, both readings are the same, and the first that is none ends the strict one.

## Main results

* `tiling_scanFrom`: the tokens of a lenient reading lie one after another.
* `isSome_quotedLength_iff`: a string has a length exactly where its literal is closed.
* `scanFrom_strict`: how far a strict reading gets.
* `tokens_tile_source`: both for a whole source.
-/

namespace Stencil

open Stencil.Text

/-! ## Pieces of a source -/

theorem utf8ByteSize_ofList (text : List Char) :
    (String.ofList text).utf8ByteSize = byteLength text := by
  rw [← length_bytes, String.utf8ByteSize, String.toByteArray_ofList, List.utf8Encode,
    List.size_toByteArray, bytes, List.length_flatMap, List.length_flatMap]
  simp only [List.length_map]

/-- The offset lies between two characters, or at an end of the source. -/
def IsBoundary (source : String) (offset : Nat) : Prop :=
  (String.Pos.Raw.mk offset).IsValid source

theorem isBoundary_append (front back : List Char) :
    IsBoundary (String.ofList (front ++ back)) (byteLength front) := by
  rw [IsBoundary, String.ofList_append, String.Pos.Raw.isValid_iff_exists_append]
  refine ⟨String.ofList front, String.ofList back, rfl, ?_⟩
  rw [String.rawEndPos, utf8ByteSize_ofList]

theorem extract_append (front piece back : List Char) :
    (String.ofList (front ++ piece ++ back)).toByteArray.extract (byteLength front)
      (byteLength front + byteLength piece) = (String.ofList piece).toByteArray := by
  have hSize (text : List Char) : (String.ofList text).toByteArray.size = byteLength text :=
    utf8ByteSize_ofList text
  have hSplit : String.ofList (front ++ piece ++ back) =
      String.ofList (front ++ piece) ++ String.ofList back := String.ofList_append
  rw [← byteLength_append, ← hSize (front ++ piece), hSplit, String.toByteArray_append,
    ByteArray.extract_append_size_left, String.ofList_append, String.toByteArray_append]
  refine ByteArray.extract_append_eq_right (hSize front).symm ?_
  rw [ByteArray.size_append]

/-- The token is a piece of the source: its offsets lie between characters, and the bytes between
them are its text. -/
structure Token.LiesIn (t : Token) (source : String) : Prop where
  ne_nil : t.text ≠ []
  starts : IsBoundary source t.start
  stops : IsBoundary source t.stop
  carries : source.toByteArray.extract t.start t.stop = (String.ofList t.text).toByteArray
  bytewise : t.EndsBytewise source.toList

/-- The tokens lie in the source one after another, from the offset `start` up to its end. -/
inductive Tiling (source : String) : Nat → List Token → Prop
  | done : Tiling source source.utf8ByteSize []
  | token {t : Token} {rest : List Token} (lies : t.LiesIn source)
      (below : Tiling source t.stop rest) : Tiling source t.start (t :: rest)

/-- The tokens of a lenient reading lie one after another. -/
theorem tiling_scanFrom {source front text : List Char} {start : Nat}
    (hSource : source = front ++ text) (hStart : start = byteLength front) :
    Tiling (String.ofList source) start (scanFrom .lenient start text).tokens := by
  induction start, text using scanFrom.induct QuoteReading.lenient generalizing front with
  | case1 start =>
      rw [scanFrom, hStart]
      rw [List.append_nil] at hSource
      rw [← hSource, ← utf8ByteSize_ofList]
      exact .done
  | case2 start c rest hLexeme =>
      have hSome := lexeme_lenient_isSome c rest
      rw [hLexeme] at hSome
      cases hSome
  | case3 start c rest kind length hLexeme =>
      rename_i token ih
      have hSplit : source = front ++ (c :: rest.take (length - 1)) ++ rest.drop (length - 1) := by
        rw [hSource, List.append_assoc, List.cons_append, List.take_append_drop]
      have hStop : token.stop = byteLength (front ++ c :: rest.take (length - 1)) := by
        rw [byteLength_append, ← hStart]
        rfl
      have hLies : token.LiesIn (String.ofList source) := by
        refine ⟨List.cons_ne_nil _ _, ?_, ?_, ?_, ?_⟩
        · rw [hSource]
          show IsBoundary _ start
          rw [hStart]
          exact isBoundary_append front _
        · rw [hStop, hSplit]
          exact isBoundary_append _ _
        · rw [hSplit, hStop, byteLength_append]
          show ByteArray.extract _ start _ = _
          rw [hStart]
          exact extract_append front _ _
        · rw [String.toList_ofList, hSource]
          have hBytewise := endsBytewise_of_lexeme hLexeme front
          rwa [← hStart] at hBytewise
      rw [scanFrom, hLexeme]
      exact .token hLies (ih hSplit hStop)

/-! ## Literals that are not closed -/

/-- Characters that the test allows, and any character behind a backslash. -/
inductive Inside (plain : Char → Prop) : List Char → Prop
  | nil : Inside plain []
  | escaped (c : Char) {rest : List Char} : Inside plain rest → Inside plain ('\\' :: c :: rest)
  | plain {c : Char} {rest : List Char} : plain c → Inside plain rest → Inside plain (c :: rest)

/-- The text behind an opening quote goes on to the quote that closes the literal: after three
quotes to the next three, and else on the same line to the next one. -/
inductive Closed (quote : Char) : List Char → Prop
  | short {inside after : List Char}
      (isInside : Inside (fun c => c ≠ '\\' ∧ c ≠ '\n' ∧ c ≠ quote) inside)
      (isShort : ¬ [quote, quote] <+: inside ++ quote :: after) :
      Closed quote (inside ++ quote :: after)
  | long {inside after : List Char} (isInside : Inside (fun c => c ≠ '\\') inside) :
      Closed quote (quote :: quote :: (inside ++ quote :: quote :: quote :: after))

/-- The text starts like a literal that is not closed. -/
def LeftOpen (text : List Char) : Prop :=
  ∃ (opening : Opening) (rest : List Char),
    text = opening.letters ++ opening.quote :: rest ∧ ¬ Closed opening.quote rest

/-- From the byte `offset` on, the source starts like a literal that is not closed. -/
def LeftOpenAt (source : String) (offset : Nat) : Prop :=
  ∃ front back : String, source = front ++ back ∧ front.utf8ByteSize = offset ∧
    LeftOpen back.toList

section Literals

variable {quote : Char} (hQuote : isQuote quote = true)

include hQuote in
theorem quote_ne : quote ≠ '\\' ∧ quote ≠ '\n' := by
  rw [isQuote, Bool.or_eq_true, beq_iff_eq, beq_iff_eq] at hQuote
  rcases hQuote with rfl | rfl <;> decide

/-- What is measured up to a quote is the inside of a literal and the quote. -/
theorem exists_of_closeOnLine {text : List Char} {length : Nat}
    (h : closeOnLine quote text = some length) : ∃ inside after,
      text = inside ++ quote :: after ∧
        Inside (fun c => c ≠ '\\' ∧ c ≠ '\n' ∧ c ≠ quote) inside ∧
        length = inside.length + 1 := by
  induction text using closeOnLine.induct quote generalizing length with
  | case1 => cases h
  | case2 => cases h
  | case3 c rest ih =>
      rw [closeOnLine, Option.map_eq_some_iff] at h
      obtain ⟨inner, hInner, rfl⟩ := h
      obtain ⟨inside, after, rfl, hInside, rfl⟩ := ih hInner
      exact ⟨'\\' :: c :: inside, after, rfl, .escaped c hInside, rfl⟩
  | case4 rest => cases h
  | case5 rest hEnd hEscape hNewline =>
      rw [closeOnLine_cons (ne_backslash hEnd hEscape) hNewline, if_pos rfl] at h
      exact ⟨[], rest, rfl, .nil, (Option.some.inj h).symm⟩
  | case6 c rest hEnd hEscape hPlain hOther ih =>
      have hc := ne_backslash hEnd hEscape
      rw [closeOnLine_cons hc hPlain, if_neg hOther, Option.map_eq_some_iff] at h
      obtain ⟨inner, hInner, rfl⟩ := h
      obtain ⟨inside, after, rfl, hInside, rfl⟩ := ih hInner
      exact ⟨c :: inside, after, rfl, .plain ⟨hc, hPlain, hOther⟩ hInside, rfl⟩

/-- What is measured up to three quotes is the inside of a long literal and the quotes. -/
theorem exists_of_closeLong {text : List Char} {length : Nat}
    (h : closeLong quote text = some length) : ∃ inside after,
      text = inside ++ quote :: quote :: quote :: after ∧ Inside (fun c => c ≠ '\\') inside ∧
        length = inside.length + 3 := by
  induction text using closeLong.induct quote generalizing length with
  | case1 => cases h
  | case2 => cases h
  | case3 c rest ih =>
      rw [closeLong, Option.map_eq_some_iff] at h
      obtain ⟨inner, hInner, rfl⟩ := h
      obtain ⟨inside, after, rfl, hInside, rfl⟩ := ih hInner
      exact ⟨'\\' :: c :: inside, after, rfl, .escaped c hInside, rfl⟩
  | case4 c rest hEnd hEscape hQuotes =>
      rw [closeLong_cons (ne_backslash hEnd hEscape), if_pos hQuotes] at h
      obtain ⟨rfl, hTwo⟩ := hQuotes
      have hSplit := List.take_append_drop 2 rest
      rw [hTwo] at hSplit
      exact ⟨[], rest.drop 2, by rw [← hSplit]; rfl, .nil, (Option.some.inj h).symm⟩
  | case5 c rest hEnd hEscape hQuotes ih =>
      have hc := ne_backslash hEnd hEscape
      rw [closeLong_cons hc, if_neg hQuotes, Option.map_eq_some_iff] at h
      obtain ⟨inner, hInner, rfl⟩ := h
      obtain ⟨inside, after, rfl, hInside, rfl⟩ := ih hInner
      exact ⟨c :: inside, after, rfl, .plain hc hInside, rfl⟩

include hQuote in
theorem isSome_closeOnLine_iff (text : List Char) :
    (closeOnLine quote text).isSome = true ↔ ∃ inside after, text = inside ++ quote :: after ∧
      Inside (fun c => c ≠ '\\' ∧ c ≠ '\n' ∧ c ≠ quote) inside := by
  obtain ⟨hBackslash, hNewline⟩ := quote_ne hQuote
  constructor
  · intro h
    obtain ⟨length, hLength⟩ := Option.isSome_iff_exists.1 h
    obtain ⟨inside, after, hText, hInside, -⟩ := exists_of_closeOnLine hLength
    exact ⟨inside, after, hText, hInside⟩
  · rintro ⟨inside, after, rfl, hInside⟩
    induction hInside with
    | nil => rw [List.nil_append, closeOnLine_cons hBackslash hNewline, if_pos rfl]; rfl
    | escaped c _ ih => rw [List.cons_append, List.cons_append, closeOnLine, Option.isSome_map, ih]
    | plain hc _ ih =>
        rw [List.cons_append, closeOnLine_cons hc.1 hc.2.1, if_neg hc.2.2, Option.isSome_map, ih]

include hQuote in
theorem isSome_closeLong_iff (text : List Char) :
    (closeLong quote text).isSome = true ↔
      ∃ inside after, text = inside ++ quote :: quote :: quote :: after ∧
        Inside (fun c => c ≠ '\\') inside := by
  obtain ⟨hBackslash, -⟩ := quote_ne hQuote
  constructor
  · intro h
    obtain ⟨length, hLength⟩ := Option.isSome_iff_exists.1 h
    obtain ⟨inside, after, hText, hInside, -⟩ := exists_of_closeLong hLength
    exact ⟨inside, after, hText, hInside⟩
  · rintro ⟨inside, after, rfl, hInside⟩
    induction hInside with
    | nil => rw [List.nil_append, closeLong_cons hBackslash, if_pos ⟨rfl, rfl⟩]; rfl
    | escaped c _ ih => rw [List.cons_append, List.cons_append, closeLong, Option.isSome_map, ih]
    | plain hc _ ih =>
        rw [List.cons_append, closeLong_cons hc]
        split
        · rfl
        · rw [Option.isSome_map, ih]

include hQuote in
/-- A string has a length exactly where its literal is closed. -/
theorem isSome_quotedLength_iff (rest : List Char) :
    (quotedLength (quote :: rest)).isSome = true ↔ Closed quote rest := by
  have hPrefix : rest.take 2 = [quote, quote] ↔ [quote, quote] <+: rest := by
    rw [List.prefix_iff_eq_take]
    exact eq_comm
  rw [quotedLength]
  constructor
  · intro h
    split at h
    · rename_i hTwo
      rw [Option.isSome_map, isSome_closeLong_iff hQuote] at h
      obtain ⟨inside, after, hDrop, hInside⟩ := h
      have hSplit := List.take_append_drop 2 rest
      rw [hTwo, hDrop] at hSplit
      rw [← hSplit]
      exact .long hInside
    · rename_i hTwo
      rw [Option.isSome_map, isSome_closeOnLine_iff hQuote] at h
      obtain ⟨inside, after, rfl, hInside⟩ := h
      exact .short hInside fun h => hTwo (hPrefix.2 h)
  · intro h
    cases h with
    | short hInside hShort =>
        rw [if_neg fun h => hShort (hPrefix.1 h), Option.isSome_map,
          isSome_closeOnLine_iff hQuote]
        exact ⟨_, _, rfl, hInside⟩
    | long hInside =>
        rw [if_pos (by rfl), Option.isSome_map, isSome_closeLong_iff hQuote]
        exact ⟨_, _, rfl, hInside⟩

end Literals

/-- Neither a letter in front of a string nor a quote starts a blank, a newline or a comment. -/
theorem Opening.head_ne (opening : Opening) {c : Char} {rest others : List Char}
    (h : c :: rest = opening.letters ++ opening.quote :: others) :
    ¬ (c = ' ' ∨ c = '\t') ∧ c ≠ '\n' ∧ c ≠ '#' := by
  have hMark : ∀ mark ∈ ['r', 'R', 'u', 'U', 'b', 'B', '\'', '"'],
      ¬ (mark = ' ' ∨ mark = '\t') ∧ mark ≠ '\n' ∧ mark ≠ '#' := by simp
  refine hMark c ?_
  obtain ⟨letters, quote, hLength, hMarks, hQuote⟩ := opening
  cases letters with
  | nil =>
      cases h
      rw [isQuote, Bool.or_eq_true, beq_iff_eq, beq_iff_eq] at hQuote
      rcases hQuote with rfl | rfl <;> simp
  | cons d letters =>
      cases h
      have hMem := List.contains_iff_mem.1 (hMarks c (List.mem_cons_self ..))
      exact List.mem_append_left ['\'', '"'] hMem

/-- A strict reading stops exactly before a literal that is not closed. -/
theorem lexeme_strict_eq_none_iff (c : Char) (rest : List Char) :
    lexeme .strict (c :: rest) = none ↔ LeftOpen (c :: rest) := by
  constructor
  · intro h
    simp only [lexeme] at h
    split at h
    · cases h
    split at h
    · cases h
    split at h
    · cases h
    split at h
    · cases h
    · rename_i letters hMark
      obtain ⟨opening, others, hText, rfl⟩ := Opening.exists_of_stringMark? hMark
      refine ⟨opening, others, hText, fun hClosed => ?_⟩
      have hSome := (isSome_quotedLength_iff opening.isQuote_quote others).2 hClosed
      rw [hText, List.drop_left] at h
      cases hLength : quotedLength (opening.quote :: others) with
      | none =>
          rw [hLength] at hSome
          cases hSome
      | some length =>
          rw [hLength] at h
          cases h
  · rintro ⟨opening, others, hText, hOpen⟩
    obtain ⟨hBlank, hNewline, hNumber⟩ := opening.head_ne hText
    have hMark : stringMark? (c :: rest) = some opening.letters.length := by
      rw [hText]
      exact opening.stringMark? others
    have hDrop : (c :: rest).drop opening.letters.length = opening.quote :: others := by
      rw [hText, List.drop_left]
    have hNone : quotedLength (opening.quote :: others) = none := by
      rw [← Option.not_isSome_iff_eq_none, isSome_quotedLength_iff opening.isQuote_quote]
      exact hOpen
    simp only [lexeme, if_neg hBlank, if_neg hNewline, if_neg hNumber, hMark, hDrop, hNone]

/-! ## Strict readings -/

theorem append_inj_of_byteLength {front back front' back' : List Char}
    (h : front ++ back = front' ++ back') (hLength : byteLength front = byteLength front') :
    back = back' := by
  have hNil (more : List Char) (hZero : byteLength more = 0) : more = [] := by
    cases more with
    | nil => rfl
    | cons c rest =>
        have hSize := c.utf8Size_pos
        rw [byteLength_cons] at hZero
        omega
  rcases List.append_eq_append_iff.1 h with ⟨more, rfl, rfl⟩ | ⟨more, rfl, rfl⟩
  · rw [byteLength_append] at hLength
    rw [hNil more (by omega), List.nil_append]
  · rw [byteLength_append] at hLength
    rw [hNil more (by omega), List.nil_append]

/-- Only one place in a source has this many bytes before it. -/
theorem leftOpenAt_iff (front back : List Char) :
    LeftOpenAt (String.ofList (front ++ back)) (byteLength front) ↔ LeftOpen back := by
  constructor
  · rintro ⟨front', back', hSource, hLength, hOpen⟩
    have hList := congrArg String.toList hSource
    rw [String.toList_ofList, String.toList_append] at hList
    rw [← String.ofList_toList (s := front'), utf8ByteSize_ofList] at hLength
    rwa [append_inj_of_byteLength hList hLength.symm]
  · intro hOpen
    refine ⟨String.ofList front, String.ofList back, String.ofList_append,
      utf8ByteSize_ofList front, ?_⟩
    rwa [String.toList_ofList]

/-- A strict reading has the tokens of a lenient one up to the first that starts a literal which is
not closed. -/
theorem scanFrom_strict {source front text : List Char} {start : Nat}
    (hSource : source = front ++ text) (hStart : start = byteLength front) :
    ∃ before after, (scanFrom .lenient start text).tokens = before ++ after ∧
      (∀ t ∈ before, ¬ LeftOpenAt (String.ofList source) t.start) ∧
      (∀ t ∈ after.head?, LeftOpenAt (String.ofList source) t.start) ∧
      scanFrom .strict start text = ⟨before, after.head?.map Token.start⟩ := by
  induction start, text using scanFrom.induct QuoteReading.strict generalizing front with
  | case1 start =>
      have hNone (p : Token → Prop) : ∀ t ∈ ([] : List Token), p t :=
        fun t ht => absurd ht List.not_mem_nil
      refine ⟨[], [], ?_, hNone _, fun t ht => absurd ht (Option.not_mem_none t), ?_⟩
      · rw [scanFrom]
        rfl
      · rw [scanFrom]
        rfl
  | case2 start c rest hLexeme =>
      have hOpen := (lexeme_strict_eq_none_iff c rest).1 hLexeme
      obtain ⟨⟨kind, length⟩, hLenient⟩ :=
        Option.isSome_iff_exists.1 (lexeme_lenient_isSome c rest)
      refine ⟨[], (scanFrom .lenient start (c :: rest)).tokens, rfl, ?_, ?_, ?_⟩
      · exact fun t ht => absurd ht List.not_mem_nil
      · intro t ht
        rw [scanFrom, hLenient] at ht
        cases ht
        show LeftOpenAt _ start
        rw [hSource, hStart]
        exact (leftOpenAt_iff front (c :: rest)).2 hOpen
      · rw [scanFrom, hLexeme, scanFrom, hLenient]
        rfl
  | case3 start c rest kind length hLexeme =>
      rename_i token ih
      have hSplit : source = (front ++ c :: rest.take (length - 1)) ++ rest.drop (length - 1) := by
        rw [hSource, List.append_assoc, List.cons_append, List.take_append_drop]
      have hStop : token.stop = byteLength (front ++ c :: rest.take (length - 1)) := by
        rw [byteLength_append, ← hStart]
        rfl
      obtain ⟨before, after, hTokens, hBefore, hAfter, hStrict⟩ := ih hSplit hStop
      refine ⟨token :: before, after, ?_, ?_, hAfter, ?_⟩
      · rw [scanFrom, lexeme_lenient hLexeme]
        exact congrArg (token :: ·) hTokens
      · refine List.forall_mem_cons.2 ⟨fun hOpenAt => ?_, hBefore⟩
        have hOpen : LeftOpen (c :: rest) := by
          rw [← leftOpenAt_iff front, ← hSource, ← hStart]
          exact hOpenAt
        rw [(lexeme_strict_eq_none_iff c rest).2 hOpen] at hLexeme
        cases hLexeme
      · rw [scanFrom, hLexeme]
        show Scan.mk (token :: (scanFrom .strict token.stop _).tokens) _ = _
        rw [hStrict]

theorem join_texts (tokens : List Token) :
    String.join (tokens.map fun t => String.ofList t.text) =
      String.ofList (tokens.flatMap Token.text) := by
  induction tokens with
  | nil => rfl
  | cons t rest ih =>
      rw [List.map_cons, String.join_cons, ih, List.flatMap_cons, String.ofList_append]

/-- A lenient reading does not fail, and its tokens lie one after another in the source, from its
first byte to its last. A strict reading has the same tokens up to the first place where a quote
starts a literal that is not closed, and stops there. -/
theorem tokens_tile_source (source : String) :
    (scan .lenient source.toList).openQuote = none ∧
    Tiling source 0 (lenientTokens source.toList) ∧
    String.join ((lenientTokens source.toList).map fun t => String.ofList t.text) = source ∧
    ∃ before after, lenientTokens source.toList = before ++ after ∧
      (∀ t ∈ before, ¬ LeftOpenAt source t.start) ∧
      (∀ t ∈ after.head?, LeftOpenAt source t.start) ∧
      scan .strict source.toList = ⟨before, after.head?.map Token.start⟩ := by
  have hSource : source.toList = [] ++ source.toList := rfl
  have hTiling := tiling_scanFrom hSource byteLength_nil.symm
  have hStrict := scanFrom_strict hSource byteLength_nil.symm
  rw [String.ofList_toList] at hTiling hStrict
  refine ⟨scanFrom_lenient_openQuote 0 _, hTiling, ?_, hStrict⟩
  rw [join_texts, lenientTokens, scan, flatMap_text_scanFrom, String.ofList_toList]

example : scan .strict "é 'b".toList =
    ⟨[⟨.name, ['é'], 0⟩, ⟨.blank, [' '], 2⟩], some 3⟩ := by cbv

end Stencil
