import Stencil.Proofs.Quoting.Lexing

/-!
# Bytes of a text

Offsets count bytes, while lexemes are measured in characters. Numbers and strings may as well be
measured byte by byte, without a look at where characters start: a digit, a point or a quote is a
byte below 128, and all bytes of a character beyond those are 128 or more. A backslash takes in one
byte, be it the first of several; the others end nothing.

The measures are therefore applied to the bytes as they stand, each byte taken for the character
with its number.

## Main results

* `numberLength_bytes`, `startsLow_number`: a number has as many bytes as characters.
* `quotedLength_bytes`: a string ends at the same place in either reading.
* `endsBytewise_of_lexeme`: a number or a string that is measured in characters ends where its bytes
  say.
-/

namespace Stencil

open Stencil.Text

/-- The bytes of the UTF-8 form, each as the character with its number. -/
def bytes (text : List Char) : List Char :=
  text.flatMap fun c => (String.utf8EncodeChar c).map fun byte => Char.ofNat byte.toNat

/-! ## Bytes -/

theorem bytes_cons (c : Char) (rest : List Char) : bytes (c :: rest) = bytes [c] ++ bytes rest := by
  rw [bytes, List.flatMap_cons, bytes, List.flatMap_singleton, bytes]

theorem bytes_append (first second : List Char) :
    bytes (first ++ second) = bytes first ++ bytes second := List.flatMap_append

theorem length_bytes (text : List Char) : (bytes text).length = byteLength text := by
  induction text with
  | nil => rfl
  | cons c rest ih =>
      rw [bytes, List.flatMap_cons, List.length_append, List.length_map,
        String.length_utf8EncodeChar, byteLength_cons]
      exact congrArg (c.utf8Size + ·) ih

theorem drop_bytes (text : List Char) (count : Nat) :
    (bytes text).drop (byteLength (text.take count)) = bytes (text.drop count) := by
  have hSplit : bytes text = bytes (text.take count) ++ bytes (text.drop count) := by
    rw [← bytes_append, List.take_append_drop]
  rw [hSplit, ← length_bytes, List.drop_left]

/-- The one byte of a character below 128 is the character itself. -/
theorem bytes_of_lt {c : Char} (h : c.toNat < 128) : bytes [c] = [c] := by
  have hLe : c.val.toNat ≤ 127 := Nat.le_of_lt_succ h
  have hByte : (UInt8.ofNat c.val.toNat).toNat = c.toNat := by
    rw [UInt8.toNat_ofNat']
    exact Nat.mod_eq_of_lt (Nat.lt_of_lt_of_le h (by decide))
  rw [bytes, List.flatMap_singleton, String.utf8EncodeChar, if_pos hLe, List.map_singleton, hByte,
    Char.ofNat_toNat]

theorem bytes_cons_of_lt {c : Char} (h : c.toNat < 128) (rest : List Char) :
    bytes (c :: rest) = c :: bytes rest := by
  rw [bytes_cons, bytes_of_lt h]
  rfl

theorem utf8Size_of_lt {c : Char} (h : c.toNat < 128) : c.utf8Size = 1 := by
  have hLength := length_bytes [c]
  rw [bytes_of_lt h] at hLength
  exact hLength.symm

theorem le_of_mem_utf8EncodeChar {c : Char} (h : ¬ c.toNat < 128) {byte : UInt8}
    (hByte : byte ∈ String.utf8EncodeChar c) : 128 ≤ byte.toNat := by
  have hLe : ¬ c.val.toNat ≤ 127 := fun hLe => h (Nat.lt_succ_of_le hLe)
  have hMax : c.val.toNat / 262144 % 8 + 240 < 256 := by omega
  rw [String.utf8EncodeChar] at hByte
  simp only [if_neg hLe] at hByte
  split at hByte
  · simp only [List.mem_cons, List.not_mem_nil, or_false] at hByte
    rcases hByte with rfl | rfl <;> rw [UInt8.toNat_ofNat'] <;> omega
  split at hByte
  · simp only [List.mem_cons, List.not_mem_nil, or_false] at hByte
    rcases hByte with rfl | rfl | rfl <;> rw [UInt8.toNat_ofNat'] <;> omega
  · simp only [List.mem_cons, List.not_mem_nil, or_false] at hByte
    rcases hByte with rfl | rfl | rfl | rfl <;> rw [UInt8.toNat_ofNat'] <;> omega

/-- Every byte of any other character is 128 or more. -/
theorem le_of_mem_bytes {c d : Char} (h : ¬ c.toNat < 128) (hMem : d ∈ bytes [c]) :
    ¬ d.toNat < 128 := by
  rw [bytes, List.flatMap_singleton, List.mem_map] at hMem
  obtain ⟨byte, hByte, rfl⟩ := hMem
  have hLe := le_of_mem_utf8EncodeChar h hByte
  have hValid : byte.toNat.isValidChar := Or.inl (Nat.lt_trans byte.toNat_lt (by decide))
  rw [Char.ofNat, dif_pos hValid]
  show ¬ byte.toNat < 128
  omega

theorem bytes_ne_nil (c : Char) : bytes [c] ≠ [] := by
  intro hNil
  have hLength := length_bytes [c]
  rw [hNil] at hLength
  exact absurd hLength (Nat.ne_of_lt c.utf8Size_pos)

theorem bytes_cons_of_not_lt {c : Char} (h : ¬ c.toNat < 128) (rest : List Char) :
    ∃ first more, bytes (c :: rest) = first :: more ∧ ¬ first.toNat < 128 := by
  obtain ⟨first, more, hFirst⟩ := List.exists_cons_of_ne_nil (bytes_ne_nil c)
  refine ⟨first, more ++ bytes rest, ?_, le_of_mem_bytes h ?_⟩
  · rw [bytes_cons, hFirst, List.cons_append]
  · rw [hFirst]
    exact List.mem_cons_self ..

/-! ## Numbers -/

/-- A run of characters below 128 is the same among bytes. -/
theorem takeWhile_bytes {p : Char → Bool} (hp : ∀ c, p c = true → c.toNat < 128)
    (text : List Char) : (bytes text).takeWhile p = text.takeWhile p := by
  induction text with
  | nil => rfl
  | cons c rest ih =>
      by_cases hc : c.toNat < 128
      · rw [bytes_cons_of_lt hc, List.takeWhile_cons, List.takeWhile_cons, ih]
      · obtain ⟨first, more, hFirst, hHigh⟩ := bytes_cons_of_not_lt hc rest
        rw [hFirst, List.takeWhile_cons_of_neg fun h => hHigh (hp _ h),
          List.takeWhile_cons_of_neg fun h => hc (hp _ h)]

/-- The first characters of the text are below 128, as many as `count` says. -/
def StartsLow (count : Nat) (text : List Char) : Prop := ∀ c ∈ text.take count, c.toNat < 128

theorem byteLength_of_forall {text : List Char} (h : ∀ c ∈ text, c.toNat < 128) :
    byteLength text = text.length := by
  induction text with
  | nil => rfl
  | cons c rest ih =>
      obtain ⟨hc, hRest⟩ := List.forall_mem_cons.1 h
      rw [byteLength_cons, utf8Size_of_lt hc, ih hRest, List.length_cons, Nat.add_comm]

theorem StartsLow.byteLength {count : Nat} {text : List Char} (h : StartsLow count text)
    (hCount : count ≤ text.length) : byteLength (text.take count) = count := by
  rw [byteLength_of_forall h, List.length_take_of_le hCount]

theorem StartsLow.drop {count : Nat} {text : List Char} (h : StartsLow count text)
    (hCount : count ≤ text.length) : (bytes text).drop count = bytes (text.drop count) := by
  rw [← drop_bytes, h.byteLength hCount]

theorem StartsLow.add {first second : Nat} {text : List Char} (h : StartsLow first text)
    (hSecond : StartsLow second (text.drop first)) : StartsLow (first + second) text := by
  intro c hc
  rw [List.take_add, List.mem_append] at hc
  exact hc.elim (h c) (hSecond c)

theorem startsLow_takeWhile {p : Char → Bool} (hp : ∀ c, p c = true → c.toNat < 128)
    (text : List Char) : StartsLow (text.takeWhile p).length text := by
  intro c hc
  rw [← List.prefix_iff_eq_take.1 (List.takeWhile_prefix p)] at hc
  exact hp c (List.all_eq_true.1 List.all_takeWhile c hc)

theorem lt_of_isDigit {c : Char} (h : c.isDigit = true) : c.toNat < 128 := by
  rw [Char.isDigit, Bool.and_eq_true, decide_eq_true_eq, decide_eq_true_eq] at h
  exact Nat.lt_of_le_of_lt (UInt32.le_iff_toNat_le.1 h.2) (by decide)

theorem lt_of_isHexDigit {c : Char} (h : isHexDigit c = true) : c.toNat < 128 := by
  simp only [isHexDigit, Bool.or_eq_true, Bool.and_eq_true, decide_eq_true_eq] at h
  have hUpTo (last : Char) (hLast : last.toNat < 128) (hc : c ≤ last) : c.toNat < 128 :=
    Nat.lt_of_le_of_lt (UInt32.le_iff_toNat_le.1 hc) hLast
  rcases h with (h | h) | h
  · exact lt_of_isDigit h
  · exact hUpTo 'f' (by decide) h.2
  · exact hUpTo 'F' (by decide) h.2

theorem lt_of_isDigit_or {c : Char} (h : (c.isDigit || c == '_') = true) : c.toNat < 128 := by
  rw [Bool.or_eq_true, beq_iff_eq] at h
  exact h.elim lt_of_isDigit fun h => by rw [h]; decide

theorem lt_of_isHexDigit_or {c : Char} (h : (isHexDigit c || c == '_') = true) :
    c.toNat < 128 := by
  rw [Bool.or_eq_true, beq_iff_eq] at h
  exact h.elim lt_of_isHexDigit fun h => by rw [h]; decide

theorem head?_bytes {c : Char} (hc : c.toNat < 128) (text : List Char) :
    (bytes text).head? = some c ↔ text.head? = some c := by
  cases text with
  | nil => rfl
  | cons d rest =>
      by_cases hd : d.toNat < 128
      · rw [bytes_cons_of_lt hd]
        rfl
      · obtain ⟨first, more, hFirst, hHigh⟩ := bytes_cons_of_not_lt hd rest
        rw [hFirst]
        simp only [List.head?_cons, Option.some.injEq]
        constructor
        · rintro rfl
          exact absurd hc hHigh
        · rintro rfl
          exact absurd hc hd

theorem fractionLength_of_head? {text : List Char} (h : text.head? ≠ some '.') :
    fractionLength text = 0 := by
  unfold fractionLength
  split
  · exact absurd rfl h
  · rfl

theorem fractionLength_bytes (text : List Char) :
    fractionLength (bytes text) = fractionLength text := by
  by_cases hPoint : text.head? = some '.'
  · obtain ⟨rest, rfl⟩ : ∃ rest, text = '.' :: rest := by
      cases text with
      | nil => cases hPoint
      | cons c rest => exact ⟨rest, by rw [Option.some.inj hPoint]⟩
    rw [bytes_cons_of_lt (by decide)]
    simp only [fractionLength, takeWhile_bytes (fun _ => lt_of_isDigit)]
  · rw [fractionLength_of_head? hPoint,
      fractionLength_of_head? fun h => hPoint ((head?_bytes (by decide) text).1 h)]

theorem startsLow_zero (text : List Char) : StartsLow 0 text := nofun

theorem StartsLow.cons {c : Char} {count : Nat} {rest : List Char} (hc : c.toNat < 128)
    (h : StartsLow count rest) : StartsLow (count + 1) (c :: rest) := by
  intro d hd
  rw [List.take_succ_cons, List.mem_cons] at hd
  exact hd.elim (fun h => h ▸ hc) (h d)

theorem startsLow_fraction (text : List Char) : StartsLow (fractionLength text) text := by
  unfold fractionLength
  split
  · simp only
    split
    · exact startsLow_zero _
    · exact (startsLow_takeWhile (fun _ => lt_of_isDigit) _).cons (by decide)
  · exact startsLow_zero _

/-- The length of the sign that the text starts with. -/
def signLength : List Char → Nat
  | s :: _ => if s = '+' ∨ s = '-' then 1 else 0
  | [] => 0

theorem exponentLength_cons (c : Char) (rest : List Char) : exponentLength (c :: rest) =
    if c = 'e' ∨ c = 'E' then
      let digits := ((rest.drop (signLength rest)).takeWhile Char.isDigit).length
      if digits = 0 then 0 else 1 + signLength rest + digits
    else 0 := by
  cases rest <;> rfl

theorem signLength_bytes (text : List Char) : signLength (bytes text) = signLength text := by
  cases text with
  | nil => rfl
  | cons s rest =>
      by_cases hs : s.toNat < 128
      · rw [bytes_cons_of_lt hs]
        rfl
      · obtain ⟨first, more, hFirst, hHigh⟩ := bytes_cons_of_not_lt hs rest
        rw [hFirst, signLength, signLength, if_neg, if_neg]
        · rintro (rfl | rfl) <;> exact hs (by decide)
        · rintro (rfl | rfl) <;> exact hHigh (by decide)

theorem startsLow_sign (text : List Char) : StartsLow (signLength text) text := by
  unfold signLength
  split
  · split
    · rename_i hSign
      refine (startsLow_zero _).cons ?_
      rcases hSign with rfl | rfl <;> decide
    · exact startsLow_zero _
  · exact startsLow_zero _

theorem signLength_le (text : List Char) : signLength text ≤ text.length := by
  cases text with
  | nil => exact Nat.le_refl _
  | cons s rest =>
      rw [signLength, List.length_cons]
      split <;> omega

theorem exponentLength_bytes (text : List Char) :
    exponentLength (bytes text) = exponentLength text := by
  cases text with
  | nil => rfl
  | cons c rest =>
      by_cases hc : c.toNat < 128
      · rw [bytes_cons_of_lt hc, exponentLength_cons, exponentLength_cons, signLength_bytes,
          (startsLow_sign rest).drop (signLength_le rest), takeWhile_bytes fun _ => lt_of_isDigit]
      · obtain ⟨first, more, hFirst, hHigh⟩ := bytes_cons_of_not_lt hc rest
        rw [hFirst, exponentLength_cons, exponentLength_cons,
          if_neg, if_neg]
        · rintro (rfl | rfl) <;> exact hc (by decide)
        · rintro (rfl | rfl) <;> exact hHigh (by decide)

theorem startsLow_exponent (text : List Char) : StartsLow (exponentLength text) text := by
  cases text with
  | nil => exact startsLow_zero _
  | cons c rest =>
      rw [exponentLength_cons]
      split
      · rename_i hMark
        have hc : c.toNat < 128 := by rcases hMark with rfl | rfl <;> decide
        simp only
        split
        · exact startsLow_zero _
        · rw [Nat.add_assoc, Nat.add_comm]
          exact ((startsLow_sign rest).add
            (startsLow_takeWhile (fun _ => lt_of_isDigit) _)).cons hc
      · exact startsLow_zero _

theorem hasBaseMark_of_ne {c : Char} (h : c ≠ '0') (rest : List Char) :
    hasBaseMark (c :: rest) = false := by
  cases rest <;> simp [hasBaseMark, h]

theorem lt_of_isBaseMark {c : Char} (h : ['x', 'X', 'o', 'O', 'b', 'B'].contains c = true) :
    c.toNat < 128 := by
  have hLow : ∀ mark ∈ ['x', 'X', 'o', 'O', 'b', 'B'], mark.toNat < 128 := by simp
  exact hLow c (List.contains_iff_mem.1 h)

theorem startsLow_of_hasBaseMark {text : List Char} (h : hasBaseMark text = true) :
    StartsLow 2 text := by
  unfold hasBaseMark at h
  split at h
  · exact ((startsLow_zero _).cons (lt_of_isBaseMark h)).cons (by decide)
  · cases h

theorem hasBaseMark_bytes (text : List Char) : hasBaseMark (bytes text) = hasBaseMark text := by
  rcases text with _ | ⟨c, rest⟩
  · rfl
  by_cases hZero : c = '0'
  · rw [hZero, bytes_cons_of_lt (by decide)]
    rcases rest with _ | ⟨d, others⟩
    · rfl
    by_cases hd : d.toNat < 128
    · rw [bytes_cons_of_lt hd]
      rfl
    · obtain ⟨first, more, hFirst, hHigh⟩ := bytes_cons_of_not_lt hd others
      rw [hFirst]
      show ['x', 'X', 'o', 'O', 'b', 'B'].contains first =
        ['x', 'X', 'o', 'O', 'b', 'B'].contains d
      rw [Bool.eq_false_iff.2 fun h => hHigh (lt_of_isBaseMark h),
        Bool.eq_false_iff.2 fun h => hd (lt_of_isBaseMark h)]
  · rw [hasBaseMark_of_ne hZero]
    by_cases hc : c.toNat < 128
    · rw [bytes_cons_of_lt hc, hasBaseMark_of_ne hZero]
    · obtain ⟨first, more, hFirst, hHigh⟩ := bytes_cons_of_not_lt hc rest
      rw [hFirst, hasBaseMark_of_ne]
      rintro rfl
      exact hHigh (by decide)

theorem numberLength_bytes (text : List Char) : numberLength (bytes text) = numberLength text := by
  unfold numberLength
  rw [hasBaseMark_bytes]
  split
  · rename_i hBase
    rw [(startsLow_of_hasBaseMark hBase).drop (two_le_of_hasBaseMark hBase),
      takeWhile_bytes fun _ => lt_of_isHexDigit_or]
  · have hWhole := startsLow_takeWhile (fun _ => lt_of_isDigit_or) text
    have hLength : (text.takeWhile fun c => c.isDigit || c == '_').length ≤ text.length :=
      (List.takeWhile_sublist _).length_le
    simp only [takeWhile_bytes fun _ => lt_of_isDigit_or]
    generalize (text.takeWhile fun c => c.isDigit || c == '_').length = whole at hWhole hLength ⊢
    have hFraction := fractionLength_le (text.drop whole)
    rw [List.length_drop] at hFraction
    rw [hWhole.drop hLength, fractionLength_bytes,
      (hWhole.add (startsLow_fraction _)).drop (by omega), exponentLength_bytes]

theorem startsLow_number (text : List Char) : StartsLow (numberLength text) text := by
  unfold numberLength
  split
  · rename_i hBase
    have hMark := startsLow_of_hasBaseMark hBase
    exact hMark.add (startsLow_takeWhile (fun _ => lt_of_isHexDigit_or) _)
  · have hWhole := startsLow_takeWhile (fun _ => lt_of_isDigit_or) text
    exact (hWhole.add (startsLow_fraction _)).add (startsLow_exponent _)

/-! ## Strings -/

section Strings

variable {quote : Char} (hQuote : quote.toNat < 128)

include hQuote in
/-- Bytes of 128 or more end no string. -/
theorem closeOnLine_high {high : List Char} (h : ∀ c ∈ high, ¬ c.toNat < 128)
    (rest : List Char) :
    closeOnLine quote (high ++ rest) = (closeOnLine quote rest).map (· + high.length) := by
  induction high with
  | nil => exact (Option.map_id' ..).symm
  | cons c others ih =>
      obtain ⟨hc, hOthers⟩ := List.forall_mem_cons.1 h
      have hNe (d : Char) (hd : d.toNat < 128) : c ≠ d := fun hEq => hc (hEq ▸ hd)
      rw [List.cons_append, closeOnLine_cons (hNe _ (by decide)) (hNe _ (by decide)),
        if_neg (hNe _ hQuote), ih hOthers, Option.map_map]
      rfl

include hQuote in
theorem closeLong_high {high : List Char} (h : ∀ c ∈ high, ¬ c.toNat < 128)
    (rest : List Char) :
    closeLong quote (high ++ rest) = (closeLong quote rest).map (· + high.length) := by
  induction high with
  | nil => exact (Option.map_id' ..).symm
  | cons c others ih =>
      obtain ⟨hc, hOthers⟩ := List.forall_mem_cons.1 h
      have hNe (d : Char) (hd : d.toNat < 128) : c ≠ d := fun hEq => hc (hEq ▸ hd)
      rw [List.cons_append, closeLong_cons (hNe _ (by decide)),
        if_neg fun h => hNe _ hQuote h.1, ih hOthers, Option.map_map]
      rfl

/-- The length in bytes of the first characters of a text. -/
def bytesOf (text : List Char) (count : Nat) : Nat := byteLength (text.take count)

theorem bytesOf_succ (c : Char) (rest : List Char) (count : Nat) :
    bytesOf (c :: rest) (count + 1) = bytesOf rest count + c.utf8Size := by
  rw [bytesOf, List.take_succ_cons, byteLength_cons, Nat.add_comm, bytesOf]

/-- The bytes of a character after its first one are 128 or more. -/
theorem exists_bytes (c : Char) : ∃ first more, bytes [c] = first :: more ∧
    (∀ d ∈ more, ¬ d.toNat < 128) ∧ more.length + 1 = c.utf8Size := by
  obtain ⟨first, more, hFirst⟩ := List.exists_cons_of_ne_nil (bytes_ne_nil c)
  have hSize := length_bytes [c]
  rw [hFirst] at hSize
  refine ⟨first, more, hFirst, ?_, hSize⟩
  by_cases hc : c.toNat < 128
  · rw [bytes_of_lt hc] at hFirst
    cases hFirst
    exact nofun
  · exact fun d hd => le_of_mem_bytes hc (by rw [hFirst]; exact List.mem_cons_of_mem _ hd)

/-- What is skipped with a backslash, and the bytes of 128 or more after it. -/
theorem map_escaped (c : Char) (rest : List Char) (found : Option Nat) {more : Nat}
    (hMore : more + 1 = c.utf8Size) :
    ((found.map (bytesOf rest)).map (· + more)).map (· + 2) =
      (found.map (· + 2)).map (bytesOf ('\\' :: c :: rest)) := by
  have hBackslash : '\\'.utf8Size = 1 := utf8Size_of_lt (by decide)
  simp only [Option.map_map]
  refine congrArg (Option.map · _) (funext fun count => ?_)
  simp only [Function.comp_apply, bytesOf_succ]
  omega

theorem map_passed (c : Char) (rest : List Char) (found : Option Nat) :
    (found.map (bytesOf rest)).map (· + c.utf8Size) =
      (found.map (· + 1)).map (bytesOf (c :: rest)) := by
  simp only [Option.map_map]
  exact congrArg (Option.map · _) (funext fun count => (bytesOf_succ c rest count).symm)

include hQuote in
/-- A string ends at the same place when it is read byte by byte. A backslash takes in the first
byte of the character after it; the others are 128 or more, so they end nothing. -/
theorem closeOnLine_bytes (text : List Char) :
    closeOnLine quote (bytes text) = (closeOnLine quote text).map (bytesOf text) := by
  induction text using closeOnLine.induct quote with
  | case1 => rfl
  | case2 => rfl
  | case3 c rest ih =>
      obtain ⟨first, more, hFirst, hMore, hSize⟩ := exists_bytes c
      rw [bytes_cons_of_lt (by decide), bytes_cons, hFirst, List.cons_append, closeOnLine,
        closeOnLine_high hQuote hMore, ih, closeOnLine, map_escaped c rest _ hSize]
  | case4 rest =>
      rw [bytes_cons_of_lt (by decide)]
      rfl
  | case5 rest hEnd hEscape hNewline =>
      have hPlain := ne_backslash hEnd hEscape
      rw [bytes_cons_of_lt hQuote, closeOnLine_cons hPlain hNewline, if_pos rfl,
        closeOnLine_cons hPlain hNewline, if_pos rfl, Option.map_some, bytesOf_succ,
        utf8Size_of_lt hQuote]
      rfl
  | case6 c rest hEnd hEscape hNewline hOther ih =>
      have hPlain := ne_backslash hEnd hEscape
      rw [closeOnLine_cons hPlain hNewline, if_neg hOther, ← map_passed, ← ih]
      by_cases hc : c.toNat < 128
      · rw [bytes_cons_of_lt hc, closeOnLine_cons hPlain hNewline, if_neg hOther,
          utf8Size_of_lt hc]
      · rw [bytes_cons, closeOnLine_high hQuote fun d => le_of_mem_bytes hc, length_bytes]
        rfl

theorem prefix_bytes {low : List Char} (h : ∀ c ∈ low, c.toNat < 128) (text : List Char) :
    low <+: bytes text ↔ low <+: text := by
  induction low generalizing text with
  | nil => simp
  | cons c others ih =>
      obtain ⟨hc, hOthers⟩ := List.forall_mem_cons.1 h
      cases text with
      | nil => rfl
      | cons d rest =>
          by_cases hd : d.toNat < 128
          · rw [bytes_cons_of_lt hd, List.cons_prefix_cons, List.cons_prefix_cons, ih hOthers]
          · obtain ⟨first, more, hFirst, hHigh⟩ := bytes_cons_of_not_lt hd rest
            rw [hFirst, List.cons_prefix_cons, List.cons_prefix_cons]
            constructor
            · rintro ⟨rfl, -⟩
              exact absurd hc hHigh
            · rintro ⟨rfl, -⟩
              exact absurd hc hd

include hQuote in
theorem take_two_bytes (text : List Char) :
    (bytes text).take 2 = [quote, quote] ↔ text.take 2 = [quote, quote] := by
  have hPrefix (text : List Char) : text.take 2 = [quote, quote] ↔ [quote, quote] <+: text := by
    rw [List.prefix_iff_eq_take]
    exact eq_comm
  rw [hPrefix, hPrefix, prefix_bytes]
  simp [hQuote]

include hQuote in
theorem closeLong_bytes (text : List Char) :
    closeLong quote (bytes text) = (closeLong quote text).map (bytesOf text) := by
  induction text using closeLong.induct quote with
  | case1 => rfl
  | case2 => rfl
  | case3 c rest ih =>
      obtain ⟨first, more, hFirst, hMore, hSize⟩ := exists_bytes c
      rw [bytes_cons_of_lt (by decide), bytes_cons, hFirst, List.cons_append, closeLong,
        closeLong_high hQuote hMore, ih, closeLong, map_escaped c rest _ hSize]
  | case4 c rest hEnd hEscape hQuotes =>
      have hPlain := ne_backslash hEnd hEscape
      obtain ⟨rfl, hTwo⟩ := hQuotes
      have hThree : bytesOf (c :: rest) 3 = 3 := by
        rw [bytesOf_succ, bytesOf, hTwo, utf8Size_of_lt hQuote]
        simp [utf8Size_of_lt hQuote]
      rw [bytes_cons_of_lt hQuote, closeLong_cons hPlain,
        if_pos ⟨rfl, (take_two_bytes hQuote rest).2 hTwo⟩, closeLong_cons hPlain,
        if_pos ⟨rfl, hTwo⟩, Option.map_some, hThree]
  | case5 c rest hEnd hEscape hQuotes ih =>
      have hPlain := ne_backslash hEnd hEscape
      rw [closeLong_cons hPlain, if_neg hQuotes, ← map_passed, ← ih]
      by_cases hc : c.toNat < 128
      · have hNot : ¬ (c = quote ∧ (bytes rest).take 2 = [quote, quote]) :=
          fun h => hQuotes ⟨h.1, (take_two_bytes hQuote rest).1 h.2⟩
        rw [bytes_cons_of_lt hc, closeLong_cons hPlain, if_neg hNot, utf8Size_of_lt hc]
      · rw [bytes_cons, closeLong_high hQuote fun d => le_of_mem_bytes hc, length_bytes]
        rfl

include hQuote in
/-- A string from its opening quote on ends at the same place when it is read byte by byte. -/
theorem quotedLength_bytes (rest : List Char) : quotedLength (bytes (quote :: rest)) =
    (quotedLength (quote :: rest)).map (bytesOf (quote :: rest)) := by
  rw [bytes_cons_of_lt hQuote, quotedLength, quotedLength]
  by_cases hTwo : rest.take 2 = [quote, quote]
  · rw [if_pos hTwo, if_pos ((take_two_bytes hQuote rest).2 hTwo)]
    obtain ⟨others, rfl⟩ : ∃ others, rest = quote :: quote :: others := by
      have hSplit := List.take_append_drop 2 rest
      rw [hTwo] at hSplit
      exact ⟨rest.drop 2, hSplit.symm⟩
    rw [bytes_cons_of_lt hQuote, bytes_cons_of_lt hQuote]
    show (closeLong quote (bytes others)).map (· + 3) =
      ((closeLong quote others).map (· + 3)).map (bytesOf (quote :: quote :: quote :: others))
    rw [closeLong_bytes hQuote, Option.map_map, Option.map_map]
    refine congrArg (Option.map · _) (funext fun count => ?_)
    simp only [Function.comp_apply, bytesOf_succ, utf8Size_of_lt hQuote]
  · rw [if_neg hTwo, if_neg fun h => hTwo ((take_two_bytes hQuote rest).1 h),
      closeOnLine_bytes hQuote, ← map_passed, utf8Size_of_lt hQuote]

end Strings

theorem lt_of_isQuote {c : Char} (h : isQuote c = true) : c.toNat < 128 := by
  rw [isQuote, Bool.or_eq_true, beq_iff_eq, beq_iff_eq] at h
  rcases h with rfl | rfl <;> decide

theorem lt_of_isStringMark {c : Char} (h : isStringMark c = true) : c.toNat < 128 := by
  have hLow : ∀ mark ∈ ['r', 'R', 'u', 'U', 'b', 'B'], mark.toNat < 128 := by simp
  exact hLow c (List.contains_iff_mem.1 h)

/-- What a string starts with: a quote, and in front of it at most one letter. -/
structure Opening where
  letters : List Char
  quote : Char
  length_le : letters.length ≤ 1
  marks : ∀ c ∈ letters, isStringMark c = true
  isQuote_quote : isQuote quote = true

namespace Opening

theorem stringMark? (opening : Opening) (rest : List Char) :
    Stencil.stringMark? (opening.letters ++ opening.quote :: rest) =
      some opening.letters.length := by
  obtain ⟨letters, quote, hLength, hMarks, hQuote⟩ := opening
  rcases letters with _ | ⟨c, _ | ⟨d, others⟩⟩
  · simp [Stencil.stringMark?, hQuote]
  · have hMark := hMarks c (List.mem_singleton_self c)
    have hNot : isQuote c = false := by
      have hEach : ∀ mark ∈ ['r', 'R', 'u', 'U', 'b', 'B'], isQuote mark = false := by
        simp [isQuote]
      exact hEach c (List.contains_iff_mem.1 hMark)
    simp [Stencil.stringMark?, hQuote, hMark, hNot]
  · exact absurd hLength (by simp)

theorem exists_of_stringMark? {text : List Char} {length : Nat}
    (h : Stencil.stringMark? text = some length) : ∃ (opening : Opening) (rest : List Char),
      text = opening.letters ++ opening.quote :: rest ∧ length = opening.letters.length := by
  unfold Stencil.stringMark? at h
  split at h
  · rename_i c rest
    split at h
    · rename_i hQuote
      exact ⟨⟨[], c, Nat.zero_le _, nofun, hQuote⟩, rest, rfl, (Option.some.inj h).symm⟩
    split at h
    · rename_i q others
      simp only [Option.ite_none_right_eq_some, Bool.and_eq_true, Option.some.injEq] at h
      obtain ⟨⟨hMark, hQuote⟩, rfl⟩ := h
      refine ⟨⟨[c], q, Nat.le_refl _, fun d hd => ?_, hQuote⟩, others, rfl, rfl⟩
      rwa [List.mem_singleton.1 hd]
    · cases h
  · cases h

theorem bytes_eq (opening : Opening) (rest : List Char) :
    bytes (opening.letters ++ opening.quote :: rest) =
      opening.letters ++ bytes (opening.quote :: rest) := by
  have hLetters : bytes opening.letters = opening.letters := by
    rcases opening with ⟨_ | ⟨c, _ | ⟨d, others⟩⟩, quote, hLength, hMarks, hQuote⟩
    · rfl
    · exact bytes_of_lt (lt_of_isStringMark (hMarks c (List.mem_singleton_self c)))
    · exact absurd hLength (by simp)
  rw [bytes_append, hLetters]

end Opening

/-! ## Tokens -/

/-- Where a number or a string ends that is measured byte by byte. -/
def Token.EndsBytewise (t : Token) (source : List Char) : Prop :=
  match t.kind with
  | .number => t.stop = t.start + numberLength ((bytes source).drop t.start)
  | .string => ∃ letters length,
      stringMark? ((bytes source).drop t.start) = some letters ∧
      quotedLength ((bytes source).drop (t.start + letters)) = some length ∧
      t.stop = t.start + letters + length
  | _ => True

theorem plainLexeme_number {c : Char} {text : List Char} {length : Nat}
    (h : plainLexeme c text = (.number, length)) :
    c.isDigit = true ∧ length = numberLength text := by
  unfold plainLexeme at h
  split at h
  · cases h
  split at h
  · rename_i hDigit
    cases h
    exact ⟨hDigit, rfl⟩
  split at h
  · cases h
  split at h
  · cases h
  split at h
  · cases h
  split at h <;> cases h

theorem plainLexeme_ne_string (c : Char) (text : List Char) :
    (plainLexeme c text).1 ≠ .string := by
  unfold plainLexeme
  repeat' split
  all_goals exact nofun

theorem lexeme_number {reading : QuoteReading} {c : Char} {rest : List Char} {length : Nat}
    (h : lexeme reading (c :: rest) = some (.number, length)) :
    c.isDigit = true ∧ length = numberLength (c :: rest) := by
  simp only [lexeme] at h
  split at h
  · cases h
  split at h
  · cases h
  split at h
  · cases h
  split at h
  · exact plainLexeme_number (Option.some.inj h)
  · split at h
    · cases h
    · cases h
    · split at h <;> cases h

theorem lexeme_string {reading : QuoteReading} {c : Char} {rest : List Char} {length : Nat}
    (h : lexeme reading (c :: rest) = some (.string, length)) :
    ∃ letters inner, stringMark? (c :: rest) = some letters ∧
      quotedLength ((c :: rest).drop letters) = some inner ∧ length = letters + inner := by
  simp only [lexeme] at h
  split at h
  · cases h
  split at h
  · cases h
  split at h
  · cases h
  split at h
  · exact absurd (congrArg Prod.fst (Option.some.inj h)) (plainLexeme_ne_string c _)
  · rename_i letters hMark
    split at h
    · rename_i inner hInner
      cases h
      exact ⟨letters, inner, hMark, hInner, rfl⟩
    · cases h
    · split at h <;> cases h

theorem numberLength_pos {c : Char} (h : c.isDigit = true) (rest : List Char) :
    0 < numberLength (c :: rest) := by
  unfold numberLength
  split
  · exact Nat.add_pos_left (by decide) _
  · rw [List.takeWhile_cons_of_pos (by simp [h])]
    simp only [List.length_cons]
    omega

theorem quotedLength_pos {text : List Char} {length : Nat} (h : quotedLength text = some length) :
    0 < length := by
  unfold quotedLength at h
  split at h
  · split at h
    all_goals
      obtain ⟨inner, -, rfl⟩ := Option.map_eq_some_iff.1 h
      exact Nat.succ_pos _
  · cases h

theorem take_of_pos {length : Nat} (h : 0 < length) (c : Char) (rest : List Char) :
    c :: rest.take (length - 1) = (c :: rest).take length := by
  obtain ⟨count, rfl⟩ := Nat.exists_eq_succ_of_ne_zero (Nat.ne_of_gt h)
  rfl

/-- A token that is measured in characters ends where the bytes say. -/
theorem endsBytewise_of_lexeme {reading : QuoteReading} {c : Char} {rest : List Char}
    {kind : TokenKind} {length : Nat} (h : lexeme reading (c :: rest) = some (kind, length))
    (front : List Char) :
    (Token.mk kind (c :: rest.take (length - 1)) (byteLength front)).EndsBytewise
      (front ++ c :: rest) := by
  have hDrop : (bytes (front ++ c :: rest)).drop (byteLength front) = bytes (c :: rest) := by
    rw [bytes_append, ← length_bytes, List.drop_left]
  unfold Token.EndsBytewise
  cases kind with
  | number =>
      obtain ⟨hDigit, rfl⟩ := lexeme_number h
      have hLength := (startsLow_number (c :: rest)).byteLength (numberLength_le _)
      simp only [Token.stop, hDrop, numberLength_bytes,
        take_of_pos (numberLength_pos hDigit rest), hLength]
  | string =>
      obtain ⟨letters, inner, hMark, hInner, rfl⟩ := lexeme_string h
      obtain ⟨opening, others, hText, rfl⟩ := Opening.exists_of_stringMark? hMark
      have hQuote := lt_of_isQuote opening.isQuote_quote
      have hLetters : byteLength opening.letters = opening.letters.length :=
        byteLength_of_forall fun d hd => lt_of_isStringMark (opening.marks d hd)
      rw [hText, List.drop_left] at hInner
      refine ⟨opening.letters.length, bytesOf (opening.quote :: others) inner, ?_, ?_, ?_⟩
      · rw [hDrop, hText, opening.bytes_eq, bytes_cons_of_lt hQuote]
        exact opening.stringMark? _
      · rw [← List.drop_drop, hDrop, hText, opening.bytes_eq, List.drop_left,
          quotedLength_bytes hQuote, hInner]
        rfl
      · have hPos : 0 < opening.letters.length + inner :=
          Nat.add_pos_right _ (quotedLength_pos hInner)
        simp only [Token.stop, take_of_pos hPos]
        rw [hText, List.take_length_add_append, byteLength_append, hLetters, bytesOf,
          Nat.add_assoc]
  | _ => trivial

end Stencil
