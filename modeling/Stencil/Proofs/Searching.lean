import Stencil.Proofs.Searching.Pieces
import Stencil.Proofs.Slicing

/-!
# Searching in strings

Six methods and an operator of strings ask where one text stands in another one. They all mean the
same places: those that come one after another from the left without an overlap. Taking a string
apart and putting it together again gives the string back; putting another text between the pieces
is the replacement; the places are counted by the pieces between them; and the first place is the
one that is found, the leftmost position from which the string goes on with what is looked for.

Without a text to look for, a string is taken apart into words. A limit leaves the string whole from
the next word on.

## Main results

* `isSplit_splitOn`: pieces, joining and replacement belong together, with a limit or without one.
* `startsFrom_iff`: a string goes on with a text from the places where the text stands.
* `search_methods_agree`: all of this for every string and every text that is not empty.
-/

namespace Stencil

open Stencil.Text Stencil.Number

/-! ## Arguments that set a limit -/

/-- The last arguments of a call set this limit: there are none, or there is one number that is not
negative. -/
inductive IsLimit : List Value → Option Nat → Prop
  | absent : IsLimit [] none
  | number {value : Value} {n : Int64} (h : value.asInt? = some n) (hn : 0 ≤ n.toInt) :
      IsLimit [value] (some n.toInt.toNat)

theorem limit_of_nonneg {n : Int64} (hn : 0 ≤ n.toInt) :
    (if n < 0 then none else some n.toInt.toNat) = some n.toInt.toNat := by
  rw [if_neg]
  rw [Int64.lt_iff_toInt_lt]
  exact Int.not_lt.2 hn

/-! ## The methods -/

section Methods

variable {s p : String} (mark mark' : Mark)

section Limits

variable {more : List Value} {limit : Option Nat} (hSought : p ≠ "") (h : IsLimit more limit)

include hSought h

theorem callMethod_split : callMethod (.string s mark) "split" (.ofList (.string p mark' :: more)) =
    .ok (.ofList ((splitOn p.toList limit s.toList).map .ofChars)) := by
  have hSome : ¬ p.isEmpty = true := by simpa using hSought
  cases h with
  | absent =>
      show ite _ _ _ = _
      rw [if_neg hSome]
      rfl
  | @number value n h hn =>
      show (value.wantInt "maxsplit" >>= _) = _
      rw [wantInt_of_asInt? h, bind_ok, limit_of_nonneg hn]
      show ite _ _ _ = _
      rw [if_neg hSome]
      rfl

theorem callMethod_replace (q : String) (other : Mark) :
    callMethod (.string s mark) "replace" (.ofList (.string p mark' :: .string q other :: more)) =
      .ok (.ofChars (q.toList.intercalate (splitOn p.toList limit s.toList))) := by
  have hReplace (limit : Option Nat) : replace p.toList q.toList limit s.toList =
      q.toList.intercalate (splitOn p.toList limit s.toList) :=
    if_neg (by simpa using hSought)
  cases h with
  | absent => exact congrArg (Except.ok ∘ Value.ofChars) (hReplace none)
  | @number value n h hn =>
      show (value.wantInt "replace() argument 3" >>= _) = _
      rw [wantInt_of_asInt? h, bind_ok, limit_of_nonneg hn]
      exact congrArg (Except.ok ∘ Value.ofChars) (hReplace _)

end Limits

theorem wantStrings_texts (done : List String) (texts : List (List Char)) :
    wantStrings done (texts.map .ofChars) = .ok (done.reverse ++ texts.map String.ofList) := by
  induction texts generalizing done with
  | nil => simp [wantStrings]
  | cons text rest ih =>
      show wantStrings (String.ofList text :: done) (rest.map .ofChars) = _
      rw [ih]
      simp

theorem callMethod_join (texts : List (List Char)) :
    callMethod (.string s mark) "join" (.ofList [.ofList (texts.map .ofChars)]) =
      .ok (.ofChars (s.toList.intercalate texts)) := by
  show (wantStrings [] (texts.map .ofChars) >>= fun pieces =>
    Except.ok (Value.ofString ((String.ofList s.toList).intercalate pieces))) = _
  rw [wantStrings_texts, bind_ok]
  refine congrArg (fun text => Except.ok (Value.ofString text)) ?_
  rw [← String.toList_inj, String.toList_intercalate]
  simp

theorem callMethod_startswith :
    callMethod (.string s mark) "startswith" (.ofList [.string p mark']) =
      .ok (.bool (p.toList.isPrefixOf s.toList)) := by
  show Except.ok (Value.bool (p.toList.isPrefixOf s.toList || false)) = _
  rw [Bool.or_false]

/-- The characters from a position on. -/
theorem slice_from {i : Int64} (hi : 0 ≤ i.toInt) : ∃ tail other,
    (Value.string s mark).slice (some (.int i)) none none = .ok (.string tail other) ∧
      tail.toList = s.toList.drop i.toInt.toNat := by
  have hItems : (Value.string s mark).sequence? = some (s.toList.map .ofChar) := rfl
  have hLow : sliceStart (s.toList.map Value.ofChar).length 1 (some i) =
      (min i.toInt.toNat s.toList.length : Nat) := by
    simp only [sliceStart, nearestPlace, fromStart, List.length_map]
    omega
  obtain ⟨part, hPart, hType, hFound⟩ :=
    Value.slice_eq_drop_take hItems (.int i) .absent hLow rfl
  rw [List.take_length, ← List.map_drop] at hFound
  cases part with
  | string tail other =>
      have hSame := Value.ofChar_injective.list_map (Option.some.inj hFound)
      exact ⟨tail, other, hPart, hSame.trans List.drop_eq_drop_min.symm⟩
  | list _ _ => simp [Value.typeName] at hType
  | _ => cases hFound

end Methods

theorem greaterEqual_zero (i : Int64) :
    CompareOp.greaterEqual.apply (.int i) (.int 0) = .ok (decide (0 ≤ i.toInt)) := by
  show Except.ok (compare i.toInt 0).isGE = _
  rw [Except.ok.injEq, Bool.eq_iff_iff, decide_eq_true_iff, Int.isGE_compare]

theorem greater_zero (i : Int64) :
    CompareOp.greater.apply (.int i) (.int 0) = .ok (decide (0 < i.toInt)) := by
  show Except.ok (compare i.toInt 0).isGT = _
  rw [Except.ok.injEq, Bool.eq_iff_iff, decide_eq_true_iff, Ordering.isGT_iff_eq_gt,
    Int.compare_eq_gt]

/-! ## What they say together -/

/-- Taking the text apart with these arguments gives these pieces. They are the text again when they
are put together with what was sought, and with any other text between them they are what replacing
gives. -/
structure IsSplit (text sought : Value) (more : List Value) (pieces : List (List Char)) : Prop where
  split_eq : callMethod text "split" (.ofList (sought :: more)) =
    .ok (.ofList (pieces.map .ofChars))
  join_eq : ∃ joined, callMethod sought "join" (.ofList [.ofList (pieces.map .ofChars)]) =
    .ok joined ∧ joined.text? = text.text?
  replace_eq : ∀ (q : String) (mark : Mark), ∃ replaced,
    callMethod text "replace" (.ofList (sought :: .string q mark :: more)) = .ok replaced ∧
      callMethod (.string q mark) "join" (.ofList [.ofList (pieces.map .ofChars)]) = .ok replaced

/-- From this position on, the text begins with what is sought. -/
def StartsFrom (text sought : Value) (i : Int64) : Prop :=
  ∃ tail, text.slice (some (.int i)) none none = .ok tail ∧
    callMethod tail "startswith" (.ofList [sought]) = .ok (.bool true)

/-- Counting, finding, and asking whether there is anything to find tell of the same places. -/
structure PlacesAgree (text sought : Value) (pieces : List (List Char)) (count place : Int64)
    (found : Bool) : Prop where
  count_eq : callMethod text "count" (.ofList [sought]) = .ok (.int count)
  length_eq : ∃ length, Builtin.compute "len" (.ofList [.ofList (pieces.map .ofChars)]) =
    .ok length ∧ BinaryOp.add.apply (.int count) (.int 1) = .ok length
  find_eq : callMethod text "find" (.ofList [sought]) = .ok (.int place)
  isIn_eq : CompareOp.isIn.apply sought text = .ok found
  found_of_place : CompareOp.greaterEqual.apply (.int place) (.int 0) = .ok found
  found_of_count : CompareOp.greater.apply (.int count) (.int 0) = .ok found
  starts : found = true → StartsFrom text sought place
  leftmost : ∀ i : Int64, 0 ≤ i.toInt → StartsFrom text sought i →
    found = true ∧ place.toInt ≤ i.toInt

section Strings

variable {s p : String} (hSought : p ≠ "") (mark mark' : Mark)

theorem startsFrom_iff {i : Int64} (hi : 0 ≤ i.toInt) :
    StartsFrom (.string s mark) (.string p mark') i ↔
      StandsAt p.toList s.toList i.toInt.toNat := by
  obtain ⟨tail, other, hTail, hChars⟩ := slice_from (s := s) mark hi
  rw [StartsFrom, StandsAt, ← hChars, ← List.isPrefixOf_iff_prefix]
  constructor
  · rintro ⟨found, hFound, hStarts⟩
    rw [hTail] at hFound
    cases hFound
    rw [callMethod_startswith] at hStarts
    simpa using hStarts
  · intro hStarts
    refine ⟨_, hTail, ?_⟩
    rw [callMethod_startswith, hStarts]

include hSought

theorem isSplit_splitOn {more : List Value} {limit : Option Nat} (h : IsLimit more limit) :
    IsSplit (.string s mark) (.string p mark') more (splitOn p.toList limit s.toList) where
  split_eq := callMethod_split mark mark' hSought h
  join_eq := by
    refine ⟨_, callMethod_join mark' _, ?_⟩
    rw [(splitOn_splits (by simpa using hSought) limit s.toList).intercalate_eq]
    simp [Value.ofChars, Value.text?]
  replace_eq q other :=
    ⟨_, callMethod_replace mark mark' hSought h q other, callMethod_join other _⟩

/-- The number that `find` gives is the leftmost place, or it is negative when there is none. -/
theorem exists_find (hSize : s.length < int64Bound) : ∃ place : Int64,
    callMethod (.string s mark) "find" (.ofList [.string p mark']) = .ok (.int place) ∧
    ((0 ≤ place.toInt ∧ StandsAt p.toList s.toList place.toInt.toNat ∧
        ∀ earlier < place.toInt.toNat, ¬ StandsAt p.toList s.toList earlier) ∨
      place = -1 ∧ ∀ other, ¬ StandsAt p.toList s.toList other) := by
  have hNeedle : p.toList ≠ [] := by simpa using hSought
  have hFind : callMethod (.string s mark) "find" (.ofList [.string p mark']) =
      .ok ((findIndex? p.toList s.toList).elim (.int (-1)) .ofNat) := by
    refine (show _ = Except.ok _ from rfl).trans (congrArg Except.ok ?_)
    cases findIndex? p.toList s.toList <;> rfl
  rw [hFind, findIndex?]
  cases hCut : cut p.toList s.toList with
  | none => exact ⟨-1, rfl, .inr ⟨rfl, (cut_eq_none_iff hNeedle).1 hCut⟩⟩
  | some parts =>
      obtain ⟨before, after⟩ := parts
      have hLeftmost := isLeftmost_of_cut hCut
      have hLength := congrArg List.length hLeftmost.text_eq
      have hPlace : (Int64.ofNat before.length).toInt = before.length := by
        refine Int64.toInt_ofNat_of_lt ?_
        simp only [List.length_append, String.length_toList] at hLength
        simp only [int64Bound] at hSize
        omega
      refine ⟨Int64.ofNat before.length, rfl, .inl ?_⟩
      rw [hPlace, Int.toNat_natCast]
      exact ⟨Int.natCast_nonneg _, hLeftmost.standsAt, hLeftmost.first⟩

theorem places_agree (hSize : s.length + 1 < int64Bound) : ∃ count place found,
    PlacesAgree (.string s mark) (.string p mark') (splitOn p.toList none s.toList) count place
      found := by
  have hNeedle : p.toList ≠ [] := by simpa using hSought
  have hSplits := splitOn_splits hNeedle none s.toList
  have hCount := countOf_add_one hNeedle s.toList
  have hMost := hSplits.length_le_length hNeedle
  rw [String.length_toList] at hMost
  obtain ⟨place, hFind, hPlace⟩ := exists_find hSought mark mark' (Nat.lt_of_succ_lt hSize)
  have hSmall : ∀ n ≤ s.length + 1, (Int64.ofNat n).toInt = n := fun n hn =>
    Int64.toInt_ofNat_of_lt (Nat.lt_of_le_of_lt hn hSize)
  have hFound : occurs p.toList s.toList = true ↔ 0 ≤ place.toInt := by
    rw [occurs_iff hNeedle]
    rcases hPlace with ⟨hSome, hStands, -⟩ | ⟨rfl, hNone⟩
    · exact iff_of_true ⟨_, hStands⟩ hSome
    · exact iff_of_false (not_exists.2 hNone) (by decide)
  refine ⟨.ofNat (countOf p.toList s.toList), place, occurs p.toList s.toList, ?_⟩
  constructor
  case count_eq => rfl
  case find_eq => exact hFind
  case isIn_eq => rfl
  case length_eq =>
    refine ⟨.int (.ofNat (splitOn p.toList none s.toList).length), ?_, ?_⟩
    · show Except.ok (Value.ofNat (((splitOn _ _ _).map Value.ofChars).toArray.size)) = _
      simp [Value.ofNat]
    · refine (addInt_eq _ _ _).2 ?_
      rw [hSmall _ hMost, hSmall _ (by omega), ← hCount]
      rfl
  case found_of_place =>
    rw [greaterEqual_zero, Except.ok.injEq, Bool.eq_iff_iff, decide_eq_true_iff, hFound]
  case found_of_count =>
    rw [greater_zero, Except.ok.injEq, Bool.eq_iff_iff, decide_eq_true_iff, occurs_iff hNeedle,
      ← hSplits.one_lt_length_iff, hSmall _ (by omega)]
    omega
  case starts =>
    intro hTrue
    rcases hPlace with ⟨hSome, hStands, -⟩ | ⟨rfl, -⟩
    · exact (startsFrom_iff mark mark' hSome).2 hStands
    · exact absurd (hFound.1 hTrue) (by decide)
  case leftmost =>
    intro i hi hStarts
    rw [startsFrom_iff mark mark' hi] at hStarts
    rcases hPlace with ⟨hSome, -, hFirst⟩ | ⟨-, hNone⟩
    · refine ⟨hFound.2 hSome, ?_⟩
      by_contra hEarlier
      exact hFirst i.toInt.toNat (by omega) hStarts
    · exact absurd hStarts (hNone _)

end Strings

/-- The methods of a string mean the same places of another one in it: those where it is taken
apart, those that are replaced, counted and found. With a limit the string is taken apart at the
first of them, and the words of a string are limited so that the rest of it begins with the next
word. -/
theorem search_methods_agree (s : String) {p : String} (hSought : p ≠ "") (mark mark' : Mark) :
    (∃ pieces, IsSplit (.string s mark) (.string p mark') [] pieces ∧
      Splits p.toList none s.toList pieces ∧
      (s.length + 1 < int64Bound → ∃ count place found,
        PlacesAgree (.string s mark) (.string p mark') pieces count place found)) ∧
    (∀ {limit : Value} {n : Int64}, limit.asInt? = some n → 0 ≤ n.toInt →
      ∃ pieces, IsSplit (.string s mark) (.string p mark') [limit] pieces ∧
        Splits p.toList (some n.toInt.toNat) s.toList pieces ∧ pieces.length ≤ n.toInt + 1) ∧
    callMethod (.string s mark) "split" (.ofList []) =
      .ok (.ofList ((words s.toList).map .ofChars)) ∧
    ∀ {limit : Value} {n : Int64}, limit.asInt? = some n → 0 ≤ n.toInt → ∃ more,
      callMethod (.string s mark) "split" (.ofList [.none, limit]) =
        .ok (.ofList (((words s.toList).take n.toInt.toNat ++ more).map .ofChars)) ∧
      ((words s.toList).length ≤ n.toInt ∧ more = [] ∨
        ∃ before rest, IsFromWord n.toInt.toNat s.toList before rest ∧ more = [rest]) := by
  have hNeedle : p.toList ≠ [] := by simpa using hSought
  refine ⟨⟨_, isSplit_splitOn hSought mark mark' .absent, splitOn_splits hNeedle none s.toList,
    places_agree hSought mark mark'⟩, ?_, rfl, ?_⟩
  · intro limit n hLimit hn
    have hSplits := splitOn_splits hNeedle (some n.toInt.toNat) s.toList
    have hLength := hSplits.length_le
    exact ⟨_, isSplit_splitOn hSought mark mark' (.number hLimit hn), hSplits, by omega⟩
  · intro limit n hLimit hn
    have hCall : callMethod (.string s mark) "split" (.ofList [.none, limit]) =
        .ok (.ofList ((wordsWithin n.toInt.toNat s.toList).map .ofChars)) := by
      show (limit.wantInt "maxsplit" >>= _) = _
      rw [wantInt_of_asInt? hLimit, bind_ok, limit_of_nonneg hn]
      rfl
    rcases wordsWithin_eq n.toInt.toNat s.toList with ⟨hFew, hSame⟩ | ⟨before, rest, hFrom, hSame⟩
    · refine ⟨[], ?_, .inl ⟨by omega, rfl⟩⟩
      rw [hCall, hSame, List.append_nil, List.take_of_length_le hFew]
    · exact ⟨[rest], by rw [hCall, hSame], .inr ⟨before, rest, hFrom, rfl⟩⟩

/-- Of two places that overlap, only the left one counts. -/
theorem overlapping_places : "ñañ" ≠ "" ∧ "ñañañ".length + 1 < int64Bound ∧
    ∃ pieces count place found,
      IsSplit (.ofString "ñañañ") (.ofString "ñañ") [] pieces ∧
      PlacesAgree (.ofString "ñañañ") (.ofString "ñañ") pieces count place found ∧
      count = 1 ∧ place = 0 ∧ found = true := by
  have hSought : "ñañ" ≠ "" := by decide
  have hSize : "ñañañ".length + 1 < int64Bound := by decide
  obtain ⟨⟨pieces, hSplit, -, hPlaces⟩, -⟩ := search_methods_agree "ñañañ" hSought none none
  obtain ⟨count, place, found, hPlaces⟩ := hPlaces hSize
  have hCount : count = 1 := by
    cases hPlaces.count_eq
    decide
  have hPlace : place = 0 := by
    cases hPlaces.find_eq
    decide
  have hFound : found = true := by
    cases hPlaces.isIn_eq
    decide
  exact ⟨hSought, hSize, pieces, count, place, found, hSplit, hPlaces, hCount, hPlace, hFound⟩

end Stencil
