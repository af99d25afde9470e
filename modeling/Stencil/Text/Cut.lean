/-!
# The leftmost place of a text in another one

`cutFrom` says what is meant: it tries one place after another. Where many places agree with the
text that is looked for in all but its end, that takes a time that grows with both lengths. `cut`
compares checksums first. The checksum of the characters at one place follows from the checksum at
the place before it in a few steps, so the time grows with the length of the text only.

## Main results

* `cut_eq`: `cut` finds the place that `cutFrom` finds.
* `append_of_cut`: a cut loses nothing but the text that was looked for.
-/

namespace Stencil.Text

/-- Cuts a text at the leftmost place of `needle`: what precedes it and what follows it. The
characters that were passed come in reverse. -/
def cutFrom (needle passed : List Char) : List Char → Option (List Char × List Char)
  | [] => if needle.isEmpty then some (passed.reverse, []) else none
  | c :: rest =>
      if needle.isPrefixOf (c :: rest) then
        some (passed.reverse, (c :: rest).drop needle.length)
      else cutFrom needle (c :: passed) rest

/-- The factor between the weights of neighbours in a checksum. -/
def checkFactor : UInt64 := 1000003

/-- A checksum of a text that continues one with the checksum `sum`. -/
def checksumFrom (sum : UInt64) (text : List Char) : UInt64 :=
  text.foldl (fun sum c => sum * checkFactor + c.val.toUInt64) sum

/-- The weight of the character before so many others. -/
def weight : Nat → UInt64
  | 0 => 1
  | n + 1 => weight n * checkFactor

/-- The checksum that comes before a text is weighted by the length of the text. -/
theorem checksumFrom_eq (sum : UInt64) (text : List Char) :
    checksumFrom sum text = sum * weight text.length + checksumFrom 0 text := by
  induction text generalizing sum with
  | nil => simp [checksumFrom, weight]
  | cons c rest ih =>
      have hStep (s : UInt64) :
          checksumFrom s (c :: rest) = checksumFrom (s * checkFactor + c.val.toUInt64) rest := rfl
      rw [hStep, hStep, ih, ih (0 * checkFactor + c.val.toUInt64), List.length_cons, weight]
      grind

theorem checksumFrom_append (sum : UInt64) (left right : List Char) :
    checksumFrom sum (left ++ right) = checksumFrom (checksumFrom sum left) right := by
  simp [checksumFrom]

/-- Cuts a text at the leftmost place of `needle`, given what follows the first characters, as many
as `needle` has, and the checksum `sum` of those. Only where `sum` is `check`, the checksum of
`needle`, are the characters compared. The first of them has the weight `lead`. -/
def cutAhead (needle : List Char) (check lead sum : UInt64) (passed text : List Char) :
    List Char → Option (List Char × List Char)
  | [] => if sum = check ∧ needle.isPrefixOf text then some (passed.reverse, []) else none
  | next :: ahead =>
      if sum = check ∧ needle.isPrefixOf text then some (passed.reverse, next :: ahead)
      else
        match text with
        | [] => none
        | c :: rest =>
            cutAhead needle check lead
              ((sum - c.val.toUInt64 * lead) * checkFactor + next.val.toUInt64) (c :: passed) rest
              ahead

/-- A text that is too short has no place for `needle`. -/
theorem cutFrom_of_length_lt {needle text : List Char} (h : text.length < needle.length)
    (passed : List Char) : cutFrom needle passed text = none := by
  induction text generalizing passed with
  | nil =>
      cases needle with
      | nil => simp at h
      | cons => simp [cutFrom]
  | cons c rest ih =>
      have hNot : needle.isPrefixOf (c :: rest) = false := by
        rw [← Bool.not_eq_true, List.isPrefixOf_iff_prefix]
        exact fun hPrefix => Nat.not_lt.2 hPrefix.length_le h
      rw [cutFrom, hNot, if_neg Bool.false_ne_true]
      exact ih (Nat.lt_of_succ_lt h) _

/-- Two texts of one length are the same when one starts with the other. -/
theorem isPrefixOf_append_iff {needle window : List Char} (h : window.length = needle.length)
    (ahead : List Char) : needle.isPrefixOf (window ++ ahead) = true ↔ needle = window := by
  rw [List.isPrefixOf_iff_prefix, List.prefix_iff_eq_take, ← h, List.take_left]

/-- No place is lost where only those with the right checksum are tried. -/
theorem cutAhead_eq {needle window : List Char} (hNeedle : needle ≠ [])
    (hWindow : window.length = needle.length) (passed ahead : List Char) :
    cutAhead needle (checksumFrom 0 needle) (weight (needle.length - 1)) (checksumFrom 0 window)
      passed (window ++ ahead) ahead = cutFrom needle passed (window ++ ahead) := by
  have hFound (window ahead : List Char) (h : window.length = needle.length) :
      (checksumFrom 0 window = checksumFrom 0 needle ∧ needle.isPrefixOf (window ++ ahead) = true) ↔
        needle.isPrefixOf (window ++ ahead) = true := by
    rw [isPrefixOf_append_iff h]
    exact ⟨And.right, fun hSame => ⟨hSame ▸ rfl, hSame⟩⟩
  induction ahead generalizing window passed with
  | nil =>
      cases window with
      | nil => exact absurd (List.length_eq_zero_iff.1 hWindow.symm) hNeedle
      | cons c window =>
          rw [cutAhead]
          simp only [hFound _ _ hWindow]
          rw [List.append_nil, cutFrom]
          split
          · rw [List.drop_eq_nil_of_le (Nat.le_of_eq hWindow)]
          · exact (cutFrom_of_length_lt (by simp [← hWindow]) _).symm
  | cons next ahead ih =>
      cases window with
      | nil => exact absurd (List.length_eq_zero_iff.1 hWindow.symm) hNeedle
      | cons c window =>
          unfold cutAhead
          simp only [hFound _ _ hWindow]
          rw [List.cons_append, cutFrom]
          split
          · rw [← List.cons_append, List.drop_append_of_le_length, List.drop_eq_nil_of_le] <;>
              simp_all
          · have hNext : (window ++ [next]).length = needle.length := by
              simp [← hWindow]
            have hSum :
                (checksumFrom 0 (c :: window) - c.val.toUInt64 * weight (needle.length - 1)) *
                  checkFactor + next.val.toUInt64 = checksumFrom 0 (window ++ [next]) := by
              have hLead : needle.length - 1 = window.length := by
                rw [← hWindow]
                rfl
              have hHead : checksumFrom 0 (c :: window) =
                  checksumFrom (0 * checkFactor + c.val.toUInt64) window := rfl
              have hTail : checksumFrom 0 (window ++ [next]) =
                  checksumFrom 0 window * checkFactor + next.val.toUInt64 := by
                rw [checksumFrom_append]
                rfl
              rw [hHead, checksumFrom_eq, hTail, hLead]
              grind
            have hText : window ++ next :: ahead = window ++ [next] ++ ahead := by simp
            dsimp only
            rw [hSum, hText]
            exact ih hNext _

/-- Cuts a text at the leftmost place of `needle`. -/
def cut (needle text : List Char) : Option (List Char × List Char) :=
  let window := text.take needle.length
  if needle.isEmpty then some ([], text)
  else if window.length < needle.length then none
  else
    cutAhead needle (checksumFrom 0 needle) (weight (needle.length - 1)) (checksumFrom 0 window) []
      text (text.drop needle.length)

/-- The place that is found is the first one from the start of the text. -/
theorem cut_eq (needle text : List Char) : cut needle text = cutFrom needle [] text := by
  simp only [cut, List.length_take]
  split
  · rename_i hEmpty
    rw [List.isEmpty_iff] at hEmpty
    cases text <;> simp [cutFrom, hEmpty]
  · rename_i hNeedle
    split
    · exact (cutFrom_of_length_lt (by omega) _).symm
    · have hSame := cutAhead_eq (by simpa using hNeedle)
        (by rw [List.length_take]; omega : (text.take needle.length).length = needle.length) []
        (text.drop needle.length)
      rwa [List.take_append_drop] at hSame

theorem append_of_cutFrom {needle passed text before after : List Char}
    (h : cutFrom needle passed text = some (before, after)) :
    before ++ needle ++ after = passed.reverse ++ text := by
  fun_induction cutFrom needle passed text with
  | case1 passed hEmpty =>
      simp only [List.isEmpty_iff] at hEmpty
      simp only [Option.some.injEq, Prod.mk.injEq] at h
      simp [← h.1, ← h.2, hEmpty]
  | case2 => cases h
  | case3 passed c rest hPrefix =>
      obtain ⟨tail, hTail⟩ := List.isPrefixOf_iff_prefix.1 hPrefix
      simp only [Option.some.injEq, Prod.mk.injEq] at h
      rw [← h.1, ← h.2, ← hTail]
      simp
  | case4 passed c rest hPrefix ih => simpa using ih h

/-- What precedes the place, `needle`, and what follows it are the text again. -/
theorem append_of_cut {needle text before after : List Char}
    (h : cut needle text = some (before, after)) : before ++ needle ++ after = text := by
  rw [cut_eq] at h
  simpa using append_of_cutFrom h

end Stencil.Text
