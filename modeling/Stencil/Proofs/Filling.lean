import Stencil.Calling
import Stencil.Value.Operator

/-!
# Filling holes

A text is written with holes for values, and the characters that would be read as more than
themselves are doubled. Both formatters then read the literal texts back and put the texts of the
values between them. A doubled percent sign is a conversion of its own that ends the literal text
before it, so no literal text that is passed on holds a percent sign; a doubled brace stays within
its literal text. A hole is read where the literal text before it ends, whatever that ends in.

With too few values both formatters fail. With too many only percent signs do.

## Main results

* `percentFrom_withHoles`, `fillBraces_withHoles`: from the middle of a text on.
* `holes_are_filled`: the operator and the method.
-/

namespace Stencil.Format

/-! ## Texts with holes -/

/-- The text with its special characters doubled. -/
def doubled (special text : List Char) : List Char :=
  text.flatMap fun c => if special.contains c then [c, c] else [c]

theorem doubled_cons (special : List Char) (c : Char) (text : List Char) :
    doubled special (c :: text) =
      (if special.contains c then [c, c] else [c]) ++ doubled special text := rfl

/-- Literal texts with holes between them. -/
def withHoles (special hole first : List Char) : List (List Char) → List Char
  | [] => doubled special first
  | literal :: rest => doubled special first ++ (hole ++ withHoles special hole literal rest)

/-- Literal texts with the texts of values between them. -/
def filled (first : List Char) : List (List Char) → List Value → List Char
  | literal :: rest, value :: values => first ++ (value.text.toList ++ filled literal rest values)
  | _, _ => first

/-! ## Percent signs -/

section Percent

variable {values : Value} {done : List (List Char)} {supply : Supply} {literal : List Char}

/-- Formats what is left of a text, after the texts that are done and the literal text that is
passed already. -/
def percentFrom (values : Value) (done : List (List Char)) (supply : Supply)
    (literal text : List Char) : Except Fault (List Char) := do
  let (pieces, tail) := percentPieces literal text
  let (done, supply) ← fillConversions values done supply pieces
  if tail.contains '%' then throw (.value .incompleteConversion)
  if !supply.usesNames && !supply.positional.isEmpty && !servesNames values then
    throw (.type .tooManyValues)
  return (tail :: done).reverse.flatten

theorem percentFrom_char {c : Char} (hc : c ≠ '%') (text : List Char) :
    percentFrom values done supply literal (c :: text) =
      percentFrom values done supply (c :: literal) text := by
  simp only [percentFrom, percentPieces, if_neg hc]

/-- A conversion is filled behind the literal text before it. -/
theorem percentFrom_conversion {conversion : Conversion} {text after : List Char}
    (hRead : readConversion? text = some (conversion, after)) (hLiteral : '%' ∉ literal) :
    percentFrom values done supply literal ('%' :: text) =
      conversion.apply values supply >>= fun (converted, supply) =>
        percentFrom values (converted :: literal.reverse :: done) supply [] after := by
  have hPieces : percentPieces literal ('%' :: text) =
      ((literal.reverse, conversion) :: (percentPieces [] after).1,
        (percentPieces [] after).2) := by
    rw [percentPieces, if_pos rfl]
    split
    · rename_i found rest hFound
      rw [hRead] at hFound
      cases hFound
      rfl
    · rename_i hFound
      rw [hRead] at hFound
      cases hFound
  have hClean : (literal.reverse.contains '%') = false := by simpa using hLiteral
  simp only [percentFrom, hPieces, fillConversions, hClean]
  cases conversion.apply values supply with
  | error fault => rfl
  | ok found => rfl

theorem percentFrom_sign (hLiteral : '%' ∉ literal) (text : List Char) :
    percentFrom values done supply literal ('%' :: '%' :: text) =
      percentFrom values (['%'] :: literal.reverse :: done) supply [] text := by
  have hRead : readConversion? ('%' :: text) = some (⟨none, [], none, none, '%'⟩, text) := rfl
  rw [percentFrom_conversion hRead hLiteral]
  rfl

theorem percentFrom_hole (hLiteral : '%' ∉ literal) (text : List Char) :
    percentFrom values done supply literal ('%' :: 's' :: text) =
      match supply.positional with
      | value :: rest => percentFrom values (value.text.toList :: literal.reverse :: done)
          { supply with positional := rest } [] text
      | [] => .error (.type .tooFewValues) := by
  have hRead : readConversion? ('s' :: text) = some (⟨none, [], none, none, 's'⟩, text) := rfl
  rw [percentFrom_conversion hRead hLiteral]
  obtain ⟨positional, usesNames⟩ := supply
  cases positional with
  | nil => rfl
  | cons value rest =>
      have hText : convert value 's' (.ofChars []) 0 none = .ok value.text.toList := by
        show Except.ok (padText false 0 value.text.toList) = _
        simp [padText]
      have hApply : (Conversion.mk none [] none none 's').apply values ⟨value :: rest, usesNames⟩ =
          convert value 's' (.ofChars []) 0 none >>= fun text => .ok (text, ⟨rest, usesNames⟩) :=
            rfl
      rw [hApply, hText]
      rfl

/-- Literal text that is written with doubled percent signs is passed as it was meant. -/
theorem percentFrom_doubled (values : Value) (done : List (List Char)) (supply : Supply)
    (hLiteral : '%' ∉ literal) (text rest : List Char) :
    ∃ done' literal', '%' ∉ literal' ∧
      done'.reverse.flatten ++ literal'.reverse =
        done.reverse.flatten ++ (literal.reverse ++ text) ∧
      percentFrom values done supply literal (doubled ['%'] text ++ rest) =
        percentFrom values done' supply literal' rest := by
  induction text generalizing done literal with
  | nil => exact ⟨done, literal, hLiteral, by simp, rfl⟩
  | cons c text ih =>
      rw [doubled_cons]
      by_cases hc : c = '%'
      · obtain ⟨done', literal', hClean, hWritten, hFrom⟩ :=
          ih (['%'] :: literal.reverse :: done) List.not_mem_nil
        refine ⟨done', literal', hClean, ?_, ?_⟩
        · rw [hWritten, hc]
          simp
        · rw [hc, ← hFrom]
          exact percentFrom_sign hLiteral _
      · obtain ⟨done', literal', hClean, hWritten, hFrom⟩ :=
          ih done (List.not_mem_cons_of_ne_of_not_mem (Ne.symm hc) hLiteral)
        refine ⟨done', literal', hClean, ?_, ?_⟩
        · rw [hWritten]
          simp
        · rw [← hFrom, if_neg (by simpa using hc)]
          exact percentFrom_char hc _

theorem percentFrom_nil (hLiteral : '%' ∉ literal) (hNames : supply.usesNames = false)
    (hValues : servesNames values = false) :
    percentFrom values done supply literal [] =
      if 0 < supply.positional.length then .error (.type .tooManyValues)
      else .ok (done.reverse.flatten ++ literal.reverse) := by
  obtain ⟨positional, usesNames⟩ := supply
  have hClean : (literal.reverse.contains '%') = false := by simpa using hLiteral
  simp only at hNames
  cases positional with
  | nil => simp [percentFrom, percentPieces, fillConversions, hLiteral, hNames, hValues]; rfl
  | cons value rest =>
      simp [percentFrom, percentPieces, fillConversions, hLiteral, hNames, hValues]; rfl

theorem percentFrom_withHoles (hValues : servesNames values = false) (done : List (List Char))
    (hLiteral : '%' ∉ literal) (first : List Char) (rest : List (List Char))
    (positional : List Value) :
    percentFrom values done ⟨positional, false⟩ literal (withHoles ['%'] ['%', 's'] first rest) =
      if positional.length < rest.length then .error (.type .tooFewValues)
      else if rest.length < positional.length then .error (.type .tooManyValues)
      else .ok (done.reverse.flatten ++ (literal.reverse ++ filled first rest positional)) := by
  induction rest generalizing first positional done literal with
  | nil =>
      obtain ⟨done', literal', hClean, hWritten, hFrom⟩ :=
        percentFrom_doubled values done ⟨positional, false⟩ hLiteral first []
      rw [List.append_nil] at hFrom
      rw [withHoles, hFrom, percentFrom_nil hClean rfl hValues, hWritten, List.length_nil,
        if_neg (Nat.not_lt_zero _)]
      rfl
  | cons next rest ih =>
      obtain ⟨done', literal', hClean, hWritten, hFrom⟩ := percentFrom_doubled values done
        ⟨positional, false⟩ hLiteral first ('%' :: 's' :: withHoles ['%'] ['%', 's'] next rest)
      have hHoles : withHoles ['%'] ['%', 's'] first (next :: rest) = doubled ['%'] first ++
        '%' :: 's' :: withHoles ['%'] ['%', 's'] next rest := rfl
      rw [hHoles, hFrom, percentFrom_hole hClean]
      cases positional with
      | nil => simp
      | cons value more =>
          have hRest :=
            ih (value.text.toList :: literal'.reverse :: done') List.not_mem_nil next more
          have hText : (value.text.toList :: literal'.reverse :: done').reverse.flatten ++
              ([].reverse ++ filled next rest more) =
            done.reverse.flatten ++
              (literal.reverse ++ filled first (next :: rest) (value :: more)) :=
            calc (value.text.toList :: literal'.reverse :: done').reverse.flatten ++
                  ([].reverse ++ filled next rest more)
              _ = (done'.reverse.flatten ++ literal'.reverse) ++
                    (value.text.toList ++ filled next rest more) := by simp
              _ = done.reverse.flatten ++
                    (literal.reverse ++ filled first (next :: rest) (value :: more)) := by
                rw [hWritten, filled]
                simp
          rw [hText] at hRest
          simp only [List.length_cons, Nat.add_lt_add_iff_right]
          exact hRest

end Percent

/-! ## Braces -/

section Braces

variable {access : Value → String → Run Value} {values : List Value} {done : List (List Char)}
  {literal : List Char}

theorem bracePieces_char {c : Char} (hOpen : c ≠ '\x7b') (hClose : c ≠ '\x7d')
    (text : List Char) : bracePieces literal (c :: text) = bracePieces (c :: literal) text := by
  rw [bracePieces]
  · exact fun _ h => absurd h hOpen
  · exact fun _ h => absurd h hClose
  · exact hClose
  · exact hOpen

theorem bracePieces_hole (text : List Char) :
    bracePieces literal ('\x7b' :: '\x7d' :: text) =
      .text literal.reverse :: .field ⟨.next, [], []⟩ :: bracePieces [] text := by
  rw [bracePieces]
  · rfl
  · intro rest hRest
    cases hRest

/-- Literal text that is written with doubled braces is passed as it was meant. -/
theorem bracePieces_doubled (literal text rest : List Char) :
    bracePieces literal (doubled ['\x7b', '\x7d'] text ++ rest) =
      bracePieces (text.reverse ++ literal) rest := by
  induction text generalizing literal with
  | nil => rfl
  | cons c text ih =>
      have hNext := ih (c :: literal)
      have hReverse : text.reverse ++ c :: literal = (c :: text).reverse ++ literal := by simp
      rw [hReverse] at hNext
      rw [doubled_cons, ← hNext]
      by_cases hOpen : c = '\x7b'
      · rw [hOpen]
        exact bracePieces.eq_2 ..
      by_cases hClose : c = '\x7d'
      · rw [hClose]
        exact bracePieces.eq_3 ..
      · rw [if_neg (by simp [hOpen, hClose])]
        exact bracePieces_char hOpen hClose _

/-- A hole takes the next value. -/
theorem fillBraces_hole (next : Nat) (pieces : List BracePiece) :
    fillBraces access (.ofList values) done next (.field ⟨.next, [], []⟩ :: pieces) =
      match values[next]? with
      | some value =>
          fillBraces access (.ofList values) (value.text.toList :: done) (next + 1) pieces
      | none => Run.fault (.indexOutOfRange "format argument") := by
  have hGet : (Arguments.ofList values).get? next = values[next]? := rfl
  rw [fillBraces]
  simp only [FieldSource.find, hGet]
  cases values[next]? with
  | none => rfl
  | some value => rfl

theorem fillBraces_withHoles (done : List (List Char)) (literal : List Char) {next : Nat}
    (hNext : next ≤ values.length) (first : List Char) (rest : List (List Char)) :
    fillBraces access (.ofList values) done next
        (bracePieces literal (withHoles ['\x7b', '\x7d'] ['\x7b', '\x7d'] first rest)) =
      if values.length < next + rest.length then Run.fault (.indexOutOfRange "format argument")
      else pure (done.reverse.flatten ++
        (literal.reverse ++ filled first rest (values.drop next))) := by
  induction rest generalizing first next done literal with
  | nil =>
      have hText := bracePieces_doubled literal first []
      rw [List.append_nil] at hText
      rw [withHoles, hText, bracePieces, List.length_nil, if_neg (by omega)]
      simp [fillBraces, filled]
  | cons following rest ih =>
      have hHoles : withHoles ['\x7b', '\x7d'] ['\x7b', '\x7d'] first (following :: rest) =
        doubled ['\x7b', '\x7d'] first ++
          '\x7b' :: '\x7d' :: withHoles ['\x7b', '\x7d'] ['\x7b', '\x7d'] following rest := rfl
      rw [hHoles, bracePieces_doubled, bracePieces_hole, fillBraces, fillBraces_hole]
      by_cases hLast : next = values.length
      · rw [hLast, List.getElem?_eq_none (Nat.le_refl _), if_pos (by simp)]
      · have hSome : next < values.length := by omega
        rw [List.getElem?_eq_getElem hSome, List.drop_eq_getElem_cons hSome, filled]
        have hRest := ih (values[next].text.toList :: (first.reverse ++ literal).reverse :: done) []
          hSome following
        simp only [List.length_cons, ← Nat.add_assoc, Nat.add_right_comm next _ 1]
        simpa using hRest

end Braces

end Stencil.Format

namespace Stencil

open Format

/-- A text with holes is filled with the texts that `str` gives for the values, by the operator and
by the method alike. With too few values both fail, with too many the operator alone does. -/
theorem holes_are_filled (first : List Char) (rest : List (List Char)) (values : List Value)
    (mark listMark methodMark : Mark) (inner : Option Services)
    (access : Value → String → Run Value) (callback : Value → Value → Run Value)
    (loader : Services) :
    (∀ value ∈ values, Builtin.compute "str" (.ofList [value]) = .ok (.ofString value.text)) ∧
    BinaryOp.modulo.apply
        (.string (.ofList (withHoles ['%'] ['%', 's'] first rest)) mark) (.list ⟨values⟩ listMark) =
      (if values.length < rest.length then .error (.type .tooFewValues)
        else if rest.length < values.length then .error (.type .tooManyValues)
        else .ok (.ofChars (filled first rest values))) ∧
    callWith inner access callback loader
        (.method (.string (.ofList (withHoles ['\x7b', '\x7d'] ['\x7b', '\x7d'] first rest)) mark)
          "format" methodMark) (.ofList values) =
      if values.length < rest.length then Run.fault (.indexOutOfRange "format argument")
      else pure (.ofChars (filled first rest values)) := by
  refine ⟨fun value _ => rfl, ?_, ?_⟩
  · have hPercent : percent (withHoles ['%'] ['%', 's'] first rest) (.list ⟨values⟩ listMark) =
        if values.length < rest.length then .error (.type .tooFewValues)
        else if rest.length < values.length then .error (.type .tooManyValues)
        else .ok (filled first rest values) :=
      percentFrom_withHoles rfl [] List.not_mem_nil first rest values
    show Value.ofChars <$> percent (String.ofList _).toList _ = _
    rw [String.toList_ofList, hPercent]
    split
    · rfl
    · split <;> rfl
  · show Value.ofChars <$> fillBraces access (.ofList values) [] 0
      (bracePieces [] (String.ofList _).toList) = _
    rw [String.toList_ofList, fillBraces_withHoles [] [] (Nat.zero_le _), Nat.zero_add]
    split <;> rfl

end Stencil
