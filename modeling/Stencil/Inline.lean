import Stencil.Token

/-!
# Expressions in running text

Where an expression that stands in a line of text ends. After the sigil comes either a bracketed
group or one token; to a token belong the attributes, calls and subscripts that follow it without a
blank. Only the extent is decided here: what the expression means is for the grammar of expressions.

## Main results

* `Inline.read_append`: the expression and what follows it are the text again.
-/

namespace Stencil.Inline

open Stencil.Text

/-- Why no expression can be cut out. -/
inductive Fault where
  /-- Nothing follows the sigil. -/
  | missing
  /-- The text ends inside a group; the innermost open bracket is named. -/
  | unclosed (bracket : Char)
  deriving DecidableEq, Repr

/-- The wording of a fault. -/
def Fault.message : Fault → String
  | .missing => "expected an expression after `$`"
  | .unclosed bracket => "unterminated `" ++ String.singleton bracket ++ "` in expression"

/-- The kind of the first token of a text, and the text after that token. -/
def cut (c : Char) (rest : List Char) : TokenKind × List Char :=
  match lexeme .lenient (c :: rest) with
  | some (kind, length) => (kind, rest.drop (length - 1))
  | none => (.operator, rest)

theorem length_cut_le (c : Char) (rest : List Char) : (cut c rest).2.length ≤ rest.length := by
  unfold cut
  split <;> simp

/-- The text after the group whose innermost open bracket is `innermost`, with the brackets around
it in `outer`. A closing bracket that does not fit the innermost one is passed over. -/
def closeGroup (innermost : Char) (outer : List Char) (text : List Char) :
    Except Fault (List Char) :=
  match text with
  | [] => .error (.unclosed innermost)
  | c :: rest =>
      if (cut c rest).1 = .opening then closeGroup c (innermost :: outer) (cut c rest).2
      else if (cut c rest).1 = .closing ∧ c = closingBracket innermost then
        match outer with
        | [] => .ok (cut c rest).2
        | next :: others => closeGroup next others (cut c rest).2
      else closeGroup innermost outer (cut c rest).2
termination_by text.length
decreasing_by
  all_goals
    have := length_cut_le c rest
    simp only [List.length_cons]
    omega

theorem length_closeGroup_le {innermost : Char} {outer text rest : List Char}
    (h : closeGroup innermost outer text = .ok rest) : rest.length ≤ text.length := by
  fun_induction closeGroup innermost outer text with
  | case1 => cases h
  | case2 innermost outer c others hOpens ih =>
      exact Nat.le_trans (ih h) (Nat.le_succ_of_le (length_cut_le c others))
  | case3 innermost c others hOpens hCloses =>
      cases h
      exact Nat.le_succ_of_le (length_cut_le c others)
  | case4 innermost c others hOpens hCloses next outer ih =>
      exact Nat.le_trans (ih h) (Nat.le_succ_of_le (length_cut_le c others))
  | case5 innermost outer c others hOpens hCloses ih =>
      exact Nat.le_trans (ih h) (Nat.le_succ_of_le (length_cut_le c others))

/-- The text after the attribute that a text starts with: a dot and a name directly behind it. -/
def skipAttribute? (c : Char) (rest : List Char) : Option (List Char) :=
  if (cut c rest).1 = .dot then
    match (cut c rest).2 with
    | d :: others => if (cut d others).1 = .name then some (cut d others).2 else none
    | [] => none
  else none

theorem length_skipAttribute?_le {c : Char} {rest others : List Char}
    (h : skipAttribute? c rest = some others) : others.length ≤ rest.length := by
  unfold skipAttribute? at h
  have hDot := length_cut_le c rest
  split at h
  · split at h
    · rename_i d after hAfter
      have hName := length_cut_le d after
      have hLength : (cut c rest).2.length = after.length + 1 := by rw [hAfter]; rfl
      split at h
      · cases h
        omega
      · cases h
    · cases h
  · cases h

/-- The text after the attributes, calls and subscripts that follow directly. -/
def extend (text : List Char) : Except Fault (List Char) :=
  match text with
  | [] => .ok []
  | c :: rest =>
      match _hAttribute : skipAttribute? c rest with
      | some others => extend others
      | none =>
          if (cut c rest).1 = .opening then
            match _hGroup : closeGroup c [] (cut c rest).2 with
            | .ok others => extend others
            | .error fault => .error fault
          else .ok (c :: rest)
termination_by text.length
decreasing_by
  · have := length_skipAttribute?_le _hAttribute
    simp only [List.length_cons]
    omega
  · have := length_closeGroup_le _hGroup
    have := length_cut_le c rest
    simp only [List.length_cons]
    omega

/-- The text after the expression that it starts with. Blanks before it belong to it. -/
def skip (text : List Char) : Except Fault (List Char) :=
  match text.dropWhile fun c => c == ' ' || c == '\t' with
  | [] => .error .missing
  | c :: rest =>
      if (cut c rest).1 = .opening then closeGroup c [] (cut c rest).2
      else extend (cut c rest).2

/-- Cuts the text after the sigil into the expression and what follows it. -/
def read (text : List Char) : Except Fault (List Char × List Char) :=
  match skip text with
  | .error fault => .error fault
  | .ok rest => .ok (text.splitAt (text.length - rest.length))

theorem read_append {text code rest : List Char} (h : read text = .ok (code, rest)) :
    code ++ rest = text := by
  unfold read at h
  split at h
  · cases h
  · rename_i others _
    simp only [Except.ok.injEq, List.splitAt_eq, Prod.mk.injEq] at h
    simp [← h.1, ← h.2]

/-- The expression as it is evaluated: without the blanks around it, and with round brackets in
place of braces that enclose it, so that `${a + b}` is `$(a + b)`. -/
def normalize (code : List Char) : List Char :=
  let code := trim code
  match code with
  | '{' :: rest => if rest.getLast? = some '}' then '(' :: rest.dropLast ++ [')'] else code
  | _ => code

end Stencil.Inline
