import Stencil.Expr.Reader

/-!
# Where an expression in running text ends

What belongs to an expression behind a sigil is a matter of its tokens alone:

```text
expression  =  blanks group  |  blanks token extensions
extensions  =  { '.' name  |  group }
group       =  opening { group | token } closing
```

The token that an expression starts with is any that neither is blank nor opens a group. Inside a
group, a closing bracket of another kind is a token like any other. Extensions go on as long as they
can. When the tokens end inside a group, there is no expression, and the innermost group that is
open then is the one to blame.

## Main results

* `closes_or_endsInside`: a group is closed, or the tokens end inside it.
* `blank_or_delimits_or_unfinished`: so tokens are blank, or start with an expression, or end inside
  one.
-/

namespace Stencil

/-! ## Groups -/

/-- Tokens inside a group of this bracket. -/
inductive Enclosed : Char → List Token → Prop
  | nil {bracket : Char} : Enclosed bracket []
  | token {bracket : Char} {t : Token} {rest : List Token} (notOpening : t.kind ≠ .opening)
      (notClosing : ¬ t.closes (closingBracket bracket) = true) (below : Enclosed bracket rest) :
      Enclosed bracket (t :: rest)
  | group {bracket inner : Char} {opener closer : Token} {inside rest : List Token}
      (opens : opener.opens inner = true) (isInside : Enclosed inner inside)
      (closes : closer.closes (closingBracket inner) = true) (below : Enclosed bracket rest) :
      Enclosed bracket (opener :: (inside ++ closer :: rest))

/-- An opening bracket, what it encloses, and the bracket that closes it. -/
inductive IsGroup : List Token → Prop
  | mk {bracket : Char} {opener closer : Token} {inside : List Token}
      (opens : opener.opens bracket = true) (isInside : Enclosed bracket inside)
      (closes : closer.closes (closingBracket bracket) = true) :
      IsGroup (opener :: (inside ++ [closer]))

/-- The tokens end inside a group of this bracket, and `innermost` is the last bracket that is open
then. -/
inductive EndsInside (innermost : Char) : Char → List Token → Prop
  | here {tokens : List Token} (isEnclosed : Enclosed innermost tokens) :
      EndsInside innermost innermost tokens
  | deeper {bracket inner : Char} {opener : Token} {before inside : List Token}
      (isEnclosed : Enclosed bracket before) (opens : opener.opens inner = true)
      (below : EndsInside innermost inner inside) :
      EndsInside innermost bracket (before ++ opener :: inside)

/-! ## Expressions -/

/-- Attributes, calls and subscripts, one directly behind the other. -/
inductive Extensions : List Token → Prop
  | nil : Extensions []
  | named {dot name : Token} {rest : List Token} (isDot : dot.kind = .dot)
      (isName : name.kind = .name) (below : Extensions rest) : Extensions (dot :: name :: rest)
  | group {group rest : List Token} (isGroup : IsGroup group) (below : Extensions rest) :
      Extensions (group ++ rest)

/-- The tokens start with an opening bracket, or with a full stop and a name directly behind it. -/
inductive GoesOn : List Token → Prop
  | named {dot name : Token} {rest : List Token} (isDot : dot.kind = .dot)
      (isName : name.kind = .name) : GoesOn (dot :: name :: rest)
  | group {opener : Token} {rest : List Token} (isOpening : opener.kind = .opening) :
      GoesOn (opener :: rest)

/-- The tokens before an expression with its first token, when that opens no group. -/
structure Heads (blanks : List Token) (first : Token) : Prop where
  areBlank : ∀ t ∈ blanks, t.kind = .blank
  notBlank : first.kind ≠ .blank
  notOpening : first.kind ≠ .opening

/-- The first tokens are an expression before the others. -/
inductive Delimits : List Token → List Token → Prop
  | group {blanks group others : List Token} (areBlank : ∀ t ∈ blanks, t.kind = .blank)
      (isGroup : IsGroup group) : Delimits (blanks ++ group) others
  | extended {blanks extensions others : List Token} {first : Token}
      (heads : Heads blanks first) (isExtensions : Extensions extensions)
      (stops : ¬ GoesOn others) : Delimits (blanks ++ first :: extensions) others

/-- The tokens end inside an expression, and `innermost` is the last of its brackets that is open
then. -/
inductive Unfinished (innermost : Char) : List Token → Prop
  | group {bracket : Char} {opener : Token} {blanks inside : List Token}
      (areBlank : ∀ t ∈ blanks, t.kind = .blank) (opens : opener.opens bracket = true)
      (below : EndsInside innermost bracket inside) :
      Unfinished innermost (blanks ++ opener :: inside)
  | extended {bracket : Char} {first opener : Token} {blanks extensions inside : List Token}
      (heads : Heads blanks first) (isExtensions : Extensions extensions)
      (opens : opener.opens bracket = true) (below : EndsInside innermost bracket inside) :
      Unfinished innermost (blanks ++ first :: (extensions ++ opener :: inside))

/-! ## Every group is closed or left open -/

variable {bracket innermost : Char} {tokens before others : List Token}

theorem Enclosed.append (h : Enclosed bracket before) (hOthers : Enclosed bracket others) :
    Enclosed bracket (before ++ others) := by
  induction h with
  | nil => exact hOthers
  | token notOpening notClosing _ ih => exact .token notOpening notClosing (ih hOthers)
  | group opens isInside closes _ _ ih =>
      rw [List.cons_append, List.append_assoc, List.cons_append]
      exact .group opens isInside closes (ih hOthers)

theorem EndsInside.append (h : Enclosed bracket before)
    (hOthers : EndsInside innermost bracket others) :
    EndsInside innermost bracket (before ++ others) := by
  cases hOthers with
  | here isEnclosed => exact .here (h.append isEnclosed)
  | deeper isEnclosed opens below =>
      rw [← List.append_assoc]
      exact .deeper (h.append isEnclosed) opens below

/-- Every opening bracket is one of a kind. -/
def OpensKnown (tokens : List Token) : Prop :=
  ∀ t ∈ tokens, t.kind = .opening → ∃ bracket, t.opens bracket = true

/-- The group that the tokens stand in is closed at a place that is marked by `closer`. -/
def ClosesAt (bracket : Char) (tokens inside others : List Token) (closer : Token) : Prop :=
  tokens = inside ++ closer :: others ∧ Enclosed bracket inside ∧
    closer.closes (closingBracket bracket) = true

theorem ClosesAt.append {inside : List Token} {closer : Token} (hBefore : Enclosed bracket before)
    (h : ClosesAt bracket tokens inside others closer) :
    ClosesAt bracket (before ++ tokens) (before ++ inside) others closer := by
  obtain ⟨rfl, hInside, hCloses⟩ := h
  exact ⟨(List.append_assoc ..).symm, hBefore.append hInside, hCloses⟩

/-- A group is closed, or the tokens end inside it. The induction is on how many tokens there are,
since those behind a group inside are tokens of the group around it again. -/
theorem closes_or_endsInside (bracket : Char) {tokens : List Token} (hKnown : OpensKnown tokens) :
    (∃ inside others closer, ClosesAt bracket tokens inside others closer) ∨
      ∃ innermost, EndsInside innermost bracket tokens := by
  cases tokens with
  | nil => exact .inr ⟨bracket, .here .nil⟩
  | cons t rest =>
      obtain ⟨hFirst, hRest⟩ := List.forall_mem_cons.1 hKnown
      by_cases hOpening : t.kind = .opening
      · obtain ⟨inner, hOpens⟩ := hFirst hOpening
        rcases closes_or_endsInside inner hRest with
          ⟨inside, others, closer, rfl, hInside, hCloses⟩ | ⟨innermost, hEnds⟩
        · have hGroup : Enclosed bracket (t :: (inside ++ [closer])) :=
            .group hOpens hInside hCloses .nil
          have hOthers : OpensKnown others := fun u hu => hRest u (by simp [hu])
          have hSplit : t :: (inside ++ closer :: others) =
              t :: (inside ++ [closer]) ++ others := by simp
          rw [hSplit]
          rcases closes_or_endsInside bracket hOthers with
            ⟨after, behind, found, hCloses⟩ | ⟨innermost, hEnds⟩
          · exact .inl ⟨_, _, _, hCloses.append hGroup⟩
          · exact .inr ⟨innermost, hEnds.append hGroup⟩
        · exact .inr ⟨innermost, .deeper .nil hOpens hEnds⟩
      · by_cases hCloses : t.closes (closingBracket bracket) = true
        · exact .inl ⟨[], rest, t, rfl, .nil, hCloses⟩
        · have hToken : Enclosed bracket [t] := .token hOpening hCloses .nil
          rcases closes_or_endsInside bracket hRest with
            ⟨inside, others, closer, hCloses⟩ | ⟨innermost, hEnds⟩
          · exact .inl ⟨_, _, _, hCloses.append hToken⟩
          · exact .inr ⟨innermost, hEnds.append hToken⟩
termination_by tokens.length

/-! ## Every expression ends or is unfinished -/

/-- The extensions that tokens start with go on as long as they can, or the tokens end inside one.
-/
theorem exists_extensions {tokens : List Token} (hKnown : OpensKnown tokens) :
    ∃ extensions others, tokens = extensions ++ others ∧ Extensions extensions ∧
      (¬ GoesOn others ∨ ∃ innermost bracket opener inside, others = opener :: inside ∧
        opener.opens bracket = true ∧ EndsInside innermost bracket inside) := by
  by_cases hGoesOn : GoesOn tokens
  · cases hGoesOn with
    | @named dot name rest isDot isName =>
        have hRest : OpensKnown rest := fun t ht => hKnown t (by simp [ht])
        obtain ⟨extensions, others, rfl, hExtensions, hEnd⟩ := exists_extensions hRest
        exact ⟨dot :: name :: extensions, others, rfl, .named isDot isName hExtensions, hEnd⟩
    | @group opener rest isOpening =>
        obtain ⟨hFirst, hRest⟩ := List.forall_mem_cons.1 hKnown
        obtain ⟨bracket, hOpens⟩ := hFirst isOpening
        rcases closes_or_endsInside bracket hRest with
          ⟨inside, behind, closer, rfl, hInside, hCloses⟩ | ⟨innermost, hEnds⟩
        · have hBehind : OpensKnown behind := fun t ht => hRest t (by simp [ht])
          obtain ⟨extensions, others, rfl, hExtensions, hEnd⟩ := exists_extensions hBehind
          refine ⟨opener :: (inside ++ [closer]) ++ extensions, others, by simp, ?_, hEnd⟩
          exact .group (.mk hOpens hInside hCloses) hExtensions
        · exact ⟨[], opener :: rest, rfl, .nil,
            .inr ⟨innermost, bracket, opener, rest, rfl, hOpens, hEnds⟩⟩
  · exact ⟨[], tokens, rfl, .nil, .inl hGoesOn⟩
termination_by tokens.length

/-- Tokens are blank, or start with an expression, or end inside one. -/
theorem blank_or_delimits_or_unfinished (hKnown : OpensKnown tokens) :
    (∀ t ∈ tokens, t.kind = .blank) ∨
      (∃ front others, tokens = front ++ others ∧ Delimits front others) ∨
      ∃ innermost, Unfinished innermost tokens := by
  have hSplit := List.takeWhile_append_dropWhile (p := fun t => t.kind == .blank) (l := tokens)
  have hBlank : ∀ t ∈ tokens.takeWhile fun t => t.kind == .blank, t.kind = .blank :=
    fun t ht => beq_iff_eq.1 (List.all_eq_true.1 List.all_takeWhile t ht)
  generalize tokens.takeWhile (fun t => t.kind == .blank) = blanks at hSplit hBlank
  cases hBehind : tokens.dropWhile fun t => t.kind == .blank with
  | nil =>
      rw [hBehind, List.append_nil] at hSplit
      exact .inl (hSplit ▸ hBlank)
  | cons first rest =>
      have hFirst := List.head?_dropWhile_not (fun t : Token => t.kind == .blank) tokens
      rw [hBehind] at hFirst hSplit
      subst hSplit
      have hNotBlank : first.kind ≠ .blank := by simpa using hFirst
      obtain ⟨hFirst, hRest⟩ :=
        List.forall_mem_cons.1 (fun t ht => hKnown t (List.mem_append_right _ ht))
      by_cases hOpening : first.kind = .opening
      · obtain ⟨bracket, hOpens⟩ := hFirst hOpening
        rcases closes_or_endsInside bracket hRest with
          ⟨inside, others, closer, rfl, hInside, hCloses⟩ | ⟨innermost, hEnds⟩
        · refine .inr (.inl ⟨blanks ++ first :: (inside ++ [closer]), others, by simp, ?_⟩)
          exact .group hBlank (.mk hOpens hInside hCloses)
        · exact .inr (.inr ⟨innermost, .group hBlank hOpens hEnds⟩)
      · have hHeads : Heads blanks first := ⟨hBlank, hNotBlank, hOpening⟩
        obtain ⟨extensions, others, rfl, hExtensions, hStops | hEnds⟩ := exists_extensions hRest
        · refine .inr (.inl ⟨blanks ++ first :: extensions, others, by simp, ?_⟩)
          exact .extended hHeads hExtensions hStops
        · obtain ⟨innermost, bracket, opener, inside, rfl, hOpens, hInside⟩ := hEnds
          exact .inr (.inr ⟨innermost, .extended hHeads hExtensions hOpens hInside⟩)

end Stencil
