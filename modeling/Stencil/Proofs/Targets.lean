import Mathlib.Data.List.Forall2
import Stencil.Proofs.Writing.Reading

/-!
# Targets of loops and of assignments

The header of a loop has a reader of its own for its target, while the target of an assignment is
read as an expression first and taken for a target afterwards. A grammar says here which words a
header takes for a target, which expression these words are, and which target the header makes of
them. Every target of a header is an expression that can be assigned to, so the assignment is read
wherever the header is.

The two targets are the same, but for one form: a target alone in square brackets, without a comma.
As an expression it is a list of one item, and the assignment takes the value apart. The header
leaves out the brackets, as it does with round ones.

## Main results

* `isTargets_of_readForHeader`: what a header reads as its target is a target of the grammar.
* `read_assignment`: a target of the grammar before an equals sign is assigned to.
* `loop_target_is_assigned`: the target of a header is assigned to, as the same target unless some
  target is alone in square brackets.
* `bracketed_name_differs`: a name in square brackets is read as two different targets.
-/

namespace Stencil

open Reader

/-! ## Words of targets -/

/-- The word of a token, wherever it stands. -/
def Token.word (t : Token) : Word := ⟨t.kind, t.text⟩

/-- A target among others: its words, the expression that they are, and the target that a header
makes of them. -/
structure TargetPart where
  words : List Word
  expr : Expr
  target : Target

/-- The words after the first of several targets. Each has a comma before it, and one more comma may
stand at the end. -/
def moreWords (trailing : Bool) : List TargetPart → List Word
  | [] => if trailing then [.operator ","] else []
  | part :: others => .operator "," :: (part.words ++ moreWords trailing others)

/-- Words that are one target, with the expression that they are and the target that a header makes
of them. Whether a target may be alone in square brackets is left open. -/
inductive IsTarget (alone : Prop) : List Word → Expr → Target → Prop
  | name {label : String} (h : isKeyword label.toList = false) :
      IsTarget alone [.name label] (.name label) (.name label)
  | grouped {words : List Word} {expr : Expr} {target : Target}
      (h : IsTarget alone words expr target) :
      IsTarget alone (.opening '(' :: (words ++ [.closing ')'])) expr target
  | unwrapped {words : List Word} {expr : Expr} {target : Target} (hAlone : alone)
      (h : IsTarget alone words expr target) :
      IsTarget alone (.opening '[' :: (words ++ [.closing ']'])) (.list [expr]) target
  | tuple {first : TargetPart} {others : List TargetPart} {trailing : Bool}
      (hComma : moreWords trailing others ≠ [])
      (h : ∀ part ∈ first :: others, IsTarget alone part.words part.expr part.target) :
      IsTarget alone
        (.opening '(' :: (first.words ++ moreWords trailing others ++ [.closing ')']))
        (.tuple ((first :: others).map (·.expr))) (.tuple ((first :: others).map (·.target)))
  | list {first : TargetPart} {others : List TargetPart} {trailing : Bool}
      (hComma : moreWords trailing others ≠ [])
      (h : ∀ part ∈ first :: others, IsTarget alone part.words part.expr part.target) :
      IsTarget alone
        (.opening '[' :: (first.words ++ moreWords trailing others ++ [.closing ']']))
        (.list ((first :: others).map (·.expr))) (.tuple ((first :: others).map (·.target)))

/-- Each of the parts is a target. -/
def AreTargets (alone : Prop) (parts : List TargetPart) : Prop :=
  ∀ part ∈ parts, IsTarget alone part.words part.expr part.target

/-- Words that are a target outside all brackets. -/
inductive IsTargets (alone : Prop) : List Word → Expr → Target → Prop
  | one {words : List Word} {expr : Expr} {target : Target} (h : IsTarget alone words expr target) :
      IsTargets alone words expr target
  | several {first : TargetPart} {others : List TargetPart} {trailing : Bool}
      (hComma : moreWords trailing others ≠ []) (h : AreTargets alone (first :: others)) :
      IsTargets alone (first.words ++ moreWords trailing others)
        (.tuple ((first :: others).map (·.expr))) (.tuple ((first :: others).map (·.target)))

variable {alone : Prop} {words : List Word} {expr : Expr} {target : Target}
  {first : TargetPart} {others parts : List TargetPart} {trailing : Bool}
  {tokens front rest : List Token} {budget : Nat}

/-! ## What a header reads -/

theorem Reader.eat_ok {test : Token → Bool} {found : Bool}
    (h : eat test tokens = .ok (found, rest)) :
    found = true ∧ (∃ t, tokens = t :: rest ∧ test t = true) ∨
      found = false ∧ tokens = rest ∧ tokens.head?.any test = false := by
  cases tokens with
  | nil =>
      cases h
      exact .inr ⟨rfl, rfl, rfl⟩
  | cons t others =>
      have hRun : (if test t then _ else _) = Except.ok (found, rest) := h
      split at hRun
      · cases hRun
        exact .inl ⟨rfl, t, rfl, ‹_›⟩
      · cases hRun
        exact .inr ⟨rfl, rfl, Bool.eq_false_iff.2 ‹_›⟩

theorem Token.word_of_opens {t : Token} {bracket : Char} (h : t.opens bracket = true) :
    t.word = .opening bracket := by
  rw [Token.opens, Bool.and_eq_true, beq_iff_eq, beq_iff_eq] at h
  rw [Token.word, h.1, h.2, Word.opening]

theorem Token.word_of_closes {t : Token} {bracket : Char} (h : t.closes bracket = true) :
    t.word = .closing bracket := by
  rw [Token.closes, Bool.and_eq_true, beq_iff_eq, beq_iff_eq] at h
  rw [Token.word, h.1, h.2, Word.closing]

theorem Token.word_of_isOperator {t : Token} {symbol : String} (h : t.isOperator symbol = true) :
    t.word = .operator symbol := by
  obtain ⟨hKind, hText⟩ := t.eq_of_isOperator h
  rw [Token.word, hKind, hText, Word.operator]

theorem Token.word_of_isName {t : Token} {label : String} (h : t.isName label = true) :
    t.word = .name label := by
  obtain ⟨hKind, hText⟩ := t.eq_of_isName h
  rw [Token.word, hKind, hText, Word.name]

theorem Reader.close_ok {bracket : Char} (h : close bracket tokens = .ok ((), rest)) :
    ∃ t, tokens = t :: rest ∧ t.word = .closing bracket := by
  obtain ⟨found, middle, hEat, hNext⟩ := bind_ok h
  rcases eat_ok hEat with ⟨rfl, t, rfl, hCloses⟩ | ⟨rfl, -, -⟩
  · cases hNext
    exact ⟨t, rfl, Token.word_of_closes hCloses⟩
  · cases hNext

theorem Reader.keyword_ok {label : String} (h : keyword label tokens = .ok ((), rest)) :
    ∃ t, tokens = t :: rest ∧ t.word = .name label := by
  obtain ⟨found, middle, hEat, hNext⟩ := bind_ok h
  rcases eat_ok hEat with ⟨rfl, t, rfl, hName⟩ | ⟨rfl, -, -⟩
  · cases hNext
    exact ⟨t, rfl, Token.word_of_isName hName⟩
  · cases hNext

theorem Reader.identifier_ok {label : String} (h : identifier tokens = .ok (label, rest)) :
    ∃ t, tokens = t :: rest ∧ t.word = .name label ∧ isKeyword label.toList = false := by
  cases tokens with
  | nil => cases h
  | cons t others =>
      have hRun : (if t.kind = .name ∧ (!isKeyword t.text) = true then _ else _ : Reader String)
          (t :: others) = .ok (label, rest) := h
      split at hRun
      · rename_i hName
        cases hRun
        refine ⟨t, rfl, ?_, ?_⟩
        · rw [Token.word, hName.1, Word.name, String.toList_ofList]
        · rw [String.toList_ofList]
          simpa using hName.2
      · cases hRun

/-- What the readers of targets take from the front of the tokens. -/
structure TakesTargets (budget : Nat) : Prop where
  target : ∀ tokens target rest, readTarget budget tokens = .ok (target, rest) →
    ∃ front expr, tokens = front ++ rest ∧ IsTarget True (front.map Token.word) expr target
  targets : ∀ tokens target rest, readTargets budget tokens = .ok (target, rest) →
    ∃ front expr, tokens = front ++ rest ∧ IsTargets True (front.map Token.word) expr target
  tail : ∀ tokens targets rest, readTargetsTail budget tokens = .ok (targets, rest) →
    ∃ front others trailing, tokens = front ++ rest ∧ AreTargets True others ∧
      front.map Token.word = moreWords trailing others ∧ targets = others.map (·.target) ∧
      (tokens.head?.any (·.isOperator ",") = true → front ≠ [])

/-- Targets in round brackets are a target. -/
theorem IsTargets.round (h : IsTargets alone words expr target) :
    IsTarget alone (.opening '(' :: (words ++ [.closing ')'])) expr target := by
  cases h with
  | one h => exact .grouped h
  | several hComma h => exact .tuple hComma h

/-- Targets in square brackets are a target. -/
theorem IsTargets.square (hAlone : alone) (h : IsTargets alone words expr target) :
    ∃ expr, IsTarget alone (.opening '[' :: (words ++ [.closing ']'])) expr target := by
  cases h with
  | one h => exact ⟨_, .unwrapped hAlone h⟩
  | several hComma h => exact ⟨_, .list hComma h⟩

section Steps

variable (ih : TakesTargets budget)

include ih

/-- Targets between brackets, after the opening one. -/
theorem TakesTargets.enclosed {bracket : Char}
    (h : (do let inner ← readTargets budget; close bracket; return inner : Reader Target) tokens =
      .ok (target, rest)) :
    ∃ front expr words, tokens = front ++ rest ∧ IsTargets True words expr target ∧
      front.map Token.word = words ++ [.closing bracket] := by
  obtain ⟨inner, middle, hTargets, h⟩ := bind_ok h
  obtain ⟨_, last, hClose, h⟩ := bind_ok h
  cases h
  obtain ⟨front, expr, rfl, hInner⟩ := ih.targets _ _ _ hTargets
  obtain ⟨t, rfl, hWord⟩ := close_ok hClose
  refine ⟨front ++ [t], expr, _, by simp, hInner, ?_⟩
  rw [List.map_append, List.map_singleton, hWord]

theorem TakesTargets.of_readTarget (h : readTarget (budget + 1) tokens = .ok (target, rest)) :
    ∃ front expr, tokens = front ++ rest ∧ IsTarget True (front.map Token.word) expr target := by
  rw [readTarget] at h
  obtain ⟨round, middle, hEat, hRound⟩ := bind_ok h
  rcases eat_ok hEat with ⟨rfl, t, rfl, hOpens⟩ | ⟨rfl, rfl, -⟩
  · obtain ⟨front, expr, words, rfl, hInner, hWords⟩ := ih.enclosed hRound
    refine ⟨t :: front, expr, rfl, ?_⟩
    rw [List.map_cons, hWords, Token.word_of_opens hOpens]
    exact hInner.round
  obtain ⟨square, middle, hEat, hSquare⟩ := bind_ok hRound
  rcases eat_ok hEat with ⟨rfl, t, rfl, hOpens⟩ | ⟨rfl, rfl, -⟩
  · obtain ⟨front, inner, words, rfl, hInner, hWords⟩ := ih.enclosed hSquare
    obtain ⟨expr, hTarget⟩ := hInner.square trivial
    refine ⟨t :: front, expr, rfl, ?_⟩
    rw [List.map_cons, hWords, Token.word_of_opens hOpens]
    exact hTarget
  have hLabel : (identifier >>= fun label => pure (.name label)) tokens = .ok (target, rest) :=
    hSquare
  obtain ⟨label, middle, hName, hPure⟩ := bind_ok hLabel
  cases hPure
  obtain ⟨t, rfl, hWord, hKeyword⟩ := identifier_ok hName
  refine ⟨[t], .name label, rfl, ?_⟩
  rw [List.map_singleton, hWord]
  exact .name hKeyword

theorem TakesTargets.of_readTargetsTail {targets : List Target}
    (h : readTargetsTail (budget + 1) tokens = .ok (targets, rest)) :
    ∃ front others trailing, tokens = front ++ rest ∧ AreTargets True others ∧
      front.map Token.word = moreWords trailing others ∧ targets = others.map (·.target) ∧
      (tokens.head?.any (·.isOperator ",") = true → front ≠ []) := by
  rw [readTargetsTail] at h
  obtain ⟨comma, middle, hEat, hAfter⟩ := bind_ok h
  rcases eat_ok hEat with ⟨rfl, t, rfl, hComma⟩ | ⟨rfl, rfl, hOther⟩
  · have hWord := Token.word_of_isOperator hComma
    obtain ⟨starts, same, hStarts, hItems⟩ := bind_ok hAfter
    cases hStarts
    split at hItems
    · obtain ⟨item, next, hItem, hAfter⟩ := bind_ok hItems
      obtain ⟨more, last, hMore, hPure⟩ := bind_ok hAfter
      cases hPure
      obtain ⟨front, expr, rfl, hTarget⟩ := ih.target _ _ _ hItem
      obtain ⟨back, others, trailing, rfl, hOthers, hWords, rfl, -⟩ := ih.tail _ _ _ hMore
      refine ⟨t :: (front ++ back), ⟨_, expr, item⟩ :: others, trailing, by simp,
        List.forall_mem_cons.2 ⟨hTarget, hOthers⟩, ?_, rfl, fun _ => List.cons_ne_nil _ _⟩
      rw [List.map_cons, List.map_append, hWord, hWords, moreWords]
    · cases hItems
      refine ⟨[t], [], true, rfl, List.forall_mem_nil _, ?_, rfl, fun _ => List.cons_ne_nil _ _⟩
      rw [List.map_singleton, hWord]
      rfl
  · cases hAfter
    exact ⟨[], [], false, rfl, List.forall_mem_nil _, rfl, rfl,
      fun hComma => absurd hComma (Bool.eq_false_iff.1 hOther)⟩

theorem TakesTargets.of_readTargets (h : readTargets (budget + 1) tokens = .ok (target, rest)) :
    ∃ front expr, tokens = front ++ rest ∧ IsTargets True (front.map Token.word) expr target := by
  rw [readTargets] at h
  obtain ⟨first, middle, hFirst, hAfter⟩ := bind_ok h
  obtain ⟨front, expr, rfl, hTarget⟩ := ih.target _ _ _ hFirst
  obtain ⟨comma, same, hNext, hMore⟩ := bind_ok hAfter
  cases hNext
  split at hMore
  · rename_i hComma
    obtain ⟨targets, last, hTail, hPure⟩ := bind_ok hMore
    cases hPure
    obtain ⟨back, others, trailing, rfl, hOthers, hWords, rfl, hNil⟩ := ih.tail _ _ _ hTail
    -- the comma that is next is taken with the others
    have hNonempty : moreWords trailing others ≠ [] := fun hEmpty =>
      hNil hComma (List.map_eq_nil_iff.1 (hWords.trans hEmpty))
    have hSeveral := @IsTargets.several True ⟨front.map Token.word, expr, first⟩ others trailing
      hNonempty (List.forall_mem_cons.2 ⟨hTarget, hOthers⟩)
    rw [← hWords, ← List.map_append] at hSeveral
    exact ⟨front ++ back, _, (List.append_assoc ..).symm, hSeveral⟩
  · cases hMore
    exact ⟨front, expr, rfl, .one hTarget⟩

end Steps

theorem takesTargets (budget : Nat) : TakesTargets budget := by
  induction budget with
  | zero =>
      refine ⟨fun tokens target rest h => ?_, fun tokens target rest h => ?_,
        fun tokens targets rest h => ?_⟩
      all_goals exact absurd h (Refuses.unexpected tokens _)
  | succ budget ih =>
      exact ⟨fun _ _ _ => ih.of_readTarget, fun _ _ _ => ih.of_readTargets,
        fun _ _ _ => ih.of_readTargetsTail⟩

/-! ## What an assignment reads -/

theorem Token.eq_token {t : Token} {word : Word} (h : t.word = word) : t = word.token t.start := by
  cases h
  rfl

theorem exists_token {word : Word} (h : tokens.map Token.word = word :: words) :
    ∃ start others, tokens = word.token start :: others ∧ others.map Token.word = words := by
  obtain ⟨t, others, rfl, hWord, hWords⟩ := List.map_eq_cons_iff.1 h
  exact ⟨t.start, others, congrArg (· :: others) (Token.eq_token hWord), hWords⟩

/-- Words that are read as an expression that needs no brackets, wherever they stand. -/
structure ReadsAsAtom (words : List Word) (expr : Expr) : Prop where
  starts : ∀ tokens, tokens.map Token.word = words → ∃ t others, tokens = t :: others ∧ t.Begins 10
  reads : ∀ tokens rest budget, tokens.map Token.word = words → 16 * tokens.length ≤ budget →
    readAtom budget (tokens ++ rest) = .ok (expr, rest)

namespace ReadsAsAtom

variable (h : ReadsAsAtom words expr) (hFront : front.map Token.word = words)

include h hFront

theorem head_closes (rest : List Token) (bracket : Char) :
    (front ++ rest).head?.any (·.closes bracket) = false := by
  obtain ⟨t, others, rfl, hBegins⟩ := h.starts front hFront
  exact hBegins.not_closes bracket

theorem head_starts (rest : List Token) :
    (front ++ rest).head?.any Token.startsExpression = true := by
  obtain ⟨t, others, rfl, hBegins⟩ := h.starts front hFront
  exact hBegins.starts

/-- What needs no brackets is an expression before the end of one. -/
theorem readExpr (hEnds : Ends 0 rest) (hBudget : 16 * front.length + 10 ≤ budget) :
    readExpr budget (front ++ rest) = .ok (expr, rest) := by
  obtain ⟨t, others, rfl, hBegins⟩ := h.starts front hFront
  rw [List.length_cons] at hBudget
  obtain ⟨fewer, rfl⟩ : ∃ fewer, budget = fewer + 11 := ⟨budget - 11, by omega⟩
  refine readExpr_of_readAtom hBegins hEnds (h.reads _ rest _ hFront ?_)
  rw [List.length_cons]
  omega

end ReadsAsAtom

/-- Each of the parts is read as its expression. -/
def ReadAsAtoms (parts : List TargetPart) : Prop :=
  ∀ part ∈ parts, ReadsAsAtom part.words part.expr

/-- What comes after the first of several targets starts with a comma. -/
theorem exists_comma {t : Token} {after : List Token}
    (h : (t :: after).map Token.word = moreWords trailing others) :
    ∃ start, t = (Word.operator ",").token start := by
  have hComma : ∃ words, moreWords trailing others = .operator "," :: words := by
    cases others with
    | nil =>
        cases trailing with
        | false => cases h
        | true => exact ⟨[], rfl⟩
    | cons part others => exact ⟨_, rfl⟩
  obtain ⟨words, hComma⟩ := hComma
  rw [hComma] at h
  exact ⟨t.start, Token.eq_token (List.cons.inj h).1⟩

/-- Nothing comes after the last of several targets. -/
theorem eq_nil_of_moreWords (h : [] = moreWords trailing others) : others = [] := by
  cases others with
  | nil => rfl
  | cons part others => cases h

/-- The items after a comma, up to the bracket that closes them. -/
theorem readItems_after_comma {bracket : Char} {comma stop : Nat} (h : ReadAsAtoms others)
    (hWords : ((Word.operator ",").token comma :: front).map Token.word = moreWords trailing others)
    (hBudget : 16 * front.length + 11 ≤ budget) :
    readItems budget bracket (front ++ (Word.closing bracket).token stop :: rest) =
      .ok (others.map (·.expr), (Word.closing bracket).token stop :: rest) := by
  induction others generalizing comma front budget with
  | nil =>
      obtain ⟨fewer, rfl⟩ : ∃ fewer, budget = fewer + 1 := ⟨budget - 1, by omega⟩
      have hNil : front = [] := by
        cases trailing with
        | false => cases hWords
        | true => exact List.map_eq_nil_iff.1 (List.cons.inj hWords).2
      rw [hNil]
      exact readItems_closing bracket stop fewer rest
  | cons part others ih =>
      obtain ⟨hPart, hOthers⟩ := List.forall_mem_cons.1 h
      obtain ⟨item, more, rfl, hItem, hMore⟩ := List.map_eq_append_iff.1 (List.cons.inj hWords).2
      rw [List.length_append] at hBudget
      obtain ⟨fewer, rfl⟩ : ∃ fewer, budget = fewer + 1 := ⟨budget - 1, by omega⟩
      rw [List.append_assoc, readItems]
      refine (run_bind (r := nextIs _) rfl).trans ?_
      rw [hPart.head_closes hItem]
      cases more with
      | nil =>
          refine (run_bind (hPart.readExpr hItem (.closing bracket stop) (by omega))).trans ?_
          rw [eq_nil_of_moreWords hMore]
          exact (run_bind (eat_false rfl)).trans rfl
      | cons t after =>
          obtain ⟨next, rfl⟩ := exists_comma hMore
          rw [List.length_cons] at hBudget
          refine (run_bind (hPart.readExpr hItem (.operator "," (by decide) _) (by omega))).trans ?_
          refine (run_bind (eat_true rfl _)).trans ?_
          exact (run_bind (ih hOthers hMore (by omega))).trans rfl

theorem ends_before_more (h : front.map Token.word = moreWords trailing others)
    (hEnds : Ends 0 rest) : Ends 0 (front ++ rest) := by
  cases front with
  | nil => exact hEnds
  | cons t after =>
      obtain ⟨comma, rfl⟩ := exists_comma h
      exact .operator "," (by decide) comma

/-- The items after the first one of a tuple without brackets, up to the equals sign. -/
theorem readTupleTail_before_equals {equals : Nat} (h : ReadAsAtoms others)
    (hWords : front.map Token.word = moreWords trailing others)
    (hBudget : 16 * front.length + 11 ≤ budget) :
    readTupleTail budget (front ++ (Word.operator "=").token equals :: rest) =
      .ok (others.map (·.expr), (Word.operator "=").token equals :: rest) := by
  induction others generalizing front budget with
  | nil =>
      obtain ⟨fewer, rfl⟩ : ∃ fewer, budget = fewer + 1 := ⟨budget - 1, by omega⟩
      rw [readTupleTail]
      cases trailing with
      | false =>
          rw [List.map_eq_nil_iff.1 hWords]
          exact (run_bind (eat_false rfl)).trans rfl
      | true =>
          obtain ⟨comma, last, rfl, hLast⟩ := exists_token hWords
          rw [List.map_eq_nil_iff.1 hLast]
          refine (run_bind (eat_true rfl _)).trans ?_
          exact (run_bind (r := nextIs _) rfl).trans rfl
  | cons part others ih =>
      obtain ⟨hPart, hOthers⟩ := List.forall_mem_cons.1 h
      obtain ⟨comma, after, rfl, hAfter⟩ := exists_token hWords
      obtain ⟨item, more, rfl, hItem, hMore⟩ := List.map_eq_append_iff.1 hAfter
      rw [List.length_cons, List.length_append] at hBudget
      obtain ⟨fewer, rfl⟩ : ∃ fewer, budget = fewer + 1 := ⟨budget - 1, by omega⟩
      have hEnds := ends_before_more hMore (@Ends.operator 0 rest "=" (by decide) equals)
      rw [readTupleTail, List.cons_append, List.append_assoc]
      refine (run_bind (eat_true rfl _)).trans ((run_bind (r := nextIs _) rfl).trans ?_)
      rw [hPart.head_starts hItem]
      refine (run_bind (hPart.readExpr hItem hEnds (by omega))).trans ?_
      exact (run_bind (ih hOthers hMore (by omega))).trans rfl

/-! ### Targets as expressions -/

theorem readsAsAtom_name {label : String} (h : isKeyword label.toList = false) :
    ReadsAsAtom [.name label] (.name label) where
  starts tokens hWords := by
    obtain ⟨start, others, rfl, -⟩ := exists_token hWords
    refine ⟨_, others, rfl, ?_, fun _ => not_isName_of_plain h (by decide) start,
      fun _ => ⟨rfl, rfl⟩⟩
    show (!isKeyword label.toList || _) = true
    rw [h]
    rfl
  reads tokens rest budget hWords hBudget := by
    obtain ⟨start, others, rfl, hOthers⟩ := exists_token hWords
    rw [List.length_cons] at hBudget
    obtain ⟨fewer, rfl⟩ : ∃ fewer, budget = fewer + 1 := ⟨budget - 1, by omega⟩
    rw [List.map_eq_nil_iff.1 hOthers]
    exact readAtom_name h start fewer rest

/-- Words between brackets need no more brackets, if what is between them is read up to the closing
one. -/
theorem readsAsAtom_enclosed {left right : Char} {inner : List Word}
    (hRead : ∀ front rest budget start stop, front.map Token.word = inner →
      16 * front.length + 16 ≤ budget →
      readAtom budget ((Word.opening left).token start ::
        (front ++ (Word.closing right).token stop :: rest)) = .ok (expr, rest)) :
    ReadsAsAtom (.opening left :: (inner ++ [.closing right])) expr where
  starts tokens hWords := by
    obtain ⟨start, others, rfl, -⟩ := exists_token hWords
    exact ⟨_, others, rfl, rfl, fun _ => rfl, fun _ => ⟨rfl, rfl⟩⟩
  reads tokens rest budget hWords hBudget := by
    obtain ⟨start, others, rfl, hOthers⟩ := exists_token hWords
    obtain ⟨front, last, rfl, hFront, hLast⟩ := List.map_eq_append_iff.1 hOthers
    obtain ⟨stop, none, rfl, hNone⟩ := exists_token hLast
    rw [List.length_cons, List.length_append] at hBudget
    rw [List.map_eq_nil_iff.1 hNone, List.cons_append, List.append_assoc]
    exact hRead front rest budget start stop hFront (by omega)

/-- Brackets around an expression. -/
theorem ReadsAsAtom.grouped (h : ReadsAsAtom words expr) :
    ReadsAsAtom (.opening '(' :: (words ++ [.closing ')'])) expr := by
  refine readsAsAtom_enclosed fun front rest budget start stop hFront hBudget => ?_
  obtain ⟨fewer, rfl⟩ : ∃ fewer, budget = fewer + 2 := ⟨budget - 2, by omega⟩
  rw [readAtom_round, readParenthesized]
  refine (run_bind (eat_false (h.head_closes hFront _ ')'))).trans ?_
  refine (run_bind (h.readExpr hFront (.closing ')' stop) (by omega))).trans ?_
  exact (run_bind (eat_true (closes_token ')' _) rest)).trans rfl

/-- Items in round brackets with a comma among them. -/
theorem readsAsAtom_tuple (h : ReadAsAtoms (first :: others))
    (hComma : moreWords trailing others ≠ []) :
    ReadsAsAtom (.opening '(' :: (first.words ++ moreWords trailing others ++ [.closing ')']))
      (.tuple ((first :: others).map (·.expr))) := by
  refine readsAsAtom_enclosed fun front rest budget start stop hFront hBudget => ?_
  obtain ⟨hFirst, hOthers⟩ := List.forall_mem_cons.1 h
  obtain ⟨item, more, rfl, hItem, hMore⟩ := List.map_eq_append_iff.1 hFront
  have hEnds := ends_before_more hMore (@Ends.closing 0 rest ')' stop)
  cases more with
  | nil => exact absurd hMore.symm hComma
  | cons t after =>
      obtain ⟨comma, rfl⟩ := exists_comma hMore
      rw [List.length_append, List.length_cons] at hBudget
      obtain ⟨fewer, rfl⟩ : ∃ fewer, budget = fewer + 2 := ⟨budget - 2, by omega⟩
      rw [readAtom_round, readParenthesized, List.append_assoc]
      refine (run_bind (eat_false (hFirst.head_closes hItem _ ')'))).trans ?_
      refine (run_bind (hFirst.readExpr hItem hEnds (by omega))).trans ?_
      refine (run_bind (eat_false rfl)).trans ((run_bind (eat_true rfl _)).trans ?_)
      refine (run_bind (readItems_after_comma hOthers hMore (by omega))).trans ?_
      exact (run_bind (close_token ')' stop rest)).trans rfl

/-- Items in square brackets. -/
theorem readsAsAtom_list (h : ReadAsAtoms (first :: others)) :
    ReadsAsAtom (.opening '[' :: (first.words ++ moreWords trailing others ++ [.closing ']']))
      (.list ((first :: others).map (·.expr))) := by
  refine readsAsAtom_enclosed fun front rest budget start stop hFront hBudget => ?_
  -- the items are read as they are after a comma, so one is thought in front of them
  have hMore : ((Word.operator ",").token 0 :: front).map Token.word =
      moreWords trailing (first :: others) := congrArg (Word.operator "," :: ·) hFront
  obtain ⟨fewer, rfl⟩ : ∃ fewer, budget = fewer + 1 := ⟨budget - 1, by omega⟩
  rw [readAtom_square]
  refine (run_bind (readItems_after_comma h hMore (by omega))).trans ?_
  exact (run_bind (close_token ']' stop rest)).trans rfl

/-- Every target is an expression that needs no brackets. -/
theorem IsTarget.readsAsAtom (h : IsTarget alone words expr target) : ReadsAsAtom words expr := by
  induction h with
  | name h => exact readsAsAtom_name h
  | grouped _ ih => exact ih.grouped
  | @unwrapped words expr target _ _ ih =>
      have hAlone : ReadAsAtoms [⟨words, expr, target⟩] := List.forall_mem_singleton.2 ih
      have hList := @readsAsAtom_list ⟨words, expr, target⟩ [] false hAlone
      rwa [moreWords, if_neg Bool.false_ne_true, List.append_nil] at hList
  | tuple hComma _ ih => exact readsAsAtom_tuple ih hComma
  | list _ _ ih => exact readsAsAtom_list ih

/-- Targets before an equals sign are read as their expression. -/
theorem IsTargets.readTuple {equals : Nat} (h : IsTargets alone words expr target)
    (hFront : front.map Token.word = words) (hBudget : 16 * front.length + 12 ≤ budget) :
    readTuple budget (front ++ (Word.operator "=").token equals :: rest) =
      .ok (expr, (Word.operator "=").token equals :: rest) := by
  obtain ⟨fewer, rfl⟩ : ∃ fewer, budget = fewer + 1 := ⟨budget - 1, by omega⟩
  rw [Stencil.readTuple]
  cases h with
  | one h =>
      have hEnds := @Ends.operator 0 rest "=" (by decide) equals
      refine (run_bind (h.readsAsAtom.readExpr hFront hEnds (by omega))).trans ?_
      exact (run_bind (r := nextIs _) rfl).trans rfl
  | several hComma h =>
      obtain ⟨hFirst, hOthers⟩ := List.forall_mem_cons.1 h
      obtain ⟨item, more, rfl, hItem, hMore⟩ := List.map_eq_append_iff.1 hFront
      rw [List.length_append] at hBudget
      have hEnds := ends_before_more hMore (@Ends.operator 0 rest "=" (by decide) equals)
      have hAtoms : ReadAsAtoms _ := fun part hPart => (hOthers part hPart).readsAsAtom
      rw [List.append_assoc]
      refine (run_bind (hFirst.readsAsAtom.readExpr hItem hEnds (by omega))).trans ?_
      refine (run_bind (r := nextIs _) rfl).trans ?_
      cases more with
      | nil => exact absurd hMore.symm hComma
      | cons t after =>
          obtain ⟨comma, rfl⟩ := exists_comma hMore
          exact (run_bind (readTupleTail_before_equals hAtoms hMore (by omega))).trans rfl

/-! ## What an assignment assigns to -/

/-- The second target is the first one, but for targets alone in a tuple, which the second one may
leave out of it. -/
inductive Unwraps : Target → Target → Prop
  | name (label : String) : Unwraps (.name label) (.name label)
  | tuple {items others : List Target} (h : List.Forall₂ Unwraps items others) :
      Unwraps (.tuple items) (.tuple others)
  | single {item other : Target} (h : Unwraps item other) : Unwraps (.tuple [item]) other

/-- The targets that the expressions of parts stand for, when there is one for each. -/
theorem toTargets?_parts (h : ∀ part ∈ parts, ∃ assigned, part.expr.toTarget? = some assigned ∧
      Unwraps assigned part.target ∧ (¬ alone → assigned = part.target)) :
    ∃ assigned, Expr.toTargets? (parts.map (·.expr)) = some assigned ∧
      List.Forall₂ Unwraps assigned (parts.map (·.target)) ∧
      (¬ alone → assigned = parts.map (·.target)) := by
  induction parts with
  | nil => exact ⟨[], rfl, .nil, fun _ => rfl⟩
  | cons part parts ih =>
      obtain ⟨⟨first, hFirst, hUnwraps, hSame⟩, hParts⟩ := List.forall_mem_cons.1 h
      obtain ⟨others, hOthers, hAll, hSameAll⟩ := ih hParts
      refine ⟨first :: others, ?_, .cons hUnwraps hAll, fun hAlone => ?_⟩
      · rw [List.map_cons, Expr.toTargets?, hFirst, hOthers]
        rfl
      · rw [List.map_cons, hSame hAlone, hSameAll hAlone]

/-- The expression of a target can be assigned to, and the assignment makes the same target of it,
but for what stands alone in square brackets. -/
theorem IsTarget.toTarget? (h : IsTarget alone words expr target) :
    ∃ assigned, expr.toTarget? = some assigned ∧ Unwraps assigned target ∧
      (¬ alone → assigned = target) := by
  induction h with
  | @name label h => exact ⟨.name label, by rw [Expr.toTarget?], .name label, fun _ => rfl⟩
  | grouped _ ih => exact ih
  | unwrapped hAlone _ ih =>
      obtain ⟨assigned, hExpr, hUnwraps, -⟩ := ih
      refine ⟨.tuple [assigned], ?_, .single hUnwraps, fun hNot => absurd hAlone hNot⟩
      rw [Expr.toTarget?, Expr.toTargets?, Expr.toTargets?, hExpr]
      rfl
  | tuple _ _ ih =>
      obtain ⟨assigned, hItems, hUnwraps, hSame⟩ := toTargets?_parts ih
      refine ⟨.tuple assigned, ?_, .tuple hUnwraps, fun hAlone => congrArg _ (hSame hAlone)⟩
      rw [Expr.toTarget?, hItems]
      rfl
  | list _ _ ih =>
      obtain ⟨assigned, hItems, hUnwraps, hSame⟩ := toTargets?_parts ih
      refine ⟨.tuple assigned, ?_, .tuple hUnwraps, fun hAlone => congrArg _ (hSame hAlone)⟩
      rw [Expr.toTarget?, hItems]
      rfl

theorem IsTargets.toTarget? (h : IsTargets alone words expr target) :
    ∃ assigned, expr.toTarget? = some assigned ∧ Unwraps assigned target ∧
      (¬ alone → assigned = target) := by
  cases h with
  | one h => exact h.toTarget?
  | several hComma h => exact (IsTarget.tuple hComma h).toTarget?

/-! ## Whole texts -/

/-- The words of a text that mean something to the grammar. -/
def HasWords (text : List Char) (words : List Word) : Prop :=
  ∃ tokens, strictTokens text = .ok tokens ∧ (meaningful tokens).map Token.word = words

/-- A header has a target between its keywords, and it is the target of the loop. -/
theorem isTargets_of_readForHeader {header : List Char} {values : Expr}
    (h : readForHeader header = .ok (target, values)) :
    ∃ words expr back, HasWords header (.name "for" :: (words ++ .name "in" :: back)) ∧
      IsTargets True words expr target := by
  cases hTokens : strictTokens header with
  | error fault =>
      rw [readForHeader, Reader.run, hTokens] at h
      cases h
  | ok tokens =>
      rw [readForHeader, Reader.run_eq_ok hTokens] at h
      obtain ⟨_, middle, hFor, hTarget⟩ := bind_ok h
      obtain ⟨t, hMeaningful, hForWord⟩ := keyword_ok hFor
      obtain ⟨found, after, hFound, hIn⟩ := bind_ok hTarget
      obtain ⟨_, last, hKeyword, hValues⟩ := bind_ok hIn
      obtain ⟨u, rfl, hInWord⟩ := keyword_ok hKeyword
      obtain ⟨values, none, -, hPure⟩ := bind_ok hValues
      cases hPure
      obtain ⟨front, expr, rfl, hTargets⟩ := (takesTargets _).targets _ _ _ hFound
      refine ⟨front.map Token.word, expr, last.map Token.word, ⟨tokens, hTokens, ?_⟩, hTargets⟩
      rw [hMeaningful, List.map_cons, List.map_append, List.map_cons, hForWord, hInWord]

/-- A target before an equals sign is assigned to. -/
theorem read_assignment {statement : List Char} {label : String}
    (h : IsTargets alone words expr target)
    (hStatement : HasWords statement (words ++ [.operator "=", .name label]))
    (hLabel : isKeyword label.toList = false) :
    ∃ assigned, Statement.read statement = .ok (.assign [assigned] (.name label)) ∧
      Unwraps assigned target ∧ (¬ alone → assigned = target) := by
  obtain ⟨tokens, hTokens, hWords⟩ := hStatement
  obtain ⟨assigned, hAssigned, hTargets⟩ := h.toTarget?
  refine ⟨assigned, ?_, hTargets⟩
  obtain ⟨front, back, hMeaningful, hFront, hBack⟩ := List.map_eq_append_iff.1 hWords
  obtain ⟨equals, value, rfl, hValue⟩ := exists_token hBack
  obtain ⟨start, none, rfl, hNone⟩ := exists_token hValue
  rw [List.map_eq_nil_iff.1 hNone] at hMeaningful
  have hBudget : budgetFor (meaningful tokens).length = 16 * front.length + 35 + 13 := by
    rw [hMeaningful, budgetFor, List.length_append, List.length_cons, List.length_cons,
      List.length_nil]
    omega
  have hLeft : readTuple (16 * front.length + 35 + 13)
      (front ++ [(Word.operator "=").token equals, (Word.name label).token start]) =
      .ok (expr, [(Word.operator "=").token equals, (Word.name label).token start]) :=
    h.readTuple hFront (by omega)
  have hRight : readTuple (16 * front.length + 35 + 12) [(Word.name label).token start] =
      .ok (.name label, []) :=
    readTuple_of_readAtom (not_isName_of_plain hLabel (by decide) start) rfl
      (readAtom_name hLabel start _ [])
  have hTarget (tokens : List Token) : targetOf expr tokens = .ok (assigned, tokens) := by
    rw [targetOf, hAssigned]
    rfl
  rw [Statement.read, Reader.run_eq_ok hTokens, hBudget, hMeaningful, readStatement]
  refine (run_bind hLeft).trans ((run_bind (r := augmentedOperator?) rfl).trans ?_)
  refine (run_bind (r := nextIs _) rfl).trans ?_
  show readAssignment (16 * front.length + 35 + 12 + 1) [] expr _ = _
  rw [readAssignment]
  refine (run_bind (r := nextIs _) rfl).trans ((run_bind (hTarget _)).trans ?_)
  refine (run_bind (r := advance) rfl).trans ((run_bind hRight).trans ?_)
  rw [readAssignment]
  exact (run_bind (r := nextIs _) rfl).trans rfl

/-- The target of a loop can be assigned to. The assignment makes the same target of it, but for
targets alone in square brackets, which it takes out of what is assigned. -/
theorem loop_target_is_assigned {header : List Char} {values : Expr}
    (h : readForHeader header = .ok (target, values)) :
    ∃ words back, HasWords header (.name "for" :: (words ++ .name "in" :: back)) ∧
      ∀ statement label, HasWords statement (words ++ [.operator "=", .name label]) →
        isKeyword label.toList = false →
        ∃ assigned, Statement.read statement = .ok (.assign [assigned] (.name label)) ∧
          Unwraps assigned target ∧
          ∀ expr, IsTargets False words expr target → assigned = target := by
  obtain ⟨words, expr, back, hHeader, hTargets⟩ := isTargets_of_readForHeader h
  refine ⟨words, back, hHeader, fun statement label hStatement hLabel => ?_⟩
  obtain ⟨assigned, hRead, hUnwraps, -⟩ := read_assignment hTargets hStatement hLabel
  refine ⟨assigned, hRead, hUnwraps, fun other hNone => ?_⟩
  -- the statement is read only one way, so both targets are the one that is assigned to
  obtain ⟨same, hSame, -, hEq⟩ := read_assignment hNone hStatement hLabel
  rw [hSame] at hRead
  cases hRead
  exact hEq id

/-- A name alone in square brackets is the name for a loop, and a tuple for an assignment. -/
theorem bracketed_name_differs :
    readForHeader "for [a] in x".toList = .ok (.name "a", .name "x") ∧
      Statement.read "[a] = x".toList = .ok (.assign [.tuple [.name "a"]] (.name "x")) := by
  have hHeader : strictTokens "for [a] in x".toList = .ok (tokensFrom 0 [.name "for", .space,
      .opening '[', .name "a", .closing ']', .space, .name "in", .space, .name "x"]) := by
    decide +kernel
  have hStatement : strictTokens "[a] = x".toList = .ok (tokensFrom 0 [.opening '[', .name "a",
      .closing ']', .space, .operator "=", .space, .name "x"]) := by
    decide +kernel
  rw [readForHeader, Statement.read, Reader.run_eq_ok hHeader, Reader.run_eq_ok hStatement]
  exact ⟨rfl, rfl⟩

end Stencil
