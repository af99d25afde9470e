import Mathlib.Logic.Basic
import Stencil.Proofs.Quoting.Parsing

/-!
# Brackets of code

What the grammar reads has balanced brackets, and no colon outside all of them. Each reader leaves
off as deep in brackets as it starts; where one passes over an opening bracket, it asks for the
closing one before it ends. Colons stand in the entries of a dictionary and in a subscript only.

## Main results

* `ReadersNest`, `readersNest`: each reader keeps the depth.
* `nesting_of_run`: a whole text that is read is balanced.
-/

namespace Stencil

/-- How deep in brackets the text behind a token is, when it is this deep before it. There is no
answer after a bracket that closes none, and after a colon outside all brackets. -/
def Token.depthAfter (depth : Nat) (t : Token) : Option Nat :=
  match t.kind with
  | .opening => some (depth + 1)
  | .closing => if depth = 0 then none else some (depth - 1)
  | .operator => if t.text = [':'] ∧ depth = 0 then none else some depth
  | _ => some depth

/-- How deep in brackets the text behind tokens is. -/
def nesting (depth : Nat) (tokens : List Token) : Option Nat :=
  tokens.foldlM Token.depthAfter depth

theorem nesting_cons {depth next : Nat} {t : Token} (h : t.depthAfter depth = some next)
    (rest : List Token) : nesting depth (t :: rest) = nesting next rest := by
  rw [nesting, List.foldlM_cons, h]
  rfl

namespace Reader

variable {depth next final : Nat} {α β : Type} {r : Reader α} {tokens : List Token}

/-- From these tokens the reader leads from one depth to another. -/
def LeadsAt (depth final : Nat) (tokens : List Token) (r : Reader α) : Prop :=
  ∀ result rest, r tokens = .ok (result, rest) → nesting depth tokens = nesting final rest

/-- The reader leads from one depth to another. -/
def Leads (depth final : Nat) (r : Reader α) : Prop := ∀ tokens, LeadsAt depth final tokens r

/-- A token that passes the test leads from one depth to another. -/
def Steps (depth next : Nat) (test : Token → Bool) : Prop :=
  ∀ t, test t = true → t.depthAfter depth = some next

/-! ### Rules -/

theorem LeadsAt.bind {f : α → Reader β} (h : LeadsAt depth next tokens r)
    (hNext : ∀ value, Leads next final (f value)) : LeadsAt depth final tokens (r >>= f) := by
  intro result rest hRun
  obtain ⟨value, middle, hFirst, hSecond⟩ := bind_ok hRun
  exact (h value middle hFirst).trans (hNext value middle result rest hSecond)

theorem Leads.bind {f : α → Reader β} (h : Leads depth next r)
    (hNext : ∀ value, Leads next final (f value)) : Leads depth final (r >>= f) :=
  fun tokens => (h tokens).bind hNext

theorem Leads.pure (value : α) : Leads depth depth (Pure.pure value : Reader α) := by
  intro tokens result rest h
  cases h
  rfl

theorem Leads.map {f : α → β} (h : Leads depth final r) : Leads depth final (f <$> r) :=
  h.bind fun value => .pure (f value)

theorem Leads.ite {c : Prop} [Decidable c] {other : Reader α} (h : Leads depth final r)
    (h' : Leads depth final other) : Leads depth final (if c then r else other) := by
  split
  · exact h
  · exact h'

/-- The step that is chosen gives what the rest goes on with. -/
theorem Leads.ite_bind {c : Prop} [Decidable c] {middle : Nat} {other : Reader α}
    {next : α → Reader β} (h : Leads depth middle r) (h' : Leads depth middle other)
    (hNext : ∀ value, Leads middle final (next value)) :
    Leads depth final (if c then r >>= next else other >>= next) :=
  .ite (h.bind hNext) (h'.bind hNext)

theorem Leads.of_refuses (h : ∀ tokens, Refuses tokens r) : Leads depth final r :=
  fun tokens result rest hRun => absurd hRun (h tokens (result, rest))

theorem Leads.fail (cause : SyntaxCause) : Leads depth final (Reader.fail cause : Reader α) :=
  .of_refuses fun tokens => .fail tokens cause

theorem Leads.unexpected : Leads depth final (Reader.unexpected : Reader α) :=
  .of_refuses .unexpected

/-- A refusal before the next step. -/
theorem Leads.guard {c : Prop} [Decidable c] {cause : SyntaxCause} {f : Unit → Reader α}
    (h : Leads depth final (f ())) :
    Leads depth final (if c then (Reader.fail cause : Reader Unit) >>= f else f ()) :=
  .ite (.of_refuses fun tokens => (Refuses.fail tokens cause).bind) h

/-! ### Single tokens -/

theorem Leads.nextIs (test : Token → Bool) : Leads depth depth (Reader.nextIs test) := by
  intro tokens result rest h
  cases h
  rfl

theorem Leads.peek : Leads depth depth peek? := by
  intro tokens result rest h
  cases h
  rfl

/-- A token that is passed over when it passes a test. -/
theorem Leads.eat_bind {test : Token → Bool} {f : Bool → Reader α} (hTest : Steps depth next test)
    (hTrue : Leads next final (f true)) (hFalse : Leads depth final (f false)) :
    Leads depth final (Reader.eat test >>= f) := by
  intro tokens result rest hRun
  cases tokens with
  | nil => exact hFalse [] result rest hRun
  | cons t others =>
      cases hEats : test t with
      | true =>
          rw [run_bind (if_pos hEats)] at hRun
          rw [nesting_cons (hTest t hEats)]
          exact hTrue others result rest hRun
      | false =>
          rw [run_bind (if_neg (Bool.eq_false_iff.1 hEats))] at hRun
          exact hFalse _ result rest hRun

/-- A token that must pass a test. -/
theorem Leads.eat_or_fail {test : Token → Bool} {cause : SyntaxCause}
    (hTest : Steps depth final test) :
    Leads depth final (do
      if ← Reader.eat test then return
      Reader.fail cause : Reader Unit) :=
  .eat_bind hTest (.pure ()) (.fail cause)

theorem LeadsAt.advance_bind {t : Token} (h : t.depthAfter depth = some next)
    {f : Unit → Reader α} {others : List Token} (hNext : LeadsAt next final others (f ())) :
    LeadsAt depth final (t :: others) (Reader.advance >>= f) := by
  intro result rest hRun
  rw [nesting_cons h]
  exact hNext result rest hRun

/-- The next token is looked at; without one nothing is read. -/
theorem Leads.peek_bind {f : Option Token → Reader α} (hNil : ∀ result, f none [] ≠ .ok result)
    (hNext : ∀ t others, LeadsAt depth final (t :: others) (f (some t))) :
    Leads depth final (peek? >>= f) := by
  intro tokens result rest hRun
  cases tokens with
  | nil => exact absurd hRun (hNil _)
  | cons t others => exact hNext t others result rest hRun

theorem steps_isName (word : String) : Steps depth depth (·.isName word) := by
  intro t (h : t.isName word = true)
  rw [Token.isName, Bool.and_eq_true, beq_iff_eq] at h
  rw [Token.depthAfter, h.1]

theorem steps_isOperator {symbol : String} (hSymbol : symbol.toList ≠ [':']) :
    Steps depth depth (·.isOperator symbol) := by
  intro t (h : t.isOperator symbol = true)
  rw [Token.isOperator, Bool.and_eq_true, beq_iff_eq, beq_iff_eq] at h
  rw [Token.depthAfter, h.1]
  exact if_neg fun hColon => hSymbol (h.2.symm.trans hColon.1)

/-- Inside brackets, every operator may stand. -/
theorem steps_inside (symbol : String) : Steps (depth + 1) (depth + 1) (·.isOperator symbol) := by
  intro t (h : t.isOperator symbol = true)
  rw [Token.isOperator, Bool.and_eq_true, beq_iff_eq] at h
  rw [Token.depthAfter, h.1]
  exact if_neg fun hZero => Nat.succ_ne_zero depth hZero.2

theorem steps_opens (bracket : Char) : Steps depth (depth + 1) (·.opens bracket) := by
  intro t (h : t.opens bracket = true)
  rw [Token.opens, Bool.and_eq_true, beq_iff_eq] at h
  rw [Token.depthAfter, h.1]

theorem steps_closes (bracket : Char) : Steps (depth + 1) depth (·.closes bracket) := by
  intro t (h : t.closes bracket = true)
  rw [Token.closes, Bool.and_eq_true, beq_iff_eq] at h
  rw [Token.depthAfter, h.1]
  exact if_neg (Nat.succ_ne_zero depth)

theorem steps_dot : Steps depth depth (·.kind == .dot) := by
  intro t h
  rw [Token.depthAfter, beq_iff_eq.1 h]

theorem Leads.keyword (word : String) : Leads depth depth (Reader.keyword word) :=
  .eat_or_fail (steps_isName word)

theorem Leads.close (bracket : Char) : Leads (depth + 1) depth (Reader.close bracket) :=
  .eat_or_fail (steps_closes bracket)

theorem Leads.identifier : Leads depth depth Reader.identifier := by
  refine .peek_bind (fun _ h => by cases h) fun t others => ?_
  by_cases hName : t.kind = .name ∧ (!isKeyword t.text) = true
  · have hDepth : t.depthAfter depth = some depth := by rw [Token.depthAfter, hName.1]
    have hRead : LeadsAt depth depth (t :: others)
        (do advance; return String.ofList t.text) :=
      LeadsAt.advance_bind hDepth (Leads.pure (String.ofList t.text) others)
    intro result rest hRun
    refine hRead result rest ?_
    rw [← hRun]
    exact (congrFun (if_pos hName) _).symm
  · intro result rest hRun
    have hNone : (Reader.fail .expectedIdentifier : Reader String) (t :: others) =
        .ok (result, rest) := by
      rw [← hRun]
      exact (congrFun (if_neg hName) _).symm
    cases hNone

/-! ### Operators and literals -/

/-- What is read from the first token. -/
theorem nesting_operator {t : Token} {symbol : String} (h : t.isOperator symbol = true)
    (hSymbol : symbol.toList ≠ [':']) (others : List Token) :
    nesting depth (t :: others) = nesting depth others :=
  nesting_cons (steps_isOperator hSymbol t h) others

theorem nesting_name {t : Token} {word : String} (h : t.isName word = true)
    (others : List Token) : nesting depth (t :: others) = nesting depth others :=
  nesting_cons (steps_isName word t h) others

/-- A second word is passed over with the first. -/
theorem nesting_names {t : Token} {word second : String} {others : List Token}
    (h : (t.isName word && others.head?.any (·.isName second)) = true) :
    nesting depth (t :: others) = nesting depth others.tail := by
  rw [Bool.and_eq_true] at h
  rw [nesting_name h.1]
  cases others with
  | nil => cases h.2
  | cons mark rest => exact nesting_name h.2 rest

theorem Leads.comparison? : Leads depth depth Reader.comparison? := by
  intro tokens result rest h
  cases tokens with
  | nil =>
      cases h
      rfl
  | cons t others =>
      simp only [Reader.comparison?] at h
      iterate 6
        rcases ite_eq_iff.1 h with ⟨hHere, h⟩ | ⟨-, h⟩
        · cases h
          exact nesting_operator hHere (by decide) _
      rcases ite_eq_iff.1 h with ⟨hHere, h⟩ | ⟨-, h⟩
      · cases h
        exact nesting_name hHere _
      iterate 2
        rcases ite_eq_iff.1 h with ⟨hHere, h⟩ | ⟨-, h⟩
        · cases h
          exact nesting_names hHere
      rcases ite_eq_iff.1 h with ⟨hHere, h⟩ | ⟨-, h⟩
      · cases h
        exact nesting_name hHere _
      · cases h
        rfl

theorem Leads.operator? {ops : List BinaryOp} (h : ∀ op ∈ ops, op.symbol.toList ≠ [':']) :
    Leads depth depth (Reader.operator? ops) := by
  intro tokens result rest hRun
  cases tokens with
  | nil =>
      cases hRun
      rfl
  | cons t others =>
      simp only [Reader.operator?] at hRun
      split at hRun
      · rename_i op hFind
        cases hRun
        have hSymbol : t.isOperator op.symbol = true := by
          have hFound := List.find?_some hFind
          exact hFound
        exact nesting_operator hSymbol (h op (List.mem_of_find?_eq_some hFind)) _
      · cases hRun
        rfl

theorem Leads.strings : Leads depth depth Reader.strings := by
  intro tokens result rest h
  have hGo : strings.go tokens = .ok (result, rest) := h
  clear h
  induction tokens generalizing result with
  | nil =>
      cases hGo
      rfl
  | cons t others ih =>
      rw [strings.go] at hGo
      split at hGo
      · rename_i hString
        split at hGo
        · cases hGo
        · cases hOthers : strings.go others with
          | error fault =>
              rw [hOthers] at hGo
              cases hGo
          | ok pair =>
              rw [hOthers] at hGo
              cases hGo
              have hDepth : t.depthAfter depth = some depth := by rw [Token.depthAfter, hString]
              rw [nesting_cons hDepth]
              exact ih _ hOthers
      · cases hGo
        rfl

theorem nesting_signs (depth : Nat) (tokens : List Token) :
    nesting depth tokens = nesting depth (Reader.signs tokens).2 := by
  induction tokens with
  | nil => rfl
  | cons t others ih =>
      rw [Reader.signs]
      split
      · exact (nesting_operator ‹_› (by decide) others).trans ih
      split
      · exact (nesting_operator ‹_› (by decide) others).trans ih
      · rfl

theorem Leads.signs : Leads depth depth (fun tokens => .ok (Reader.signs tokens)) := by
  intro tokens result rest h
  have hSigns : Reader.signs tokens = (result, rest) := Except.ok.inj h
  rw [nesting_signs, hSigns]

end Reader

open Reader

/-! ## The grammar -/

section Grammar

/-- Each reader leaves off as deep in brackets as it starts. Entries and subscripts stand inside
brackets. -/
structure ReadersNest (budget : Nat) : Prop where
  tuple : ∀ {depth}, Leads depth depth (readTuple budget)
  tupleTail : ∀ {depth}, Leads depth depth (readTupleTail budget)
  expr : ∀ {depth}, Leads depth depth (readExpr budget)
  or : ∀ {depth}, Leads depth depth (readOr budget)
  orTail : ∀ {depth} left, Leads depth depth (readOrTail budget left)
  and : ∀ {depth}, Leads depth depth (readAnd budget)
  andTail : ∀ {depth} left, Leads depth depth (readAndTail budget left)
  not : ∀ {depth}, Leads depth depth (readNot budget)
  compare : ∀ {depth}, Leads depth depth (readCompare budget)
  links : ∀ {depth}, Leads depth depth (readLinks budget)
  sum : ∀ {depth}, Leads depth depth (readSum budget)
  sumTail : ∀ {depth} left, Leads depth depth (readSumTail budget left)
  product : ∀ {depth}, Leads depth depth (readProduct budget)
  productTail : ∀ {depth} left, Leads depth depth (readProductTail budget left)
  factor : ∀ {depth}, Leads depth depth (readFactor budget)
  power : ∀ {depth}, Leads depth depth (readPower budget)
  primary : ∀ {depth}, Leads depth depth (readPrimary budget)
  trailers : ∀ {depth} value, Leads depth depth (readTrailers budget value)
  arguments : ∀ {depth} arguments named, Leads depth depth (readArguments budget arguments named)
  subscript : ∀ {depth} value, Leads (depth + 1) (depth + 1) (readSubscript budget value)
  items : ∀ {depth} bracket, Leads depth depth (readItems budget bracket)
  entries : ∀ {depth}, Leads (depth + 1) (depth + 1) (readEntries budget)
  atom : ∀ {depth}, Leads depth depth (readAtom budget)
  parenthesized : ∀ {depth}, Leads (depth + 1) depth (readParenthesized budget)

theorem readersNest_zero : ReadersNest 0 := by
  constructor <;> intros <;> exact .unexpected

theorem steps_comma {depth : Nat} : Steps depth depth (·.isOperator ",") :=
  steps_isOperator (by decide)

variable {budget depth : Nat} (h : ReadersNest budget)
include h

theorem leads_readTuple : Leads depth depth (readTuple (budget + 1)) := by
  refine h.expr.bind fun first => (Leads.nextIs _).bind fun more => .ite ?_ (.pure _)
  exact h.tupleTail.bind fun others => .pure _

theorem leads_readTupleTail : Leads depth depth (readTupleTail (budget + 1)) := by
  refine .eat_bind steps_comma ?_ (.pure _)
  refine (Leads.nextIs _).bind fun starts => .ite ?_ (.pure _)
  exact h.expr.bind fun item => h.tupleTail.bind fun others => .pure _

theorem leads_readExpr : Leads depth depth (readExpr (budget + 1)) := by
  refine h.or.bind fun body => .eat_bind (steps_isName "if") ?_ (.pure _)
  exact h.or.bind fun test => (Leads.keyword "else").bind fun _ =>
    h.expr.bind fun otherwise => .pure _

theorem leads_readOrTail (left : Expr) : Leads depth depth (readOrTail (budget + 1) left) :=
  .eat_bind (steps_isName "or") (h.and.bind fun _ => h.orTail _) (.pure _)

theorem leads_readAndTail (left : Expr) : Leads depth depth (readAndTail (budget + 1) left) :=
  .eat_bind (steps_isName "and") (h.not.bind fun _ => h.andTail _) (.pure _)

theorem leads_readNot : Leads depth depth (readNot (budget + 1)) :=
  .eat_bind (steps_isName "not") (h.not.bind fun _ => .pure _) h.compare

theorem leads_readCompare : Leads depth depth (readCompare (budget + 1)) :=
  h.sum.bind fun _ => h.links.bind fun _ => .pure _

theorem leads_readLinks : Leads depth depth (readLinks (budget + 1)) := by
  refine Leads.comparison?.bind fun found => ?_
  cases found with
  | none => exact .pure _
  | some op => exact h.sum.bind fun right => h.links.bind fun others => .pure _

theorem leads_readSumTail (left : Expr) : Leads depth depth (readSumTail (budget + 1) left) := by
  refine (Leads.operator? (by decide)).bind fun found => ?_
  cases found with
  | none => exact .pure _
  | some op => exact h.product.bind fun right => h.sumTail _

theorem leads_readProductTail (left : Expr) :
    Leads depth depth (readProductTail (budget + 1) left) := by
  refine (Leads.operator? (by decide)).bind fun found => ?_
  cases found with
  | none => exact .pure _
  | some op => exact h.factor.bind fun right => h.productTail _

theorem leads_readFactor : Leads depth depth (readFactor (budget + 1)) :=
  Leads.signs.bind fun _ => h.power.bind fun _ => .pure _

theorem leads_readPower : Leads depth depth (readPower (budget + 1)) :=
  h.primary.bind fun _ => .eat_bind (steps_isOperator (by decide))
    (h.factor.bind fun _ => .pure _) (.pure _)

/-- The name of an attribute is the only token that is passed over after a dot. -/
theorem leads_attribute (value : Expr) : Leads depth depth (do
    match ← peek? with
    | some t =>
        advance
        if t.kind = .name then readTrailers budget (.attribute value (String.ofList t.text))
        else fail .expectedAttribute
    | none => fail .expectedAttribute) := by
  refine .peek_bind (fun _ hRun => by cases hRun) fun t others => ?_
  by_cases hName : t.kind = .name
  · have hDepth : t.depthAfter depth = some depth := by rw [Token.depthAfter, hName]
    refine LeadsAt.advance_bind hDepth ?_
    rw [if_pos hName]
    exact h.trailers _ others
  · intro result rest hRun
    have hRun : (if t.kind = .name then _ else (fail .expectedAttribute : Reader Expr)) others =
        .ok (result, rest) := hRun
    rw [if_neg hName] at hRun
    cases hRun

theorem leads_readTrailers (value : Expr) :
    Leads depth depth (readTrailers (budget + 1) value) := by
  refine .eat_bind steps_dot (leads_attribute h value) ?_
  refine .eat_bind (steps_opens '(') ?_ ?_
  · exact (h.arguments [] []).bind fun read => (Leads.close ')').bind fun _ => h.trailers _
  refine .eat_bind (steps_opens '[') ?_ (.pure _)
  exact (h.subscript value).bind fun subscripted => (Leads.close ']').bind fun _ => h.trailers _

theorem leads_readItems (bracket : Char) :
    Leads depth depth (readItems (budget + 1) bracket) := by
  refine (Leads.nextIs _).bind fun ends => .ite (.pure _) ?_
  refine h.expr.bind fun item => .eat_bind steps_comma ?_ (.pure _)
  exact (h.items bracket).bind fun others => .pure _

theorem leads_readEntries : Leads (depth + 1) (depth + 1) (readEntries (budget + 1)) := by
  refine (Leads.nextIs _).bind fun ends => .ite (.pure _) ?_
  refine h.expr.bind fun key => .eat_bind (steps_inside ":") ?_ ?_
  · refine h.expr.bind fun value => .eat_bind steps_comma ?_ (.pure _)
    exact h.entries.bind fun others => .pure _
  · exact .of_refuses fun tokens => (Refuses.fail tokens _).bind

theorem leads_readParenthesized : Leads (depth + 1) depth (readParenthesized (budget + 1)) := by
  refine .eat_bind (steps_closes ')') (.pure _) ?_
  refine h.expr.bind fun first => .eat_bind (steps_closes ')') (.pure _) ?_
  refine .eat_bind steps_comma ?_ (.of_refuses fun tokens => (Refuses.fail tokens _).bind)
  exact (h.items ')').bind fun others => (Leads.close ')').bind fun _ => .pure _

theorem leads_readSubscript (value : Expr) :
    Leads (depth + 1) (depth + 1) (readSubscript (budget + 1) value) := by
  refine (Leads.nextIs _).bind fun _ => .ite_bind (.pure _) h.tuple.map fun start => ?_
  refine .eat_bind (steps_inside ":") ?_ ?_
  · refine (Leads.nextIs _).bind fun _ => .ite_bind (.pure _) h.expr.map fun stop => ?_
    refine .eat_bind (steps_inside ":") ?_ (.pure _)
    refine (Leads.nextIs _).bind fun _ => .ite (.pure _) ?_
    exact h.expr.bind fun step => .pure _
  · cases start with
    | none => exact .unexpected
    | some key => exact .pure _

/-- The value of an argument, and the arguments after it. -/
theorem leads_argument (add : Expr → List Expr × List (String × Expr)) :
    Leads depth depth (do
      let value ← readExpr budget
      if ← eat (·.isOperator ",") then readArguments budget (add value).1 (add value).2
      else return ((add value).1.reverse, (add value).2.reverse)) :=
  h.expr.bind fun _ => .eat_bind steps_comma (h.arguments _ _) (.pure _)

theorem leads_readArguments (arguments : List Expr) (named : List (String × Expr)) :
    Leads depth depth (readArguments (budget + 1) arguments named) := by
  refine (Leads.nextIs _).bind fun _ => .ite (.pure _) ?_
  have hPositional : Leads depth depth (do
      if !named.isEmpty then fail .positionalAfterNamed
      let value ← readExpr budget
      if ← eat (·.isOperator ",") then readArguments budget (value :: arguments) named
      else return ((value :: arguments).reverse, named.reverse)) :=
    .guard (leads_argument h fun value => (value :: arguments, named))
  intro tokens
  rcases tokens with _ | ⟨t, _ | ⟨mark, others⟩⟩
  · exact hPositional []
  · exact hPositional [t]
  · by_cases hNamed : t.kind = .name ∧ mark.isOperator "=" = true
    · intro result rest hRun
      have hName : argumentName? (t :: mark :: others) =
          .ok (some (String.ofList t.text), t :: mark :: others) := if_pos hNamed
      rw [run_bind hName] at hRun
      dsimp only at hRun
      split at hRun
      · obtain ⟨value, middle, hFail, -⟩ := bind_ok hRun
        cases hFail
      · have hDepth : t.depthAfter depth = some depth := by rw [Token.depthAfter, hNamed.1]
        have hMark : mark.depthAfter depth = some depth :=
          steps_isOperator (by decide) mark hNamed.2
        rw [nesting_cons hDepth, nesting_cons hMark]
        exact leads_argument h (fun value => (arguments, (String.ofList t.text, value) :: named))
          others result rest hRun
    · intro result rest hRun
      have hNone : argumentName? (t :: mark :: others) = .ok (none, t :: mark :: others) :=
        if_neg hNamed
      rw [run_bind hNone] at hRun
      exact hPositional _ result rest hRun

theorem leads_readAtom : Leads depth depth (readAtom (budget + 1)) := by
  refine .peek_bind (fun result hRun => by cases hRun) fun t others => ?_
  have hConstant (hDepth : t.depthAfter depth = some depth) (constant : Expr) :
      LeadsAt depth depth (t :: others) (do advance; return constant) :=
    LeadsAt.advance_bind hDepth (Leads.pure constant others)
  have hNever : LeadsAt depth depth (t :: others) (unexpected : Reader Expr) :=
    Leads.unexpected _
  obtain ⟨kind, text, start⟩ := t
  cases kind with
  | name =>
      have hName := hConstant rfl
      intro result rest hRun
      dsimp only at hRun
      iterate 3
        split at hRun
        · exact hName _ result rest hRun
      split at hRun
      · exact hNever result rest hRun
      · exact hName _ result rest hRun
  | number =>
      dsimp only
      cases readNumber text with
      | ok value => exact hConstant rfl _
      | error fault => exact Leads.fail _ _
  | string => exact (Leads.strings.bind fun text => .pure _) _
  | opening =>
      have hDepth : (⟨.opening, text, start⟩ : Token).depthAfter depth = some (depth + 1) := rfl
      refine LeadsAt.advance_bind hDepth (Leads.ite h.parenthesized (.ite ?_ ?_) others)
      · exact (h.items ']').bind fun items => (Leads.close ']').bind fun _ => .pure _
      · exact h.entries.bind fun entries => (Leads.close '}').bind fun _ => .pure _
  | _ => exact hNever

omit h in
theorem readersNest (budget : Nat) : ReadersNest budget := by
  induction budget with
  | zero => exact readersNest_zero
  | succ budget ih =>
      constructor
      case tuple => exact leads_readTuple ih
      case tupleTail => exact leads_readTupleTail ih
      case expr => exact leads_readExpr ih
      case or => exact ih.and.bind fun first => ih.orTail first
      case orTail => exact leads_readOrTail ih
      case and => exact ih.not.bind fun first => ih.andTail first
      case andTail => exact leads_readAndTail ih
      case not => exact leads_readNot ih
      case compare => exact leads_readCompare ih
      case links => exact leads_readLinks ih
      case sum => exact ih.product.bind fun first => ih.sumTail first
      case sumTail => exact leads_readSumTail ih
      case product => exact ih.factor.bind fun first => ih.productTail first
      case productTail => exact leads_readProductTail ih
      case factor => exact leads_readFactor ih
      case power => exact leads_readPower ih
      case primary => exact ih.atom.bind fun first => ih.trailers first
      case trailers => exact leads_readTrailers ih
      case arguments => exact leads_readArguments ih
      case subscript => exact leads_readSubscript ih
      case items => exact leads_readItems ih
      case entries => exact leads_readEntries ih
      case atom => exact leads_readAtom ih
      case parenthesized => exact leads_readParenthesized ih

omit h

/-! ### Targets and parameters -/

/-- The readers of targets leave off as deep in brackets as they start. -/
structure TargetsNest (budget : Nat) : Prop where
  target : ∀ {depth}, Leads depth depth (readTarget budget)
  targets : ∀ {depth}, Leads depth depth (readTargets budget)
  tail : ∀ {depth}, Leads depth depth (readTargetsTail budget)

theorem targetsNest (budget : Nat) : TargetsNest budget := by
  induction budget with
  | zero => constructor <;> intros <;> exact .unexpected
  | succ budget ih =>
      constructor
      case target =>
        intro depth
        refine .eat_bind (steps_opens '(') ?_ ?_
        · exact ih.targets.bind fun inner => (Leads.close ')').bind fun _ => .pure _
        refine .eat_bind (steps_opens '[') ?_ Leads.identifier.map
        exact ih.targets.bind fun inner => (Leads.close ']').bind fun _ => .pure _
      case targets =>
        intro depth
        refine ih.target.bind fun first => (Leads.nextIs _).bind fun more => .ite ?_ (.pure _)
        exact ih.tail.bind fun others => .pure _
      case tail =>
        intro depth
        refine .eat_bind steps_comma ?_ (.pure _)
        refine (Leads.nextIs _).bind fun starts => .ite ?_ (.pure _)
        exact ih.target.bind fun item => ih.tail.bind fun others => .pure _

theorem leads_readParametersAfter (bracketed : Bool) (budget : Nat) (done : List Parameter) :
    Leads depth depth (readParametersAfter bracketed budget done) := by
  induction budget generalizing done with
  | zero => exact .unexpected
  | succ budget ih =>
      have hParameter : Leads depth depth (do
          let name ← identifier
          if done.any (·.name == name) then fail (.duplicateParameter name)
          let default ←
            if ← eat (·.isOperator "=") then some <$> readExpr budget
            else if done.any (·.default.isSome) then fail .defaultOrder
            else pure none
          if ← eat (·.isOperator ",") then
            readParametersAfter bracketed budget (⟨name, default⟩ :: done)
          else return (⟨name, default⟩ :: done).reverse) := by
        refine Leads.identifier.bind fun name => .guard ?_
        have hMore (default : Option Expr) : Leads depth depth (do
            if ← eat (·.isOperator ",") then
              readParametersAfter bracketed budget (⟨name, default⟩ :: done)
            else return (⟨name, default⟩ :: done).reverse) :=
          .eat_bind steps_comma (ih _) (.pure _)
        refine .eat_bind (steps_isOperator (by decide)) ?_
          (Leads.ite (c := done.any (·.default.isSome) = true) ?_ ?_)
        · exact (readersNest budget).expr.map.bind hMore
        · exact (Leads.fail .defaultOrder).bind hMore
        · exact (Leads.pure none).bind hMore
      cases bracketed with
      | true => exact (Leads.nextIs _).bind fun ends => .ite (.pure _) hParameter
      | false => exact Leads.peek.map.bind fun ends => .ite (.pure _) hParameter

/-! ### Statements -/

theorem targetOf_rest {left : Expr} {target : Target} {tokens rest : List Token}
    (h : targetOf left tokens = .ok (target, rest)) : rest = tokens := by
  unfold targetOf at h
  cases hTarget : left.toTarget? with
  | none =>
      simp only [hTarget] at h
      cases h
  | some found =>
      simp only [hTarget] at h
      cases h
      rfl

theorem leads_readAssignment (budget : Nat) (targets : List Target) (last : Expr) :
    Leads depth depth (readAssignment budget targets last) := by
  induction budget generalizing targets last with
  | zero => exact .unexpected
  | succ budget ih =>
      intro tokens result rest hRun
      obtain ⟨more, same, hNext, hRun⟩ := bind_ok hRun
      cases hNext
      cases tokens with
      | nil =>
          cases hRun
          rfl
      | cons t others =>
          cases hMark : t.isOperator "=" with
          | false =>
              simp only [List.head?_cons, Option.any_some, hMark] at hRun
              cases hRun
              rfl
          | true =>
              simp only [List.head?_cons, Option.any_some, hMark, if_true] at hRun
              obtain ⟨target, same, hTarget, hRun⟩ := bind_ok hRun
              obtain rfl := targetOf_rest hTarget
              refine LeadsAt.advance_bind (steps_isOperator (by decide) t hMark) ?_ _ _ hRun
              exact (readersNest budget).tuple.bind (fun next => ih _ next) others

theorem leads_augmentedOperator? : Leads depth depth augmentedOperator? := by
  intro tokens result rest h
  cases tokens with
  | nil =>
      cases h
      rfl
  | cons t others =>
      simp only [augmentedOperator?] at h
      split at h
      · rename_i op hFound
        rw [Option.ite_none_right_eq_some] at hFound
        cases h
        refine nesting_cons ?_ _
        rw [Token.depthAfter, hFound.1]
        refine if_neg fun hColon => ?_
        rw [hColon.1] at hFound
        cases hFound.2
      · cases h
        rfl

theorem leads_readSimple (budget : Nat) : Leads depth depth (readStatement budget) := by
  refine (readersNest budget).tuple.bind fun first => leads_augmentedOperator?.bind fun found => ?_
  cases found with
  | none =>
      refine (Leads.nextIs _).bind fun assigns => .ite ?_ (.pure _)
      exact leads_readAssignment budget [] first
  | some op =>
      cases first with
      | name label => exact (readersNest budget).tuple.bind fun value => .pure _
      | _ => exact .of_refuses fun tokens result hRun => by cases hRun

end Grammar

/-! ## Whole texts -/

/-- Blanks and comments are not brackets. -/
theorem nesting_meaningful (depth : Nat) (tokens : List Token) :
    nesting depth (meaningful tokens) = nesting depth tokens := by
  induction tokens generalizing depth with
  | nil => rfl
  | cons t others ih =>
      obtain ⟨kind, text, start⟩ := t
      cases kind with
      | blank => exact ih depth
      | comment => exact ih depth
      | newline => exact ih depth
      | _ =>
          show nesting depth (_ :: meaningful others) = _
          rw [nesting, nesting, List.foldlM_cons, List.foldlM_cons]
          refine congrArg _ (funext fun next => ?_)
          exact ih next

/-- A whole text that is read is balanced. -/
theorem nesting_of_run {α : Type} {reader : Nat → Reader α}
    (h : ∀ budget, Leads 0 0 (reader budget)) {text : List Char} {result : α}
    (hRun : Reader.run reader text = .ok result) :
    ∃ tokens, strictTokens text = .ok tokens ∧ nesting 0 tokens = some 0 := by
  cases hTokens : strictTokens text with
  | error fault =>
      rw [Reader.run, hTokens] at hRun
      cases hRun
  | ok tokens =>
      refine ⟨tokens, rfl, ?_⟩
      rw [Reader.run_eq_ok hTokens] at hRun
      rw [← nesting_meaningful, h _ _ _ _ hRun]
      rfl

end Stencil
