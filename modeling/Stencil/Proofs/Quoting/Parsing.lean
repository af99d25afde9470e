import Stencil.Expr.Reader
import Stencil.Proofs.Quoting.Grouping

/-!
# Reading code before a closing bracket

No reader of the grammar takes a closing round bracket for a part of an expression, so what it reads
from some tokens it reads as well when they stand further on in a text, before such a bracket, and
when it has a larger budget. Where a reader asks for the bracket that closes a group, the group is
open, and its own bracket is still among the tokens.

## Main results

* `ReadersExtend`, `readersExtend`: each reader reads the same before a closing bracket.
* `Expr.read_group`: code in brackets is read as the code alone.
-/

namespace Stencil

namespace Reader

/-! ## Tokens before a bracket -/

/-- The closing bracket at an offset. -/
def bracketAt (stop : Nat) : Token := ⟨.closing, [')'], stop⟩

/-- Tokens further on in a text, before a closing bracket. -/
def extend (bytes stop : Nat) (tokens : List Token) : List Token :=
  tokens.map (Token.shift bytes) ++ [bracketAt stop]

variable {bytes stop : Nat} {α β : Type} {r r' : Reader α} {tokens : List Token}

/-- What the first reader reads from these tokens, the second one reads before a bracket. -/
def ExtendsAt (bytes stop : Nat) (tokens : List Token) (r r' : Reader α) : Prop :=
  ∀ result rest, r tokens = .ok (result, rest) →
    r' (extend bytes stop tokens) = .ok (result, extend bytes stop rest)

/-- What the first reader reads, the second one reads before a bracket. -/
def Extends (bytes stop : Nat) (r r' : Reader α) : Prop :=
  ∀ tokens, ExtendsAt bytes stop tokens r r'

/-- The reader reads nothing from these tokens. -/
def Refuses (tokens : List Token) (r : Reader α) : Prop := ∀ result, r tokens ≠ .ok result

/-- The test is the same further on in a text, and it does not hold of a closing bracket. -/
structure PassesBracket (test : Token → Bool) : Prop where
  shift : ∀ bytes t, test (t.shift bytes) = test t
  bracket : ∀ stop, test (bracketAt stop) = false

/-! ### Rules -/

theorem bind_ok {f : α → Reader β} {result : β} {rest : List Token}
    (h : (r >>= f) tokens = .ok (result, rest)) :
    ∃ value middle, r tokens = .ok (value, middle) ∧ f value middle = .ok (result, rest) := by
  have hBind : (r >>= f) tokens = (r tokens >>= fun pair => f pair.1 pair.2) := rfl
  rw [hBind] at h
  cases hFirst : r tokens with
  | error fault =>
      rw [hFirst] at h
      cases h
  | ok pair =>
      rw [hFirst] at h
      exact ⟨pair.1, pair.2, rfl, h⟩

theorem run_bind {f : α → Reader β} {value : α} {middle : List Token}
    (h : r tokens = .ok (value, middle)) : (r >>= f) tokens = f value middle := by
  have hBind : (r >>= f) tokens = (r tokens >>= fun pair => f pair.1 pair.2) := rfl
  rw [hBind, h]
  rfl

theorem ExtendsAt.bind {f f' : α → Reader β} (h : ExtendsAt bytes stop tokens r r')
    (hNext : ∀ value, Extends bytes stop (f value) (f' value)) :
    ExtendsAt bytes stop tokens (r >>= f) (r' >>= f') := by
  intro result rest hRun
  obtain ⟨value, middle, hFirst, hSecond⟩ := bind_ok hRun
  rw [run_bind (h value middle hFirst)]
  exact hNext value middle result rest hSecond

theorem Extends.bind {f f' : α → Reader β} (h : Extends bytes stop r r')
    (hNext : ∀ value, Extends bytes stop (f value) (f' value)) :
    Extends bytes stop (r >>= f) (r' >>= f') :=
  fun tokens => (h tokens).bind hNext

theorem Extends.pure (value : α) :
    Extends bytes stop (Pure.pure value : Reader α) (Pure.pure value) := by
  intro tokens result rest h
  cases h
  rfl

theorem Extends.map {f : α → β} (h : Extends bytes stop r r') :
    Extends bytes stop (f <$> r) (f <$> r') :=
  h.bind fun value => .pure (f value)

theorem Extends.ite {c : Prop} [Decidable c] {other other' : Reader α}
    (h : Extends bytes stop r r') (h' : Extends bytes stop other other') :
    Extends bytes stop (if c then r else other) (if c then r' else other') := by
  split
  · exact h
  · exact h'

theorem ExtendsAt.ite {c : Prop} [Decidable c] {other other' : Reader α}
    (h : ExtendsAt bytes stop tokens r r') (h' : ExtendsAt bytes stop tokens other other') :
    ExtendsAt bytes stop tokens (if c then r else other) (if c then r' else other') := by
  split
  · exact h
  · exact h'

/-- Two ways to a value, and the same way on. -/
theorem Extends.ite_bind {c : Prop} [Decidable c] {other other' : Reader α}
    {f f' : α → Reader β} (h : Extends bytes stop r r') (h' : Extends bytes stop other other')
    (hNext : ∀ value, Extends bytes stop (f value) (f' value)) :
    Extends bytes stop (if c then r >>= f else other >>= f)
      (if c then r' >>= f' else other' >>= f') :=
  .ite (h.bind hNext) (h'.bind hNext)

/-- A value that is found without passing over a token. -/
theorem ExtendsAt.bind_of {f f' : α → Reader β} {value : α} (h : r tokens = .ok (value, tokens))
    (h' : r' (extend bytes stop tokens) = .ok (value, extend bytes stop tokens))
    (hNext : ExtendsAt bytes stop tokens (f value) (f' value)) :
    ExtendsAt bytes stop tokens (r >>= f) (r' >>= f') := by
  intro result rest hRun
  rw [run_bind h] at hRun
  rw [run_bind h']
  exact hNext result rest hRun

theorem Refuses.fail (tokens : List Token) (cause : SyntaxCause) :
    Refuses tokens (Reader.fail cause : Reader α) := by
  intro result h
  cases h

theorem Refuses.unexpected (tokens : List Token) :
    Refuses tokens (Reader.unexpected : Reader α) := by
  intro result h
  cases tokens <;> cases h

theorem Refuses.bind {f : α → Reader β} (h : Refuses tokens r) : Refuses tokens (r >>= f) := by
  intro result hRun
  obtain ⟨value, middle, hFirst, -⟩ := bind_ok hRun
  exact h (value, middle) hFirst

theorem Refuses.ite {c : Prop} [Decidable c] {other : Reader α} (h : Refuses tokens r)
    (h' : Refuses tokens other) : Refuses tokens (if c then r else other) := by
  split
  · exact h
  · exact h'

theorem Refuses.extendsAt (h : Refuses tokens r) : ExtendsAt bytes stop tokens r r' :=
  fun result rest hRun => absurd hRun (h (result, rest))

/-- A reader that reads nothing is extended by any other one. -/
theorem Extends.of_refuses (h : ∀ tokens, Refuses tokens r) : Extends bytes stop r r' :=
  fun tokens => (h tokens).extendsAt

theorem Extends.fail (cause : SyntaxCause) :
    Extends bytes stop (Reader.fail cause : Reader α) r' :=
  .of_refuses fun tokens => .fail tokens cause

/-- Where the first step fails, nothing is read. -/
theorem Extends.fail_bind {cause : SyntaxCause} {f : α → Reader β} {r' : Reader β} :
    Extends bytes stop (Reader.fail cause >>= f) r' :=
  .of_refuses fun tokens => (Refuses.fail tokens cause).bind

theorem Extends.unexpected : Extends bytes stop (Reader.unexpected : Reader α) r' :=
  .of_refuses .unexpected

/-! ### Single tokens -/

theorem Extends.eat {test : Token → Bool} (h : PassesBracket test) :
    Extends bytes stop (Reader.eat test) (Reader.eat test) := by
  intro tokens result rest hRun
  cases tokens with
  | nil =>
      cases hRun
      show (if test (bracketAt stop) then _ else _) = _
      rw [h.bracket]
      rfl
  | cons t others =>
      show (if test (t.shift bytes) then _ else _) = _
      rw [h.shift]
      have hRun : (if test t then _ else _) = Except.ok (result, rest) := hRun
      split at hRun
      · cases hRun
        rw [if_pos ‹_›]
        rfl
      · cases hRun
        rw [if_neg ‹_›]

theorem Extends.nextIs {test : Token → Bool} (h : PassesBracket test) :
    Extends bytes stop (Reader.nextIs test) (Reader.nextIs test) := by
  intro tokens result rest hRun
  cases hRun
  cases tokens with
  | nil => exact congrArg (fun b => Except.ok (b, _)) (h.bracket stop)
  | cons t others => exact congrArg (fun b => Except.ok (b, _)) (h.shift bytes t)

/-- A test that a closing bracket may pass, where tokens are missing when none is left. -/
theorem Extends.eat_bind {test : Token → Bool} {f f' : Bool → Reader α}
    (hShift : ∀ bytes t, test (t.shift bytes) = test t) (hNil : Refuses [] (f false))
    (hNext : ∀ b, Extends bytes stop (f b) (f' b)) :
    Extends bytes stop (Reader.eat test >>= f) (Reader.eat test >>= f') := by
  intro tokens
  cases tokens with
  | nil =>
      have hEat : Refuses [] (Reader.eat test >>= f) := hNil
      exact hEat.extendsAt
  | cons t others =>
      refine ExtendsAt.bind (fun result rest hRun => ?_) hNext
      show (if test (t.shift bytes) then _ else _) = _
      rw [hShift]
      have hRun : (if test t then _ else _) = Except.ok (result, rest) := hRun
      split at hRun
      · cases hRun
        rw [if_pos ‹_›]
        rfl
      · cases hRun
        rw [if_neg ‹_›]

theorem Extends.nextIs_bind {test : Token → Bool} {f f' : Bool → Reader α}
    (hShift : ∀ bytes t, test (t.shift bytes) = test t) (hNil : Refuses [] (f false))
    (hNext : ∀ b, Extends bytes stop (f b) (f' b)) :
    Extends bytes stop (Reader.nextIs test >>= f) (Reader.nextIs test >>= f') := by
  intro tokens
  cases tokens with
  | nil =>
      have hNext : Refuses [] (Reader.nextIs test >>= f) := hNil
      exact hNext.extendsAt
  | cons t others =>
      refine ExtendsAt.bind (fun result rest hRun => ?_) hNext
      cases hRun
      exact congrArg (fun b => Except.ok (b, _)) (hShift bytes t)

/-- The next token is looked at; without one nothing is read. -/
theorem Extends.peek_bind {f f' : Option Token → Reader α} (hNil : Refuses [] (f none))
    (hNext : ∀ t others,
      ExtendsAt bytes stop (t :: others) (f (some t)) (f' (some (t.shift bytes)))) :
    Extends bytes stop (peek? >>= f) (peek? >>= f') := by
  intro tokens
  cases tokens with
  | nil =>
      have hPeek : Refuses [] (peek? >>= f) := hNil
      exact hPeek.extendsAt
  | cons t others =>
      intro result rest hRun
      exact hNext t others result rest hRun

theorem ExtendsAt.advance (t : Token) (others : List Token) :
    ExtendsAt bytes stop (t :: others) Reader.advance Reader.advance := by
  intro result rest hRun
  cases hRun
  rfl

theorem ExtendsAt.advance_bind {f f' : Unit → Reader α} (t : Token) (others : List Token)
    (h : ExtendsAt bytes stop others (f ()) (f' ())) :
    ExtendsAt bytes stop (t :: others) (Reader.advance >>= f) (Reader.advance >>= f') :=
  fun result rest hRun => h result rest hRun

theorem passesBracket_isName (word : String) : PassesBracket (·.isName word) :=
  ⟨fun _ _ => rfl, fun _ => rfl⟩

theorem passesBracket_isOperator (symbol : String) : PassesBracket (·.isOperator symbol) :=
  ⟨fun _ _ => rfl, fun _ => rfl⟩

theorem passesBracket_opens (bracket : Char) : PassesBracket (·.opens bracket) :=
  ⟨fun _ _ => rfl, fun _ => rfl⟩

theorem passesBracket_dot : PassesBracket (·.kind == .dot) :=
  ⟨fun _ _ => rfl, fun _ => rfl⟩

theorem passesBracket_startsExpression : PassesBracket Token.startsExpression :=
  ⟨fun _ _ => rfl, fun _ => rfl⟩

theorem Extends.keyword (word : String) :
    Extends bytes stop (Reader.keyword word) (Reader.keyword word) :=
  (Extends.eat (passesBracket_isName word)).bind fun _ => .ite (.pure ()) (.fail _)

/-- The bracket that closes an open group is among the tokens. -/
theorem Extends.close (bracket : Char) :
    Extends bytes stop (Reader.close bracket) (Reader.close bracket) :=
  .eat_bind (fun _ _ => rfl) (.fail [] _) fun _ => .ite (.pure ()) (.fail _)

/-! ### Operators and literals -/

theorem head_extend (bytes stop : Nat) {test : Token → Bool} (h : PassesBracket test)
    (tokens : List Token) :
    (extend bytes stop tokens).head?.any test = tokens.head?.any test := by
  cases tokens with
  | nil => exact h.bracket stop
  | cons t others => exact h.shift bytes t

theorem tail_extend {test : Token → Bool} (h : tokens.head?.any test = true) :
    (extend bytes stop tokens).tail = extend bytes stop tokens.tail := by
  cases tokens with
  | nil => cases h
  | cons t others => rfl

/-- What is read from the first token and the tokens after it. -/
theorem Extends.of_cons (hNil : ∀ result rest, r [] = .ok (result, rest) →
      r' [bracketAt stop] = .ok (result, extend bytes stop rest))
    (hCons : ∀ t others, r' (t.shift bytes :: extend bytes stop others) =
      (r (t :: others)).map fun pair => (pair.1, extend bytes stop pair.2)) :
    Extends bytes stop r r' := by
  intro tokens result rest h
  cases tokens with
  | nil => exact hNil result rest h
  | cons t others =>
      have hStep := hCons t others
      rw [h] at hStep
      exact hStep

theorem Extends.comparison? : Extends bytes stop Reader.comparison? Reader.comparison? := by
  refine .of_cons (fun result rest h => by cases h; rfl) fun t others => ?_
  have hOperator (symbol : String) : (t.shift bytes).isOperator symbol = t.isOperator symbol := rfl
  have hName (word : String) : (t.shift bytes).isName word = t.isName word := rfl
  have hHead (word : String) := head_extend bytes stop (passesBracket_isName word) others
  simp only [Reader.comparison?, hOperator, hName, hHead, apply_ite (Except.map _)]
  iterate 7 refine ite_congr rfl (fun _ => rfl) fun _ => ?_
  refine ite_congr rfl (fun hIn => ?_) fun _ => ite_congr rfl (fun hNot => ?_) fun _ =>
    ite_congr rfl (fun _ => rfl) fun _ => rfl
  · rw [Bool.and_eq_true] at hIn
    rw [tail_extend hIn.2]
    rfl
  · rw [Bool.and_eq_true] at hNot
    rw [tail_extend hNot.2]
    rfl

theorem Extends.operator? (ops : List BinaryOp) :
    Extends bytes stop (Reader.operator? ops) (Reader.operator? ops) := by
  refine .of_cons (fun result rest h => ?_) fun t others => ?_
  · have hNone : ops.find? ((bracketAt stop).isOperator ·.symbol) = none :=
      List.find?_eq_none.2 fun op _ => Bool.false_ne_true
    cases h
    simp only [Reader.operator?, hNone]
    rfl
  · have hOperator (symbol : String) :
      (t.shift bytes).isOperator symbol = t.isOperator symbol := rfl
    simp only [Reader.operator?, hOperator]
    cases ops.find? (t.isOperator ·.symbol) <;> rfl

theorem Extends.strings : Extends bytes stop Reader.strings Reader.strings := by
  intro tokens
  have hRead (result : List Char) (rest : List Token)
      (h : strings.go tokens = .ok (result, rest)) :
      strings.go (extend bytes stop tokens) = .ok (result, extend bytes stop rest) := by
    induction tokens generalizing result rest with
    | nil =>
        cases h
        rfl
    | cons t others ih =>
        have hExtend : extend bytes stop (t :: others) =
            t.shift bytes :: extend bytes stop others := rfl
        rw [hExtend]
        rw [strings.go] at h ⊢
        by_cases hString : t.kind = .string
        · rw [if_pos hString] at h
          rw [Token.shift_kind, Token.shift_text, if_pos hString]
          cases hDecode : decodeString t.text with
          | error fault =>
              rw [hDecode] at h
              cases h
          | ok text =>
              rw [hDecode] at h
              cases hOthers : strings.go others with
              | error fault =>
                  rw [hOthers] at h
                  cases h
              | ok pair =>
                  rw [hOthers] at h
                  cases h
                  simp only [ih _ _ hOthers]
                  rfl
        · rw [if_neg hString] at h
          rw [Token.shift_kind, if_neg hString]
          cases h
          rfl
  exact hRead

theorem signs_extend (bytes stop : Nat) (tokens : List Token) :
    signs (extend bytes stop tokens) = ((signs tokens).1, extend bytes stop (signs tokens).2) := by
  induction tokens with
  | nil => rfl
  | cons t others ih =>
      have hExtend : extend bytes stop (t :: others) =
          t.shift bytes :: extend bytes stop others := rfl
      have hOperator (symbol : String) : (t.shift bytes).isOperator symbol =
          t.isOperator symbol := rfl
      rw [hExtend, signs, signs, ih, hOperator, hOperator]
      split
      · rfl
      split <;> rfl

/-- The signs before an operand are read without failing. -/
theorem Extends.signs : Extends bytes stop (fun tokens => .ok (Reader.signs tokens))
    (fun tokens => .ok (Reader.signs tokens)) := by
  intro tokens result rest h
  have hSigns : Reader.signs tokens = (result, rest) := Except.ok.inj h
  refine congrArg Except.ok ?_
  rw [signs_extend, hSigns]

end Reader

open Reader

/-! ## The grammar -/

section Grammar

/-! ### Where no expression starts -/

theorem eat_true {test : Token → Bool} {t : Token} (h : test t = true) (others : List Token) :
    eat test (t :: others) = .ok (true, others) :=
  if_pos h

theorem eat_false {test : Token → Bool} {tokens : List Token}
    (h : tokens.head?.any test = false) : eat test tokens = .ok (false, tokens) := by
  cases tokens with
  | nil => rfl
  | cons t others => exact if_neg (Bool.eq_false_iff.1 h)

/-- The keywords that may start an expression are none of a token that may not. -/
theorem isName_of_startsExpression {t : Token} (h : t.startsExpression = false) :
    ∀ word ∈ ["not", "True", "False", "None"], t.isName word = false := by
  intro word hWord
  rw [Bool.eq_false_iff]
  intro hName
  obtain ⟨kind, text, start⟩ := t
  rw [Token.isName, Bool.and_eq_true, beq_iff_eq, beq_iff_eq] at hName
  obtain ⟨rfl, rfl⟩ := hName
  have hStarts : (["not", "True", "False", "None"].any (·.toList == word.toList)) = true :=
    List.any_eq_true.2 ⟨word, hWord, beq_self_eq_true _⟩
  rw [Token.startsExpression, hStarts, Bool.or_true] at h
  cases h

section Refusals

variable {tokens : List Token} (hStart : ∀ t ∈ tokens.head?, t.startsExpression = false)
  (budget : Nat)
include hStart

theorem refuses_readAtom : Refuses tokens (readAtom budget) := by
  cases budget with
  | zero => exact .unexpected tokens
  | succ budget =>
      cases tokens with
      | nil => exact .unexpected []
      | cons t others =>
          have hNot := hStart t rfl
          intro result h
          obtain ⟨kind, text, start⟩ := t
          cases kind with
          | name =>
              have hWord := isName_of_startsExpression hNot
              rw [Token.startsExpression, Bool.or_eq_false_iff, Bool.not_eq_false'] at hNot
              rw [readAtom, run_bind rfl, List.head?_cons] at h
              simp only [hWord "True" (by decide), hWord "False" (by decide),
                hWord "None" (by decide), hNot.1, Bool.false_eq_true, if_false, if_true] at h
              cases h
          | number => cases hNot
          | string => cases hNot
          | opening => cases hNot
          | _ => cases h

theorem refuses_readPrimary : Refuses tokens (readPrimary budget) := by
  cases budget with
  | zero => exact .unexpected tokens
  | succ budget => exact (refuses_readAtom hStart budget).bind

theorem refuses_readPower : Refuses tokens (readPower budget) := by
  cases budget with
  | zero => exact .unexpected tokens
  | succ budget => exact (refuses_readPrimary hStart budget).bind

theorem refuses_readFactor : Refuses tokens (readFactor budget) := by
  have hSigns : signs tokens = ([], tokens) := by
    cases tokens with
    | nil => rfl
    | cons t others =>
        have hNot := hStart t rfl
        obtain ⟨kind, text, start⟩ := t
        cases kind with
        | operator =>
            rw [Token.startsExpression, Bool.or_eq_false_iff] at hNot
            have hMinus : Token.isOperator ⟨.operator, text, start⟩ "-" = false := hNot.1
            have hPlus : Token.isOperator ⟨.operator, text, start⟩ "+" = false := hNot.2
            rw [signs, hMinus, hPlus]
            rfl
        | _ => rfl
  cases budget with
  | zero => exact .unexpected tokens
  | succ budget =>
      intro result h
      obtain ⟨ops, middle, hOps, h⟩ := bind_ok h
      rw [hSigns] at hOps
      cases hOps
      exact (refuses_readPower hStart budget).bind result h

theorem refuses_readProduct : Refuses tokens (readProduct budget) := by
  cases budget with
  | zero => exact .unexpected tokens
  | succ budget => exact (refuses_readFactor hStart budget).bind

theorem refuses_readSum : Refuses tokens (readSum budget) := by
  cases budget with
  | zero => exact .unexpected tokens
  | succ budget => exact (refuses_readProduct hStart budget).bind

theorem refuses_readCompare : Refuses tokens (readCompare budget) := by
  cases budget with
  | zero => exact .unexpected tokens
  | succ budget => exact (refuses_readSum hStart budget).bind

theorem refuses_readNot : Refuses tokens (readNot budget) := by
  cases budget with
  | zero => exact .unexpected tokens
  | succ budget =>
      intro result h
      have hNot : tokens.head?.any (·.isName "not") = false := by
        cases tokens with
        | nil => rfl
        | cons t others => exact isName_of_startsExpression (hStart t rfl) "not" (by decide)
      rw [readNot, run_bind (eat_false hNot)] at h
      exact refuses_readCompare hStart budget result h

theorem refuses_readAnd : Refuses tokens (readAnd budget) := by
  cases budget with
  | zero => exact .unexpected tokens
  | succ budget => exact (refuses_readNot hStart budget).bind

theorem refuses_readOr : Refuses tokens (readOr budget) := by
  cases budget with
  | zero => exact .unexpected tokens
  | succ budget => exact (refuses_readAnd hStart budget).bind

theorem refuses_readExpr : Refuses tokens (readExpr budget) := by
  cases budget with
  | zero => exact .unexpected tokens
  | succ budget => exact (refuses_readOr hStart budget).bind

end Refusals

/-- No expression is read from no tokens. -/
theorem readExpr_nil (budget : Nat) : Refuses [] (readExpr budget) := by
  have hStart : ∀ t ∈ ([] : List Token).head?, t.startsExpression = false := by simp
  exact refuses_readExpr hStart budget

/-! ### Every reader -/

variable (bytes stop : Nat)

/-- What each reader reads with a budget, it reads before a bracket with any larger one. -/
structure ReadersExtend (budget : Nat) : Prop where
  tuple : ∀ {larger}, budget ≤ larger → Extends bytes stop (readTuple budget) (readTuple larger)
  tupleTail : ∀ {larger}, budget ≤ larger →
    Extends bytes stop (readTupleTail budget) (readTupleTail larger)
  expr : ∀ {larger}, budget ≤ larger → Extends bytes stop (readExpr budget) (readExpr larger)
  or : ∀ {larger}, budget ≤ larger → Extends bytes stop (readOr budget) (readOr larger)
  orTail : ∀ {larger}, budget ≤ larger → ∀ left,
    Extends bytes stop (readOrTail budget left) (readOrTail larger left)
  and : ∀ {larger}, budget ≤ larger → Extends bytes stop (readAnd budget) (readAnd larger)
  andTail : ∀ {larger}, budget ≤ larger → ∀ left,
    Extends bytes stop (readAndTail budget left) (readAndTail larger left)
  not : ∀ {larger}, budget ≤ larger → Extends bytes stop (readNot budget) (readNot larger)
  compare : ∀ {larger}, budget ≤ larger →
    Extends bytes stop (readCompare budget) (readCompare larger)
  links : ∀ {larger}, budget ≤ larger → Extends bytes stop (readLinks budget) (readLinks larger)
  sum : ∀ {larger}, budget ≤ larger → Extends bytes stop (readSum budget) (readSum larger)
  sumTail : ∀ {larger}, budget ≤ larger → ∀ left,
    Extends bytes stop (readSumTail budget left) (readSumTail larger left)
  product : ∀ {larger}, budget ≤ larger →
    Extends bytes stop (readProduct budget) (readProduct larger)
  productTail : ∀ {larger}, budget ≤ larger → ∀ left,
    Extends bytes stop (readProductTail budget left) (readProductTail larger left)
  factor : ∀ {larger}, budget ≤ larger → Extends bytes stop (readFactor budget) (readFactor larger)
  power : ∀ {larger}, budget ≤ larger → Extends bytes stop (readPower budget) (readPower larger)
  primary : ∀ {larger}, budget ≤ larger →
    Extends bytes stop (readPrimary budget) (readPrimary larger)
  trailers : ∀ {larger}, budget ≤ larger → ∀ value,
    Extends bytes stop (readTrailers budget value) (readTrailers larger value)
  arguments : ∀ {larger}, budget ≤ larger → ∀ arguments named,
    Extends bytes stop (readArguments budget arguments named) (readArguments larger arguments named)
  subscript : ∀ {larger}, budget ≤ larger → ∀ value,
    Extends bytes stop (readSubscript budget value) (readSubscript larger value)
  items : ∀ {larger}, budget ≤ larger → ∀ bracket,
    Extends bytes stop (readItems budget bracket) (readItems larger bracket)
  entries : ∀ {larger}, budget ≤ larger →
    Extends bytes stop (readEntries budget) (readEntries larger)
  atom : ∀ {larger}, budget ≤ larger → Extends bytes stop (readAtom budget) (readAtom larger)
  parenthesized : ∀ {larger}, budget ≤ larger →
    Extends bytes stop (readParenthesized budget) (readParenthesized larger)

theorem readersExtend_zero : ReadersExtend bytes stop 0 := by
  constructor <;> intros <;> exact .unexpected

variable {bytes stop} {budget larger : Nat} (h : ReadersExtend bytes stop budget)
  (hLarger : budget ≤ larger)
include h hLarger

theorem extends_readTuple :
    Extends bytes stop (readTuple (budget + 1)) (readTuple (larger + 1)) := by
  refine (h.expr hLarger).bind fun first => ?_
  refine (Extends.nextIs (passesBracket_isOperator ",")).bind fun more => .ite ?_ (.pure _)
  exact (h.tupleTail hLarger).bind fun others => .pure _

theorem extends_readTupleTail :
    Extends bytes stop (readTupleTail (budget + 1)) (readTupleTail (larger + 1)) := by
  refine (Extends.eat (passesBracket_isOperator ",")).bind fun more => .ite ?_ (.pure _)
  refine (Extends.nextIs passesBracket_startsExpression).bind fun starts => .ite ?_ (.pure _)
  exact (h.expr hLarger).bind fun item => (h.tupleTail hLarger).bind fun others => .pure _

theorem extends_readExpr :
    Extends bytes stop (readExpr (budget + 1)) (readExpr (larger + 1)) := by
  refine (h.or hLarger).bind fun body => ?_
  refine (Extends.eat (passesBracket_isName "if")).bind fun choice => .ite ?_ (.pure _)
  exact (h.or hLarger).bind fun test => (Extends.keyword "else").bind fun _ =>
    (h.expr hLarger).bind fun otherwise => .pure _

theorem extends_readOrTail (left : Expr) :
    Extends bytes stop (readOrTail (budget + 1) left) (readOrTail (larger + 1) left) := by
  refine (Extends.eat (passesBracket_isName "or")).bind fun more => .ite ?_ (.pure _)
  exact (h.and hLarger).bind fun right => h.orTail hLarger _

theorem extends_readAndTail (left : Expr) :
    Extends bytes stop (readAndTail (budget + 1) left) (readAndTail (larger + 1) left) := by
  refine (Extends.eat (passesBracket_isName "and")).bind fun more => .ite ?_ (.pure _)
  exact (h.not hLarger).bind fun right => h.andTail hLarger _

theorem extends_readNot : Extends bytes stop (readNot (budget + 1)) (readNot (larger + 1)) := by
  refine (Extends.eat (passesBracket_isName "not")).bind fun negates =>
    .ite ?_ (h.compare hLarger)
  exact (h.not hLarger).bind fun operand => .pure _

theorem extends_readCompare :
    Extends bytes stop (readCompare (budget + 1)) (readCompare (larger + 1)) :=
  (h.sum hLarger).bind fun _ => (h.links hLarger).bind fun _ => .pure _

theorem extends_readLinks :
    Extends bytes stop (readLinks (budget + 1)) (readLinks (larger + 1)) := by
  refine Extends.comparison?.bind fun found => ?_
  cases found with
  | none => exact .pure _
  | some op =>
      exact (h.sum hLarger).bind fun right => (h.links hLarger).bind fun others => .pure _

theorem extends_readSumTail (left : Expr) :
    Extends bytes stop (readSumTail (budget + 1) left) (readSumTail (larger + 1) left) := by
  refine (Extends.operator? _).bind fun found => ?_
  cases found with
  | none => exact .pure _
  | some op => exact (h.product hLarger).bind fun right => h.sumTail hLarger _

theorem extends_readProductTail (left : Expr) :
    Extends bytes stop (readProductTail (budget + 1) left)
      (readProductTail (larger + 1) left) := by
  refine (Extends.operator? _).bind fun found => ?_
  cases found with
  | none => exact .pure _
  | some op => exact (h.factor hLarger).bind fun right => h.productTail hLarger _

theorem extends_readFactor :
    Extends bytes stop (readFactor (budget + 1)) (readFactor (larger + 1)) :=
  Extends.signs.bind fun _ => (h.power hLarger).bind fun _ => .pure _

theorem extends_readPower :
    Extends bytes stop (readPower (budget + 1)) (readPower (larger + 1)) := by
  refine (h.primary hLarger).bind fun base => ?_
  refine (Extends.eat (passesBracket_isOperator "**")).bind fun raised => .ite ?_ (.pure _)
  exact (h.factor hLarger).bind fun exponent => .pure _

theorem extends_readTrailers (value : Expr) :
    Extends bytes stop (readTrailers (budget + 1) value) (readTrailers (larger + 1) value) := by
  refine (Extends.eat passesBracket_dot).bind fun dot => .ite ?_ ?_
  · refine .peek_bind (.fail [] _) fun t others => .advance_bind t others ?_
    exact Extends.ite (h.trailers hLarger _) (.fail _) others
  refine (Extends.eat (passesBracket_opens '(')).bind fun call => .ite ?_ ?_
  · exact (h.arguments hLarger [] []).bind fun read => (Extends.close ')').bind fun _ =>
      h.trailers hLarger _
  refine (Extends.eat (passesBracket_opens '[')).bind fun subscript => .ite ?_ (.pure _)
  exact (h.subscript hLarger value).bind fun subscripted => (Extends.close ']').bind fun _ =>
    h.trailers hLarger _

theorem extends_readItems (bracket : Char) :
    Extends bytes stop (readItems (budget + 1) bracket) (readItems (larger + 1) bracket) := by
  refine .nextIs_bind (fun _ _ => rfl) (readExpr_nil budget).bind fun ends =>
    .ite (.pure _) ?_
  refine (h.expr hLarger).bind fun item => ?_
  refine (Extends.eat (passesBracket_isOperator ",")).bind fun more => .ite ?_ (.pure _)
  exact (h.items hLarger bracket).bind fun others => .pure _

theorem extends_readEntries :
    Extends bytes stop (readEntries (budget + 1)) (readEntries (larger + 1)) := by
  refine .nextIs_bind (fun _ _ => rfl) (readExpr_nil budget).bind fun ends =>
    .ite (.pure _) ?_
  refine (h.expr hLarger).bind fun key => ?_
  refine (Extends.eat (passesBracket_isOperator ":")).bind fun colon => ?_
  refine .ite .fail_bind ?_
  refine (h.expr hLarger).bind fun value => ?_
  refine (Extends.eat (passesBracket_isOperator ",")).bind fun more => .ite ?_ (.pure _)
  exact (h.entries hLarger).bind fun others => .pure _

theorem extends_readParenthesized :
    Extends bytes stop (readParenthesized (budget + 1)) (readParenthesized (larger + 1)) := by
  refine .eat_bind (fun _ _ => rfl) (readExpr_nil budget).bind fun ends =>
    .ite (.pure _) ?_
  refine (h.expr hLarger).bind fun first => ?_
  refine .eat_bind (fun _ _ => rfl) (fun result hRun => by cases hRun) fun closes =>
    .ite (.pure _) ?_
  refine (Extends.eat (passesBracket_isOperator ",")).bind fun comma => ?_
  refine .ite .fail_bind ?_
  exact (h.items hLarger ')').bind fun others => (Extends.close ')').bind fun _ => .pure _

theorem extends_readSubscript (value : Expr) :
    Extends bytes stop (readSubscript (budget + 1) value) (readSubscript (larger + 1) value) := by
  have hColon := passesBracket_isOperator ":"
  have hEnd : PassesBracket fun t => t.isOperator ":" || t.closes ']' :=
    ⟨fun _ _ => rfl, fun _ => rfl⟩
  have hClose : PassesBracket (·.closes ']') := ⟨fun _ _ => rfl, fun _ => rfl⟩
  refine (Extends.nextIs hColon).bind fun _ => .ite_bind (.pure _) (.map (h.tuple hLarger)) ?_
  refine fun start => (Extends.eat hColon).bind fun _ => .ite ?_ ?_
  · refine (Extends.nextIs hEnd).bind fun _ => .ite_bind (.pure _) (.map (h.expr hLarger)) ?_
    refine fun stop => (Extends.eat hColon).bind fun _ => .ite ?_ (.pure _)
    refine (Extends.nextIs hClose).bind fun _ => .ite (.pure _) ?_
    exact (h.expr hLarger).bind fun step => .pure _
  · cases start with
    | none => exact .unexpected
    | some key => exact .pure _

/-- An argument that is not passed by name, and the arguments after it. -/
theorem extends_positional (arguments : List Expr) (named : List (String × Expr)) :
    Extends bytes stop
      (do
        if !named.isEmpty then fail .positionalAfterNamed
        let value ← readExpr budget
        if ← eat (·.isOperator ",") then readArguments budget (value :: arguments) named
        else return ((value :: arguments).reverse, named.reverse))
      (do
        if !named.isEmpty then fail .positionalAfterNamed
        let value ← readExpr larger
        if ← eat (·.isOperator ",") then readArguments larger (value :: arguments) named
        else return ((value :: arguments).reverse, named.reverse)) := by
  refine .ite .fail_bind ((h.expr hLarger).bind fun value => ?_)
  exact (Extends.eat (passesBracket_isOperator ",")).bind fun _ =>
    .ite (h.arguments hLarger _ named) (.pure _)

theorem extends_readArguments (arguments : List Expr) (named : List (String × Expr)) :
    Extends bytes stop (readArguments (budget + 1) arguments named)
      (readArguments (larger + 1) arguments named) := by
  refine .nextIs_bind (fun _ _ => rfl) (fun result hRun => ?_) fun _ => .ite (.pure _) ?_
  · obtain ⟨label, middle, hLabel, hRun⟩ := bind_ok hRun
    cases hLabel
    exact Refuses.ite (.bind (.fail [] _)) (readExpr_nil budget).bind result hRun
  intro tokens
  rcases tokens with _ | ⟨t, _ | ⟨mark, others⟩⟩
  · exact .bind_of rfl rfl (extends_positional h hLarger arguments named [])
  · have hNone : argumentName? (extend bytes stop [t]) = .ok (none, extend bytes stop [t]) :=
      if_neg fun hNamed => Bool.false_ne_true hNamed.2
    exact .bind_of rfl hNone (extends_positional h hLarger arguments named [t])
  · by_cases hNamed : t.kind = .name ∧ mark.isOperator "=" = true
    · have hName : argumentName? (t :: mark :: others) =
          .ok (some (String.ofList t.text), t :: mark :: others) := if_pos hNamed
      have hName' : argumentName? (extend bytes stop (t :: mark :: others)) =
          .ok (some (String.ofList t.text), extend bytes stop (t :: mark :: others)) :=
        if_pos hNamed
      refine .bind_of hName hName' (.ite (Extends.fail_bind _) ?_)
      refine .advance_bind t _ (.advance_bind mark others ?_)
      refine Extends.bind (h.expr hLarger) (fun value => ?_) others
      exact (Extends.eat (passesBracket_isOperator ",")).bind fun _ =>
        .ite (h.arguments hLarger arguments _) (.pure _)
    · have hNone : argumentName? (t :: mark :: others) = .ok (none, t :: mark :: others) :=
        if_neg hNamed
      have hNone' : argumentName? (extend bytes stop (t :: mark :: others)) =
          .ok (none, extend bytes stop (t :: mark :: others)) := if_neg hNamed
      exact .bind_of hNone hNone' (extends_positional h hLarger arguments named _)

theorem extends_readAtom :
    Extends bytes stop (readAtom (budget + 1)) (readAtom (larger + 1)) := by
  refine .peek_bind (.unexpected []) fun t others => ?_
  have hConstant (constant : Expr) : ExtendsAt bytes stop (t :: others)
      (do advance; return constant) (do advance; return constant) :=
    .advance_bind t others (Extends.pure constant others)
  have hNever {r' : Reader Expr} : ExtendsAt bytes stop (t :: others) unexpected r' :=
    Extends.unexpected _
  obtain ⟨kind, text, start⟩ := t
  cases kind with
  | name =>
      exact .ite (hConstant _) (.ite (hConstant _) (.ite (hConstant _) (.ite hNever (hConstant _))))
  | number =>
      dsimp only [Token.shift]
      cases readNumber text with
      | ok value => exact hConstant _
      | error fault => exact Extends.fail _ _
  | string => exact (Extends.strings.bind fun text => .pure _) _
  | opening =>
      refine .advance_bind _ others (Extends.ite (h.parenthesized hLarger) (.ite ?_ ?_) others)
      · exact (h.items hLarger ']').bind fun items => (Extends.close ']').bind fun _ => .pure _
      · exact (h.entries hLarger).bind fun entries => (Extends.close '}').bind fun _ => .pure _
  | _ => exact hNever

omit h hLarger in
theorem readersExtend (bytes stop budget : Nat) : ReadersExtend bytes stop budget := by
  induction budget with
  | zero => exact readersExtend_zero bytes stop
  | succ budget ih =>
      constructor
      all_goals
        intro larger hLarger
        obtain ⟨larger, rfl⟩ : ∃ less, larger = less + 1 := ⟨larger - 1, by omega⟩
        have hLarger : budget ≤ larger := Nat.le_of_succ_le_succ hLarger
      case tuple => exact extends_readTuple ih hLarger
      case tupleTail => exact extends_readTupleTail ih hLarger
      case expr => exact extends_readExpr ih hLarger
      case or => exact (ih.and hLarger).bind fun first => ih.orTail hLarger first
      case orTail => exact extends_readOrTail ih hLarger
      case and => exact (ih.not hLarger).bind fun first => ih.andTail hLarger first
      case andTail => exact extends_readAndTail ih hLarger
      case not => exact extends_readNot ih hLarger
      case compare => exact extends_readCompare ih hLarger
      case links => exact extends_readLinks ih hLarger
      case sum => exact (ih.product hLarger).bind fun first => ih.sumTail hLarger first
      case sumTail => exact extends_readSumTail ih hLarger
      case product => exact (ih.factor hLarger).bind fun first => ih.productTail hLarger first
      case productTail => exact extends_readProductTail ih hLarger
      case factor => exact extends_readFactor ih hLarger
      case power => exact extends_readPower ih hLarger
      case primary => exact (ih.atom hLarger).bind fun first => ih.trailers hLarger first
      case trailers => exact extends_readTrailers ih hLarger
      case arguments => exact extends_readArguments ih hLarger
      case subscript => exact extends_readSubscript ih hLarger
      case items => exact extends_readItems ih hLarger
      case entries => exact extends_readEntries ih hLarger
      case atom => exact extends_readAtom ih hLarger
      case parenthesized => exact extends_readParenthesized ih hLarger

end Grammar

/-! ## Code in brackets -/

/-- After a comma, a tuple goes on with the expression that starts there, or ends. -/
theorem readTupleTail_comma {budget : Nat} {comma : Token} (hComma : comma.isOperator "," = true)
    {others rest : List Token} {items : List Expr}
    (h : readTupleTail (budget + 1) (comma :: others) = .ok (items, rest)) :
    (items = [] ∧ rest = others) ∨
      ∃ t more item middle later, others = t :: more ∧ t.startsExpression = true ∧
        readExpr budget others = .ok (item, middle) ∧
        readTupleTail budget middle = .ok (later, rest) ∧ items = item :: later := by
  rw [readTupleTail, run_bind (eat_true hComma others)] at h
  obtain ⟨starts, same, hStarts, h⟩ := bind_ok h
  cases hStarts
  cases others with
  | nil =>
      cases h
      exact Or.inl ⟨rfl, rfl⟩
  | cons t more =>
      cases hStart : t.startsExpression with
      | false =>
          simp only [List.head?_cons, Option.any_some, hStart] at h
          cases h
          exact Or.inl ⟨rfl, rfl⟩
      | true =>
          simp only [List.head?_cons, Option.any_some, hStart, if_true] at h
          obtain ⟨item, middle, hItem, h⟩ := bind_ok h
          obtain ⟨later, last, hLater, h⟩ := bind_ok h
          cases h
          exact Or.inr ⟨t, more, item, middle, later, rfl, hStart, hItem, hLater, rfl⟩

/-- Without a comma, a tuple ends. -/
theorem readTupleTail_end {budget : Nat} {tokens rest : List Token} {items : List Expr}
    (hComma : tokens.head?.any (·.isOperator ",") = false)
    (h : readTupleTail budget tokens = .ok (items, rest)) : items = [] ∧ rest = tokens := by
  cases budget with
  | zero => exact absurd h (Refuses.unexpected tokens _)
  | succ budget =>
      rw [readTupleTail, run_bind (eat_false hComma)] at h
      cases h
      exact ⟨rfl, rfl⟩

/-- What follows the first expression of a tuple is what follows the first expression in brackets.
The induction is on the budget of the tuple; each comma takes a step in both readings. -/
theorem readItems_of_readTupleTail (bytes stop : Nat) {budget larger : Nat}
    (hLarger : budget < larger)
    {comma : Token} (hComma : comma.isOperator "," = true) {others : List Token}
    {items : List Expr} (h : readTupleTail (budget + 1) (comma :: others) = .ok (items, [])) :
    readItems larger ')' (extend bytes stop others) = .ok (items, [bracketAt stop]) := by
  induction budget generalizing larger comma others items with
  | zero =>
      obtain ⟨larger, rfl⟩ : ∃ less, larger = less + 1 := ⟨larger - 1, by omega⟩
      rcases readTupleTail_comma hComma h with
        ⟨rfl, rfl⟩ | ⟨t, more, item, middle, later, rfl, -, hItem, -, -⟩
      · rfl
      · exact absurd hItem (Refuses.unexpected _ _)
  | succ budget ih =>
      obtain ⟨larger, rfl⟩ : ∃ less, larger = less + 1 := ⟨larger - 1, by omega⟩
      rcases readTupleTail_comma hComma h with
        ⟨rfl, rfl⟩ | ⟨t, more, item, middle, later, rfl, hStart, hItem, hLater, rfl⟩
      · rfl
      · have hOpen : t.closes ')' = false := by
          obtain ⟨kind, text, start⟩ := t
          cases kind <;> first | rfl | cases hStart
        have hLess : budget + 1 ≤ larger := Nat.le_of_lt_succ hLarger
        have hItem' := (readersExtend bytes stop _).expr hLess _ _ _ hItem
        have hNext : nextIs (·.closes ')') (extend bytes stop (t :: more)) =
            .ok (false, extend bytes stop (t :: more)) :=
          congrArg (fun b => Except.ok (b, _)) hOpen
        rw [readItems, run_bind hNext]
        refine (run_bind hItem').trans ?_
        cases hMiddle : middle.head?.any (·.isOperator ",") with
        | false =>
            obtain ⟨rfl, rfl⟩ := readTupleTail_end hMiddle hLater
            rfl
        | true =>
            cases middle with
            | nil => cases hMiddle
            | cons mark rest =>
                have hMark : mark.isOperator "," = true := hMiddle
                have hRest := ih (Nat.lt_of_succ_le hLess) hMark hLater
                have hEat : eat (·.isOperator ",") (extend bytes stop (mark :: rest)) =
                    .ok (true, extend bytes stop rest) := eat_true hMark _
                rw [run_bind hEat]
                exact run_bind hRest

/-- What is read as a tuple is read in brackets as well. -/
theorem readParenthesized_of_readTuple (bytes stop : Nat) {budget larger : Nat}
    (hLarger : budget < larger)
    {tokens : List Token} {tree : Expr} (h : readTuple budget tokens = .ok (tree, [])) :
    readParenthesized larger (extend bytes stop tokens) = .ok (tree, []) := by
  cases budget with
  | zero => exact absurd h (Refuses.unexpected tokens _)
  | succ budget =>
      obtain ⟨larger, rfl⟩ : ∃ less, larger = less + 1 := ⟨larger - 1, by omega⟩
      have hLess : budget ≤ larger := by omega
      obtain ⟨first, middle, hFirst, h⟩ := bind_ok h
      have hOpen : (extend bytes stop tokens).head?.any (·.closes ')') = false := by
        cases tokens with
        | nil => exact absurd hFirst (readExpr_nil budget _)
        | cons t others =>
            cases hCloses : t.closes ')' with
            | false => exact hCloses
            | true =>
                rw [Token.closes, Bool.and_eq_true, beq_iff_eq] at hCloses
                refine absurd hFirst (refuses_readExpr (fun u hu => ?_) budget _)
                rw [← Option.some.inj hu, Token.startsExpression, hCloses.1]
      have hFirst' := (readersExtend bytes stop _).expr hLess _ _ _ hFirst
      rw [readParenthesized, run_bind (eat_false hOpen)]
      refine (run_bind hFirst').trans ?_
      obtain ⟨more, same, hMore, h⟩ := bind_ok h
      cases hMore
      cases middle with
      | nil =>
          cases h
          rfl
      | cons mark rest =>
          cases hMark : mark.isOperator "," with
          | false =>
              simp only [List.head?_cons, Option.any_some, hMark] at h
              cases h
          | true =>
              simp only [List.head?_cons, Option.any_some, hMark, if_true] at h
              obtain ⟨others, last, hOthers, h⟩ := bind_ok h
              cases h
              obtain ⟨budget, rfl⟩ : ∃ less, budget = less + 1 := by
                cases budget with
                | zero => exact absurd hOthers (Refuses.unexpected _ _)
                | succ budget => exact ⟨budget, rfl⟩
              have hItems := readItems_of_readTupleTail bytes stop (Nat.lt_of_succ_le hLess) hMark
                hOthers
              have hOpen : (extend bytes stop (mark :: rest)).head?.any (·.closes ')') = false := by
                obtain ⟨kind, text, start⟩ := mark
                cases kind <;> first | rfl | cases hMark
              have hComma : (mark.shift bytes).isOperator "," = true := hMark
              rw [run_bind (eat_false hOpen)]
              refine (run_bind (eat_true hComma _)).trans ?_
              refine (run_bind hItems).trans ?_
              rfl

/-- The levels between a tuple and an atom read an atom that nothing follows as it is. -/
theorem readTuple_of_readAtom {budget : Nat} {tokens : List Token} {tree : Expr}
    (hNot : tokens.head?.any (·.isName "not") = false) (hSigns : signs tokens = ([], tokens))
    (h : readAtom (budget + 1) tokens = .ok (tree, [])) :
    readTuple (budget + 12) tokens = .ok (tree, []) := by
  have hPrimary : readPrimary (budget + 2) tokens = .ok (tree, []) := (run_bind h).trans rfl
  have hPower : readPower (budget + 3) tokens = .ok (tree, []) := (run_bind hPrimary).trans rfl
  have hFactor : readFactor (budget + 4) tokens = .ok (tree, []) := by
    have hRead : (fun tokens => .ok (signs tokens) : Reader (List UnaryOp)) tokens =
        .ok ([], tokens) := congrArg Except.ok hSigns
    rw [readFactor, run_bind hRead]
    exact (run_bind hPower).trans rfl
  have hProduct : readProduct (budget + 5) tokens = .ok (tree, []) := (run_bind hFactor).trans rfl
  have hSum : readSum (budget + 6) tokens = .ok (tree, []) := (run_bind hProduct).trans rfl
  have hCompare : readCompare (budget + 7) tokens = .ok (tree, []) := (run_bind hSum).trans rfl
  have hNegation : readNot (budget + 8) tokens = .ok (tree, []) := by
    rw [readNot, run_bind (eat_false hNot)]
    exact hCompare
  have hAnd : readAnd (budget + 9) tokens = .ok (tree, []) := (run_bind hNegation).trans rfl
  have hOr : readOr (budget + 10) tokens = .ok (tree, []) := (run_bind hAnd).trans rfl
  have hExpr : readExpr (budget + 11) tokens = .ok (tree, []) := (run_bind hOr).trans rfl
  exact (run_bind hExpr).trans rfl

/-- The tokens of code in brackets: those of the code, further on, between the brackets. -/
theorem strictTokens_group {code : List Char} {tokens : List Token}
    (h : strictTokens code = .ok tokens) (hComment : ∀ t ∈ tokens, t.kind ≠ .comment) :
    ∃ stop, strictTokens ('(' :: (code ++ [')'])) =
      .ok (⟨.opening, ['('], 0⟩ :: extend 1 stop tokens) := by
  obtain ⟨stop, hCode⟩ := scanFrom_append_stop (.inl rfl) [] 1 (scanFrom_of_strictTokens h)
    hComment
  have hEnd : scanFrom .strict stop [')'] = ⟨[bracketAt stop], none⟩ := by
    have hNil (after : Nat) : scanFrom .strict after [] = ⟨[], none⟩ := by rw [scanFrom]
    rw [scanFrom, lexeme_closeBracket]
    simp only [List.drop_nil, hNil]
    rfl
  refine ⟨stop, ?_⟩
  rw [hEnd] at hCode
  have hScan : scanFrom .strict 0 ('(' :: (code ++ [')'])) =
      ⟨⟨.opening, ['('], 0⟩ :: extend 1 stop tokens, none⟩ := by
    rw [scanFrom, lexeme_openBracket]
    show Scan.mk (_ :: (scanFrom .strict (1 + 0) (code ++ [')'])).tokens)
      (scanFrom .strict (1 + 0) (code ++ [')'])).openQuote = _
    rw [hCode]
    rfl
  rw [strictTokens, scan, hScan]

/-- The tokens that the grammar reads. -/
def meaningful (tokens : List Token) : List Token :=
  tokens.filter fun t => !t.isTrivia && t.kind != .newline

theorem meaningful_extend (bytes stop : Nat) (tokens : List Token) :
    meaningful (extend bytes stop tokens) = extend bytes stop (meaningful tokens) := by
  rw [extend, meaningful, List.filter_append, List.filter_map]
  rfl

/-- What a whole text is read as, given its tokens. -/
theorem Reader.run_eq_ok {α : Type} {reader : Nat → Reader α} {text : List Char}
    {tokens : List Token} (h : strictTokens text = .ok tokens) (result : α) :
    Reader.run reader text = .ok result ↔
      reader (budgetFor (meaningful tokens).length) (meaningful tokens) = .ok (result, []) := by
  have hTokens : (tokens.filter fun t => !t.isTrivia && t.kind != .newline) =
      meaningful tokens := rfl
  rw [Reader.run, h]
  simp only [hTokens]
  constructor
  · intro hRun
    split at hRun
    · rename_i tree rest hWhole
      cases hRun
      obtain ⟨tree, middle, hTree, hWhole⟩ := bind_ok hWhole
      rw [hTree]
      cases middle with
      | nil =>
          cases hWhole
          rfl
      | cons t others => cases hWhole
    · cases hRun
  · intro hRead
    have hWhole : (do
        let tree ← reader (budgetFor (meaningful tokens).length)
        finish
        return tree : Reader α) (meaningful tokens) = .ok (result, []) :=
      (run_bind hRead).trans rfl
    rw [hWhole]

/-- Code in brackets is read as the code alone. -/
theorem Expr.read_group {code : List Char} {tokens : List Token} {tree : Expr}
    (h : strictTokens code = .ok tokens) (hComment : ∀ t ∈ tokens, t.kind ≠ .comment)
    (hRead : Expr.read code = .ok tree) : Expr.read ('(' :: (code ++ [')'])) = .ok tree := by
  obtain ⟨stop, hGroup⟩ := strictTokens_group h hComment
  have hMeaning : meaningful (⟨.opening, ['('], 0⟩ :: extend 1 stop tokens) =
      ⟨.opening, ['('], 0⟩ :: extend 1 stop (meaningful tokens) :=
    congrArg (_ :: ·) (meaningful_extend 1 stop tokens)
  rw [Expr.read, Reader.run_eq_ok h] at hRead
  rw [Expr.read, Reader.run_eq_ok hGroup, hMeaning]
  have hBudget : budgetFor
      (⟨.opening, ['('], 0⟩ :: extend 1 stop (meaningful tokens) : List Token).length =
        16 * (meaningful tokens).length + 36 + 12 := by
    simp only [budgetFor, extend, List.length_cons, List.length_append, List.length_map,
      List.length_nil]
    omega
  have hLarger : budgetFor (meaningful tokens).length < 16 * (meaningful tokens).length + 36 := by
    rw [budgetFor]
    omega
  rw [hBudget]
  exact readTuple_of_readAtom rfl rfl (readParenthesized_of_readTuple 1 stop hLarger hRead)

end Stencil
