import Stencil.Proofs.Quoting.Parsing
import Stencil.Proofs.Writing.Lexing

/-!
# Levels of binding

A reader of a level reads an operand of the next level and goes on while an operator of its own
level is next. It therefore gives back an expression of its level, or of a tighter one, as long as
what follows is no operator that it would go on over.

What a reader leaves of its budget is stated against the number of tokens: sixteen calls for a token
are more than enough, since a token is read between any two visits of the loosest level.

## Main results

* `IsRead`: the words of an expression are read as the expression, at a level.
* `IsRead.climb`: what is read at a level is read at the looser ones.
-/

namespace Stencil

open Reader

/-! ## Tokens of words -/

/-- The tokens of words that the grammar reads, from an offset on. -/
def tokensOf (start : Nat) (words : List Word) : List Token := meaningful (tokensFrom start words)

/-- How many tokens the grammar reads. -/
def weight (words : List Word) : Nat := (tokensOf 0 words).length

/-- The token that a word is at an offset. -/
def Word.token (word : Word) (start : Nat) : Token := ⟨word.kind, word.text, start⟩

section Tokens

variable (start : Nat) (words : List Word)

theorem tokensOf_cons {word : Word} (h : word.kind = .name ∨ word.kind = .operator) :
    tokensOf start (word :: words) =
      word.token start :: tokensOf (start + Text.byteLength word.text) words := by
  obtain ⟨kind, text⟩ := word
  rcases h with h | h <;> cases h <;> rfl

@[simp] theorem tokensOf_nil : tokensOf start [] = [] := rfl

@[simp] theorem tokensOf_space :
    tokensOf start (.space :: words) = tokensOf (start + Text.byteLength [' ']) words := rfl

@[simp] theorem tokensOf_name (label : String) : tokensOf start (.name label :: words) =
    (Word.name label).token start :: tokensOf (start + Text.byteLength label.toList) words := rfl

@[simp] theorem tokensOf_operator (symbol : String) : tokensOf start (.operator symbol :: words) =
    (Word.operator symbol).token start :: tokensOf (start + Text.byteLength symbol.toList) words :=
  rfl

@[simp] theorem tokensOf_opening (bracket : Char) : tokensOf start (.opening bracket :: words) =
    (Word.opening bracket).token start :: tokensOf (start + Text.byteLength [bracket]) words := rfl

@[simp] theorem tokensOf_closing (bracket : Char) : tokensOf start (.closing bracket :: words) =
    (Word.closing bracket).token start :: tokensOf (start + Text.byteLength [bracket]) words := rfl

@[simp] theorem tokensOf_dot : tokensOf start (.dot :: words) =
    Word.dot.token start :: tokensOf (start + Text.byteLength ['.']) words := rfl

theorem tokensFrom_append (first second : List Word) :
    tokensFrom start (first ++ second) =
      tokensFrom start first ++ tokensFrom (start + Text.byteLength (writeWords first)) second := by
  induction first generalizing start with
  | nil => rfl
  | cons word rest ih =>
      rw [List.cons_append, tokensFrom, tokensFrom, ih, writeWords_cons, Text.byteLength_append,
        Nat.add_assoc, List.cons_append]

@[simp] theorem tokensOf_append (first second : List Word) :
    tokensOf start (first ++ second) =
      tokensOf start first ++ tokensOf (start + Text.byteLength (writeWords first)) second := by
  rw [tokensOf, tokensFrom_append, meaningful, List.filter_append]
  rfl

/-- The number of tokens is the same wherever the words stand. -/
theorem length_tokensOf : (tokensOf start words).length = weight words := by
  have hMove (other : Nat) : (tokensOf start words).length = (tokensOf other words).length := by
    induction words generalizing start other with
    | nil => rfl
    | cons word rest ih =>
        have hStep := ih (start + Text.byteLength word.text) (other + Text.byteLength word.text)
        obtain ⟨kind, text⟩ := word
        cases kind <;> first | exact congrArg (· + 1) hStep | exact hStep
  exact hMove 0

@[simp] theorem weight_nil : weight [] = 0 := rfl

@[simp] theorem weight_append (first second : List Word) :
    weight (first ++ second) = weight first + weight second := by
  rw [weight, tokensOf_append, List.length_append, length_tokensOf, length_tokensOf]

theorem weight_cons (word : Word) :
    weight (word :: words) = weight [word] + weight words := weight_append [word] words

@[simp] theorem weight_space : weight (.space :: words) = weight words := by
  rw [weight_cons]
  exact Nat.zero_add _

@[simp] theorem weight_name (label : String) :
    weight (.name label :: words) = weight words + 1 := by
  rw [weight_cons]
  exact Nat.add_comm ..

@[simp] theorem weight_operator (symbol : String) :
    weight (.operator symbol :: words) = weight words + 1 := by
  rw [weight_cons]
  exact Nat.add_comm ..

@[simp] theorem weight_opening (bracket : Char) :
    weight (.opening bracket :: words) = weight words + 1 := by
  rw [weight_cons]
  exact Nat.add_comm ..

@[simp] theorem weight_closing (bracket : Char) :
    weight (.closing bracket :: words) = weight words + 1 := by
  rw [weight_cons]
  exact Nat.add_comm ..

@[simp] theorem weight_dot : weight (.dot :: words) = weight words + 1 := by
  rw [weight_cons]
  exact Nat.add_comm ..

end Tokens

/-! ## What an expression ends before -/

/-- The grip of a name: one more than the loosest level that goes on over it. -/
def nameGrip (text : List Char) : Nat :=
  if text = "if".toList then 1
  else if text = "or".toList then 2
  else if text = "and".toList then 3
  else if ["in", "not", "is"].any (·.toList == text) then 5
  else 0

/-- The grip of an operator. -/
def operatorGrip (text : List Char) : Nat :=
  if ["==", "!=", "<", "<=", ">", ">="].any (·.toList == text) then 5
  else if ["+", "-"].any (·.toList == text) then 6
  else if ["*", "/", "//", "%"].any (·.toList == text) then 7
  else if text = "**".toList then 9
  else 0

/-- How tightly a token holds the expression before it. -/
def Token.grip (t : Token) : Nat :=
  match t.kind with
  | .name => nameGrip t.text
  | .operator => operatorGrip t.text
  | .dot | .opening => 10
  | .string => 11
  | _ => 0

/-- An expression of the level ends before these tokens. -/
def Ends (level : Nat) (rest : List Token) : Prop := ∀ t ∈ rest.head?, t.grip ≤ level

section Ends

variable {level : Nat} {rest : List Token}

theorem Ends.mono (h : Ends level rest) {tighter : Nat} (hLe : level ≤ tighter) :
    Ends tighter rest := fun t ht => Nat.le_trans (h t ht) hLe

theorem Ends.nil (level : Nat) : Ends level [] := fun _ h => absurd h (by simp)

theorem Ends.cons {t : Token} (h : t.grip ≤ level) (rest : List Token) :
    Ends level (t :: rest) := by
  intro u hu
  cases hu
  exact h

theorem Ends.name (word : String) (h : nameGrip word.toList ≤ level) (start : Nat) :
    Ends level ((Word.name word).token start :: rest) := .cons h rest

theorem Ends.operator (symbol : String) (h : operatorGrip symbol.toList ≤ level) (start : Nat) :
    Ends level ((Word.operator symbol).token start :: rest) := .cons h rest

theorem Ends.closing (bracket : Char) (start : Nat) :
    Ends level ((Word.closing bracket).token start :: rest) := .cons (Nat.zero_le level) rest

/-- No token has the level of powers for its grip. -/
theorem Token.grip_ne (t : Token) : t.grip ≠ 8 := by
  unfold Token.grip nameGrip operatorGrip
  repeat' split
  all_goals decide

theorem Ends.factor (h : Ends 8 rest) : Ends 7 rest :=
  fun t ht => Nat.le_of_lt_succ (Nat.lt_of_le_of_ne (h t ht) t.grip_ne)

theorem Token.eq_of_isName {t : Token} {word : String} (h : t.isName word = true) :
    t.kind = .name ∧ t.text = word.toList := by
  rwa [Token.isName, Bool.and_eq_true, beq_iff_eq, beq_iff_eq] at h

theorem Token.eq_of_isOperator {t : Token} {symbol : String} (h : t.isOperator symbol = true) :
    t.kind = .operator ∧ t.text = symbol.toList := by
  rwa [Token.isOperator, Bool.and_eq_true, beq_iff_eq, beq_iff_eq] at h

theorem Token.grip_of_isName {t : Token} {word : String} (h : t.isName word = true) :
    t.grip = nameGrip word.toList := by
  obtain ⟨hKind, hText⟩ := t.eq_of_isName h
  rw [Token.grip, hKind, hText]

theorem Token.grip_of_isOperator {t : Token} {symbol : String} (h : t.isOperator symbol = true) :
    t.grip = operatorGrip symbol.toList := by
  obtain ⟨hKind, hText⟩ := t.eq_of_isOperator h
  rw [Token.grip, hKind, hText]

theorem Ends.not_isName {t : Token} (h : Ends level (t :: rest)) (word : String)
    (hWord : level < nameGrip word.toList) : t.isName word = false := by
  rw [Bool.eq_false_iff]
  intro hName
  have hGrip := h t rfl
  rw [t.grip_of_isName hName] at hGrip
  omega

theorem Ends.not_isOperator {t : Token} (h : Ends level (t :: rest)) (symbol : String)
    (hSymbol : level < operatorGrip symbol.toList) : t.isOperator symbol = false := by
  rw [Bool.eq_false_iff]
  intro hOperator
  have hGrip := h t rfl
  rw [t.grip_of_isOperator hOperator] at hGrip
  omega

/-- No token is passed over that would go on with the expression. -/
theorem Ends.eat (h : Ends level rest) {test : Token → Bool}
    (hTest : ∀ t, test t = true → level < t.grip) : eat test rest = .ok (false, rest) := by
  refine eat_false ?_
  cases rest with
  | nil => rfl
  | cons t others =>
      refine Bool.eq_false_iff.2 fun hHead => ?_
      exact absurd (h t rfl) (Nat.not_le.2 (hTest t hHead))

theorem Ends.eat_name (h : Ends level rest) (word : String)
    (hWord : level < nameGrip word.toList) :
    Reader.eat (·.isName word) rest = .ok (false, rest) :=
  h.eat fun t ht => by rwa [t.grip_of_isName ht]

theorem Ends.operator? (h : Ends level rest) {ops : List BinaryOp}
    (hOps : ∀ op ∈ ops, level < operatorGrip op.symbol.toList) :
    Reader.operator? ops rest = .ok (none, rest) := by
  cases rest with
  | nil => rfl
  | cons t others =>
      have hNone : ops.find? (t.isOperator ·.symbol) = none :=
        List.find?_eq_none.2 fun op hop => by
          rw [h.not_isOperator op.symbol (hOps op hop)]
          exact Bool.false_ne_true
      simp only [Reader.operator?, hNone]

theorem Ends.comparison? (h : Ends 4 rest) : Reader.comparison? rest = .ok (none, rest) := by
  cases rest with
  | nil => rfl
  | cons t others =>
      simp only [Reader.comparison?, h.not_isOperator "==" (by decide),
        h.not_isOperator "!=" (by decide), h.not_isOperator "<" (by decide),
        h.not_isOperator "<=" (by decide), h.not_isOperator ">" (by decide),
        h.not_isOperator ">=" (by decide), h.not_isName "in" (by decide),
        h.not_isName "not" (by decide), h.not_isName "is" (by decide), Bool.false_and,
        Bool.false_eq_true, if_false]

end Ends

/-! ## Readers of a level -/

/-- The reader of a level; the tightest one reads what needs no brackets and has nothing after it.
-/
def readAt : Nat → Nat → Reader Expr
  | 0 => readExpr
  | 1 => readOr
  | 2 => readAnd
  | 3 => readNot
  | 4 => readCompare
  | 5 => readSum
  | 6 => readProduct
  | 7 => readFactor
  | 8 => readPower
  | 9 => readPrimary
  | _ => readAtom

/-- What the reader of a level does after its first operand. -/
def continueAt : Nat → Nat → Expr → Reader Expr
  | 0 => fun budget body => do
      if ← eat (·.isName "if") then
        let test ← readOr budget
        keyword "else"
        let otherwise ← readExpr budget
        return .conditional test body otherwise
      return body
  | 1 => readOrTail
  | 2 => readAndTail
  | 4 => fun budget left => do
      let links ← readLinks budget
      return if links.isEmpty then left else .compare left links
  | 5 => readSumTail
  | 6 => readProductTail
  | 8 => fun budget base => do
      if ← eat (·.isOperator "**") then
        let exponent ← readFactor budget
        return .binary .power base exponent
      return base
  | 9 => readTrailers
  | _ => fun _ value => return value

/-- The levels whose operators group to the left. -/
def groupsLeft (level : Nat) : Bool := [1, 2, 5, 6, 9].contains level

variable {level : Nat} {expr : Expr} {words : List Word}

/-- The words are read as the expression. -/
def Reads (level : Nat) (expr : Expr) (words : List Word) : Prop :=
  ∀ start rest budget, Ends level rest → 16 * weight words ≤ budget + level →
    readAt level budget (tokensOf start words ++ rest) = .ok (expr, rest)

/-- The words are read as the first operand, and the reader goes on after them. -/
def Continues (level : Nat) (expr : Expr) (words : List Word) : Prop :=
  ∀ start rest budget, Ends (level + 1) rest → 16 * weight words ≤ budget + level →
    ∃ left, budget ≤ left + weight words ∧
      readAt level budget (tokensOf start words ++ rest) = continueAt level left expr rest

/-- The token is the first one of an expression of the level. -/
structure Token.Begins (level : Nat) (t : Token) : Prop where
  starts : t.startsExpression = true
  notNegation : 4 ≤ level → t.isName "not" = false
  notSign : 8 ≤ level → t.isOperator "-" = false ∧ t.isOperator "+" = false

/-- The words do not start with the mark after the name of an argument. -/
def NoEquals (words : List Word) : Prop :=
  ∀ start, ∀ t ∈ (tokensOf start words).head?, t.isOperator "=" = false

/-- The words start with a token that an expression of the level starts with, and they are no
argument with its name. -/
def Starts (level : Nat) (words : List Word) : Prop :=
  ∀ start, ∃ t others, tokensOf start words = t :: others ∧ t.Begins level ∧
    ∀ u ∈ others.head?, u.isOperator "=" = false

/-- The words are read as the expression at the level. -/
structure IsRead (level : Nat) (expr : Expr) (words : List Word) : Prop where
  starts : Starts level words
  reads : Reads level expr words
  continues : groupsLeft level = true → Continues level expr words

theorem Token.Begins.mono {t : Token} {looser : Nat} (h : t.Begins level) (hLe : looser ≤ level) :
    t.Begins looser :=
  ⟨h.starts, fun hFour => h.notNegation (Nat.le_trans hFour hLe),
    fun hEight => h.notSign (Nat.le_trans hEight hLe)⟩

theorem Token.Begins.not_isOperator {t : Token} (h : t.Begins level) {symbol : String}
    (hMinus : symbol.toList ≠ ['-']) (hPlus : symbol.toList ≠ ['+']) :
    t.isOperator symbol = false := by
  rw [Bool.eq_false_iff]
  intro hOperator
  obtain ⟨hKind, hText⟩ := t.eq_of_isOperator hOperator
  have hStarts := h.starts
  rw [Token.startsExpression, hKind, hText] at hStarts
  simp [hMinus, hPlus] at hStarts

theorem Token.Begins.not_closes {t : Token} (h : t.Begins level) (bracket : Char) :
    t.closes bracket = false := by
  rw [Bool.eq_false_iff]
  intro hCloses
  have hKind : t.kind = .closing := beq_iff_eq.1 (Bool.and_eq_true_iff.1 hCloses).1
  have hStarts := h.starts
  rw [Token.startsExpression, hKind] at hStarts
  cases hStarts

theorem Starts.mono {looser : Nat} (h : Starts level words) (hLe : looser ≤ level) :
    Starts looser words := by
  intro start
  obtain ⟨t, others, hTokens, hBegins, hSecond⟩ := h start
  exact ⟨t, others, hTokens, hBegins.mono hLe, hSecond⟩

theorem Starts.weight_pos (h : Starts level words) : 0 < weight words := by
  obtain ⟨t, others, hTokens, -, -⟩ := h 0
  rw [weight, hTokens]
  exact Nat.succ_pos _

theorem Starts.head_closes (h : Starts level words) (start : Nat) (rest : List Token)
    (bracket : Char) : (tokensOf start words ++ rest).head?.any (·.closes bracket) = false := by
  obtain ⟨t, others, hTokens, hBegins, -⟩ := h start
  rw [hTokens]
  exact hBegins.not_closes bracket

theorem Starts.head_isOperator (h : Starts level words) (start : Nat) (rest : List Token)
    {symbol : String} (hMinus : symbol.toList ≠ ['-']) (hPlus : symbol.toList ≠ ['+']) :
    (tokensOf start words ++ rest).head?.any (·.isOperator symbol) = false := by
  obtain ⟨t, others, hTokens, hBegins, -⟩ := h start
  rw [hTokens]
  exact hBegins.not_isOperator hMinus hPlus

theorem Starts.head_isName_not (h : Starts level words) (hLevel : 4 ≤ level) (start : Nat)
    (rest : List Token) :
    (tokensOf start words ++ rest).head?.any (·.isName "not") = false := by
  obtain ⟨t, others, hTokens, hBegins, -⟩ := h start
  rw [hTokens]
  exact hBegins.notNegation hLevel

theorem Starts.noEquals (h : Starts level words) (more : List Word) : NoEquals (words ++ more) := by
  intro start
  obtain ⟨t, others, hTokens, hBegins, -⟩ := h start
  rw [tokensOf_append, hTokens]
  intro u hu
  cases hu
  exact hBegins.not_isOperator (by decide) (by decide)

/-- More words may come after the first ones. -/
theorem Starts.append (h : Starts level words) {more : List Word} (hMore : NoEquals more) :
    Starts level (words ++ more) := by
  intro start
  obtain ⟨t, others, hTokens, hBegins, hSecond⟩ := h start
  refine ⟨t, _, by rw [tokensOf_append, hTokens, List.cons_append], hBegins, fun u hu => ?_⟩
  cases others with
  | nil => exact hMore _ u hu
  | cons v last => exact hSecond u hu

/-! ## From a level to the looser ones -/

/-- A reader gives back its operand when what follows ends the expression. -/
theorem continueAt_ends {rest : List Token} (h : Ends level rest) (budget : Nat) (expr : Expr) :
    continueAt level (budget + 1) expr rest = .ok (expr, rest) := by
  match level with
  | 0 => exact run_bind (h.eat_name "if" (by decide))
  | 1 =>
      show readOrTail (budget + 1) expr rest = _
      rw [readOrTail]
      exact run_bind (h.eat_name "or" (by decide))
  | 2 =>
      show readAndTail (budget + 1) expr rest = _
      rw [readAndTail]
      exact run_bind (h.eat_name "and" (by decide))
  | 3 => rfl
  | 4 =>
      have hLinks : readLinks (budget + 1) rest = .ok ([], rest) := by
        rw [readLinks]
        exact run_bind h.comparison?
      exact run_bind hLinks
  | 5 =>
      show readSumTail (budget + 1) expr rest = _
      rw [readSumTail]
      exact run_bind (h.operator? (by decide))
  | 6 =>
      show readProductTail (budget + 1) expr rest = _
      rw [readProductTail]
      exact run_bind (h.operator? (by decide))
  | 7 => rfl
  | 8 => exact run_bind (h.eat fun t ht => by rw [t.grip_of_isOperator ht]; decide)
  | 9 =>
      have hDot : Reader.eat (·.kind == .dot) rest = .ok (false, rest) :=
        h.eat fun t ht => by
          have hGrip : t.grip = 10 := by rw [Token.grip, beq_iff_eq.1 ht]
          omega
      have hOpens (bracket : Char) : Reader.eat (·.opens bracket) rest = .ok (false, rest) :=
        h.eat fun t ht => by
          have hGrip : t.grip = 10 := by rw [Token.grip, beq_iff_eq.1 (Bool.and_eq_true_iff.1 ht).1]
          omega
      show readTrailers (budget + 1) expr rest = _
      rw [readTrailers]
      exact (run_bind hDot).trans ((run_bind (hOpens '(')).trans (run_bind (hOpens '[')))
  | n + 10 => rfl

theorem Continues.reads (h : Continues level expr words) (hStarts : Starts level words)
    (hLevel : level ≤ 9) : Reads level expr words := by
  intro start rest budget hEnds hBudget
  obtain ⟨left, hLeft, hRead⟩ := h start rest budget (hEnds.mono (Nat.le_succ level)) hBudget
  have hPos := hStarts.weight_pos
  obtain ⟨fewer, rfl⟩ : ∃ fewer, left = fewer + 1 := ⟨left - 1, by omega⟩
  rw [hRead]
  exact continueAt_ends hEnds fewer expr

/-- A reader of a level reads an operand of the next level first. -/
theorem readAt_of_operand (hLevel : level ≤ 9) {budget : Nat} {t : Token}
    {others middle : List Token} (hBegins : t.Begins (level + 1))
    (hRead : readAt (level + 1) budget (t :: others) = .ok (expr, middle)) :
    readAt level (budget + 1) (t :: others) = continueAt level budget expr middle := by
  match level with
  | 0 => show readExpr (budget + 1) _ = _; rw [readExpr]; exact run_bind hRead
  | 1 => show readOr (budget + 1) _ = _; rw [readOr]; exact run_bind hRead
  | 2 => show readAnd (budget + 1) _ = _; rw [readAnd]; exact run_bind hRead
  | 3 =>
      have hNot : Reader.eat (·.isName "not") (t :: others) = .ok (false, t :: others) :=
        eat_false (hBegins.notNegation (Nat.le_refl 4))
      show readNot (budget + 1) _ = _
      rw [readNot]
      exact (run_bind hNot).trans hRead
  | 4 => show readCompare (budget + 1) _ = _; rw [readCompare]; exact run_bind hRead
  | 5 => show readSum (budget + 1) _ = _; rw [readSum]; exact run_bind hRead
  | 6 => show readProduct (budget + 1) _ = _; rw [readProduct]; exact run_bind hRead
  | 7 =>
      have hSigns : signs (t :: others) = ([], t :: others) := by
        obtain ⟨hMinus, hPlus⟩ := hBegins.notSign (Nat.le_refl 8)
        rw [signs, hMinus, hPlus]
        rfl
      show readFactor (budget + 1) _ = _
      rw [readFactor]
      refine (run_bind (r := fun tokens => .ok (signs tokens)) (congrArg Except.ok hSigns)).trans ?_
      exact run_bind hRead
  | 8 => show readPower (budget + 1) _ = _; rw [readPower]; exact run_bind hRead
  | 9 => show readPrimary (budget + 1) _ = _; rw [readPrimary]; exact run_bind hRead
  | n + 10 => omega

theorem readAt_succ (hLevel : level ≤ 9) {start budget : Nat} {rest middle : List Token}
    (hStarts : Starts (level + 1) words)
    (hRead : readAt (level + 1) budget (tokensOf start words ++ rest) = .ok (expr, middle)) :
    readAt level (budget + 1) (tokensOf start words ++ rest) =
      continueAt level budget expr middle := by
  obtain ⟨t, others, hTokens, hBegins, -⟩ := hStarts start
  rw [hTokens, List.cons_append] at hRead ⊢
  exact readAt_of_operand hLevel hBegins hRead

/-- An atom before the end of an expression is an expression. -/
theorem readExpr_of_readAtom {budget : Nat} {t : Token} {others rest : List Token}
    (hBegins : t.Begins 10) (hEnds : Ends 0 rest)
    (hRead : readAtom (budget + 1) (t :: others) = .ok (expr, rest)) :
    readExpr (budget + 11) (t :: others) = .ok (expr, rest) := by
  have hClimb : ∀ steps ≤ 10,
      readAt (10 - steps) (budget + 1 + steps) (t :: others) = .ok (expr, rest) := by
    intro steps
    induction steps with
    | zero => exact fun _ => hRead
    | succ steps ih =>
        intro hSteps
        have hLevel : 10 - (steps + 1) + 1 = 10 - steps := by omega
        have hOperand := ih (Nat.le_of_succ_le hSteps)
        rw [← hLevel] at hOperand
        refine (readAt_of_operand (by omega) (hBegins.mono (by omega)) hOperand).trans ?_
        have hBudget : budget + 1 + steps = budget + steps + 1 := by omega
        rw [hBudget]
        exact continueAt_ends (hEnds.mono (Nat.zero_le _)) _ expr
  exact hClimb 10 (Nat.le_refl 10)

theorem Reads.continues (h : Reads (level + 1) expr words) (hStarts : Starts (level + 1) words)
    (hLevel : level ≤ 9) : Continues level expr words := by
  intro start rest budget hEnds hBudget
  have hPos := hStarts.weight_pos
  obtain ⟨left, rfl⟩ : ∃ left, budget = left + 1 := ⟨budget - 1, by omega⟩
  exact ⟨left, by omega, readAt_succ hLevel hStarts (h start rest left hEnds (by omega))⟩

/-- What is read at a level is the first operand of the next looser one. -/
theorem IsRead.continues_of_succ (h : IsRead (level + 1) expr words) (hLevel : level ≤ 9) :
    Continues level expr words := h.reads.continues h.starts hLevel

/-- What is read at a level is read at the next looser one. -/
theorem IsRead.of_succ (h : IsRead (level + 1) expr words) (hLevel : level ≤ 9) :
    IsRead level expr words :=
  have hStarts := h.starts.mono (Nat.le_succ level)
  ⟨hStarts, (h.continues_of_succ hLevel).reads hStarts hLevel, fun _ => h.continues_of_succ hLevel⟩

/-- What is read at a level is read at all the looser ones. -/
theorem IsRead.climb {tighter : Nat} (h : IsRead tighter expr words) (hLe : level ≤ tighter)
    (hTighter : tighter ≤ 10) : IsRead level expr words := by
  induction tighter with
  | zero =>
      obtain rfl : level = 0 := Nat.le_zero.1 hLe
      exact h
  | succ n ih =>
      rcases Nat.lt_or_ge n level with hLt | hGe
      · obtain rfl : level = n + 1 := Nat.le_antisymm hLe hLt
        exact h
      · exact ih (h.of_succ (Nat.le_of_succ_le_succ hTighter)) hGe (Nat.le_of_succ_le hTighter)

/-! ## Operators -/

/-- What is read by going on after a left operand of the same level. -/
theorem IsRead.of_continues (hLevel : level ≤ 9) (hStarts : Starts level words)
    (h : Continues level expr words) : IsRead level expr words :=
  ⟨hStarts, h.reads hStarts hLevel, fun _ => h⟩

/-- Two operands of a level whose operators group to the left. The reader of the level takes the
operator and the right operand in one step. -/
theorem IsRead.leftGrouped {combined left right : Expr} {leftWords rightWords : List Word}
    {joint : Word}
    (hGroups : groupsLeft level = true) (hLeft : IsRead level left leftWords)
    (hRight : IsRead (level + 1) right rightWords)
    (hJoint : joint.kind = .name ∨ joint.kind = .operator) (hText : joint.text ≠ ['='])
    (hGrip : ∀ start, (joint.token start).grip ≤ level + 1)
    (hStep : ∀ start budget tokens rest, readAt (level + 1) budget tokens = .ok (right, rest) →
      continueAt level (budget + 1) left (joint.token start :: tokens) =
        continueAt level budget combined rest) :
    IsRead level combined (leftWords ++ .space :: joint :: .space :: rightWords) := by
  have hLevel : level ≤ 9 := by
    have hAll : ∀ n ∈ [1, 2, 5, 6, 9], n ≤ 9 := by decide
    exact hAll level (List.contains_iff_mem.1 hGroups)
  refine .of_continues hLevel (hLeft.starts.append fun start t ht => ?_) ?_
  · rw [tokensOf_space, tokensOf_cons _ _ hJoint] at ht
    cases ht
    rw [Token.isOperator, Bool.and_eq_false_iff]
    exact Or.inr (beq_false_of_ne hText)
  · intro start rest budget hEnds hBudget
    have hWeight (words : List Word) : weight (joint :: words) = weight words + 1 := by
      rw [weight, tokensOf_cons _ _ hJoint, List.length_cons, length_tokensOf]
    simp only [weight_append, weight_space, hWeight] at hBudget ⊢
    rw [tokensOf_append, tokensOf_space, tokensOf_cons _ _ hJoint, tokensOf_space,
      List.append_assoc, List.cons_append]
    obtain ⟨middle, hMiddle, hRead⟩ := hLeft.continues hGroups start _ budget
      (.cons (hGrip _) _) (by omega)
    have hPos := hRight.starts.weight_pos
    obtain ⟨fewer, rfl⟩ : ∃ fewer, middle = fewer + 1 := ⟨middle - 1, by omega⟩
    refine ⟨fewer, by omega, ?_⟩
    rw [hRead]
    exact hStep _ fewer _ rest (hRight.reads _ rest fewer hEnds (by omega))

theorem IsRead.or {left right : Expr} {leftWords rightWords : List Word}
    (hLeft : IsRead 1 left leftWords) (hRight : IsRead 2 right rightWords) :
    IsRead 1 (.or left right) (leftWords ++ .space :: .name "or" :: .space :: rightWords) := by
  refine .leftGrouped rfl hLeft hRight (Or.inl rfl) (by decide) (fun _ => Nat.le_refl 2)
    fun start budget tokens rest hRead => ?_
  show readOrTail (budget + 1) left _ = _
  rw [readOrTail]
  exact (run_bind (eat_true rfl tokens)).trans (run_bind hRead)

theorem IsRead.and {left right : Expr} {leftWords rightWords : List Word}
    (hLeft : IsRead 2 left leftWords) (hRight : IsRead 3 right rightWords) :
    IsRead 2 (.and left right) (leftWords ++ .space :: .name "and" :: .space :: rightWords) := by
  refine .leftGrouped rfl hLeft hRight (Or.inl rfl) (by decide) (fun _ => Nat.le_refl 3)
    fun start budget tokens rest hRead => ?_
  show readAndTail (budget + 1) left _ = _
  rw [readAndTail]
  exact (run_bind (eat_true rfl tokens)).trans (run_bind hRead)

theorem operator?_token {ops : List BinaryOp} {op : BinaryOp} (h : op ∈ ops) (start : Nat)
    (tokens : List Token) :
    operator? ops ((Word.operator op.symbol).token start :: tokens) = .ok (some op, tokens) := by
  have hSymbol : ∀ other : BinaryOp, ((Word.operator op.symbol).token start).isOperator
      other.symbol = decide (other = op) := by
    intro other
    cases op <;> cases other <;> rfl
  have hFind : ops.find? (fun other =>
      ((Word.operator op.symbol).token start).isOperator other.symbol) = some op := by
    simp only [hSymbol]
    induction ops with
    | nil => cases h
    | cons other others ih =>
        by_cases hOther : other = op
        · rw [List.find?_cons_of_pos (by simpa using hOther), hOther]
        · rw [List.find?_cons_of_neg (by simpa using hOther)]
          exact ih ((List.mem_cons.1 h).resolve_left (Ne.symm hOther))
  simp only [operator?, hFind]

theorem IsRead.sum {op : BinaryOp} (hOp : op ∈ [.add, .subtract]) {left right : Expr}
    {leftWords rightWords : List Word} (hLeft : IsRead 5 left leftWords)
    (hRight : IsRead 6 right rightWords) : IsRead 5 (.binary op left right)
      (leftWords ++ .space :: .operator op.symbol :: .space :: rightWords) := by
  have hAll : ∀ op ∈ [BinaryOp.add, .subtract], op.symbol.toList ≠ ['='] ∧
      operatorGrip op.symbol.toList ≤ 6 := by decide
  refine .leftGrouped rfl hLeft hRight (Or.inr rfl) (hAll op hOp).1 (fun _ => (hAll op hOp).2)
    fun start budget tokens rest hRead => ?_
  show readSumTail (budget + 1) left _ = _
  rw [readSumTail]
  exact (run_bind (operator?_token hOp start tokens)).trans (run_bind hRead)

theorem IsRead.product {op : BinaryOp} (hOp : op ∈ [.multiply, .divide, .floorDivide, .modulo])
    {left right : Expr} {leftWords rightWords : List Word} (hLeft : IsRead 6 left leftWords)
    (hRight : IsRead 7 right rightWords) : IsRead 6 (.binary op left right)
      (leftWords ++ .space :: .operator op.symbol :: .space :: rightWords) := by
  have hAll : ∀ op ∈ [BinaryOp.multiply, .divide, .floorDivide, .modulo],
      op.symbol.toList ≠ ['='] ∧ operatorGrip op.symbol.toList ≤ 7 := by decide
  refine .leftGrouped rfl hLeft hRight (Or.inr rfl) (hAll op hOp).1 (fun _ => (hAll op hOp).2)
    fun start budget tokens rest hRead => ?_
  show readProductTail (budget + 1) left _ = _
  rw [readProductTail]
  exact (run_bind (operator?_token hOp start tokens)).trans (run_bind hRead)

end Stencil
