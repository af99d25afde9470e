import Stencil.Proofs.Writing.Levels

/-!
# Each form is read back

What is left of the grammar, one form after another: signs, powers, comparisons and choices, then
what stands in brackets. A bracket starts the loosest level anew, so a form in brackets is read at
any level.

## Main results

* `Expr.IsWritable.isRead`: the words of an expression are read as the expression, at its level.
* `Expr.readTuple_write`: the tokens of a written expression are read as the expression.
-/

namespace Stencil

open Reader

variable {level : Nat}

/-! ## Keywords and brackets -/

theorem isName_token (word : String) (start : Nat) :
    ((Word.name word).token start).isName word = true := by
  rw [Token.isName, Bool.and_eq_true]
  exact ⟨beq_self_eq_true _, beq_self_eq_true _⟩

theorem keyword_token (word : String) (start : Nat) (tokens : List Token) :
    keyword word ((Word.name word).token start :: tokens) = .ok ((), tokens) :=
  (run_bind (eat_true (isName_token word start) tokens)).trans rfl

theorem closes_token (bracket : Char) (start : Nat) :
    ((Word.closing bracket).token start).closes bracket = true := by
  rw [Token.closes, Bool.and_eq_true]
  exact ⟨beq_self_eq_true _, beq_self_eq_true _⟩

theorem close_token (bracket : Char) (start : Nat) (tokens : List Token) :
    close bracket ((Word.closing bracket).token start :: tokens) = .ok ((), tokens) :=
  (run_bind (eat_true (closes_token bracket start) tokens)).trans rfl

/-! ## Negations, signs and powers -/

theorem IsRead.not {operand : Expr} {words : List Word} (h : IsRead 3 operand words) :
    IsRead 3 (.unary .not operand) (.name "not" :: .space :: words) where
  starts start := by
    obtain ⟨t, others, hTokens, hBegins, -⟩ := h.starts (start + Text.byteLength "not".toList +
      Text.byteLength [' '])
    refine ⟨_, _, tokensOf_name .., ⟨rfl, fun hFour => absurd hFour (by decide),
      fun hEight => absurd hEight (by decide)⟩, ?_⟩
    rw [tokensOf_space, hTokens]
    intro u hu
    cases hu
    exact hBegins.not_isOperator (by decide) (by decide)
  reads start rest budget hEnds hBudget := by
    rw [weight_name, weight_space] at hBudget
    obtain ⟨fewer, rfl⟩ : ∃ fewer, budget = fewer + 1 := ⟨budget - 1, by omega⟩
    rw [tokensOf_name, tokensOf_space, List.cons_append]
    show readNot (fewer + 1) _ = _
    rw [readNot]
    exact (run_bind (eat_true rfl _)).trans (run_bind (h.reads _ rest fewer hEnds (by omega)))
  continues hGroups := absurd hGroups (by decide)

/-- A sign before an operand that may have signs of its own. -/
theorem IsRead.sign {op : UnaryOp} {sign : String}
    (hSign : (op = .negative ∧ sign = "-") ∨ (op = .positive ∧ sign = "+")) {operand : Expr}
    {words : List Word} (h : IsRead 7 operand words) :
    IsRead 7 (.unary op operand) (.operator sign :: words) where
  starts start := by
    obtain ⟨t, others, hTokens, hBegins, -⟩ := h.starts (start + Text.byteLength sign.toList)
    refine ⟨_, _, tokensOf_operator .., ⟨?_, fun _ => rfl, fun hEight => absurd hEight (by decide)⟩,
      ?_⟩
    · rcases hSign with ⟨-, rfl⟩ | ⟨-, rfl⟩ <;> rfl
    · rw [hTokens]
      intro u hu
      cases hu
      exact hBegins.not_isOperator (by decide) (by decide)
  reads start rest budget hEnds hBudget := by
    rw [weight_operator] at hBudget
    obtain ⟨fewer, rfl⟩ : ∃ fewer, budget = fewer + 1 := ⟨budget - 1, by omega⟩
    rw [tokensOf_operator, List.cons_append]
    have hOperand : readFactor (fewer + 1) _ = _ :=
      h.reads (start + Text.byteLength sign.toList) rest (fewer + 1) hEnds (by omega)
    generalize tokensOf (start + Text.byteLength sign.toList) words ++ rest = tokens at hOperand
    have hFactor (tokens : List Token) : readFactor (fewer + 1) tokens =
        (do
          let base ← readPower fewer
          return (signs tokens).1.foldr .unary base : Reader Expr) (signs tokens).2 := by
      rw [readFactor]
      rfl
    have hSigns : signs ((Word.operator sign).token start :: tokens) =
        (op :: (signs tokens).1, (signs tokens).2) := by
      rcases hSign with ⟨rfl, rfl⟩ | ⟨rfl, rfl⟩ <;> rfl
    show readFactor (fewer + 1) _ = _
    rw [hFactor] at hOperand
    rw [hFactor, hSigns]
    obtain ⟨base, middle, hBase, hOperand⟩ := bind_ok hOperand
    cases hOperand
    exact run_bind hBase
  continues hGroups := absurd hGroups (by decide)

/-- A power: the exponent may be a power itself, or have signs. -/
theorem IsRead.power {base exponent : Expr} {baseWords exponentWords : List Word}
    (hBase : IsRead 9 base baseWords) (hExponent : IsRead 7 exponent exponentWords) :
    IsRead 8 (.binary .power base exponent)
      (baseWords ++ .space :: .operator "**" :: .space :: exponentWords) where
  starts := (hBase.starts.mono (by decide)).append fun start t ht => by
    cases ht
    rfl
  reads start rest budget hEnds hBudget := by
    simp only [weight_append, weight_space, weight_operator] at hBudget
    rw [tokensOf_append, tokensOf_space, tokensOf_operator, tokensOf_space, List.append_assoc,
      List.cons_append]
    obtain ⟨left, hLeft, hRead⟩ := hBase.continues_of_succ (by decide) start _ budget
      (.operator "**" (by decide) _) (by omega)
    rw [hRead]
    have hPos := hExponent.starts.weight_pos
    exact (run_bind (eat_true rfl _)).trans
      (run_bind (hExponent.reads _ rest left hEnds.factor (by omega)))
  continues hGroups := absurd hGroups (by decide)

/-! ## Comparisons and choices -/

/-- A comparison is passed over. After `is`, the operand does not start with `not`. -/
theorem comparison?_tokens (op : CompareOp) (start : Nat) {tokens : List Token}
    (hNot : tokens.head?.any (·.isName "not") = false) :
    comparison? (tokensOf start op.words ++ tokens) = .ok (some op, tokens) := by
  cases op with
  | same =>
      show comparison? ((Word.name "is").token start :: tokens) = _
      rw [comparison?, hNot]
      rfl
  | _ => rfl

theorem weight_compare_pos (op : CompareOp) : 0 < weight op.words := by
  cases op <;> decide

theorem ends_compare (op : CompareOp) (start : Nat) (rest : List Token) :
    Ends 5 (tokensOf start op.words ++ rest) := by
  cases op <;> exact .cons (Nat.le_refl 5) _

theorem noEquals_compare (op : CompareOp) (more : List Word) : NoEquals (op.words ++ more) := by
  intro start t ht
  rw [tokensOf_append] at ht
  cases op <;> cases ht <;> rfl

section Links

variable {links : List (CompareOp × Expr)}

theorem linkWords_cons (link : CompareOp × Expr) (others : List (CompareOp × Expr)) :
    Expr.linkWords (link :: others) =
      .space :: (link.1.words ++ .space :: (link.2.wordsAt 5 ++ Expr.linkWords others)) := by
  rw [Expr.linkWords]
  simp [Expr.wordsAt]

theorem ends_linkWords (start : Nat) {rest : List Token} (hEnds : Ends 4 rest) :
    Ends 5 (tokensOf start (Expr.linkWords links) ++ rest) := by
  cases links with
  | nil => exact hEnds.mono (by decide)
  | cons link others =>
      rw [linkWords_cons, tokensOf_space, tokensOf_append, List.append_assoc]
      exact ends_compare link.1 _ _

/-- The comparisons of a chain are read one after another. -/
theorem readLinks_linkWords (h : ∀ link ∈ links, IsRead 5 link.2 (link.2.wordsAt 5))
    {rest : List Token} (hEnds : Ends 4 rest) (start budget : Nat)
    (hBudget : 16 * weight (Expr.linkWords links) < budget) :
    readLinks budget (tokensOf start (Expr.linkWords links) ++ rest) = .ok (links, rest) := by
  obtain ⟨fewer, rfl⟩ : ∃ fewer, budget = fewer + 1 := ⟨budget - 1, by omega⟩
  induction links generalizing start fewer with
  | nil =>
      rw [readLinks]
      exact run_bind hEnds.comparison?
  | cons link others ih =>
      obtain ⟨hOperand, hOthers⟩ := List.forall_mem_cons.1 h
      have hPos := weight_compare_pos link.1
      simp only [linkWords_cons, weight_space, weight_append] at hBudget
      obtain ⟨least, rfl⟩ : ∃ least, fewer = least + 1 := ⟨fewer - 1, by omega⟩
      rw [linkWords_cons, readLinks]
      simp only [tokensOf_space, tokensOf_append, List.append_assoc]
      refine (run_bind
        (comparison?_tokens _ _ (hOperand.starts.head_isName_not (by decide) _ _))).trans
        ?_
      refine (run_bind (hOperand.reads _ _ (least + 1) (ends_linkWords _ hEnds) (by omega))).trans
        ?_
      exact (run_bind (ih hOthers _ least (by omega))).trans rfl

theorem IsRead.compare {left : Expr} {words : List Word} (hLeft : IsRead 5 left words)
    (hLinks : ∀ link ∈ links, IsRead 5 link.2 (link.2.wordsAt 5)) (hSome : links ≠ []) :
    IsRead 4 (.compare left links) (words ++ Expr.linkWords links) where
  starts := (hLeft.starts.mono (by decide)).append fun start => by
    cases links with
    | nil => exact absurd rfl hSome
    | cons link others =>
        rw [linkWords_cons, tokensOf_space]
        exact noEquals_compare link.1 _ _
  reads start rest budget hEnds hBudget := by
    rw [weight_append] at hBudget
    rw [tokensOf_append, List.append_assoc]
    obtain ⟨after, hAfter, hRead⟩ := hLeft.continues_of_succ (by decide) start _ budget
      (ends_linkWords _ hEnds) (by omega)
    have hPos := hLeft.starts.weight_pos
    have hEmpty : links.isEmpty = false := List.isEmpty_eq_false_iff.2 hSome
    rw [hRead]
    refine (run_bind (readLinks_linkWords hLinks hEnds _ after (by omega))).trans ?_
    rw [hEmpty]
    rfl
  continues hGroups := absurd hGroups (by decide)

end Links

/-- A choice: only the last part may be a choice itself. -/
theorem IsRead.conditional {test body otherwise : Expr}
    {testWords bodyWords otherwiseWords : List Word} (hTest : IsRead 1 test testWords)
    (hBody : IsRead 1 body bodyWords) (hOtherwise : IsRead 0 otherwise otherwiseWords) :
    IsRead 0 (.conditional test body otherwise) (bodyWords ++ .space :: .name "if" :: .space ::
      (testWords ++ .space :: .name "else" :: .space :: otherwiseWords)) where
  starts := (hBody.starts.mono (by decide)).append fun start t ht => by
    cases ht
    rfl
  reads start rest budget hEnds hBudget := by
    simp only [weight_append, weight_space, weight_name] at hBudget
    simp only [tokensOf_append, tokensOf_space, tokensOf_name, List.append_assoc, List.cons_append]
    obtain ⟨left, hLeft, hRead⟩ := hBody.continues_of_succ (by decide) start _ budget
      (.name "if" (by decide) _) (by omega)
    have hPos := hBody.starts.weight_pos
    rw [hRead]
    refine (run_bind (eat_true rfl _)).trans ?_
    refine (run_bind (hTest.reads _ _ left (.name "else" (by decide) _) (by omega))).trans ?_
    refine (run_bind (keyword_token "else" _ _)).trans ?_
    exact (run_bind (hOtherwise.reads _ rest left hEnds (by omega))).trans rfl
  continues hGroups := absurd hGroups (by decide)

/-! ## Atoms -/

theorem IsRead.of_atom {expr : Expr} {words : List Word} (hStarts : Starts 10 words)
    (h : ∀ start rest budget, Ends 10 rest → 16 * weight words ≤ budget + 10 →
      readAtom budget (tokensOf start words ++ rest) = .ok (expr, rest)) : IsRead 10 expr words :=
  ⟨hStarts, h, fun hGroups => absurd hGroups (by decide)⟩

/-- An atom that is a single token: a constant or a name. -/
theorem isRead_word {expr : Expr} (word : Word)
    (hKind : word.kind = .name ∨ word.kind = .number ∨ word.kind = .string)
    (hStarts : ∀ start, (word.token start).startsExpression = true) (hNot : word ≠ .name "not")
    (hRead : ∀ start rest budget, Ends 10 rest →
      readAtom (budget + 1) (word.token start :: rest) = .ok (expr, rest)) :
    IsRead 10 expr [word] := by
  have hTokens (start : Nat) : tokensOf start [word] = [word.token start] := by
    obtain ⟨kind, text⟩ := word
    rcases hKind with h | h | h <;> cases h <;> rfl
  have hNegation (start : Nat) : (word.token start).isName "not" = false := by
    rw [Bool.eq_false_iff]
    intro hName
    obtain ⟨hWordKind, hText⟩ := Token.eq_of_isName hName
    obtain ⟨kind, text⟩ := word
    cases hWordKind
    cases hText
    exact hNot rfl
  have hSign (start : Nat) (symbol : String) : (word.token start).isOperator symbol = false := by
    rw [Bool.eq_false_iff]
    intro hOperator
    have hWordKind : word.kind = .operator := (Token.eq_of_isOperator hOperator).1
    rw [hWordKind] at hKind
    rcases hKind with h | h | h <;> cases h
  refine .of_atom (fun start => ?_) fun start rest budget hEnds hBudget => ?_
  · exact ⟨_, [], hTokens start, ⟨hStarts start, fun _ => hNegation start,
      fun _ => ⟨hSign start "-", hSign start "+"⟩⟩, fun u hu => absurd hu (by simp)⟩
  · rw [weight, hTokens, List.length_singleton] at hBudget
    obtain ⟨fewer, rfl⟩ : ∃ fewer, budget = fewer + 1 := ⟨budget - 1, by omega⟩
    rw [hTokens]
    exact hRead start rest fewer hEnds

theorem not_isName_of_plain {label word : String} (h : isKeyword label.toList = false)
    (hWord : isKeyword word.toList = true) (start : Nat) :
    ((Word.name label).token start).isName word = false := by
  rw [Bool.eq_false_iff]
  intro hName
  have hText : label.toList = word.toList := (Token.eq_of_isName hName).2
  rw [hText, hWord] at h
  cases h

theorem readAtom_name {label : String} (h : isKeyword label.toList = false) (start budget : Nat)
    (rest : List Token) :
    readAtom (budget + 1) ((Word.name label).token start :: rest) = .ok (.name label, rest) := by
  have hPlain : isKeyword ((Word.name label).token start).text = false := h
  rw [readAtom]
  refine (run_bind (r := peek?) rfl).trans ?_
  show (if ((Word.name label).token start).isName "True" = true then _ else
    if ((Word.name label).token start).isName "False" = true then _ else
    if ((Word.name label).token start).isName "None" = true then _ else
    if isKeyword ((Word.name label).token start).text = true then _ else _ : Reader Expr) _ = _
  rw [not_isName_of_plain h (by decide), not_isName_of_plain h (by decide),
    not_isName_of_plain h (by decide), hPlain]
  exact congrArg (fun name => Except.ok (Expr.name name, rest)) (String.ofList_toList)

theorem isRead_name {label : String} (h : IsIdentifier label) :
    IsRead 10 (.name label) [.name label] := by
  refine isRead_word _ (Or.inl rfl) (fun start => ?_) (fun hEq => ?_)
    fun start rest budget hEnds => readAtom_name h.plain start budget rest
  · show (!isKeyword label.toList || _) = true
    rw [h.plain]
    rfl
  · have hLabel : label = "not" := String.toList_inj.1 (congrArg Word.text hEq)
    rw [hLabel] at h
    exact absurd h.plain (by decide)

theorem strings_token {text : List Char} {t : Token} (hKind : t.kind = .string)
    (hText : decodeString t.text = .ok text) {rest : List Token} (hEnds : Ends 10 rest) :
    strings (t :: rest) = .ok (text, rest) := by
  have hRest : strings.go rest = .ok ([], rest) := by
    cases rest with
    | nil => rfl
    | cons u others =>
        have hOther : u.kind ≠ .string := by
          intro hString
          have hGrip := hEnds u rfl
          have hEleven : u.grip = 11 := by rw [Token.grip, hString]
          omega
        rw [strings.go, if_neg hOther]
  show strings.go (t :: rest) = _
  rw [strings.go, if_pos hKind, hText]
  show (strings.go rest >>= fun pair => Except.ok (text ++ pair.1, pair.2)) = _
  rw [hRest]
  exact congrArg (fun text => Except.ok (text, rest)) (List.append_nil text)

theorem isRead_literal {value : Literal} (h : value.IsWritable) :
    IsRead 10 (.literal value) [value.word] := by
  cases value with
  | none =>
      refine isRead_word _ (Or.inl rfl) (fun _ => rfl) (by decide) fun start rest budget _ => ?_
      rw [readAtom]
      rfl
  | bool value =>
      cases value
      all_goals
        refine isRead_word _ (Or.inl rfl) (fun _ => rfl) (by decide) fun start rest budget _ => ?_
        rw [readAtom]
        rfl
  | int value =>
      refine isRead_word _ (Or.inr (Or.inl rfl)) (fun _ => rfl) (fun hEq => by cases hEq)
        fun start rest budget hEnds => ?_
      have hNumber : readNumber ((Literal.int value).word.token start).text = .ok (.int value) :=
        readNumber_decimalText h
      rw [readAtom]
      refine (run_bind (r := peek?) rfl).trans ?_
      simp only [List.head?_cons, hNumber]
      rfl
  | float value => exact absurd h id
  | string text =>
      refine isRead_word _ (Or.inr (Or.inr rfl)) (fun _ => rfl) (fun hEq => by cases hEq)
        fun start rest budget hEnds => ?_
      have hStrings := strings_token (t := ⟨.string, quoteChars text.toList, start⟩) rfl
        (decodeString_quoteChars text.toList) hEnds
      rw [readAtom]
      refine (run_bind (r := peek?) rfl).trans ?_
      refine (run_bind hStrings).trans ?_
      exact congrArg (fun text => Except.ok (Expr.literal (.string text), rest))
        String.ofList_toList

/-! ## Items in brackets -/

theorem readAtom_round (start budget : Nat) (rest : List Token) :
    readAtom (budget + 1) ((Word.opening '(').token start :: rest) =
      readParenthesized budget rest := by
  rw [readAtom]
  exact (run_bind (r := peek?) rfl).trans (run_bind (r := advance) rfl)

theorem readAtom_square (start budget : Nat) (rest : List Token) :
    readAtom (budget + 1) ((Word.opening '[').token start :: rest) =
      (do let items ← readItems budget ']'; close ']'; return .list items : Reader Expr) rest := by
  rw [readAtom]
  exact (run_bind (r := peek?) rfl).trans (run_bind (r := advance) rfl)

theorem commaSeparated_groups (first second : Expr) (rest : List Expr) :
    commaSeparated (Expr.groups (first :: second :: rest)) =
      first.words ++ .operator "," :: .space :: commaSeparated (Expr.groups (second :: rest)) := by
  rw [Expr.groups]
  exact commaSeparated_cons _ (by simp [Expr.groups])

theorem readItems_closing (bracket : Char) (stop budget : Nat) (rest : List Token) :
    readItems (budget + 1) bracket ((Word.closing bracket).token stop :: rest) =
      .ok ([], (Word.closing bracket).token stop :: rest) := by
  rw [readItems]
  refine (run_bind (r := nextIs _) rfl).trans ?_
  show (if (((Word.closing bracket).token stop).closes bracket) = true then _ else _ :
    Reader _) _ = _
  rw [closes_token]
  rfl

/-- Items before the bracket that closes them. -/
theorem readItems_words (bracket : Char) {items : List Expr}
    (h : ∀ item ∈ items, IsRead 0 item item.words) (start stop budget : Nat) (rest : List Token)
    (hBudget : 16 * weight (commaSeparated (Expr.groups items)) < budget) :
    readItems budget bracket (tokensOf start (commaSeparated (Expr.groups items)) ++
        (Word.closing bracket).token stop :: rest) =
      .ok (items, (Word.closing bracket).token stop :: rest) := by
  obtain ⟨fewer, rfl⟩ : ∃ fewer, budget = fewer + 1 := ⟨budget - 1, by omega⟩
  induction items generalizing start fewer with
  | nil => exact readItems_closing bracket stop fewer rest
  | cons item others ih =>
      obtain ⟨hItem, hOthers⟩ := List.forall_mem_cons.1 h
      cases others with
      | nil =>
          have hWords : commaSeparated (Expr.groups [item]) = item.words := by
            rw [Expr.groups, Expr.groups, commaSeparated]
          rw [hWords] at hBudget ⊢
          rw [readItems]
          refine (run_bind (r := nextIs _) rfl).trans ?_
          rw [hItem.starts.head_closes]
          refine (run_bind (hItem.reads start _ fewer (.closing bracket stop) (by omega))).trans ?_
          exact (run_bind (eat_false rfl)).trans rfl
      | cons next last =>
          have hWords := commaSeparated_groups item next last
          simp only [hWords, weight_append, weight_operator, weight_space] at hBudget
          obtain ⟨least, rfl⟩ : ∃ least, fewer = least + 1 := ⟨fewer - 1, by omega⟩
          simp only [hWords, tokensOf_append, tokensOf_operator, tokensOf_space, List.append_assoc,
            List.cons_append]
          rw [readItems]
          refine (run_bind (r := nextIs _) rfl).trans ?_
          rw [hItem.starts.head_closes]
          refine (run_bind (hItem.reads start _ (least + 1) (.operator "," (by decide) _)
            (by omega))).trans ?_
          refine (run_bind (eat_true rfl _)).trans ?_
          exact (run_bind (ih hOthers _ least (by omega))).trans rfl

/-- The entries of a dictionary before its closing bracket. -/
theorem readEntries_words {entries : List (Expr × Expr)}
    (hKeys : ∀ entry ∈ entries, IsRead 0 entry.1 entry.1.words)
    (hValues : ∀ entry ∈ entries, IsRead 0 entry.2 entry.2.words) (start stop budget : Nat)
    (rest : List Token)
    (hBudget : 16 * weight (commaSeparated (Expr.entryGroups entries)) < budget) :
    readEntries budget (tokensOf start (commaSeparated (Expr.entryGroups entries)) ++
        (Word.closing '\x7d').token stop :: rest) =
      .ok (entries, (Word.closing '\x7d').token stop :: rest) := by
  obtain ⟨fewer, rfl⟩ : ∃ fewer, budget = fewer + 1 := ⟨budget - 1, by omega⟩
  induction entries generalizing start fewer with
  | nil =>
      rw [readEntries]
      exact (run_bind (r := nextIs _) rfl).trans rfl
  | cons entry others ih =>
      obtain ⟨hKey, hOtherKeys⟩ := List.forall_mem_cons.1 hKeys
      obtain ⟨hValue, hOtherValues⟩ := List.forall_mem_cons.1 hValues
      cases others with
      | nil =>
          have hWords : commaSeparated (Expr.entryGroups [entry]) =
              entry.1.words ++ .operator ":" :: .space :: entry.2.words := by
            rw [Expr.entryGroups, Expr.entryGroups, commaSeparated]
          simp only [hWords, weight_append, weight_operator, weight_space] at hBudget
          simp only [hWords, tokensOf_append, tokensOf_operator, tokensOf_space, List.append_assoc,
            List.cons_append]
          rw [readEntries]
          refine (run_bind (r := nextIs _) rfl).trans ?_
          rw [hKey.starts.head_closes]
          refine (run_bind
            (hKey.reads start _ fewer (.operator ":" (by decide) _) (by omega))).trans ?_
          refine (run_bind (eat_true rfl _)).trans ?_
          refine (run_bind (hValue.reads _ _ fewer (.closing '\x7d' stop) (by omega))).trans ?_
          exact (run_bind (eat_false rfl)).trans rfl
      | cons next last =>
          have hWords : commaSeparated (Expr.entryGroups (entry :: next :: last)) =
              entry.1.words ++ .operator ":" :: .space :: (entry.2.words ++
                .operator "," :: .space :: commaSeparated (Expr.entryGroups (next :: last))) := by
            rw [Expr.entryGroups, commaSeparated_cons _ (by simp [Expr.entryGroups])]
            simp
          simp only [hWords, weight_append, weight_operator, weight_space] at hBudget
          obtain ⟨least, rfl⟩ : ∃ least, fewer = least + 1 := ⟨fewer - 1, by omega⟩
          simp only [hWords, tokensOf_append, tokensOf_operator, tokensOf_space, List.append_assoc,
            List.cons_append]
          rw [readEntries]
          refine (run_bind (r := nextIs _) rfl).trans ?_
          rw [hKey.starts.head_closes]
          refine (run_bind (hKey.reads start _ (least + 1) (.operator ":" (by decide) _)
            (by omega))).trans ?_
          refine (run_bind (eat_true rfl _)).trans ?_
          refine (run_bind (hValue.reads _ _ (least + 1) (.operator "," (by decide) _)
            (by omega))).trans ?_
          refine (run_bind (eat_true rfl _)).trans ?_
          exact (run_bind (ih hOtherKeys hOtherValues _ least (by omega))).trans rfl

/-! ## Forms in brackets -/

theorem starts_opening {bracket : Char} {words : List Word} (hSecond : NoEquals words) :
    Starts 10 (.opening bracket :: words) := fun _ =>
  ⟨_, _, tokensOf_opening .., ⟨rfl, fun _ => rfl, fun _ => ⟨rfl, rfl⟩⟩, hSecond _⟩

theorem noEquals_closing (bracket : Char) : NoEquals [.closing bracket] := by
  intro start t ht
  cases ht
  rfl

/-- Groups with commas between them start as the first one does. -/
theorem noEquals_commaSeparated {groups : List (List Word)} (h : ∀ group ∈ groups, Starts 0 group)
    {more : List Word} (hMore : NoEquals more) : NoEquals (commaSeparated groups ++ more) := by
  cases groups with
  | nil => exact hMore
  | cons group rest =>
      have hGroup := h group (by simp)
      cases rest with
      | nil => exact hGroup.noEquals more
      | cons next others =>
          rw [commaSeparated_cons _ (List.cons_ne_nil next others), List.append_assoc]
          exact hGroup.noEquals _

theorem starts_groups {items : List Expr} (h : ∀ item ∈ items, IsRead 0 item item.words) :
    ∀ group ∈ Expr.groups items, Starts 0 group := by
  induction items with
  | nil => simp [Expr.groups]
  | cons item rest ih =>
      rw [List.forall_mem_cons] at h
      rw [Expr.groups]
      exact List.forall_mem_cons.2 ⟨h.1.starts, ih h.2⟩

theorem starts_entryGroups {entries : List (Expr × Expr)}
    (h : ∀ entry ∈ entries, IsRead 0 entry.1 entry.1.words) :
    ∀ group ∈ Expr.entryGroups entries, Starts 0 group := by
  induction entries with
  | nil => simp [Expr.entryGroups]
  | cons entry rest ih =>
      rw [List.forall_mem_cons] at h
      rw [Expr.entryGroups]
      refine List.forall_mem_cons.2 ⟨h.1.starts.append fun start t ht => ?_, ih h.2⟩
      cases ht
      rfl

theorem IsRead.parenthesized {expr : Expr} {words : List Word} (h : IsRead 0 expr words) :
    IsRead 10 expr (.opening '(' :: (words ++ [.closing ')'])) := by
  refine .of_atom (starts_opening (h.starts.noEquals _)) fun start rest budget _ hBudget => ?_
  simp only [weight_opening, weight_append, weight_closing, weight_nil] at hBudget
  obtain ⟨fewer, rfl⟩ : ∃ fewer, budget = fewer + 2 := ⟨budget - 2, by omega⟩
  simp only [tokensOf_opening, tokensOf_append, tokensOf_closing, tokensOf_nil, List.append_assoc,
    List.cons_append, List.nil_append]
  rw [readAtom_round, readParenthesized]
  refine (run_bind (eat_false (h.starts.head_closes _ _ ')'))).trans ?_
  refine (run_bind (h.reads _ _ fewer (.closing ')' _) (by omega))).trans ?_
  exact (run_bind (eat_true (closes_token ')' _) rest)).trans rfl

theorem isRead_list {items : List Expr} (h : ∀ item ∈ items, IsRead 0 item item.words) :
    IsRead 10 (.list items)
      (.opening '[' :: (commaSeparated (Expr.groups items) ++ [.closing ']'])) := by
  refine .of_atom
    (starts_opening (noEquals_commaSeparated (starts_groups h) (noEquals_closing ']')))
    fun start rest budget _ hBudget => ?_
  simp only [weight_opening, weight_append, weight_closing, weight_nil] at hBudget
  obtain ⟨fewer, rfl⟩ : ∃ fewer, budget = fewer + 1 := ⟨budget - 1, by omega⟩
  simp only [tokensOf_opening, tokensOf_append, tokensOf_closing, tokensOf_nil, List.append_assoc,
    List.cons_append, List.nil_append]
  rw [readAtom_square]
  refine (run_bind (readItems_words ']' h _ _ fewer rest (by omega))).trans ?_
  exact (run_bind (close_token ']' _ rest)).trans rfl

theorem isRead_dict {entries : List (Expr × Expr)}
    (hKeys : ∀ entry ∈ entries, IsRead 0 entry.1 entry.1.words)
    (hValues : ∀ entry ∈ entries, IsRead 0 entry.2 entry.2.words) :
    IsRead 10 (.dict entries)
      (.opening '\x7b' :: (commaSeparated (Expr.entryGroups entries) ++ [.closing '\x7d'])) := by
  refine .of_atom (starts_opening
    (noEquals_commaSeparated (starts_entryGroups hKeys) (noEquals_closing '\x7d')))
    fun start rest budget _ hBudget => ?_
  simp only [weight_opening, weight_append, weight_closing, weight_nil] at hBudget
  obtain ⟨fewer, rfl⟩ : ∃ fewer, budget = fewer + 1 := ⟨budget - 1, by omega⟩
  simp only [tokensOf_opening, tokensOf_append, tokensOf_closing, tokensOf_nil, List.append_assoc,
    List.cons_append, List.nil_append]
  rw [readAtom]
  refine (run_bind (r := peek?) rfl).trans ((run_bind (r := advance) rfl).trans ?_)
  refine (run_bind (readEntries_words hKeys hValues _ _ fewer rest (by omega))).trans ?_
  exact (run_bind (close_token '\x7d' _ rest)).trans rfl

/-- A comma after the first item makes a tuple. -/
theorem readParenthesized_comma {first : Expr} {others : List Expr}
    (hFirst : IsRead 0 first first.words) (hOthers : ∀ item ∈ others, IsRead 0 item item.words)
    (start comma next stop budget : Nat) (rest : List Token)
    (hBudget : 16 * (weight first.words + weight (commaSeparated (Expr.groups others))) < budget) :
    readParenthesized (budget + 1) (tokensOf start first.words ++
        (Word.operator ",").token comma :: (tokensOf next (commaSeparated (Expr.groups others)) ++
          (Word.closing ')').token stop :: rest)) = .ok (.tuple (first :: others), rest) := by
  rw [readParenthesized]
  refine (run_bind (eat_false (hFirst.starts.head_closes _ _ ')'))).trans ?_
  refine (run_bind (hFirst.reads _ _ budget (.operator "," (by decide) _) (by omega))).trans ?_
  refine (run_bind (eat_false rfl)).trans ((run_bind (eat_true rfl _)).trans ?_)
  refine (run_bind (readItems_words ')' hOthers _ _ budget rest (by omega))).trans ?_
  exact (run_bind (close_token ')' _ rest)).trans rfl

/-- A tuple: nothing in the brackets, or a comma after the first item. -/
theorem isRead_tuple {items : List Expr} (h : ∀ item ∈ items, IsRead 0 item item.words) :
    IsRead 10 (.tuple items) (.opening '(' :: (commaSeparated (Expr.groups items) ++
      ((if items.length = 1 then [.operator ","] else []) ++ [.closing ')']))) := by
  have hMore : NoEquals ((if items.length = 1 then [.operator ","] else []) ++ [.closing ')']) := by
    intro start t ht
    split at ht <;> cases ht <;> rfl
  refine .of_atom (starts_opening (noEquals_commaSeparated (starts_groups h) hMore))
    fun start rest budget _ hBudget => ?_
  simp only [weight_opening, weight_append, weight_closing, weight_nil] at hBudget
  obtain ⟨fewer, rfl⟩ : ∃ fewer, budget = fewer + 2 := ⟨budget - 2, by omega⟩
  simp only [tokensOf_opening, tokensOf_append, tokensOf_closing, tokensOf_nil, List.append_assoc,
    List.cons_append, List.nil_append]
  rw [readAtom_round]
  cases items with
  | nil =>
      rw [readParenthesized]
      exact (run_bind (eat_true (closes_token ')' _) rest)).trans rfl
  | cons item others =>
      obtain ⟨hItem, hOthers⟩ := List.forall_mem_cons.1 h
      cases others with
      | nil =>
          have hWords : commaSeparated (Expr.groups [item]) = item.words := by
            rw [Expr.groups, Expr.groups, commaSeparated]
          have hRead := readParenthesized_comma hItem hOthers
          rw [Expr.groups, commaSeparated] at hRead
          rw [hWords] at hBudget ⊢
          exact hRead _ _ 0 _ fewer rest (by rw [weight_nil]; omega)
      | cons next last =>
          have hWords := commaSeparated_groups item next last
          rw [hWords] at hBudget ⊢
          simp only [weight_append, weight_operator, weight_space] at hBudget
          simp only [tokensOf_append, tokensOf_operator, tokensOf_space, List.append_assoc,
            List.cons_append]
          exact readParenthesized_comma hItem hOthers _ _ _ _ fewer rest (by omega)

/-! ## What comes after a value -/

/-- An attribute, a call or a subscript after a value. -/
theorem IsRead.trailed {value result : Expr} {words trailer : List Word}
    (h : IsRead 9 value words) (hPos : 0 < weight trailer) (hSecond : NoEquals trailer)
    (hEnds : ∀ start rest, Ends 10 (tokensOf start trailer ++ rest))
    (hStep : ∀ start rest budget, 16 * weight trailer ≤ budget →
      readTrailers (budget + 1) value (tokensOf start trailer ++ rest) =
        readTrailers budget result rest) : IsRead 9 result (words ++ trailer) := by
  refine .of_continues (by decide) (h.starts.append hSecond) fun start rest budget _ hBudget => ?_
  rw [weight_append] at hBudget ⊢
  rw [tokensOf_append, List.append_assoc]
  obtain ⟨left, hLeft, hRead⟩ := h.continues rfl start _ budget (hEnds _ rest) (by omega)
  have hWeight := h.starts.weight_pos
  obtain ⟨fewer, rfl⟩ : ∃ fewer, left = fewer + 1 := ⟨left - 1, by omega⟩
  refine ⟨fewer, by omega, ?_⟩
  rw [hRead]
  exact hStep _ rest fewer (by omega)

theorem IsRead.attribute {value : Expr} {words : List Word} (h : IsRead 9 value words)
    (label : String) : IsRead 9 (.attribute value label) (words ++ [.dot, .name label]) := by
  refine h.trailed Nat.two_pos (fun start t ht => by cases ht; rfl)
    (fun start rest => .cons (Nat.le_refl 10) _) fun start rest budget _ => ?_
  rw [readTrailers]
  refine (run_bind (eat_true rfl _)).trans ((run_bind (r := peek?) rfl).trans ?_)
  refine (run_bind (r := advance) rfl).trans ?_
  exact congrArg (fun name => readTrailers budget (.attribute value name) rest) String.ofList_toList

/-- A value before an opening bracket. -/
theorem IsRead.applied {value result : Expr} {words inner : List Word} {first last : Char}
    (h : IsRead 9 value words)
    (hStep : ∀ start stop rest budget, 16 * weight inner + 16 ≤ budget →
      readTrailers (budget + 1) value ((Word.opening first).token start ::
        (tokensOf (start + Text.byteLength [first]) inner ++ (Word.closing last).token stop ::
          rest)) =
          readTrailers budget result rest) :
    IsRead 9 result (words ++ .opening first :: (inner ++ [.closing last])) := by
  refine h.trailed (by rw [weight_opening]; exact Nat.succ_pos _)
    (fun start t ht => by cases ht; rfl) (fun start rest => .cons (Nat.le_refl 10) _)
    fun start rest budget hBudget => ?_
  simp only [weight_opening, weight_append, weight_closing, weight_nil] at hBudget
  simp only [tokensOf_opening, tokensOf_append, tokensOf_closing, tokensOf_nil, List.append_assoc,
    List.cons_append, List.nil_append]
  exact hStep _ _ rest budget (by omega)

/-! ### Arguments -/

theorem argumentName?_positional {expr : Expr} {words : List Word} (h : IsRead 0 expr words)
    (start : Nat) {t : Token} (ht : t.isOperator "=" = false) (rest : List Token) :
    argumentName? (tokensOf start words ++ t :: rest) =
      .ok (none, tokensOf start words ++ t :: rest) := by
  obtain ⟨first, others, hTokens, -, hSecond⟩ := h.starts start
  rw [hTokens]
  cases others with
  | nil => simp [argumentName?, ht]
  | cons second last => simp [argumentName?, hSecond second rfl]

/-- What is read after an argument with its name. -/
theorem readArguments_name {label : String} {value : Expr} (hValue : IsRead 0 value value.words)
    (arguments : List Expr) {done : List (String × Expr)}
    (hNew : done.any (·.1 == label) = false) (nameStart markStart start budget : Nat)
    {rest : List Token} (hEnds : Ends 0 rest) (hBudget : 16 * weight value.words ≤ budget) :
    readArguments (budget + 1) arguments done ((Word.name label).token nameStart ::
        (Word.operator "=").token markStart :: (tokensOf start value.words ++ rest)) =
      (do
        if ← eat (·.isOperator ",") then readArguments budget arguments ((label, value) :: done)
        else return (arguments.reverse, ((label, value) :: done).reverse) : Reader _) rest := by
  have hLabel : String.ofList ((Word.name label).token nameStart).text = label :=
    String.ofList_toList
  rw [readArguments]
  refine (run_bind (r := nextIs _) rfl).trans ((run_bind (r := argumentName?) rfl).trans ?_)
  rw [hLabel]
  show (if (done.any fun entry => entry.1 == label) = true then _ else _ : Reader _) _ = _
  rw [hNew]
  refine (run_bind (r := advance) rfl).trans ((run_bind (r := advance) rfl).trans ?_)
  exact run_bind (hValue.reads start rest budget hEnds hBudget)

/-- What is read after an argument without a name. -/
theorem readArguments_value {value : Expr} (hValue : IsRead 0 value value.words)
    (arguments : List Expr) (start budget : Nat) {t : Token} (ht : t.isOperator "=" = false)
    {rest : List Token} (hEnds : Ends 0 (t :: rest)) (hBudget : 16 * weight value.words ≤ budget) :
    readArguments (budget + 1) arguments [] (tokensOf start value.words ++ t :: rest) =
      (do
        if ← eat (·.isOperator ",") then readArguments budget (value :: arguments) []
        else return ((value :: arguments).reverse, [].reverse) : Reader _) (t :: rest) := by
  rw [readArguments]
  refine (run_bind (r := nextIs _) rfl).trans ?_
  rw [hValue.starts.head_closes]
  refine (run_bind (argumentName?_positional hValue start ht rest)).trans ?_
  exact run_bind (hValue.reads start _ budget hEnds hBudget)

/-- Arguments with their names, before the bracket that closes the call. -/
theorem readArguments_named {named : List (String × Expr)}
    (h : ∀ entry ∈ named, IsRead 0 entry.2 entry.2.words) (hDistinct : (named.map Prod.fst).Nodup)
    (arguments : List Expr) (done : List (String × Expr))
    (hDone : ∀ entry ∈ named, done.any (·.1 == entry.1) = false) (start stop budget : Nat)
    (rest : List Token)
    (hBudget : 16 * weight (commaSeparated (Expr.namedGroups named)) < budget) :
    readArguments budget arguments done (tokensOf start (commaSeparated (Expr.namedGroups named)) ++
        (Word.closing ')').token stop :: rest) =
      .ok ((arguments.reverse, done.reverse ++ named), (Word.closing ')').token stop :: rest) := by
  obtain ⟨fewer, rfl⟩ : ∃ fewer, budget = fewer + 1 := ⟨budget - 1, by omega⟩
  induction named generalizing done start fewer with
  | nil =>
      rw [readArguments, List.append_nil]
      exact (run_bind (r := nextIs _) rfl).trans rfl
  | cons entry others ih =>
      obtain ⟨label, value⟩ := entry
      obtain ⟨(hValue : IsRead 0 value value.words), hOthers⟩ := List.forall_mem_cons.1 h
      obtain ⟨hNew, hDoneOthers⟩ := List.forall_mem_cons.1 hDone
      rw [List.map_cons, List.nodup_cons] at hDistinct
      cases others with
      | nil =>
          have hWords : commaSeparated (Expr.namedGroups [(label, value)]) =
              .name label :: .operator "=" :: value.words := by
            rw [Expr.namedGroups, Expr.namedGroups, commaSeparated]
          simp only [hWords, weight_name, weight_operator] at hBudget
          simp only [hWords, tokensOf_name, tokensOf_operator, List.cons_append]
          rw [readArguments_name hValue arguments hNew _ _ _ _ (.closing ')' stop) (by omega)]
          refine (run_bind (eat_false rfl)).trans ?_
          rw [List.reverse_cons]
          rfl
      | cons next last =>
          have hWords : commaSeparated (Expr.namedGroups ((label, value) :: next :: last)) =
              .name label :: .operator "=" :: (value.words ++ .operator "," :: .space ::
                commaSeparated (Expr.namedGroups (next :: last))) := by
            rw [Expr.namedGroups, commaSeparated_cons _ (by simp [Expr.namedGroups])]
            rfl
          simp only [hWords, weight_name, weight_operator, weight_append, weight_space] at hBudget
          obtain ⟨least, rfl⟩ : ∃ least, fewer = least + 1 := ⟨fewer - 1, by omega⟩
          simp only [hWords, tokensOf_name, tokensOf_operator, tokensOf_append, tokensOf_space,
            List.append_assoc, List.cons_append]
          rw [readArguments_name hValue arguments hNew _ _ _ _ (.operator "," (by decide) _)
            (by omega)]
          refine (run_bind (eat_true rfl _)).trans ?_
          have hDoneNext : ∀ entry ∈ next :: last,
              ((label, value) :: done).any (·.1 == entry.1) = false := by
            intro entry hEntry
            rw [List.any_cons, hDoneOthers entry hEntry, Bool.or_false]
            refine beq_false_of_ne fun hEq => hDistinct.1 ?_
            exact List.mem_map.2 ⟨entry, hEntry, hEq.symm⟩
          refine (ih hOthers hDistinct.2 ((label, value) :: done) hDoneNext _ least
            (by omega)).trans ?_
          rw [List.reverse_cons, List.append_assoc]
          rfl

/-- All arguments, before the bracket that closes the call. -/
theorem readArguments_words {arguments : List Expr} {named : List (String × Expr)}
    (hArguments : ∀ argument ∈ arguments, IsRead 0 argument argument.words)
    (hNamed : ∀ entry ∈ named, IsRead 0 entry.2 entry.2.words)
    (hDistinct : (named.map Prod.fst).Nodup) (done : List Expr) (start stop budget : Nat)
    (rest : List Token) (hBudget : 16 * weight (commaSeparated
      (Expr.groups arguments ++ Expr.namedGroups named)) < budget) :
    readArguments budget done [] (tokensOf start (commaSeparated
        (Expr.groups arguments ++ Expr.namedGroups named)) ++
        (Word.closing ')').token stop :: rest) =
      .ok ((done.reverse ++ arguments, named), (Word.closing ')').token stop :: rest) := by
  obtain ⟨fewer, rfl⟩ : ∃ fewer, budget = fewer + 1 := ⟨budget - 1, by omega⟩
  induction arguments generalizing done start fewer with
  | nil =>
      rw [List.append_nil]
      exact readArguments_named hNamed hDistinct done [] (fun _ _ => rfl) _ _ _ rest hBudget
  | cons value others ih =>
      obtain ⟨hValue, hOthers⟩ := List.forall_mem_cons.1 hArguments
      have hGroups : Expr.groups (value :: others) ++ Expr.namedGroups named =
          value.words :: (Expr.groups others ++ Expr.namedGroups named) := by
        rw [Expr.groups, List.cons_append]
      rw [hGroups] at hBudget ⊢
      by_cases hLast : Expr.groups others ++ Expr.namedGroups named = []
      · have hNone : others = [] ∧ named = [] := by
          cases others <;> cases named <;> simp [Expr.groups, Expr.namedGroups] at hLast ⊢
        obtain ⟨rfl, rfl⟩ := hNone
        rw [hLast, commaSeparated] at hBudget ⊢
        rw [readArguments_value hValue done _ _ rfl (.closing ')' stop) (by omega)]
        refine (run_bind (eat_false rfl)).trans ?_
        rw [List.reverse_cons]
        rfl
      · rw [commaSeparated_cons _ hLast] at hBudget ⊢
        simp only [weight_operator, weight_append, weight_space] at hBudget
        obtain ⟨least, rfl⟩ : ∃ least, fewer = least + 1 := ⟨fewer - 1, by omega⟩
        simp only [tokensOf_operator, tokensOf_append, tokensOf_space, List.append_assoc,
          List.cons_append]
        rw [readArguments_value hValue done _ _ rfl (.operator "," (by decide) _) (by omega)]
        refine (run_bind (eat_true rfl _)).trans ?_
        refine (ih hOthers (value :: done) _ least (by omega)).trans ?_
        rw [List.reverse_cons, List.append_assoc]
        rfl

theorem IsRead.call {function : Expr} {words : List Word} (h : IsRead 9 function words)
    {arguments : List Expr} {named : List (String × Expr)}
    (hArguments : ∀ argument ∈ arguments, IsRead 0 argument argument.words)
    (hNamed : ∀ entry ∈ named, IsRead 0 entry.2 entry.2.words)
    (hDistinct : (named.map Prod.fst).Nodup) : IsRead 9 (.call function arguments named)
      (words ++ .opening '(' :: (commaSeparated (Expr.groups arguments ++ Expr.namedGroups named) ++
        [.closing ')'])) := by
  refine h.applied fun start stop rest budget hBudget => ?_
  rw [readTrailers]
  refine (run_bind (eat_false rfl)).trans ((run_bind (eat_true rfl _)).trans ?_)
  refine (run_bind (readArguments_words hArguments hNamed hDistinct [] _ stop budget rest
    (by omega))).trans ?_
  exact run_bind (close_token ')' stop rest)

/-! ### Subscripts -/

/-- A subscript starts with what the reader of tuples reads. -/
theorem readTuple_words {expr : Expr} {words : List Word} (h : IsRead 0 expr words)
    (start budget : Nat) {rest : List Token} (hEnds : Ends 0 rest)
    (hComma : rest.head?.any (·.isOperator ",") = false) (hBudget : 16 * weight words ≤ budget) :
    readTuple (budget + 1) (tokensOf start words ++ rest) = .ok (expr, rest) := by
  rw [readTuple]
  refine (run_bind (h.reads start rest budget hEnds hBudget)).trans ?_
  refine (run_bind (r := nextIs _) rfl).trans ?_
  rw [hComma]
  rfl

theorem run_map {α β : Type} {r : Reader α} {f : α → β} {value : α} {tokens middle : List Token}
    (h : r tokens = .ok (value, middle)) : (f <$> r) tokens = .ok (f value, middle) :=
  (run_bind h : (r >>= fun value => pure (f value)) tokens = _)

/-- Two ways to a value, and the same way on. -/
theorem run_ite {α β : Type} {c : Bool} {first second : Reader α} {f : α → Reader β} {value : α}
    {tokens middle : List Token}
    (h : (if c = true then first else second) tokens = .ok (value, middle)) :
    (if c = true then first >>= f else second >>= f) tokens = f value middle := by
  cases c <;> exact run_bind h

/-- A bound that may be absent: the test tells whether it is. -/
theorem run_bound {bound : Option Expr} {reader : Reader Expr} {test : Token → Bool} {start : Nat}
    {rest : List Token} (hNone : bound = none → rest.head?.any test = true)
    (hSome : ∀ item ∈ bound, (tokensOf start item.words ++ rest).head?.any test = false ∧
      reader (tokensOf start item.words ++ rest) = .ok (item, rest)) :
    (if (tokensOf start (Expr.boundWords bound) ++ rest).head?.any test = true then pure none
      else some <$> reader : Reader _) (tokensOf start (Expr.boundWords bound) ++ rest) =
        .ok (bound, rest) := by
  cases bound with
  | none =>
      rw [Expr.boundWords, tokensOf_nil, List.nil_append, hNone rfl]
      rfl
  | some item =>
      obtain ⟨hTest, hRead⟩ := hSome item rfl
      rw [Expr.boundWords, hTest]
      exact run_map hRead

theorem IsRead.index {value key : Expr} {words keyWords : List Word} (h : IsRead 9 value words)
    (hKey : IsRead 0 key keyWords) :
    IsRead 9 (.index value key) (words ++ .opening '[' :: (keyWords ++ [.closing ']'])) := by
  refine h.applied fun start stop rest budget hBudget => ?_
  obtain ⟨fewer, rfl⟩ : ∃ fewer, budget = fewer + 2 := ⟨budget - 2, by omega⟩
  have hSubscript (start : Nat) : readSubscript (fewer + 2) value (tokensOf start keyWords ++
      (Word.closing ']').token stop :: rest) =
        .ok (.index value key, (Word.closing ']').token stop :: rest) := by
    have hTuple := readTuple_words hKey start fewer
      (Ends.closing ']' stop : Ends 0 (_ :: rest)) rfl (by omega)
    rw [readSubscript]
    refine (run_bind (r := nextIs _) rfl).trans ?_
    rw [hKey.starts.head_isOperator _ _ (by decide) (by decide)]
    refine (run_ite (run_map hTuple)).trans ?_
    exact (run_bind (eat_false rfl)).trans rfl
  rw [readTrailers]
  refine (run_bind (eat_false rfl)).trans ((run_bind (eat_false rfl)).trans ?_)
  refine (run_bind (eat_true rfl _)).trans ((run_bind (hSubscript _)).trans ?_)
  exact run_bind (close_token ']' stop rest)

/-- A part of a value: each bound may be absent, and the second colon comes with the step. -/
theorem readSubscript_slice {value : Expr} {start stop step : Option Expr}
    (hStart : ∀ bound ∈ start, IsRead 0 bound bound.words)
    (hStop : ∀ bound ∈ stop, IsRead 0 bound bound.words)
    (hStep : ∀ bound ∈ step, IsRead 0 bound bound.words)
    (first second third colon last budget : Nat)
    (rest : List Token) (hBudget : 16 * (weight (Expr.boundWords start) +
      weight (Expr.boundWords stop) + weight (Expr.stepWords step)) ≤ budget) :
    readSubscript (budget + 2) value (tokensOf first (Expr.boundWords start) ++
        (Word.operator ":").token colon :: (tokensOf second (Expr.boundWords stop) ++
          (tokensOf third (Expr.stepWords step) ++ (Word.closing ']').token last :: rest))) =
      .ok (.slice value start stop step, (Word.closing ']').token last :: rest) := by
  rw [readSubscript]
  refine (run_bind (r := nextIs _) rfl).trans ?_
  refine (run_ite (run_bound (fun _ => rfl) fun bound hBound => ?_)).trans ?_
  · obtain rfl : start = some bound := hBound
    rw [Expr.boundWords] at hBudget
    exact ⟨(hStart bound rfl).starts.head_isOperator _ _ (by decide) (by decide),
      readTuple_words (hStart bound rfl) _ _ (.operator ":" (by decide) _) rfl (by omega)⟩
  refine (run_bind (eat_true rfl _)).trans ((run_bind (r := nextIs _) rfl).trans ?_)
  refine (run_ite (run_bound (fun _ => ?_) fun bound hBound => ?_)).trans ?_
  · cases step <;> rfl
  · obtain rfl : stop = some bound := hBound
    rw [Expr.boundWords] at hBudget
    have hBound := hStop bound rfl
    obtain ⟨t, others, hTokens, hBegins, -⟩ := hBound.starts second
    refine ⟨?_, hBound.reads _ _ (budget + 1) ?_ (by omega)⟩
    · rw [hTokens, List.cons_append, List.head?_cons, Option.any_some, hBegins.not_closes,
        hBegins.not_isOperator (by decide) (by decide)]
      rfl
    · cases step with
      | none => exact .closing ']' last
      | some step => exact .operator ":" (by decide) _
  cases step with
  | none => exact (run_bind (eat_false rfl)).trans rfl
  | some step =>
      rw [Expr.stepWords, weight_operator] at hBudget
      rw [Expr.stepWords, tokensOf_operator, List.cons_append]
      refine (run_bind (eat_true rfl _)).trans ((run_bind (r := nextIs _) rfl).trans ?_)
      rw [(hStep step rfl).starts.head_closes]
      exact (run_bind ((hStep step rfl).reads _ _ (budget + 1) (.closing ']' last)
        (by omega))).trans rfl

theorem IsRead.slice {value : Expr} {words : List Word} (h : IsRead 9 value words)
    {start stop step : Option Expr} (hStart : ∀ bound ∈ start, IsRead 0 bound bound.words)
    (hStop : ∀ bound ∈ stop, IsRead 0 bound bound.words)
    (hStep : ∀ bound ∈ step, IsRead 0 bound bound.words) :
    IsRead 9 (.slice value start stop step) (words ++ .opening '[' :: ((Expr.boundWords start ++
      .operator ":" :: (Expr.boundWords stop ++ Expr.stepWords step)) ++ [.closing ']'])) := by
  refine h.applied fun first last rest budget hBudget => ?_
  simp only [weight_append, weight_operator] at hBudget
  obtain ⟨fewer, rfl⟩ : ∃ fewer, budget = fewer + 2 := ⟨budget - 2, by omega⟩
  simp only [tokensOf_append, tokensOf_operator, List.append_assoc, List.cons_append]
  rw [readTrailers]
  refine (run_bind (eat_false rfl)).trans ((run_bind (eat_false rfl)).trans ?_)
  refine (run_bind (eat_true rfl _)).trans ?_
  refine (run_bind (readSubscript_slice hStart hStop hStep _ _ _ _ last fewer rest
    (by omega))).trans ?_
  exact run_bind (close_token ']' last rest)

/-! ## Expressions -/

namespace Expr

theorem level_le (expr : Expr) : expr.level ≤ 9 := by
  cases expr with
  | unary op operand => cases op <;> exact Nat.le_of_ble_eq_true rfl
  | binary op left right => cases op <;> exact Nat.le_of_ble_eq_true rfl
  | _ => exact Nat.le_of_ble_eq_true rfl

/-- The words of an expression at a place are read at the level of the place. -/
theorem isRead_wordsAt {expr : Expr} (h : IsRead expr.level expr expr.words) {place : Nat}
    (hPlace : place ≤ 9) : IsRead place expr (expr.wordsAt place) := by
  rw [wordsAt, bracketed]
  split
  · have hLoosest := h.climb (Nat.zero_le _) (Nat.le_succ_of_le expr.level_le)
    exact hLoosest.parenthesized.climb (Nat.le_succ_of_le hPlace) (Nat.le_refl 10)
  · exact h.climb (by omega) (Nat.le_succ_of_le expr.level_le)

/-- The words of an expression are read as the expression, at its level. -/
theorem IsWritable.isRead {expr : Expr} (h : expr.IsWritable) :
    IsRead expr.level expr expr.words := by
  have hWhole {expr : Expr} (h : IsRead expr.level expr expr.words) : IsRead 0 expr expr.words :=
    h.climb (Nat.zero_le _) (Nat.le_succ_of_le expr.level_le)
  have hAtom {expr : Expr} {words : List Word} (h : IsRead 10 expr words) : IsRead 9 expr words :=
    h.climb (by decide) (by decide)
  induction h with
  | literal h =>
      rw [words]
      exact hAtom (isRead_literal h)
  | name h =>
      rw [words]
      exact hAtom (isRead_name h)
  | list h ih =>
      rw [words]
      exact hAtom (isRead_list fun item hItem => hWhole (ih item hItem))
  | tuple h ih =>
      have hTuple := hAtom (isRead_tuple fun item hItem => hWhole (ih item hItem))
      simpa [words, level] using hTuple
  | dict hKeys hValues ihKeys ihValues =>
      rw [words]
      exact hAtom (isRead_dict (fun entry hEntry => hWhole (ihKeys entry hEntry))
        fun entry hEntry => hWhole (ihValues entry hEntry))
  | @«attribute» value label h hLabel ih =>
      rw [words]
      exact (isRead_wordsAt ih (by decide)).attribute label
  | index h hKey ih ihKey =>
      have hIndex := (isRead_wordsAt ih (by decide)).index (hWhole ihKey)
      simpa [words, wordsAt, level] using hIndex
  | slice h hStart hStop hStep ih ihStart ihStop ihStep =>
      have hSlice := (isRead_wordsAt ih (by decide)).slice
        (fun bound hBound => hWhole (ihStart bound hBound))
        (fun bound hBound => hWhole (ihStop bound hBound))
        fun bound hBound => hWhole (ihStep bound hBound)
      simpa [words, wordsAt, level] using hSlice
  | call h hArguments hNamed hLabels hDistinct ih ihArguments ihNamed =>
      have hCall := (isRead_wordsAt ih (by decide)).call
        (fun argument hArgument => hWhole (ihArguments argument hArgument))
        (fun entry hEntry => hWhole (ihNamed entry hEntry)) hDistinct
      simpa [words, wordsAt, level] using hCall
  | @unary op operand h ih =>
      cases op with
      | negative =>
          rw [words]
          exact (isRead_wordsAt ih (by decide)).sign (Or.inl ⟨rfl, rfl⟩)
      | positive =>
          rw [words]
          exact (isRead_wordsAt ih (by decide)).sign (Or.inr ⟨rfl, rfl⟩)
      | not =>
          rw [words]
          exact (isRead_wordsAt ih (by decide)).not
  | @binary op left right hLeft hRight ihLeft ihRight =>
      rw [words]
      cases op with
      | add | subtract =>
          exact (isRead_wordsAt ihLeft (by decide)).sum (by decide)
            (isRead_wordsAt ihRight (by decide))
      | multiply | divide | floorDivide | modulo =>
          exact (isRead_wordsAt ihLeft (by decide)).product (by decide)
            (isRead_wordsAt ihRight (by decide))
      | power =>
          exact (isRead_wordsAt ihLeft (by decide)).power (isRead_wordsAt ihRight (by decide))
  | compare hLeft hLinks hSome ihLeft ihLinks =>
      rw [words]
      exact (isRead_wordsAt ihLeft (by decide)).compare
        (fun link hLink => isRead_wordsAt (ihLinks link hLink) (by decide)) hSome
  | and hLeft hRight ihLeft ihRight =>
      rw [words]
      exact (isRead_wordsAt ihLeft (by decide)).and (isRead_wordsAt ihRight (by decide))
  | or hLeft hRight ihLeft ihRight =>
      rw [words]
      exact (isRead_wordsAt ihLeft (by decide)).or (isRead_wordsAt ihRight (by decide))
  | conditional hTest hBody hOtherwise ihTest ihBody ihOtherwise =>
      have hChoice := (isRead_wordsAt ihTest (by decide)).conditional
        (isRead_wordsAt ihBody (by decide)) (hWhole ihOtherwise)
      simpa [words, wordsAt, level] using hChoice

/-- The tokens of a written expression are read as the expression, and none is left. -/
theorem readTuple_write {expr : Expr} (h : expr.IsWritable) :
    readTuple (budgetFor (meaningful (tokensFrom 0 expr.words)).length)
      (meaningful (tokensFrom 0 expr.words)) = .ok (expr, []) := by
  have hWhole : IsRead 0 expr expr.words :=
    h.isRead.climb (Nat.zero_le _) (Nat.le_succ_of_le expr.level_le)
  have hBudget : budgetFor (meaningful (tokensFrom 0 expr.words)).length =
      16 * weight expr.words + 15 + 1 := rfl
  have hRead := readTuple_words hWhole 0 (16 * weight expr.words + 15) (Ends.nil 0) rfl (by omega)
  rw [List.append_nil] at hRead
  rw [hBudget]
  exact hRead

end Expr

end Stencil
