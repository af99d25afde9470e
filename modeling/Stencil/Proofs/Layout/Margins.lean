import Stencil.Proofs.Layout.Blocks

/-!
# Margins

Where a line of a code block may start is told by the lines before it. It stands in one of the
blocks that are open there, or it is the first line of the body of a header right before it. Any
other line is misplaced, and the block is refused there, unless something before that line is
refused.

The readers keep no list of the open blocks. What holds of them is that a block stops at the first
line that is indented less than it is, and that the statement around it refuses the line unless it
is indented at most as much as its header is.

## Main results

* `Follows.of_budget`: what each reader makes of the lines up to a misplaced one.
* `offside_rule`: what is compiled, and what is refused.
-/

namespace Stencil.CodeBlock

open Stencil.Text

/-! ## Where a line may start -/

/-- The words that a header starts with. -/
def headerWords : List String := ["if", "elif", "else", "for", "while", "def"]

/-- Is the line a header whose body stands below it? -/
def LogicalLine.opensBlock (line : LogicalLine) : Bool :=
  headerWords.any line.startsWith &&
    match splitStatement line with
    | .ok (_, []) => true
    | _ => false

/-- What the lines before a line say about it: how the open blocks are indented, the innermost one
first, and whether the last line opens another one. -/
structure Margin where
  levels : List Nat
  opened : Bool
  deriving DecidableEq, Repr

namespace Margin

/-- Before the first line. -/
def start : Margin := ⟨[0], false⟩

/-- How the innermost block is indented. -/
def innermost (m : Margin) : Nat := m.levels.headD 0

/-- May a line that is indented so stand here? -/
def Allows (m : Margin) (indent : Nat) : Prop :=
  indent ∈ m.levels ∨ m.opened = true ∧ m.innermost < indent

instance (m : Margin) (indent : Nat) : Decidable (m.Allows indent) :=
  inferInstanceAs (Decidable (_ ∨ _ ∧ _))

/-- What is said of a line that may not stand here. -/
def complaint (m : Margin) (indent : Nat) : LayoutCause :=
  if m.innermost < indent then .unexpectedIndent else .looseUnindent

/-- The margin behind a line. -/
def step (m : Margin) (line : LogicalLine) : Margin :=
  let around := m.levels.dropWhile (line.indent < ·)
  ⟨if around.head? = some line.indent then around else line.indent :: around, line.opensBlock⟩

/-- The margin behind lines. -/
def behind (m : Margin) (lines : List LogicalLine) : Margin := lines.foldl step m

end Margin

variable {m : Margin} {line : LogicalLine} {rest : List LogicalLine} {indent deeper : Nat}
  {outer : List Nat} {opened : Bool}

theorem Margin.step_same (h : line.indent = indent) :
    Margin.step ⟨indent :: outer, opened⟩ line = ⟨indent :: outer, line.opensBlock⟩ := by
  subst h
  have hDrop : (line.indent :: outer).dropWhile (line.indent < ·) = line.indent :: outer :=
    List.dropWhile_cons_of_neg (by simp)
  simp only [Margin.step, hDrop, List.head?_cons, if_true]

theorem Margin.step_deeper (h : indent < line.indent) :
    Margin.step ⟨indent :: outer, opened⟩ line =
      ⟨line.indent :: indent :: outer, line.opensBlock⟩ := by
  have hDrop : (indent :: outer).dropWhile (line.indent < ·) = indent :: outer :=
    List.dropWhile_cons_of_neg (by simp; omega)
  have hOther : some indent ≠ some line.indent := fun hSame => by
    cases hSame
    omega
  simp only [Margin.step, hDrop, List.head?_cons, if_neg hOther]

theorem Margin.step_pop (h : line.indent < deeper) :
    Margin.step ⟨deeper :: outer, opened⟩ line = Margin.step ⟨outer, opened⟩ line := by
  have hDrop : (deeper :: outer).dropWhile (line.indent < ·) = outer.dropWhile (line.indent < ·) :=
    List.dropWhile_cons_of_pos (by simpa using h)
  simp only [Margin.step, hDrop]

/-! ## A line that is looked for -/

/-- A line that is looked for: the lines from it on, the numbers of the lines before it, and what is
to be said about it. There may be none. -/
structure Sought where
  tail : List LogicalLine
  known : List Nat
  cause : LayoutCause

namespace Sought

variable {s : Sought}

/-- The line that is looked for is among the lines to come, and may not stand where it does. -/
def Ahead (s : Sought) (m : Margin) (rest : List LogicalLine) : Prop :=
  ∃ before, rest = before ++ s.tail ∧ (∀ line ∈ before, line.number ∈ s.known) ∧
    ∀ bad ∈ s.tail.head?,
      ¬ (m.behind before).Allows bad.indent ∧ (m.behind before).complaint bad.indent = s.cause

/-- The fault is the one that is due, or it is on a line before. -/
def Blames (s : Sought) (fault : CompileFault) : Prop :=
  fault.line ∈ s.known ∨ ∃ bad ∈ s.tail.head?, fault = .layout ⟨bad.number, s.cause⟩

/-- What is known when the next line is looked at: it is the one that is looked for, or it is before
that one. -/
theorem Ahead.cases (h : s.Ahead m (line :: rest)) :
    (s.tail = line :: rest ∧ ¬ m.Allows line.indent ∧ m.complaint line.indent = s.cause) ∨
      (line.number ∈ s.known ∧ s.Ahead (m.step line) rest) := by
  obtain ⟨before, hRest, hKnown, hBad⟩ := h
  cases before with
  | nil =>
      have hTail : s.tail = line :: rest := hRest.symm
      left
      rw [hTail] at hBad
      exact ⟨hTail, hBad line rfl⟩
  | cons first before =>
      obtain ⟨rfl, hOthers⟩ := List.cons.inj hRest
      obtain ⟨hFirst, hKnown⟩ := List.forall_mem_cons.1 hKnown
      exact Or.inr ⟨hFirst, before, hOthers, hKnown, hBad⟩

theorem Ahead.here (hTail : s.tail = line :: rest) (hNot : ¬ m.Allows line.indent)
    (hCause : m.complaint line.indent = s.cause) : s.Ahead m (line :: rest) := by
  refine ⟨[], hTail.symm, by simp, fun bad hBad => ?_⟩
  rw [hTail] at hBad
  cases hBad
  exact ⟨hNot, hCause⟩

theorem Ahead.later (hLine : line.number ∈ s.known) (h : s.Ahead (m.step line) rest) :
    s.Ahead m (line :: rest) := by
  obtain ⟨before, rfl, hKnown, hBad⟩ := h
  exact ⟨line :: before, rfl, List.forall_mem_cons.2 ⟨hLine, hKnown⟩, hBad⟩

/-- A line that is indented like the innermost block stands in it. -/
theorem Ahead.take (h : s.Ahead ⟨indent :: outer, opened⟩ (line :: rest))
    (hIndent : line.indent = indent) :
    line.number ∈ s.known ∧ s.Ahead ⟨line.indent :: outer, line.opensBlock⟩ rest := by
  rcases h.cases with ⟨-, hNot, -⟩ | ⟨hKnown, hRest⟩
  · exact absurd (Or.inl (hIndent ▸ List.mem_cons_self)) hNot
  · rw [Margin.step_same hIndent] at hRest
    exact ⟨hKnown, hIndent ▸ hRest⟩

/-- The first line behind a header may stand deeper. -/
theorem Ahead.enter (h : s.Ahead ⟨indent :: outer, true⟩ (line :: rest))
    (hDeeper : indent < line.indent) :
    s.Ahead ⟨line.indent :: indent :: outer, false⟩ (line :: rest) := by
  rcases h.cases with ⟨-, hNot, -⟩ | ⟨hKnown, hRest⟩
  · exact absurd (Or.inr ⟨rfl, hDeeper⟩) hNot
  · rw [Margin.step_deeper hDeeper] at hRest
    exact .later hKnown ((Margin.step_same rfl).symm ▸ hRest)

/-- Behind a body the line stands in a block around it. -/
theorem Ahead.leave (h : s.Ahead ⟨deeper :: indent :: outer, false⟩ rest)
    (hDeeper : indent < deeper) (hNext : ∀ next ∈ rest.head?, next.indent ≤ indent) :
    s.Ahead ⟨indent :: outer, false⟩ rest := by
  cases rest with
  | nil =>
      obtain ⟨before, hRest, hKnown, -⟩ := h
      obtain ⟨rfl, hTail⟩ := List.append_eq_nil_iff.1 hRest.symm
      exact ⟨[], hTail.symm, hKnown, by simp [hTail]⟩
  | cons next others =>
      have hLe := hNext next rfl
      rcases h.cases with ⟨hTail, hNot, hCause⟩ | ⟨hKnown, hRest⟩
      · refine .here hTail ?_ ?_
        · rintro (hMem | ⟨hOpen, -⟩)
          · exact hNot (Or.inl (List.mem_cons_of_mem _ hMem))
          · cases hOpen
        · rw [← hCause]
          have hOutside : ¬ deeper < next.indent := by omega
          have hAround : ¬ indent < next.indent := by omega
          exact (if_neg hAround).trans (if_neg hOutside).symm
      · rw [Margin.step_pop (by omega)] at hRest
        exact .later hKnown hRest

/-- A line that is indented deeper than the block, with no header before it. -/
theorem Ahead.blames_deeper (h : s.Ahead ⟨indent :: outer, false⟩ (line :: rest))
    (hDeeper : indent < line.indent) : s.Blames (.layout ⟨line.number, .unexpectedIndent⟩) := by
  rcases h.cases with ⟨hTail, -, hCause⟩ | ⟨hKnown, -⟩
  · refine Or.inr ⟨line, hTail ▸ rfl, ?_⟩
    rw [← hCause]
    exact congrArg _ (congrArg _ (if_pos hDeeper).symm)
  · exact Or.inl hKnown

/-- A line between the header and its body. -/
theorem Ahead.blames_loose (h : s.Ahead ⟨deeper :: outer, false⟩ (line :: rest))
    (hLess : line.indent < deeper) : s.Blames (.layout ⟨line.number, .looseUnindent⟩) := by
  rcases h.cases with ⟨hTail, -, hCause⟩ | ⟨hKnown, -⟩
  · refine Or.inr ⟨line, hTail ▸ rfl, ?_⟩
    rw [← hCause]
    exact congrArg _ (congrArg _ (if_neg (Nat.lt_asymm hLess)).symm)
  · exact Or.inl hKnown

/-! ## Outcomes -/

/-- What a reader comes to: a fault, or lines that are left for which something holds. -/
def Outcome {α : Type} (s : Sought) (rest : List LogicalLine) (holds : List LogicalLine → Prop) :
    Except CompileFault (α × List LogicalLine) → Prop
  | .error fault => s.Blames fault
  | .ok (_, left) => left <:+ rest ∧ holds left

variable {α β : Type} {holds after : List LogicalLine → Prop}

theorem Outcome.andThen {result : Except CompileFault (α × List LogicalLine)}
    {next : α × List LogicalLine → Except CompileFault (β × List LogicalLine)}
    (h : s.Outcome rest holds result)
    (hNext : ∀ value left, left <:+ rest → holds left → s.Outcome left after (next (value, left))) :
    s.Outcome rest after (result >>= next) := by
  cases result with
  | error fault => exact h
  | ok pair =>
      obtain ⟨value, left⟩ := pair
      have hBoth := hNext value left h.1 h.2
      show s.Outcome rest after (next (value, left))
      cases hThen : next (value, left) with
      | error fault =>
          rw [hThen] at hBoth
          exact hBoth
      | ok last =>
          rw [hThen] at hBoth
          exact ⟨hBoth.1.trans h.1, hBoth.2⟩

theorem Outcome.cons {result : Except CompileFault (α × List LogicalLine)}
    (h : s.Outcome rest holds result) : s.Outcome (line :: rest) holds result := by
  cases result with
  | error fault => exact h
  | ok pair => exact ⟨h.1.trans (List.suffix_cons line rest), h.2⟩

theorem Outcome.bind {reader : Reader α} {next : α → Reader β}
    (h : s.Outcome rest holds (reader rest))
    (hNext : ∀ value left, left <:+ rest → holds left → s.Outcome left after (next value left)) :
    s.Outcome rest after ((reader >>= next) rest) :=
  h.andThen hNext

theorem Outcome.pure {value : α} (h : holds rest) :
    s.Outcome rest holds ((pure value : Reader α) rest) :=
  ⟨List.suffix_refl rest, h⟩

theorem Outcome.lift {result : Except CompileFault α} (h : holds rest)
    (hFault : ∀ fault, result = .error fault → fault.line ∈ s.known) :
    s.Outcome rest holds ((liftM result : Reader α) rest) := by
  cases result with
  | error fault => exact Or.inl (hFault fault rfl)
  | ok value => exact ⟨List.suffix_refl rest, h⟩

theorem Outcome.onLine {result : Except SyntaxFault α} {number : Nat} (h : holds rest)
    (hNumber : number ∈ s.known) :
    s.Outcome rest holds ((liftM (onLine number result) : Reader α) rest) := by
  refine .lift h fun fault hFault => ?_
  cases result with
  | error cause =>
      cases hFault
      exact hNumber
  | ok value => cases hFault

end Sought

/-! ## Budgets -/

theorem extent_append (lines more : List LogicalLine) :
    extent (lines ++ more) = extent lines + extent more := by
  induction lines with
  | nil => exact (Nat.zero_add _).symm
  | cons line rest ih =>
      rw [List.cons_append, extent, extent, ih]
      omega

theorem extent_le_of_suffix {left : List LogicalLine} (h : left <:+ rest) :
    extent left ≤ extent rest := by
  obtain ⟨taken, rfl⟩ := h
  rw [extent_append]
  exact Nat.le_add_left ..

/-- A body that stands behind its header is shorter than the line. -/
theorem length_inline_lt {header inline : List Char}
    (h : splitStatement line = .ok (header, inline)) (hInline : inline ≠ []) :
    inline.length < line.text.length := by
  unfold splitStatement at h
  split at h
  · rename_i before remainder hSplit
    cases h
    have hTrim := length_trim_le remainder
    have hPos := List.length_pos_iff.2 hInline
    unfold splitHeader at hSplit
    simp only at hSplit
    split at hSplit
    · cases hSplit
      rw [List.length_drop] at hTrim
      omega
    · cases hSplit
    · split at hSplit <;> cases hSplit
  · cases h
  · cases h

/-! ## Readers -/

/-- A line that starts with no word of a header opens no block. -/
theorem opensBlock_of_any (h : headerWords.any line.startsWith = false) :
    line.opensBlock = false := by
  rw [LogicalLine.opensBlock, h, Bool.false_and]

/-- The word decides: a line starts with one word only. -/
theorem startsWith_eq {word : List Char} (h : line.word? = some word) (other : String) :
    line.startsWith other = (word == other.toList) := by
  rw [LogicalLine.startsWith, h]
  rfl

theorem opensBlock_of_flow {keyword : FlowKeyword}
    (h : line.word?.bind FlowKeyword.ofWord? = some keyword) : line.opensBlock = false := by
  obtain ⟨word, hWord, hKeyword⟩ := Option.bind_eq_some_iff.1 h
  have hSame : keyword.word.toList = word := by
    have hFind := List.find?_some hKeyword
    exact beq_iff_eq.1 hFind
  refine opensBlock_of_any ?_
  subst hSame
  simp only [headerWords, List.any_cons, List.any_nil, startsWith_eq hWord]
  cases keyword <;> decide

theorem line_of_flowInstr {within : Surroundings} {keyword : FlowKeyword} {code : List Char}
    {number : Nat} {fault : CompileFault}
    (h : flowInstr within keyword code number = .error fault) : fault.line = number := by
  cases keyword with
  | pass => cases h
  | breakLoop =>
      simp only [flowInstr] at h
      split at h <;> cases h
      rfl
  | continueLoop =>
      simp only [flowInstr] at h
      split at h <;> cases h
      rfl
  | returnValue =>
      rw [flowInstr] at h
      cases hRead : Expr.readReturn code with
      | error cause =>
          rw [hRead] at h
          cases h
          rfl
      | ok value =>
          rw [hRead] at h
          replace h : (if _ then _ else _) = Except.error fault := h
          split at h <;> cases h
          rfl

/-- What each reader makes of the lines that come, with a budget that is enough. -/
structure Follows (budget : Nat) : Prop where
  block : ∀ {s : Sought} {within : Surroundings} {indent : Nat} {outer : List Nat}
    {rest : List LogicalLine}, 4 * extent rest < budget → s.Ahead ⟨indent :: outer, false⟩ rest →
    s.Outcome rest (fun left => s.Ahead ⟨indent :: outer, false⟩ left ∧
      ∀ next ∈ left.head?, next.indent < indent) (readBlock within indent budget rest)
  statement : ∀ {s : Sought} {within : Surroundings} {line : LogicalLine} {outer : List Nat}
    {rest : List LogicalLine}, line.number ∈ s.known → 4 * extent (line :: rest) ≤ budget →
    s.Ahead ⟨line.indent :: outer, line.opensBlock⟩ rest →
    s.Outcome rest (s.Ahead ⟨line.indent :: outer, false⟩) (readStatement within line budget rest)
  compound : ∀ {s : Sought} {within : Surroundings} {line : LogicalLine} {outer : List Nat}
    {rest : List LogicalLine}, headerWords.any line.startsWith = true → line.number ∈ s.known →
    4 * extent (line :: rest) ≤ budget + 2 → s.Ahead ⟨line.indent :: outer, line.opensBlock⟩ rest →
    s.Outcome rest (s.Ahead ⟨line.indent :: outer, false⟩) (readCompound within line budget rest)
  branches : ∀ {s : Sought} {within : Surroundings} {line : LogicalLine} {word : String}
    {outer : List Nat} {rest : List LogicalLine}, headerWords.any line.startsWith = true →
    line.number ∈ s.known → 4 * extent (line :: rest) ≤ budget + 1 →
    s.Ahead ⟨line.indent :: outer, line.opensBlock⟩ rest →
    s.Outcome rest (s.Ahead ⟨line.indent :: outer, false⟩)
      (readBranches within line word budget rest)
  otherwise : ∀ {s : Sought} {within : Surroundings} {indent : Nat} {outer : List Nat}
    {rest : List LogicalLine}, 4 * extent rest ≤ budget + 1 → 1 ≤ budget →
    s.Ahead ⟨indent :: outer, false⟩ rest →
    s.Outcome rest (s.Ahead ⟨indent :: outer, false⟩) (readElse within indent budget rest)

section Step

variable {budget : Nat} {s : Sought} {within : Surroundings}

theorem Follows.readBlock (h : Follows budget) (hBudget : 4 * extent rest < budget + 1)
    (hAhead : s.Ahead ⟨indent :: outer, false⟩ rest) :
    s.Outcome rest (fun left => s.Ahead ⟨indent :: outer, false⟩ left ∧
      ∀ next ∈ left.head?, next.indent < indent)
      (CodeBlock.readBlock within indent (budget + 1) rest) := by
  cases rest with
  | nil => exact ⟨List.suffix_refl [], hAhead, by simp⟩
  | cons line others =>
      rw [CodeBlock.readBlock]
      show s.Outcome _ _ (if line.indent < indent then _ else _)
      split
      · rename_i hLess
        refine ⟨List.suffix_refl _, hAhead, ?_⟩
        rintro _ ⟨⟩
        exact hLess
      split
      · rename_i hDeeper
        exact hAhead.blames_deeper hDeeper
      have hIndent : line.indent = indent := by omega
      obtain ⟨hKnown, hTaken⟩ := hAhead.take hIndent
      have hCost : 4 * extent (line :: others) ≤ budget := by omega
      refine .cons ((h.statement hKnown hCost hTaken).andThen fun first left hLeft hAfter => ?_)
      have hLess := extent_le_of_suffix hLeft
      rw [extent] at hCost
      rw [hIndent] at hAfter
      exact (h.block (by omega) hAfter).andThen fun next left _ hEnd => ⟨List.suffix_refl _, hEnd⟩

/-- The body of a compound statement stands behind the header or below it. -/
theorem Follows.readCompound (h : Follows budget) (hWord : headerWords.any line.startsWith = true)
    (hKnown : line.number ∈ s.known) (hBudget : 4 * extent (line :: rest) ≤ budget + 1 + 2)
    (hAhead : s.Ahead ⟨line.indent :: outer, line.opensBlock⟩ rest) :
    s.Outcome rest (s.Ahead ⟨line.indent :: outer, false⟩)
      (CodeBlock.readCompound within line (budget + 1) rest) := by
  rw [extent] at hBudget
  rw [CodeBlock.readCompound]
  cases hSplit : splitStatement line with
  | error fault =>
      unfold splitStatement at hSplit
      left
      split at hSplit <;> cases hSplit
      · exact hKnown
      · exact hKnown
  | ok pair =>
      obtain ⟨header, inline⟩ := pair
      have hOpens : line.opensBlock = inline.isEmpty := by
        rw [LogicalLine.opensBlock, hWord, hSplit, Bool.true_and]
        cases inline <;> rfl
      rw [hOpens] at hAhead
      by_cases hInline : inline = []
      · subst hInline
        cases rest with
        | nil => exact Or.inl hKnown
        | cons first others =>
            show s.Outcome _ _ (if first.indent ≤ line.indent then _ else _)
            split
            · exact Or.inl hKnown
            rename_i hDeeper
            refine (h.block (by omega) (hAhead.enter (by omega))).andThen
              fun body left hLeft hEnd => ?_
            obtain ⟨hAfter, hLess⟩ := hEnd
            cases left with
            | nil => exact ⟨List.suffix_refl _, hAfter.leave (by omega) (by simp)⟩
            | cons next more =>
                show s.Outcome _ _ (if line.indent < next.indent then _ else _)
                split
                · exact hAfter.blames_loose (hLess next rfl)
                · rename_i hOutside
                  refine ⟨List.suffix_refl _, hAfter.leave (by omega) ?_⟩
                  rintro _ ⟨⟩
                  omega
      · have hShort := length_inline_lt hSplit hInline
        have hSome : inline.isEmpty = false := List.isEmpty_eq_false_iff.2 hInline
        rw [hSome] at hAhead
        -- Nothing is looked for in the body, so a fault of it is on this line.
        have hInside : Sought.Ahead ⟨[], s.known, s.cause⟩ ⟨[0], false⟩
            [⟨0, inline, line.number⟩] := ⟨[_], rfl, by simpa using hKnown, by simp⟩
        have hCost : 4 * extent [⟨0, inline, line.number⟩] < budget := by
          simp only [extent]
          omega
        have hBody : Sought.Outcome _ _ _
            (CodeBlock.readBlock within 0 budget [⟨0, inline, line.number⟩]) :=
          h.block hCost hInside
        show s.Outcome rest _ (if (!inline.isEmpty) = true then _ else _)
        rw [hSome]
        show s.Outcome rest _ (CodeBlock.readBlock within 0 budget [⟨0, inline, line.number⟩] >>= _)
        cases hRead : CodeBlock.readBlock within 0 budget [⟨0, inline, line.number⟩] with
        | error fault =>
            rw [hRead] at hBody
            rcases hBody with hLine | ⟨bad, hBad, -⟩
            · exact Or.inl hLine
            · cases hBad
        | ok pair => exact ⟨List.suffix_refl rest, hAhead⟩

/-- A clause that goes on with the statement is the first of the lines to come, and stands in the
block of the statement. -/
theorem of_nextStarts (word : String) {α : Type} {next : Bool → Reader α}
    {holds : Except CompileFault (α × List LogicalLine) → Prop} (hOther : holds (next false rest))
    (hWord : ∀ line others, rest = line :: others → line.indent = indent →
      line.startsWith word = true → holds (next true rest)) :
    holds ((nextStarts indent word >>= next) rest) := by
  show holds
    (next (rest.head?.any fun line => line.indent == indent && line.startsWith word) rest)
  cases rest with
  | nil => exact hOther
  | cons line others =>
      rw [List.head?_cons, Option.any_some]
      cases hNext : line.indent == indent && line.startsWith word with
      | false => exact hOther
      | true =>
          obtain ⟨hIndent, hStarts⟩ := Bool.and_eq_true_iff.1 hNext
          exact hWord line others rfl (beq_iff_eq.1 hIndent) hStarts

theorem Follows.readElse (h : Follows budget) (hBudget : 4 * extent rest ≤ budget + 1 + 1)
    (hAhead : s.Ahead ⟨indent :: outer, false⟩ rest) :
    s.Outcome rest (s.Ahead ⟨indent :: outer, false⟩)
      (CodeBlock.readElse within indent (budget + 1) rest) := by
  rw [CodeBlock.readElse]
  refine of_nextStarts "else" (.pure hAhead) fun line others hRest hIndent hStarts => ?_
  subst hRest hIndent
  obtain ⟨hKnown, hTaken⟩ := hAhead.take rfl
  have hHeader : headerWords.any line.startsWith = true :=
    List.any_eq_true.2 ⟨"else", by decide, hStarts⟩
  refine .cons ((h.compound hHeader hKnown (by omega) hTaken).andThen fun pair left _ hAfter => ?_)
  show s.Outcome left _ (if _ then _ else _)
  split
  · exact ⟨List.suffix_refl _, hAfter⟩
  · exact Or.inl hKnown

theorem Follows.readBranches (h : Follows budget) {word : String}
    (hWord : headerWords.any line.startsWith = true) (hKnown : line.number ∈ s.known)
    (hBudget : 4 * extent (line :: rest) ≤ budget + 1 + 1)
    (hAhead : s.Ahead ⟨line.indent :: outer, line.opensBlock⟩ rest) :
    s.Outcome rest (s.Ahead ⟨line.indent :: outer, false⟩)
      (CodeBlock.readBranches within line word (budget + 1) rest) := by
  rw [CodeBlock.readBranches]
  refine (h.compound hWord hKnown (by omega) hAhead).bind fun pair left hLeft hAfter => ?_
  have hLess := extent_le_of_suffix hLeft
  rw [extent] at hBudget
  refine (Sought.Outcome.onLine hAfter hKnown).bind fun test left' hLeft' hAfter => ?_
  have hLess' := extent_le_of_suffix hLeft'
  refine of_nextStarts "elif" ?_ fun next others hRest hIndent hStarts => ?_
  · exact (h.otherwise (by omega) (by omega) hAfter).bind fun otherwise left _ hEnd => .pure hEnd
  · subst hRest
    obtain ⟨hNext, hTaken⟩ := hAfter.take hIndent
    have hHeader : headerWords.any next.startsWith = true :=
      List.any_eq_true.2 ⟨"elif", by decide, hStarts⟩
    refine .cons ((h.branches hHeader hNext (by omega) hTaken).andThen fun others left _ hEnd => ?_)
    exact ⟨List.suffix_refl _, hIndent ▸ hEnd⟩

/-- A loop: its body, and the `else` behind it. -/
theorem Follows.readLoop (h : Follows budget) (hWord : headerWords.any line.startsWith = true)
    (hKnown : line.number ∈ s.known) (hBudget : 4 * extent (line :: rest) ≤ budget + 1)
    (hAhead : s.Ahead ⟨line.indent :: outer, line.opensBlock⟩ rest) {around : Surroundings}
    {α : Type} {next : (List Char × List Instr) → Option (List Instr) → Reader α}
    (hNext : ∀ pair otherwise left, s.Ahead ⟨line.indent :: outer, false⟩ left →
      s.Outcome left (s.Ahead ⟨line.indent :: outer, false⟩) (next pair otherwise left)) :
    s.Outcome rest (s.Ahead ⟨line.indent :: outer, false⟩) ((do
      let pair ← CodeBlock.readCompound within line budget
      let otherwise ← CodeBlock.readElse around line.indent budget
      next pair otherwise) rest) := by
  refine (h.compound hWord hKnown (by omega) hAhead).bind fun pair left hLeft hAfter => ?_
  have hLess := extent_le_of_suffix hLeft
  rw [extent] at hBudget
  exact (h.otherwise (by omega) (by omega) hAfter).bind fun otherwise left _ hEnd =>
    hNext pair otherwise left hEnd

theorem Follows.readStatement (h : Follows budget) (hKnown : line.number ∈ s.known)
    (hBudget : 4 * extent (line :: rest) ≤ budget + 1)
    (hAhead : s.Ahead ⟨line.indent :: outer, line.opensBlock⟩ rest) :
    s.Outcome rest (s.Ahead ⟨line.indent :: outer, false⟩)
      (CodeBlock.readStatement within line (budget + 1) rest) := by
  rw [CodeBlock.readStatement]
  cases hFlow : line.word?.bind FlowKeyword.ofWord? with
  | some keyword =>
      rw [opensBlock_of_flow hFlow] at hAhead
      refine Sought.Outcome.bind (.lift hAhead fun fault hFault => ?_)
        fun instr left _ hEnd => .pure hEnd
      rw [line_of_flowInstr hFault]
      exact hKnown
  | none =>
      have hHeader {word : String} (hStarts : line.startsWith word = true)
          (hWord : word ∈ headerWords) : headerWords.any line.startsWith = true :=
        List.any_eq_true.2 ⟨word, hWord, hStarts⟩
      dsimp only
      split
      · rename_i hIf
        exact (h.branches (hHeader hIf (by decide)) hKnown (by omega) hAhead).bind
          fun pair left _ hEnd => .pure hEnd
      split
      · rename_i hFor
        exact h.readLoop (hHeader hFor (by decide)) hKnown hBudget hAhead
          fun pair otherwise left hEnd =>
          (Sought.Outcome.onLine hEnd hKnown).bind fun read left _ hEnd => .pure hEnd
      split
      · rename_i hWhile
        exact h.readLoop (hHeader hWhile (by decide)) hKnown hBudget hAhead
          fun pair otherwise left hEnd =>
          (Sought.Outcome.onLine hEnd hKnown).bind fun read left _ hEnd => .pure hEnd
      split
      · rename_i hDef
        refine (h.compound (hHeader hDef (by decide)) hKnown (by omega) hAhead).bind
          fun pair left _ hEnd => ?_
        exact (Sought.Outcome.onLine hEnd hKnown).bind fun read left _ hEnd => .pure hEnd
      split
      · exact Or.inl hKnown
      · rename_i hIf hFor hWhile hDef hClause
        rw [Bool.or_eq_true, not_or] at hClause
        have hNone : headerWords.any line.startsWith = false := by
          simp [headerWords, hIf, hFor, hWhile, hDef, hClause]
        rw [opensBlock_of_any hNone] at hAhead
        exact (Sought.Outcome.onLine hAhead hKnown).bind fun read left _ hEnd => .pure hEnd

end Step

theorem Follows.of_budget (budget : Nat) : Follows budget := by
  induction budget with
  | zero =>
      -- A header takes a character more than nothing, so only a block can be empty.
      constructor
      · intro s within indent outer rest hBudget
        omega
      · intro s within line outer rest hKnown hBudget
        rw [extent] at hBudget
        omega
      · intro s within line outer rest hWord hKnown hBudget
        rw [extent] at hBudget
        omega
      · intro s within line word outer rest hWord hKnown hBudget
        rw [extent] at hBudget
        omega
      · intro s within indent outer rest hBudget hPos
        omega
  | succ budget ih =>
      exact ⟨ih.readBlock, ih.readStatement, ih.readCompound, ih.readBranches,
        fun hBudget _ => ih.readElse hBudget⟩

/-! ## Whole texts -/

/-- The line is indented deeper than the block that it stands in, with no header before it, or less
than that block and not as much as a block around it. -/
def Misplaced (before : List LogicalLine) (line : LogicalLine) : Prop :=
  ¬ (Margin.start.behind before).Allows line.indent

instance (before : List LogicalLine) (line : LogicalLine) : Decidable (Misplaced before line) :=
  inferInstanceAs (Decidable (¬ _))

/-- A text with a misplaced line is refused there, or because of a line before. -/
theorem compile_misplaced {within : Surroundings} {text : List Char} {number : Nat}
    {before tail : List LogicalLine}
    (hLines : logicalLines text number = .ok (before ++ line :: tail))
    (hLine : Misplaced before line) : ∃ fault, compile within text number = .error fault ∧
      (fault = .layout ⟨line.number, (Margin.start.behind before).complaint line.indent⟩ ∨
        ∃ earlier ∈ before, fault.line = earlier.number) := by
  let s : Sought := ⟨line :: tail, before.map LogicalLine.number,
    (Margin.start.behind before).complaint line.indent⟩
  have hAhead : s.Ahead ⟨[0], false⟩ (before ++ line :: tail) := by
    refine ⟨before, rfl, fun earlier hEarlier => List.mem_map_of_mem hEarlier, ?_⟩
    rintro _ ⟨⟩
    exact ⟨hLine, rfl⟩
  have hBudget : 4 * extent (before ++ line :: tail) < budgetFor (before ++ line :: tail) := by
    rw [budgetFor]
    omega
  have hBlock : s.Outcome _ _ (readBlock within 0 (budgetFor (before ++ line :: tail))
      (before ++ line :: tail)) := (Follows.of_budget _).block hBudget hAhead
  have hCompile : compile within text number =
      (readBlock within 0 (budgetFor (before ++ line :: tail)) (before ++ line :: tail) >>=
        fun pair => .ok pair.1) := by
    rw [compile, hLines]
    rfl
  rw [hCompile]
  cases hRead : readBlock within 0 (budgetFor (before ++ line :: tail))
      (before ++ line :: tail) with
  | error fault =>
      rw [hRead] at hBlock
      refine ⟨fault, rfl, ?_⟩
      rcases hBlock with hKnown | ⟨bad, hBad, hFault⟩
      · obtain ⟨earlier, hEarlier, hNumber⟩ := List.mem_map.1 hKnown
        exact Or.inr ⟨earlier, hEarlier, hNumber.symm⟩
      · cases hBad
        exact Or.inl hFault
  | ok pair =>
      -- No line is indented less than the outermost block, so none would be left.
      rw [hRead] at hBlock
      obtain ⟨-, ⟨passed, hLeft, -⟩, hLess⟩ := hBlock
      cases hPair : pair.2 with
      | nil =>
          rw [hPair] at hLeft
          exact absurd hLeft.symm (by simp [s])
      | cons next others => exact absurd (hLess next (by rw [hPair]; rfl)) (Nat.not_lt_zero _)

/-- A text that is written for statements, its bodies indented as they may be and with fillers
between its lines, is compiled to their instructions. A text with a misplaced line is refused
because of that line, or because of a line before it. -/
theorem offside_rule (within : Surroundings) (text : List Char) (number : Nat) :
    (∀ (suite : Suite) (instrs : List Instr), suite.HasLines → suite.instrs within = some instrs →
      Pads (suite.lines 0) (Text.lines text) → compile within text number = .ok instrs) ∧
    (∀ (before tail : List LogicalLine) (line : LogicalLine),
      logicalLines text number = .ok (before ++ line :: tail) → Misplaced before line →
      ∃ fault, compile within text number = .error fault ∧
        (fault = .layout ⟨line.number, (Margin.start.behind before).complaint line.indent⟩ ∨
          ∃ earlier ∈ before, fault.line = earlier.number)) :=
  ⟨fun _ _ hSuite hInstrs hText => compile_pads hSuite hInstrs hText number,
    fun _ _ _ hLines hLine => compile_misplaced hLines hLine⟩

/-- A conditional whose bodies are indented by three spaces and by one. -/
def sampleSuite : Suite :=
  .one (.conditional "if a".toList 2
    (.more (.simple "b".toList) (.one (.returns "return".toList)))
    (.last (.body 0 (.one .pass))))

/-- The lines before one that is in no block. -/
def looseLines : List LogicalLine := [⟨0, "if a:".toList, 1⟩, ⟨4, "b".toList, 2⟩]

/-- The conditional as it may be written, and a text whose last line is in no block. -/
theorem sampleSuite_offside :
    (sampleSuite.HasLines ∧ Pads (sampleSuite.lines 0)
        (Text.lines "if a:\n  # c\n   b\n\n   return\nelse:\n pass\n".toList) ∧
      ∃ instrs, sampleSuite.instrs .outside = some instrs ∧ compile .outside
        "if a:\n  # c\n   b\n\n   return\nelse:\n pass\n".toList 1 = .ok instrs) ∧
    Misplaced looseLines ⟨2, "c".toList, 3⟩ ∧
      ∃ fault, compile .outside "if a:\n    b\n  c".toList 1 = .error fault ∧
        (fault = .layout ⟨3, .looseUnindent⟩ ∨
          ∃ earlier ∈ looseLines, fault.line = earlier.number) := by
  have hSuite : sampleSuite.HasLines :=
    ⟨(by decide +kernel : IsHeaderLine "if a".toList),
      ⟨(by decide +kernel : IsLine "b".toList), (by decide +kernel : IsLine "return".toList)⟩,
      trivial⟩
  have hText : Pads (sampleSuite.lines 0)
      (Text.lines "if a:\n  # c\n   b\n\n   return\nelse:\n pass\n".toList) := by
    refine .line 0 "if a:".toList (.filler (.comment 2 " c".toList) ?_)
    refine .line 3 "b".toList (.filler (.blank rfl) (.line 3 "return".toList ?_))
    exact .line 0 "else:".toList (.line 1 "pass".toList .nil)
  have hSome : (sampleSuite.instrs .outside).isSome = true := by decide +kernel
  obtain ⟨instrs, hInstrs⟩ := Option.isSome_iff_exists.1 hSome
  have hLogical : IsLogical "if a:".toList ∧ IsLogical "b".toList ∧ IsLogical "c".toList :=
    ⟨⟨by decide, by decide, by decide +kernel, 'i', "f a:".toList, rfl, by decide⟩,
      ⟨by decide, by decide, by decide +kernel, 'b', [], rfl, by decide⟩,
      ⟨by decide, by decide, by decide +kernel, 'c', [], rfl, by decide⟩⟩
  have hLines : logicalLines "if a:\n    b\n  c".toList 1 =
      .ok (looseLines ++ [⟨2, "c".toList, 3⟩]) := by
    show joinLines none 1 [List.replicate 0 ' ' ++ "if a:".toList,
      List.replicate 4 ' ' ++ "b".toList, List.replicate 2 ' ' ++ "c".toList] = _
    rw [joinLines_line 0 hLogical.1, joinLines_line 4 hLogical.2.1, joinLines_line 2 hLogical.2.2,
      joinLines]
    rfl
  refine ⟨⟨hSuite, hText, instrs, hInstrs, ?_⟩, by decide, ?_⟩
  · exact (offside_rule .outside _ 1).1 sampleSuite instrs hSuite hInstrs hText
  · exact (offside_rule .outside _ 1).2 looseLines [] ⟨2, "c".toList, 3⟩ hLines (by decide)

end Stencil.CodeBlock
