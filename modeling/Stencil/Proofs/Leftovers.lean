import Stencil.Proofs.Layout.Blocks
import Stencil.Program

/-!
# What is left at the end of a line

A `return` takes an expression from the rest of its line. After `pass`, `break` and `continue`
nothing is taken, and nothing is asked either: whatever stands there, the template compiles to the
same instructions as without it, and does not compile when it does not without it. So a condition
after `break` is not one.

What stands behind the colon of a header in a code block is a body on the same line, also when it is
a comment. A comment is no statement, so a header with a comment does not compile.

## Main results

* `leftovers_are_not_read`: the rest of the line does not matter after `pass`, `break` and
  `continue`, at any depth of sections and of code blocks.
* `CodeBlock.readStatement_header_comment`: no comment may stand behind a header.
-/

namespace Stencil

/-- What is read on the line of a flow word. -/
def FlowKeyword.taken (keyword : FlowKeyword) (code : List Char) : List Char :=
  match keyword with
  | .returnValue => code
  | .pass | .breakLoop | .continueLoop => keyword.word.toList

mutual

/-- The section without what is left on the lines of flow words. -/
def Section.taken : Section → Section
  | .flow number keyword code => .flow number keyword (keyword.taken code)
  | .block number keyword header indent body =>
      .block number keyword header indent (takenSuite body)
  | .line content => .line content
  | .assignment number code => .assignment number code
  | .code number text => .code number text
  | .varExpression number name code => .varExpression number name code
  | .varFragment number name lines => .varFragment number name lines

/-- The sections without what is left on the lines of flow words. -/
def takenSuite : List Section → List Section
  | [] => []
  | content :: rest => content.taken :: takenSuite rest

end

/-- The logical line without what is left after a flow word. -/
def CodeBlock.LogicalLine.taken (line : LogicalLine) : LogicalLine :=
  match line.word?.bind FlowKeyword.ofWord? with
  | some keyword => { line with text := keyword.taken line.text }
  | none => line

section Sections

theorem toOption_bind {ε α β : Type} (action : Except ε α) (next : α → Except ε β) :
    (action >>= next).toOption = action.toOption.bind fun a => (next a).toOption := by
  cases action <;> rfl

theorem toOption_map {ε α β : Type} (action : Except ε α) (f : α → β) :
    (action.map f).toOption = action.toOption.map f := by
  cases action <;> rfl

theorem toOption_flowInstr (within : Surroundings) (keyword : FlowKeyword) (code : List Char)
    (line : Nat) :
    (flowInstr within keyword (keyword.taken code) line).toOption =
      (flowInstr within keyword code line).toOption := by
  cases keyword with
  | pass => rfl
  | returnValue => rfl
  | breakLoop => cases hLoop : within.inLoop <;> simp only [flowInstr, hLoop] <;> rfl
  | continueLoop => cases hLoop : within.inLoop <;> simp only [flowInstr, hLoop] <;> rfl

theorem toOption_compileSuite (within : Surroundings) (open_ : OpenBlock) (out : Emitted)
    (sections : List Section) :
    (compileSuite within open_ out (takenSuite sections)).toOption =
      (compileSuite within open_ out sections).toOption := by
  -- Of all sections only flow directives differ, and their instructions do not.
  induction within, open_, out, sections using compileSuite.induct with
  | case1 => rfl
  | case3 within open_ out line header indent body rest hNot =>
      rw [takenSuite, Section.taken, compileSuite, compileSuite]
      all_goals first | rfl | exact hNot
  | case12 within open_ out line code rest ihRest ihStatement =>
      simp only [takenSuite, Section.taken, compileSuite, toOption_bind]
      refine congrArg _ (funext fun done => ?_)
      split
      · exact ihRest done
      · simp only [toOption_bind, ihStatement done]
  | case13 within open_ out line keyword code rest ihRest =>
      simp only [takenSuite, Section.taken, compileSuite, toOption_bind, toOption_flowInstr, ihRest]
  | _ => simp only [takenSuite, Section.taken, compileSuite, toOption_bind, *]

end Sections

/-! ## Code blocks -/

namespace CodeBlock

section Lines

variable {line : LogicalLine}

theorem ofWord?_eq_some {word : List Char} {keyword : FlowKeyword}
    (h : FlowKeyword.ofWord? word = some keyword) : word = keyword.word.toList := by
  have hFind := List.find?_some h
  exact (beq_iff_eq.1 hFind).symm

theorem taken_of_not_flow (h : line.word?.bind FlowKeyword.ofWord? = none) : line.taken = line := by
  rw [LogicalLine.taken, h]

theorem indent_taken (line : LogicalLine) : line.taken.indent = line.indent := by
  unfold LogicalLine.taken
  split <;> rfl

theorem number_taken (line : LogicalLine) : line.taken.number = line.number := by
  unfold LogicalLine.taken
  split <;> rfl

theorem word?_taken (line : LogicalLine) : line.taken.word? = line.word? := by
  unfold LogicalLine.taken
  split
  · rename_i keyword hFlow
    obtain ⟨word, hWord, hKeyword⟩ := Option.bind_eq_some_iff.1 hFlow
    have hSame := ofWord?_eq_some hKeyword
    have hWritten : firstWord keyword.word.toList = some keyword.word.toList := by
      cases keyword <;> decide +kernel
    rw [hWord, hSame]
    cases keyword with
    | returnValue => exact hWord.trans (congrArg some hSame)
    | _ => exact hWritten
  · rfl

theorem startsWith_taken (line : LogicalLine) (word : String) :
    line.taken.startsWith word = line.startsWith word := by
  rw [LogicalLine.startsWith, word?_taken, LogicalLine.startsWith]

/-- A line that starts with another word is not changed. -/
theorem taken_of_startsWith {word : String} (h : line.startsWith word = true)
    (hWord : FlowKeyword.ofWord? word.toList = none) : line.taken = line :=
  taken_of_not_flow (by rw [beq_iff_eq.1 h]; exact hWord)

end Lines

/-- Both results are the same, and the lines that are left but for what is left after flow words. -/
def Same {α : Type} (found other : Except CompileFault (α × List LogicalLine)) : Prop :=
  other.toOption = found.toOption.map (Prod.map id (List.map LogicalLine.taken))

/-- The second reader does without what is left after flow words what the first one does with it. -/
def Overlooks {α : Type} (reader other : Reader α) : Prop :=
  ∀ rest, Same (reader rest) (other (rest.map LogicalLine.taken))

section Steps

variable {α β : Type}

theorem Same.ok (a : α) (rest : List LogicalLine) :
    Same (.ok (a, rest)) (.ok (a, rest.map LogicalLine.taken)) := rfl

theorem Same.error (fault other : CompileFault) :
    Same (.error fault : Except CompileFault (α × List LogicalLine)) (.error other) := rfl

theorem Same.bind {found other : Except CompileFault (α × List LogicalLine)}
    {next next' : α × List LogicalLine → Except CompileFault (β × List LogicalLine)}
    (h : Same found other)
    (hNext : ∀ a rest, Same (next (a, rest)) (next' (a, rest.map LogicalLine.taken))) :
    Same (found >>= next) (other >>= next') := by
  unfold Same at h ⊢
  rw [toOption_bind, toOption_bind, h]
  cases found with
  | error fault => rfl
  | ok pair => exact hNext pair.1 pair.2

theorem Same.ite {condition : Prop} [Decidable condition]
    {a b c d : Except CompileFault (α × List LogicalLine)} (h : Same a c) (h' : Same b d) :
    Same (if condition then a else b) (if condition then c else d) := by
  split
  · exact h
  · exact h'

theorem Overlooks.pure (a : α) : Overlooks (Pure.pure a : Reader α) (Pure.pure a) :=
  fun rest => Same.ok a rest

theorem Overlooks.bind {reader other : Reader α} {next next' : α → Reader β}
    (h : Overlooks reader other) (hNext : ∀ a, Overlooks (next a) (next' a)) :
    Overlooks (reader >>= next) (other >>= next') :=
  fun rest => (h rest).bind fun a left => hNext a left

theorem Overlooks.ite {condition : Prop} [Decidable condition] {a b c d : Reader α}
    (h : Overlooks a c) (h' : Overlooks b d) :
    Overlooks (if condition then a else b) (if condition then c else d) := by
  split
  · exact h
  · exact h'

/-- A result that does not come from lines. -/
theorem Overlooks.lift {found other : Except CompileFault α}
    (h : other.toOption = found.toOption) : Overlooks (liftM found : Reader α) (liftM other) := by
  intro rest
  cases found with
  | error fault =>
      cases other with
      | error fault' => rfl
      | ok b => cases h
  | ok a =>
      cases other with
      | error fault' => cases h
      | ok b =>
          obtain rfl : b = a := Option.some.inj h
          rfl

theorem overlooks_refuse : Overlooks (refuse : Reader α) refuse := by
  intro rest
  cases rest <;> rfl

end Steps

/-- What is read from a line that starts with a word which steers no flow, and otherwise. -/
theorem overlooks_whenStarts (indent : Nat) {word : String}
    (hWord : FlowKeyword.ofWord? word.toList = none) (none_ : α)
    {found : LogicalLine → Reader α} {otherwise : Reader α}
    (hFound : ∀ line, Overlooks (found line) (found line))
    (hOtherwise : Overlooks otherwise otherwise) :
    let reader : Reader α := do
      if ← nextStarts indent word then
        fun rest =>
          match rest with
          | [] => .ok (none_, [])
          | line :: others => found line others
      else otherwise
    Overlooks reader reader := by
  intro reader rest
  cases rest with
  | nil => exact hOtherwise []
  | cons line others =>
      have hReader (line : LogicalLine) (others : List LogicalLine) : reader (line :: others) =
          if line.indent == indent && line.startsWith word then found line others
          else otherwise (line :: others) := by
        show (if (List.head? (line :: others)).any
            (fun line => line.indent == indent && line.startsWith word) then _ else otherwise)
          (line :: others) = _
        by_cases hStarts : (line.indent == indent && line.startsWith word) = true
        · rw [if_pos hStarts]
          exact congrFun (if_pos hStarts) _
        · rw [if_neg hStarts]
          exact congrFun (if_neg hStarts) _
      rw [List.map_cons, hReader, hReader, indent_taken, startsWith_taken]
      by_cases hStarts : (line.indent == indent && line.startsWith word) = true
      · rw [if_pos hStarts, if_pos hStarts,
          taken_of_startsWith (Bool.and_eq_true_iff.1 hStarts).2 hWord]
        exact hFound line others
      · rw [if_neg hStarts, if_neg hStarts]
        exact hOtherwise (line :: others)

/-- With this budget the readers of a code block do not read what is left after flow words. -/
structure ReadersOverlook (budget : Nat) : Prop where
  block : ∀ within indent,
    Overlooks (readBlock within indent budget) (readBlock within indent budget)
  statement : ∀ within line,
    Overlooks (readStatement within line budget) (readStatement within line.taken budget)
  compound : ∀ within line,
    Overlooks (readCompound within line budget) (readCompound within line budget)
  branches : ∀ within line word,
    Overlooks (readBranches within line word budget) (readBranches within line word budget)
  «else» : ∀ within indent,
    Overlooks (readElse within indent budget) (readElse within indent budget)

section Readers

variable {budget : Nat} (h : ReadersOverlook budget) (within : Surroundings)
include h

theorem overlooks_readBlock (indent : Nat) :
    Overlooks (readBlock within indent (budget + 1)) (readBlock within indent (budget + 1)) := by
  intro rest
  cases rest with
  | nil => rfl
  | cons line others =>
      rw [List.map_cons, readBlock]
      simp only [indent_taken, number_taken]
      refine .ite (.ok [] (line :: others)) (.ite (.error _ _) ?_)
      refine (h.statement within line others).bind fun first left => ?_
      exact (h.block within indent left).bind fun next left => .ok _ _

theorem overlooks_readStatement (line : LogicalLine) :
    Overlooks (readStatement within line (budget + 1))
      (readStatement within line.taken (budget + 1)) := by
  cases hFlow : line.word?.bind FlowKeyword.ofWord? with
  | some keyword =>
      have hTaken : line.taken = { line with text := keyword.taken line.text } := by
        rw [LogicalLine.taken, hFlow]
      rw [readStatement, readStatement, word?_taken, hFlow]
      rw [hTaken]
      exact (Overlooks.lift (toOption_flowInstr within keyword line.text line.number)).bind
        fun instr => .pure _
  | none =>
      rw [taken_of_not_flow hFlow]
      unfold readStatement
      rw [hFlow]
      refine .ite ?_ (.ite ?_ (.ite ?_ (.ite ?_ (.ite ?_ ?_))))
      · exact (h.branches within line "if").bind fun found => .pure _
      · refine (h.compound within.looping line).bind fun found => ?_
        refine (h.else within line.indent).bind fun otherwise => ?_
        exact (Overlooks.lift rfl).bind fun head => .pure _
      · refine (h.compound within.looping line).bind fun found => ?_
        refine (h.else within line.indent).bind fun otherwise => ?_
        exact (Overlooks.lift rfl).bind fun test => .pure _
      · refine (h.compound within.defining line).bind fun found => ?_
        exact (Overlooks.lift rfl).bind fun head => .pure _
      · exact .lift rfl
      · exact (Overlooks.lift rfl).bind fun statement => .pure _

theorem overlooks_readCompound (line : LogicalLine) :
    Overlooks (readCompound within line (budget + 1)) (readCompound within line (budget + 1)) := by
  intro rest
  unfold readCompound
  cases splitStatement line with
  | error fault => exact .error fault fault
  | ok header =>
      refine .ite ?_ ?_
      · show Same (readBlock within 0 budget [⟨0, header.2, line.number⟩] >>= fun found =>
            .ok ((header.1, found.1), rest))
          (readBlock within 0 budget [⟨0, header.2, line.number⟩] >>= fun found =>
            .ok ((header.1, found.1), rest.map LogicalLine.taken))
        cases readBlock within 0 budget [⟨0, header.2, line.number⟩] <;> rfl
      · cases rest with
        | nil => rfl
        | cons first others =>
            simp only [List.map_cons, indent_taken]
            refine .ite (.error _ _) ?_
            refine (h.block within first.indent (first :: others)).bind fun body left => ?_
            cases left with
            | nil => exact .ok _ []
            | cons after left =>
                simp only [List.map_cons, indent_taken, number_taken]
                exact .ite (.error _ _) (.ok _ (after :: left))

theorem overlooks_readBranches (line : LogicalLine) (word : String) :
    Overlooks (readBranches within line word (budget + 1))
      (readBranches within line word (budget + 1)) := by
  unfold readBranches
  refine (h.compound within line).bind fun found => (Overlooks.lift rfl).bind fun test => ?_
  refine overlooks_whenStarts line.indent (by decide) ([(test, found.2)], none)
    (fun next others => ?_) ((h.else within line.indent).bind fun otherwise => .pure _)
  exact (h.branches within next "elif" others).bind fun below left => .ok _ left

theorem overlooks_readElse (indent : Nat) :
    Overlooks (readElse within indent (budget + 1)) (readElse within indent (budget + 1)) := by
  unfold readElse
  refine overlooks_whenStarts indent (by decide) none (fun line others => ?_) (.pure none)
  exact (h.compound within line others).bind fun found left => .ite (.ok _ left) (.error _ _)

end Readers

/-- The readers of a code block do not read what is left after flow words. -/
theorem readersOverlook (budget : Nat) : ReadersOverlook budget := by
  induction budget with
  | zero =>
      exact ⟨fun _ _ => overlooks_refuse, fun _ _ => overlooks_refuse, fun _ _ => overlooks_refuse,
        fun _ _ _ => overlooks_refuse, fun _ _ => overlooks_refuse⟩
  | succ budget ih =>
      exact ⟨overlooks_readBlock ih, overlooks_readStatement ih, overlooks_readCompound ih,
        overlooks_readBranches ih, overlooks_readElse ih⟩

/-! ### Comments behind headers -/

section Comments

variable {comment : List Char} (hLine : '\n' ∉ comment)
include hLine

/-- A comment alone is no statement. -/
theorem not_read_comment (statement : Statement) :
    Statement.read ('#' :: comment) ≠ .ok statement := by
  intro hRead
  cases hTokens : strictTokens ('#' :: comment) with
  | error fault =>
      rw [Statement.read, Reader.run, hTokens] at hRead
      cases hRead
  | ok tokens =>
      rw [Statement.read, Reader.run_eq_ok hTokens,
        meaningful_of_comment (scanFrom_of_strictTokens hTokens) hLine] at hRead
      exact refuses_readSimple (by simp) _ _ hRead

theorem readStatement_comment (within : Surroundings) (indent number budget : Nat)
    (rest : List LogicalLine) :
    (readStatement within ⟨indent, '#' :: comment, number⟩ budget rest).toOption = none := by
  cases budget with
  | zero => cases rest <;> rfl
  | succ budget =>
      have hWord : LogicalLine.word? ⟨indent, '#' :: comment, number⟩ = none := rfl
      have hNot (word : String) :
          LogicalLine.startsWith ⟨indent, '#' :: comment, number⟩ word = false := rfl
      rw [readStatement, hWord]
      simp only [Option.bind_none, hNot, Bool.or_self, Bool.false_eq_true, if_false]
      cases hRead : Statement.read ('#' :: comment) with
      | error fault => rfl
      | ok statement => exact absurd hRead (not_read_comment hLine statement)

/-- A comment behind the colon of a header is taken for its body, and is none. -/
theorem readCompound_comment {line : LogicalLine} {header : List Char}
    (hSplit : splitStatement line = .ok (header, '#' :: comment)) (within : Surroundings)
    (budget : Nat) (rest : List LogicalLine) :
    (readCompound within line budget rest).toOption = none := by
  cases budget with
  | zero => cases rest <;> rfl
  | succ budget =>
      have hBody :
          (readBlock within 0 budget [⟨0, '#' :: comment, line.number⟩]).toOption = none := by
        cases budget with
        | zero => rfl
        | succ budget =>
            rw [readBlock]
            simp only [Nat.lt_irrefl, if_false]
            rw [toOption_bind, readStatement_comment hLine]
            rfl
      unfold readCompound
      rw [hSplit]
      show (readBlock within 0 budget [⟨0, '#' :: comment, line.number⟩] >>= fun found =>
        .ok ((header, found.1), rest)).toOption = none
      rw [toOption_bind, hBody]
      rfl

/-- A statement does not compile when a comment stands behind its header. -/
theorem readStatement_header_comment {line : LogicalLine} {word : String} {header more : List Char}
    (hWord : word ∈ ["if", "for", "while", "def"]) (hHeader : IsHeader word header)
    (hText : line.text = header ++ ':' :: more) (hComment : Text.trim more = '#' :: comment)
    (within : Surroundings) (budget : Nat) (rest : List LogicalLine) :
    (readStatement within line budget rest).toOption = none := by
  have hSplit : splitStatement line = .ok (header, '#' :: comment) := by
    rw [splitStatement, hText, hHeader.split more, ← hComment]
  have hFirst : firstWord line.text = some word.toList := hText ▸ hHeader.word more
  have hCompound (within : Surroundings) (budget : Nat) :
      (readCompound within line budget rest).toOption = none :=
    readCompound_comment hLine hSplit within budget rest
  cases budget with
  | zero => cases rest <;> rfl
  | succ budget =>
      simp only [List.mem_cons, List.not_mem_nil, or_false] at hWord
      rcases hWord with rfl | rfl | rfl | rfl
      · rw [compoundSteps.conditional hFirst]
        cases budget with
        | zero => cases rest <;> rfl
        | succ budget =>
            rw [readBranches]
            show ((readCompound within line budget rest >>= _) >>= _).toOption = none
            rw [toOption_bind, toOption_bind, hCompound]
            rfl
      · rw [compoundSteps.forLoop hFirst]
        show (readCompound within.looping line budget rest >>= _).toOption = none
        rw [toOption_bind, hCompound]
        rfl
      · rw [compoundSteps.whileLoop hFirst]
        show (readCompound within.looping line budget rest >>= _).toOption = none
        rw [toOption_bind, hCompound]
        rfl
      · rw [compoundSteps.definition hFirst]
        show (readCompound within.defining line budget rest >>= _).toOption = none
        rw [toOption_bind, hCompound]
        rfl

end Comments

end CodeBlock

/-- Programs and code blocks compile to the same, or not at all, without what is left on the lines
of `pass`, `break` and `continue`. -/
theorem leftovers_are_not_read :
    (∀ document : Document,
      (Program.ofDocument { document with body := takenSuite document.body }).toOption =
        (Program.ofDocument document).toOption) ∧
    (∀ (within : Surroundings) (indent budget : Nat) (lines : List CodeBlock.LogicalLine),
      ((CodeBlock.readBlock within indent budget (lines.map .taken)).map Prod.fst).toOption =
        ((CodeBlock.readBlock within indent budget lines).map Prod.fst).toOption) := by
  refine ⟨fun document => ?_, fun within indent budget lines => ?_⟩
  · unfold Program.ofDocument
    cases document.parameters with
    | none => simp only [toOption_bind, toOption_compileSuite]
    | some text => simp only [toOption_bind, toOption_compileSuite]
  · have hSame := (CodeBlock.readersOverlook budget).block within indent lines
    rw [toOption_map, toOption_map, show _ = _ from hSame, Option.map_map]
    rfl

example :
    takenSuite [.block 1 .forLoop "for i in xs".toList 4 [.flow 2 .breakLoop "break if i".toList]] =
      [.block 1 .forLoop "for i in xs".toList 4 [.flow 2 .breakLoop "break".toList]] := rfl

end Stencil
