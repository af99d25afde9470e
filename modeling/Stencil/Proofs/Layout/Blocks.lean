import Stencil.Proofs.Layout.Headers

/-!
# Reading the lines of a tree

Each reader of a code block takes the lines of the part of a tree that it is for, and gives the
instructions of that part, whatever lines follow: the lines after a body are indented less than the
body, and what follows a statement is no clause of it.

## Main results

* `Suite.reads`: a block is read from the lines of its statements.
-/

namespace Stencil.CodeBlock

open Stencil.Text

variable {within : Surroundings} {line : LogicalLine} {lines others tail rest : List LogicalLine}
  {indent budget : Nat}

/-! ## Steps of the readers -/

theorem read_bind {α β : Type} {reader : Reader α} {next : α → Reader β} {value : α}
    (h : reader lines = .ok (value, rest)) : (reader >>= next) lines = next value rest := by
  have hBind : (reader >>= next) lines = (reader lines >>= fun pair => next pair.1 pair.2) := rfl
  rw [hBind, h]
  rfl

theorem read_onLine {α : Type} {number : Nat} {result : Except SyntaxFault α} {value : α}
    (h : result = .ok value) :
    (liftM (onLine number result) : Reader α) lines = .ok (value, lines) := by
  rw [h]
  rfl

theorem word?_eq (line : LogicalLine) : line.word? = firstWord line.text := rfl

theorem startsWith_of_word {word : String} (h : firstWord line.text = some word.toList)
    (other : String) : line.startsWith other = (word.toList == other.toList) := by
  rw [LogicalLine.startsWith, word?_eq, h]
  rfl

/-- What follows a statement that is indented by this much: a line that is not indented deeper, and
no clause that continues the statement. -/
def Ends (indent : Nat) (tail : List LogicalLine) : Prop :=
  ∀ next ∈ tail.head?, next.indent ≤ indent ∧
    (next.indent = indent → next.startsWith "elif" = false ∧ next.startsWith "else" = false)

theorem nextStarts_of_ends (h : Ends indent tail) :
    nextStarts indent "elif" tail = .ok (false, tail) ∧
      nextStarts indent "else" tail = .ok (false, tail) := by
  unfold nextStarts
  cases tail with
  | nil => exact ⟨rfl, rfl⟩
  | cons next others =>
      have hNext := (h next rfl).2
      by_cases hIndent : next.indent = indent
      · obtain ⟨hElif, hElse⟩ := hNext hIndent
        simp [hElif, hElse]
      · simp [hIndent]

theorem nextStarts_cons {word : String} {first : LogicalLine} (hIndent : first.indent = indent)
    (hWord : firstWord first.text = some word.toList) (other : String) :
    nextStarts indent other (first :: rest) = .ok (word.toList == other.toList, first :: rest) := by
  rw [nextStarts, List.head?_cons, Option.any_some, startsWith_of_word hWord, hIndent,
    beq_self_eq_true, Bool.true_and]

/-! ### Statements without a body -/

theorem readStatement_simple (h : IsSimple line.text) {statement : Statement}
    (hRead : Statement.read line.text = .ok statement) :
    readStatement within line (budget + 1) rest = .ok ([.execute statement], rest) := by
  have hNot {word : String} (hWord : word ∈ leadingWords) : line.startsWith word = false := by
    rw [LogicalLine.startsWith, word?_eq]
    exact beq_eq_false_iff_ne.2 (h.word word hWord)
  have hFlow : line.word?.bind FlowKeyword.ofWord? = none := by
    rw [Option.bind_eq_none_iff]
    intro word hWord
    refine List.find?_eq_none.2 fun keyword hKeyword hSame => ?_
    have hLeading : keyword.word ∈ leadingWords := by cases keyword <;> decide
    refine h.word keyword.word hLeading ?_
    rw [← word?_eq, hWord, beq_iff_eq.1 hSame]
  rw [readStatement, hFlow]
  simp only [hNot (show "if" ∈ leadingWords by decide), hNot (show "for" ∈ leadingWords by decide),
    hNot (show "while" ∈ leadingWords by decide), hNot (show "def" ∈ leadingWords by decide),
    hNot (show "elif" ∈ leadingWords by decide), hNot (show "else" ∈ leadingWords by decide),
    hRead, Bool.or_self, Bool.false_eq_true, if_false]
  rfl

theorem readStatement_flow {keyword : FlowKeyword}
    (hWord : firstWord line.text = some keyword.word.toList) {instr : Option Instr}
    (h : flowInstr within keyword line.text line.number = .ok instr) :
    readStatement within line (budget + 1) rest = .ok (instr.toList, rest) := by
  have hFlow : line.word?.bind FlowKeyword.ofWord? = some keyword := by
    rw [word?_eq, hWord]
    cases keyword <;> decide
  rw [readStatement, hFlow]
  simp only [h]
  rfl

/-! ### Compound statements -/

section Compound

theorem flow_of_word {word : String} (hWord : firstWord line.text = some word.toList)
    (h : FlowKeyword.ofWord? word.toList = none) :
    line.word?.bind FlowKeyword.ofWord? = none := by
  rw [word?_eq, hWord]
  exact h

/-- How a compound statement is read, by its first word. -/
structure CompoundSteps (within : Surroundings) (line : LogicalLine) (budget : Nat) : Prop where
  conditional : firstWord line.text = some "if".toList →
    readStatement within line (budget + 1) = (do
      let (branches, otherwise) ← readBranches within line "if" budget
      return [.branch branches otherwise])
  forLoop : firstWord line.text = some "for".toList →
    readStatement within line (budget + 1) = (do
      let (header, body) ← readCompound within.looping line budget
      let otherwise ← readElse within line.indent budget
      let (target, items) ← onLine line.number (readForHeader header)
      return [.forLoop target items body otherwise false])
  whileLoop : firstWord line.text = some "while".toList →
    readStatement within line (budget + 1) = (do
      let (header, body) ← readCompound within.looping line budget
      let otherwise ← readElse within line.indent budget
      let test ← onLine line.number (Expr.readAfter "while" header)
      return [.whileLoop test body otherwise])
  definition : firstWord line.text = some "def".toList →
    readStatement within line (budget + 1) = (do
      let (header, body) ← readCompound within.defining line budget
      let (name, parameters) ← onLine line.number (readDefinitionHeader header)
      return [.define .procedure name parameters body])

theorem compoundSteps : CompoundSteps within line budget := by
  constructor
  · intro hWord
    rw [readStatement, flow_of_word hWord (by decide)]
    simp only [startsWith_of_word hWord]
    exact if_pos rfl
  · intro hWord
    rw [readStatement, flow_of_word hWord (by decide)]
    simp only [startsWith_of_word hWord]
    exact (if_neg (by decide)).trans (if_pos rfl)
  · intro hWord
    rw [readStatement, flow_of_word hWord (by decide)]
    simp only [startsWith_of_word hWord]
    exact (if_neg (by decide)).trans ((if_neg (by decide)).trans (if_pos rfl))
  · intro hWord
    rw [readStatement, flow_of_word hWord (by decide)]
    simp only [startsWith_of_word hWord]
    exact (if_neg (by decide)).trans
      ((if_neg (by decide)).trans ((if_neg (by decide)).trans (if_pos rfl)))

/-- The first line of a body is indented deeper than the header, and the line after the body is
not. -/
theorem readCompound_eq {word : String} {header : List Char} (hHeader : IsHeader word header)
    (hText : line.text = header ++ [':']) {first : LogicalLine}
    (hFirst : (lines ++ tail).head? = some first) (hDeeper : line.indent < first.indent)
    {body : List Instr}
    (hBody : readBlock within first.indent budget (lines ++ tail) = .ok (body, tail))
    (hTail : ∀ next ∈ tail.head?, next.indent ≤ line.indent) :
    readCompound within line (budget + 1) (lines ++ tail) = .ok ((header, body), tail) := by
  have hSplit : splitStatement line = .ok (header, []) := by
    rw [splitStatement, hText, hHeader.split []]
    rfl
  obtain ⟨others, hLines⟩ : ∃ others, lines ++ tail = first :: others := by
    cases hList : lines ++ tail with
    | nil =>
        rw [hList] at hFirst
        cases hFirst
    | cons next others =>
        rw [hList] at hFirst
        cases hFirst
        exact ⟨others, rfl⟩
  rw [hLines] at hBody ⊢
  rw [readCompound]
  simp only [hSplit]
  show (if first.indent ≤ line.indent then _ else _) = _
  rw [if_neg (Nat.not_le.2 hDeeper)]
  show (readBlock within first.indent budget (first :: others) >>= _) = _
  rw [hBody]
  cases tail with
  | nil => rfl
  | cons after rest => exact if_neg (Nat.not_lt.2 (hTail after rfl))

end Compound

/-! ## Reading trees -/

/-- A statement is read from its lines. -/
def Tree.Reads (tree : Tree) : Prop :=
  ∀ ⦃within : Surroundings⦄ ⦃instrs : List Instr⦄, tree.instrs within = some instrs →
    ∀ (tail : List LogicalLine) (budget : Nat) ⦃indent : Nat⦄ ⦃lines : List LogicalLine⦄,
      lines.map LogicalLine.entry = tree.lines indent → Ends indent tail →
      4 * lines.length ≤ budget →
      ∃ first others, lines = first :: others ∧ first.indent = indent ∧
        first.startsWith "elif" = false ∧ first.startsWith "else" = false ∧
        readStatement within first budget (others ++ tail) = .ok (instrs, tail)

/-- Statements are read from their lines as a block. -/
def Suite.Reads (suite : Suite) : Prop :=
  ∀ ⦃within : Surroundings⦄ ⦃instrs : List Instr⦄, suite.instrs within = some instrs →
    ∀ (tail : List LogicalLine) (budget : Nat) ⦃indent : Nat⦄ ⦃lines : List LogicalLine⦄,
      lines.map LogicalLine.entry = suite.lines indent →
      (∀ next ∈ tail.head?, next.indent < indent) → 4 * lines.length + 1 ≤ budget →
      ∃ first others, lines = first :: others ∧ first.indent = indent ∧
        first.startsWith "elif" = false ∧ first.startsWith "else" = false ∧
        readBlock within indent budget (lines ++ tail) = .ok (instrs, tail)

/-- An `else` is read from its lines. -/
def Otherwise.Reads (otherwise : Otherwise) : Prop :=
  ∀ ⦃within : Surroundings⦄ ⦃body : Option (List Instr)⦄, otherwise.instrs within = some body →
    ∀ (tail : List LogicalLine) (budget : Nat) ⦃indent : Nat⦄ ⦃lines : List LogicalLine⦄,
      lines.map LogicalLine.entry = otherwise.lines indent → Ends indent tail →
      4 * lines.length ≤ budget + 1 → 1 ≤ budget →
      (∀ next ∈ (lines ++ tail).head?, next.indent ≤ indent) ∧
      nextStarts indent "elif" (lines ++ tail) = .ok (false, lines ++ tail) ∧
      readElse within indent budget (lines ++ tail) = .ok (body, tail)

/-- What follows the first branch of a conditional is read from its lines. -/
def Clauses.Reads (clauses : Clauses) : Prop :=
  ∀ ⦃within : Surroundings⦄ ⦃branches : List (Expr × List Instr)⦄
    ⦃otherwise : Option (List Instr)⦄, clauses.instrs within = some (branches, otherwise) →
    ∀ (tail : List LogicalLine) (budget : Nat) ⦃line : LogicalLine⦄ ⦃lines : List LogicalLine⦄,
      lines.map LogicalLine.entry = clauses.lines line.indent → Ends line.indent tail →
      4 * lines.length ≤ budget + 1 → 1 ≤ budget →
      (∀ next ∈ (lines ++ tail).head?, next.indent ≤ line.indent) ∧
      ∀ ⦃before : List LogicalLine⦄ ⦃word : String⦄ ⦃header : List Char⦄ ⦃test : Expr⦄
        ⦃body : List Instr⦄,
        readCompound within line budget before = .ok ((header, body), lines ++ tail) →
        Expr.readAfter word header = .ok test →
        readBranches within line word (budget + 1) before =
          .ok (((test, body) :: branches, otherwise), tail)

/-- A suite in a block that is not empty ends before a line that is indented less. -/
theorem readBlock_end (h : ∀ next ∈ tail.head?, next.indent < indent) :
    readBlock within indent (budget + 1) tail = .ok ([], tail) := by
  cases tail with
  | nil => rfl
  | cons next others => exact if_pos (h next rfl)

theorem readBlock_cons {first : LogicalLine} (hIndent : first.indent = indent) {instrs : List Instr}
    (hFirst : readStatement within first budget others = .ok (instrs, rest)) :
    readBlock within indent (budget + 1) (first :: others) =
      (fun pair => (instrs ++ pair.1, pair.2)) <$> readBlock within indent budget rest := by
  rw [readBlock]
  show (if first.indent < indent then _ else _) = _
  rw [if_neg (Nat.not_lt.2 (Nat.le_of_eq hIndent.symm)),
    if_neg (Nat.not_lt.2 (Nat.le_of_eq hIndent)), hFirst]
  rfl

theorem ok_of_toOption {ε α : Type} {result : Except ε α} {value : α}
    (h : result.toOption = some value) : result = .ok value := by
  cases result with
  | error cause => cases h
  | ok found =>
      cases h
      rfl

/-! ### Lines of the parts -/

/-- The lines of a compound statement: the header, the body, and what is left. -/
theorem compound_reads {word : String} {header : List Char} (hHeader : IsHeader word header)
    {suite : Suite} (hSuite : suite.Reads) {body : List Instr}
    (hInstrs : suite.instrs within = some body) {deeper : Nat} {more : List TreeLine}
    (hLines : lines.map LogicalLine.entry =
      headerLine indent header :: (suite.lines (indent + deeper + 1) ++ more)) :
    ∃ first bodyLines moreLines, lines = first :: (bodyLines ++ moreLines) ∧
      first.indent = indent ∧ first.text = header ++ [':'] ∧
      moreLines.map LogicalLine.entry = more ∧ 1 ≤ bodyLines.length ∧
      ∀ tail budget, (∀ next ∈ (moreLines ++ tail).head?, next.indent ≤ indent) →
        4 * bodyLines.length + 2 ≤ budget →
        readCompound within first budget (bodyLines ++ (moreLines ++ tail)) =
          .ok ((header, body), moreLines ++ tail) := by
  obtain ⟨first, below, rfl, hFirst, hBelow⟩ := List.map_eq_cons_iff.1 hLines
  obtain ⟨bodyLines, moreLines, rfl, hBody, hMore⟩ := List.map_eq_append_iff.1 hBelow
  have hIndent : first.indent = indent := congrArg Prod.fst hFirst
  have hText : first.text = header ++ [':'] := congrArg Prod.snd hFirst
  have hLength : 1 ≤ bodyLines.length := by
    obtain ⟨next, others, rfl, -⟩ := hSuite hInstrs [] _ hBody (by simp) (Nat.le_refl _)
    exact Nat.le_add_left 1 _
  refine ⟨first, bodyLines, moreLines, rfl, hIndent, hText, hMore, hLength,
    fun tail budget hTail hBudget => ?_⟩
  obtain ⟨less, rfl⟩ : ∃ less, budget = less + 1 := ⟨budget - 1, by omega⟩
  have hDeeper : ∀ next ∈ (moreLines ++ tail).head?, next.indent < indent + deeper + 1 :=
    fun next hNext => by
      have hNext := hTail next hNext
      omega
  obtain ⟨next, others, rfl, hNext, -, -, hRead⟩ :=
    hSuite hInstrs (moreLines ++ tail) less hBody hDeeper (by omega)
  have hHead : (next :: others ++ (moreLines ++ tail)).head? = some next := rfl
  refine readCompound_eq hHeader hText hHead (by omega) (hNext ▸ hRead) ?_
  rwa [hIndent]

theorem notClause_of_word {word : String} (hWord : firstWord line.text = some word.toList)
    (h : word.toList ≠ "elif".toList ∧ word.toList ≠ "else".toList) :
    line.startsWith "elif" = false ∧ line.startsWith "else" = false := by
  rw [startsWith_of_word hWord, startsWith_of_word hWord]
  exact ⟨beq_eq_false_iff_ne.2 h.1, beq_eq_false_iff_ne.2 h.2⟩

/-! ### Clauses -/

theorem Otherwise.reads_nothing : Otherwise.nothing.Reads := by
  intro within body hBody tail budget indent lines hLines hTail hBudget hPos
  cases hBody
  obtain rfl : lines = [] := List.map_eq_nil_iff.1 hLines
  obtain ⟨budget, rfl⟩ : ∃ less, budget = less + 1 := ⟨budget - 1, by omega⟩
  obtain ⟨hElif, hElse⟩ := nextStarts_of_ends hTail
  refine ⟨fun next hNext => (hTail next hNext).1, hElif, ?_⟩
  rw [readElse, List.nil_append, read_bind hElse]
  rfl

theorem Otherwise.reads_body {deeper : Nat} {suite : Suite} (hSuite : suite.Reads) :
    (Otherwise.body deeper suite).Reads := by
  intro within body hBody tail budget indent lines hLines hTail hBudget hPos
  rw [Otherwise.instrs, Option.map_eq_map, Option.map_eq_some_iff] at hBody
  obtain ⟨instrs, hInstrs, rfl⟩ := hBody
  rw [Otherwise.lines, ← List.append_nil (suite.lines _)] at hLines
  obtain ⟨first, bodyLines, moreLines, rfl, hIndent, hText, hMore, hLength, hRead⟩ :=
    compound_reads isHeader_else hSuite hInstrs hLines
  obtain rfl : moreLines = [] := List.map_eq_nil_iff.1 hMore
  rw [List.append_nil, List.length_cons] at hBudget
  obtain ⟨budget, rfl⟩ : ∃ less, budget = less + 1 := ⟨budget - 1, by omega⟩
  have hWord : firstWord first.text = some "else".toList := hText ▸ isHeader_else.word []
  have hCompound := hRead tail budget (fun next hNext => (hTail next hNext).1) (by omega)
  refine ⟨?_, nextStarts_cons hIndent hWord "elif", ?_⟩
  · rintro _ ⟨⟩
    exact Nat.le_of_eq hIndent
  · rw [List.append_nil, List.cons_append, readElse,
      read_bind (nextStarts_cons hIndent hWord "else")]
    show (readCompound within first budget (bodyLines ++ tail) >>= _) = _
    rw [List.nil_append] at hCompound
    rw [hCompound]
    rfl

theorem Clauses.reads_last {otherwise : Otherwise} (hOtherwise : otherwise.Reads) :
    (Clauses.last otherwise).Reads := by
  intro within branches otherwise' hClauses tail budget line lines hLines hTail hBudget hPos
  obtain ⟨body', hBody, hPair⟩ := Option.bind_eq_some_iff.1 hClauses
  cases hPair
  obtain ⟨hNext, hElif, hRead⟩ := hOtherwise hBody tail budget hLines hTail hBudget hPos
  refine ⟨hNext, fun before word header test body hCompound hTest => ?_⟩
  rw [readBranches, read_bind hCompound]
  dsimp only
  rw [read_bind (read_onLine hTest), read_bind hElif, if_neg Bool.false_ne_true, read_bind hRead]
  rfl

theorem Clauses.reads_elif {header : List Char} {deeper : Nat} {suite : Suite} {rest : Clauses}
    (hHeader : ∀ {test}, Expr.readAfter "elif" header = .ok test → IsHeader "elif" header)
    (hSuite : suite.Reads) (hRest : rest.Reads) :
    (Clauses.elif header deeper suite rest).Reads := by
  intro within branches otherwise hClauses tail budget line lines hLines hTail hBudget hPos
  obtain ⟨test, hTest, hClauses⟩ := Option.bind_eq_some_iff.1 hClauses
  obtain ⟨body, hBody, hClauses⟩ := Option.bind_eq_some_iff.1 hClauses
  obtain ⟨others, hOthers, hPair⟩ := Option.bind_eq_some_iff.1 hClauses
  cases hPair
  have hTest := ok_of_toOption hTest
  rw [Clauses.lines] at hLines
  obtain ⟨first, bodyLines, moreLines, rfl, hIndent, hText, hMore, hLength, hRead⟩ :=
    compound_reads (hHeader hTest) hSuite hBody hLines
  rw [List.length_cons, List.length_append] at hBudget
  obtain ⟨budget, rfl⟩ : ∃ less, budget = less + 1 := ⟨budget - 1, by omega⟩
  have hWord : firstWord first.text = some "elif".toList := hText ▸ (hHeader hTest).word []
  rw [← hIndent] at hMore hTail
  obtain ⟨hNext, hBranches⟩ := hRest hOthers tail budget hMore hTail (by omega) (by omega)
  have hCompound := hRead tail budget (fun next h => hIndent ▸ hNext next h) (by omega)
  refine ⟨?_, fun before word header' test' body' hCompound' hTest' => ?_⟩
  · rintro _ ⟨⟩
    exact Nat.le_of_eq hIndent
  · rw [readBranches, read_bind hCompound']
    dsimp only
    rw [read_bind (read_onLine hTest'), List.cons_append,
      read_bind (nextStarts_cons hIndent hWord "elif"), List.append_assoc]
    show (readBranches within first "elif" (budget + 1) (bodyLines ++ (moreLines ++ tail)) >>= _) =
      _
    rw [hBranches hCompound hTest]
    rfl

/-! ### Statements -/

/-- A statement on one line. -/
theorem Tree.reads_line {tree : Tree} {code : List Char}
    (hLines : ∀ indent, tree.lines indent = [(indent, code)])
    (h : ∀ {within instrs}, tree.instrs within = some instrs →
      ∀ {first : LogicalLine} {budget rest}, first.text = code →
        first.startsWith "elif" = false ∧ first.startsWith "else" = false ∧
          readStatement within first (budget + 1) rest = .ok (instrs, rest)) :
    tree.Reads := by
  intro within instrs hInstrs tail budget indent lines hEntries hTail hBudget
  rw [hLines, List.map_eq_singleton_iff] at hEntries
  obtain ⟨first, rfl, hFirst⟩ := hEntries
  obtain ⟨budget, rfl⟩ : ∃ less, budget = less + 1 :=
    ⟨budget - 1, by rw [List.length_singleton] at hBudget; omega⟩
  have hIndent : first.indent = indent := congrArg Prod.fst hFirst
  obtain ⟨hElif, hElse, hRead⟩ := h hInstrs (congrArg Prod.snd hFirst : first.text = code)
  exact ⟨first, [], rfl, hIndent, hElif, hElse, hRead⟩

theorem Tree.reads_simple {code : List Char}
    (h : ∀ {statement}, Statement.read code = .ok statement → IsSimple code) :
    (Tree.simple code).Reads := by
  refine Tree.reads_line (fun _ => rfl) fun hInstrs first budget rest hText => ?_
  obtain ⟨statement, hRead, hPair⟩ := Option.bind_eq_some_iff.1 hInstrs
  cases hPair
  subst hText
  have hRead := ok_of_toOption hRead
  have hNot {word : String} (hWord : word ∈ leadingWords) : first.startsWith word = false := by
    rw [LogicalLine.startsWith, word?_eq]
    exact beq_eq_false_iff_ne.2 ((h hRead).word word hWord)
  exact ⟨hNot (by decide), hNot (by decide), readStatement_simple (h hRead) hRead⟩

/-- The instructions of the statement are those of a flow word and what stands behind it. -/
def Tree.IsFlow (tree : Tree) (keyword : FlowKeyword) (code : List Char) : Prop :=
  ∀ ⦃within : Surroundings⦄ ⦃instrs : List Instr⦄, tree.instrs within = some instrs →
    ∀ number, ∃ instr : Option Instr,
      flowInstr within keyword code number = .ok instr ∧ instrs = instr.toList

theorem Tree.isFlow_pass : Tree.pass.IsFlow .pass "pass".toList := by
  intro within instrs hInstrs number
  cases hInstrs
  exact ⟨none, rfl, rfl⟩

theorem Tree.isFlow_breakLoop : Tree.breakLoop.IsFlow .breakLoop "break".toList := by
  intro within instrs hInstrs number
  rw [Tree.instrs, Option.ite_none_right_eq_some] at hInstrs
  obtain ⟨hLoop, hInstrs⟩ := hInstrs
  cases hInstrs
  exact ⟨some .breakLoop, if_pos hLoop, rfl⟩

theorem Tree.isFlow_continueLoop : Tree.continueLoop.IsFlow .continueLoop "continue".toList := by
  intro within instrs hInstrs number
  rw [Tree.instrs, Option.ite_none_right_eq_some] at hInstrs
  obtain ⟨hLoop, hInstrs⟩ := hInstrs
  cases hInstrs
  exact ⟨some .continueLoop, if_pos hLoop, rfl⟩

theorem Tree.isFlow_returns (code : List Char) : (Tree.returns code).IsFlow .returnValue code := by
  intro within instrs hInstrs number
  obtain ⟨value, hRead, hInstrs⟩ := Option.bind_eq_some_iff.1 hInstrs
  have hRead := ok_of_toOption hRead
  rw [Option.ite_none_left_eq_some] at hInstrs
  obtain ⟨hAllowed, hInstrs⟩ := hInstrs
  cases hInstrs
  refine ⟨some (.returnValue value), ?_, rfl⟩
  rw [flowInstr, hRead]
  exact if_neg hAllowed

theorem Tree.reads_flow {keyword : FlowKeyword} {tree : Tree} {code : List Char}
    (hFlow : tree.IsFlow keyword code) (hLines : ∀ indent, tree.lines indent = [(indent, code)])
    (hWord : ∀ {within instrs}, tree.instrs within = some instrs →
      firstWord code = some keyword.word.toList) : tree.Reads := by
  refine Tree.reads_line hLines fun hInstrs first budget rest hText => ?_
  subst hText
  obtain ⟨instr, hInstr, rfl⟩ := hFlow hInstrs first.number
  have hNot : keyword.word.toList ≠ "elif".toList ∧ keyword.word.toList ≠ "else".toList := by
    cases keyword <;> decide
  obtain ⟨hElif, hElse⟩ := notClause_of_word (hWord hInstrs) hNot
  exact ⟨hElif, hElse, readStatement_flow (hWord hInstrs) hInstr⟩

theorem Tree.reads_returns {code : List Char}
    (h : ∀ {value}, Expr.readReturn code = .ok value → firstWord code = some "return".toList) :
    (Tree.returns code).Reads := by
  refine Tree.reads_flow (Tree.isFlow_returns code) (fun _ => rfl) fun hInstrs => ?_
  obtain ⟨value, hRead, -⟩ := Option.bind_eq_some_iff.1 hInstrs
  exact h (ok_of_toOption hRead)

theorem Tree.reads_conditional {header : List Char} {deeper : Nat} {suite : Suite} {rest : Clauses}
    (hHeader : ∀ {test}, Expr.readAfter "if" header = .ok test → IsHeader "if" header)
    (hSuite : suite.Reads) (hRest : rest.Reads) :
    (Tree.conditional header deeper suite rest).Reads := by
  intro within instrs hInstrs tail budget indent lines hLines hTail hBudget
  obtain ⟨test, hTest, hInstrs⟩ := Option.bind_eq_some_iff.1 hInstrs
  obtain ⟨body, hBody, hInstrs⟩ := Option.bind_eq_some_iff.1 hInstrs
  obtain ⟨others, hOthers, hPair⟩ := Option.bind_eq_some_iff.1 hInstrs
  cases hPair
  have hTest := ok_of_toOption hTest
  rw [Tree.lines] at hLines
  obtain ⟨first, bodyLines, moreLines, rfl, rfl, hText, hMore, hLength, hRead⟩ :=
    compound_reads (hHeader hTest) hSuite hBody hLines
  rw [List.length_cons, List.length_append] at hBudget
  obtain ⟨budget, rfl⟩ : ∃ less, budget = less + 1 + 1 := ⟨budget - 2, by omega⟩
  have hWord : firstWord first.text = some "if".toList := hText ▸ (hHeader hTest).word []
  obtain ⟨hElif, hElse⟩ := notClause_of_word hWord (by decide)
  obtain ⟨hNext, hBranches⟩ := hRest hOthers tail budget hMore hTail (by omega) (by omega)
  have hCompound := hRead tail budget hNext (by omega)
  refine ⟨first, bodyLines ++ moreLines, rfl, rfl, hElif, hElse, ?_⟩
  rw [compoundSteps.conditional hWord, List.append_assoc, read_bind (hBranches hCompound hTest)]
  rfl

/-- A loop: its header, its body and its `else`. -/
theorem Tree.reads_loop (word : String) {tree : Tree} {header : List Char} {deeper : Nat}
    {suite : Suite} {otherwise : Otherwise} (hSuite : suite.Reads)
    (hOtherwise : otherwise.Reads) (hLines : ∀ indent, tree.lines indent =
      headerLine indent header :: (suite.lines (indent + deeper + 1) ++ otherwise.lines indent))
    (hNot : word.toList ≠ "elif".toList ∧ word.toList ≠ "else".toList)
    (h : ∀ {within instrs}, tree.instrs within = some instrs → IsHeader word header ∧
      ∃ body else_, suite.instrs within.looping = some body ∧
        otherwise.instrs within = some else_ ∧
        ∀ {first : LogicalLine} {budget before middle after},
          firstWord first.text = some word.toList →
          readCompound within.looping first budget before = .ok ((header, body), middle) →
          readElse within first.indent budget middle = .ok (else_, after) →
          readStatement within first (budget + 1) before = .ok (instrs, after)) :
    tree.Reads := by
  intro within instrs hInstrs tail budget indent lines hEntries hTail hBudget
  obtain ⟨hHeader, body, else_, hBody, hElse, hStatement⟩ := h hInstrs
  rw [hLines] at hEntries
  obtain ⟨first, bodyLines, moreLines, rfl, rfl, hText, hMore, hLength, hRead⟩ :=
    compound_reads hHeader hSuite hBody hEntries
  rw [List.length_cons, List.length_append] at hBudget
  obtain ⟨budget, rfl⟩ : ∃ less, budget = less + 1 := ⟨budget - 1, by omega⟩
  have hWord : firstWord first.text = some word.toList := hText ▸ hHeader.word []
  obtain ⟨hNotElif, hNotElse⟩ := notClause_of_word hWord hNot
  obtain ⟨hNext, -, hReadElse⟩ :=
    hOtherwise hElse tail budget hMore hTail (by omega) (by omega)
  have hCompound := hRead tail budget hNext (by omega)
  refine ⟨first, bodyLines ++ moreLines, rfl, rfl, hNotElif, hNotElse, ?_⟩
  rw [List.append_assoc]
  exact hStatement hWord hCompound hReadElse

theorem Tree.reads_forLoop {header : List Char} {deeper : Nat} {suite : Suite}
    {otherwise : Otherwise}
    (hHeader : ∀ {read}, readForHeader header = .ok read → IsHeader "for" header)
    (hSuite : suite.Reads) (hOtherwise : otherwise.Reads) :
    (Tree.forLoop header deeper suite otherwise).Reads := by
  refine Tree.reads_loop "for" hSuite hOtherwise (fun _ => by rw [Tree.lines]) (by decide)
    fun hInstrs => ?_
  obtain ⟨read, hRead, hInstrs⟩ := Option.bind_eq_some_iff.1 hInstrs
  obtain ⟨body, hBody, hInstrs⟩ := Option.bind_eq_some_iff.1 hInstrs
  obtain ⟨else_, hElse, hPair⟩ := Option.bind_eq_some_iff.1 hInstrs
  cases hPair
  have hRead := ok_of_toOption hRead
  refine ⟨hHeader hRead, body, else_, hBody, hElse, fun hWord hCompound hReadElse => ?_⟩
  rw [compoundSteps.forLoop hWord, read_bind hCompound]
  dsimp only
  rw [read_bind hReadElse, read_bind (read_onLine hRead)]
  rfl

theorem Tree.reads_whileLoop {header : List Char} {deeper : Nat} {suite : Suite}
    {otherwise : Otherwise}
    (hHeader : ∀ {test}, Expr.readAfter "while" header = .ok test → IsHeader "while" header)
    (hSuite : suite.Reads) (hOtherwise : otherwise.Reads) :
    (Tree.whileLoop header deeper suite otherwise).Reads := by
  refine Tree.reads_loop "while" hSuite hOtherwise (fun _ => by rw [Tree.lines])
    (by decide) fun hInstrs => ?_
  obtain ⟨test, hTest, hInstrs⟩ := Option.bind_eq_some_iff.1 hInstrs
  obtain ⟨body, hBody, hInstrs⟩ := Option.bind_eq_some_iff.1 hInstrs
  obtain ⟨else_, hElse, hPair⟩ := Option.bind_eq_some_iff.1 hInstrs
  cases hPair
  have hTest := ok_of_toOption hTest
  refine ⟨hHeader hTest, body, else_, hBody, hElse, fun hWord hCompound hReadElse => ?_⟩
  rw [compoundSteps.whileLoop hWord, read_bind hCompound]
  dsimp only
  rw [read_bind hReadElse, read_bind (read_onLine hTest)]
  rfl

theorem Tree.reads_define {header : List Char} {deeper : Nat} {suite : Suite}
    (hHeader : ∀ {read}, readDefinitionHeader header = .ok read → IsHeader "def" header)
    (hSuite : suite.Reads) : (Tree.define header deeper suite).Reads := by
  intro within instrs hInstrs tail budget indent lines hLines hTail hBudget
  obtain ⟨read, hRead, hInstrs⟩ := Option.bind_eq_some_iff.1 hInstrs
  obtain ⟨body, hBody, hPair⟩ := Option.bind_eq_some_iff.1 hInstrs
  cases hPair
  have hRead := ok_of_toOption hRead
  rw [Tree.lines, ← List.append_nil (suite.lines _)] at hLines
  obtain ⟨first, bodyLines, moreLines, rfl, rfl, hText, hMore, hLength, hCompound⟩ :=
    compound_reads (hHeader hRead) hSuite hBody hLines
  obtain rfl : moreLines = [] := List.map_eq_nil_iff.1 hMore
  rw [List.append_nil, List.length_cons] at hBudget
  obtain ⟨budget, rfl⟩ : ∃ less, budget = less + 1 := ⟨budget - 1, by omega⟩
  have hWord : firstWord first.text = some "def".toList := hText ▸ (hHeader hRead).word []
  obtain ⟨hElif, hElse⟩ := notClause_of_word hWord (by decide)
  refine ⟨first, bodyLines ++ [], rfl, rfl, hElif, hElse, ?_⟩
  rw [compoundSteps.definition hWord, List.append_assoc,
    read_bind (hCompound tail budget (fun next hNext => (hTail next hNext).1) (by omega))]
  dsimp only
  rw [read_bind (read_onLine hRead)]
  rfl

/-! ### Blocks -/

theorem Suite.reads_one {tree : Tree} (hTree : tree.Reads) : (Suite.one tree).Reads := by
  intro within instrs hInstrs tail budget indent lines hLines hTail hBudget
  obtain ⟨budget, rfl⟩ : ∃ less, budget = less + 1 := ⟨budget - 1, by omega⟩
  have hEnds : Ends indent tail := fun next hNext =>
    have hLess := hTail next hNext
    ⟨Nat.le_of_lt hLess, fun hSame => absurd hSame (Nat.ne_of_lt hLess)⟩
  obtain ⟨first, others, rfl, hIndent, hElif, hElse, hRead⟩ :=
    hTree hInstrs tail budget hLines hEnds (by omega)
  refine ⟨first, others, rfl, hIndent, hElif, hElse, ?_⟩
  obtain ⟨budget, rfl⟩ : ∃ less, budget = less + 1 :=
    ⟨budget - 1, by rw [List.length_cons] at hBudget; omega⟩
  rw [List.cons_append, readBlock_cons hIndent hRead, readBlock_end hTail]
  show Except.ok (instrs ++ [], tail) = _
  rw [List.append_nil]

theorem Suite.reads_more {tree : Tree} {suite : Suite} (hTree : tree.Reads)
    (hSuite : suite.Reads) : (Suite.more tree suite).Reads := by
  intro within instrs hInstrs tail budget indent lines hLines hTail hBudget
  obtain ⟨first, hFirst, hInstrs⟩ := Option.bind_eq_some_iff.1 hInstrs
  obtain ⟨rest, hRest, hPair⟩ := Option.bind_eq_some_iff.1 hInstrs
  cases hPair
  obtain ⟨treeLines, restLines, rfl, hTreeLines, hRestLines⟩ := List.map_eq_append_iff.1 hLines
  rw [List.length_append] at hBudget
  obtain ⟨budget, rfl⟩ : ∃ less, budget = less + 1 := ⟨budget - 1, by omega⟩
  have hSome : 1 ≤ treeLines.length := by
    obtain ⟨next, others, rfl, -⟩ :=
      hTree hFirst [] _ hTreeLines (by simp [Ends]) (Nat.le_refl _)
    exact Nat.le_add_left 1 _
  obtain ⟨next, others, rfl, hNext, hNextElif, hNextElse, hReadRest⟩ :=
    hSuite hRest tail budget hRestLines hTail (by omega)
  have hEnds : Ends indent (next :: others ++ tail) := by
    rintro _ ⟨⟩
    exact ⟨Nat.le_of_eq hNext, fun _ => ⟨hNextElif, hNextElse⟩⟩
  obtain ⟨line, below, rfl, hIndent, hElif, hElse, hRead⟩ :=
    hTree hFirst _ budget hTreeLines hEnds (by omega)
  refine ⟨line, below ++ next :: others, rfl, hIndent, hElif, hElse, ?_⟩
  rw [List.append_assoc, List.cons_append, readBlock_cons hIndent hRead, hReadRest]
  rfl

mutual

theorem Tree.reads : ∀ {tree : Tree}, tree.HasLines → tree.Reads
  | .simple _, h => Tree.reads_simple fun hRead => isSimple_of_read h hRead
  | .pass, _ => Tree.reads_flow Tree.isFlow_pass (fun _ => rfl) fun _ => by decide
  | .breakLoop, _ => Tree.reads_flow Tree.isFlow_breakLoop (fun _ => rfl) fun _ => by decide
  | .continueLoop, _ => Tree.reads_flow Tree.isFlow_continueLoop (fun _ => rfl) fun _ => by decide
  | .returns _, h => Tree.reads_returns fun hRead => (isLogical_of_readReturn h hRead).2.1
  | .conditional .., h =>
      Tree.reads_conditional (fun hRead => isHeader_of_readAfter h.1 hRead) (Suite.reads h.2.1)
        (Clauses.reads h.2.2)
  | .forLoop .., h =>
      Tree.reads_forLoop (fun hRead => isHeader_of_readForHeader h.1 hRead) (Suite.reads h.2.1)
        (Otherwise.reads h.2.2)
  | .whileLoop .., h =>
      Tree.reads_whileLoop (fun hRead => isHeader_of_readAfter h.1 hRead) (Suite.reads h.2.1)
        (Otherwise.reads h.2.2)
  | .define .., h =>
      Tree.reads_define (fun hRead => isHeader_of_readDefinitionHeader h.1 hRead) (Suite.reads h.2)

/-- A block is read from the lines of its statements. -/
theorem Suite.reads : ∀ {suite : Suite}, suite.HasLines → suite.Reads
  | .one _, h => Suite.reads_one (Tree.reads h)
  | .more .., h => Suite.reads_more (Tree.reads h.1) (Suite.reads h.2)

theorem Clauses.reads : ∀ {clauses : Clauses}, clauses.HasLines → clauses.Reads
  | .last _, h => Clauses.reads_last (Otherwise.reads h)
  | .elif .., h =>
      Clauses.reads_elif (fun hRead => isHeader_of_readAfter h.1 hRead) (Suite.reads h.2.1)
        (Clauses.reads h.2.2)

theorem Otherwise.reads : ∀ {otherwise : Otherwise}, otherwise.HasLines → otherwise.Reads
  | .nothing, _ => Otherwise.reads_nothing
  | .body .., h => Otherwise.reads_body (Suite.reads h)

end

/-! ## Whole texts -/

/-- The lines of a header and the body below it are logical lines. -/
theorem isLogical_compound {word : String} {header : List Char} (hHeader : IsHeader word header)
    {body more : List TreeLine} (hBody : ∀ line ∈ body, IsLogical line.2)
    (hMore : ∀ line ∈ more, IsLogical line.2) :
    ∀ line ∈ headerLine indent header :: (body ++ more), IsLogical line.2 :=
  List.forall_mem_cons.2 ⟨hHeader.logical, List.forall_mem_append.2 ⟨hBody, hMore⟩⟩

theorem isLogical_word : ∀ word ∈ ["pass", "break", "continue"], IsLogical word.toList := by
  have hStarts : ∀ word ∈ ["pass", "break", "continue"], '\n' ∉ word.toList ∧
      trim word.toList = word.toList ∧ isOpen word.toList = false := by decide +kernel
  intro word hWord
  obtain ⟨hLine, hTrim, hOpen⟩ := hStarts word hWord
  refine ⟨hLine, hTrim, hOpen, ?_⟩
  simp only [List.mem_cons, List.not_mem_nil, or_false] at hWord
  rcases hWord with rfl | rfl | rfl
  · exact ⟨'p', "ass".toList, rfl, by decide⟩
  · exact ⟨'b', "reak".toList, rfl, by decide⟩
  · exact ⟨'c', "ontinue".toList, rfl, by decide⟩

mutual

/-- The lines of a statement that has instructions are logical lines. -/
theorem Tree.isLogical_lines : ∀ {tree : Tree} {within : Surroundings} {instrs : List Instr}
    {indent : Nat}, tree.HasLines → tree.instrs within = some instrs →
      ∀ line ∈ tree.lines indent, IsLogical line.2
  | .simple _, _, _, _, h, hInstrs => by
      obtain ⟨statement, hRead, -⟩ := Option.bind_eq_some_iff.1 hInstrs
      exact List.forall_mem_singleton.2 (isSimple_of_read h (ok_of_toOption hRead)).logical
  | .pass, _, _, _, _, _ => List.forall_mem_singleton.2 (isLogical_word "pass" (by decide))
  | .breakLoop, _, _, _, _, _ => List.forall_mem_singleton.2 (isLogical_word "break" (by decide))
  | .continueLoop, _, _, _, _, _ =>
      List.forall_mem_singleton.2 (isLogical_word "continue" (by decide))
  | .returns _, _, _, _, h, hInstrs => by
      obtain ⟨value, hRead, -⟩ := Option.bind_eq_some_iff.1 hInstrs
      exact List.forall_mem_singleton.2 (isLogical_of_readReturn h (ok_of_toOption hRead)).1
  | .conditional .., _, _, _, h, hInstrs => by
      obtain ⟨test, hRead, hInstrs⟩ := Option.bind_eq_some_iff.1 hInstrs
      obtain ⟨body, hBody, hInstrs⟩ := Option.bind_eq_some_iff.1 hInstrs
      obtain ⟨rest, hRest, -⟩ := Option.bind_eq_some_iff.1 hInstrs
      exact isLogical_compound (isHeader_of_readAfter h.1 (ok_of_toOption hRead))
        (Suite.isLogical_lines h.2.1 hBody) (Clauses.isLogical_lines h.2.2 hRest)
  | .forLoop .., _, _, _, h, hInstrs => by
      obtain ⟨read, hRead, hInstrs⟩ := Option.bind_eq_some_iff.1 hInstrs
      obtain ⟨body, hBody, hInstrs⟩ := Option.bind_eq_some_iff.1 hInstrs
      obtain ⟨rest, hRest, -⟩ := Option.bind_eq_some_iff.1 hInstrs
      exact isLogical_compound (isHeader_of_readForHeader h.1 (ok_of_toOption hRead))
        (Suite.isLogical_lines h.2.1 hBody) (Otherwise.isLogical_lines h.2.2 hRest)
  | .whileLoop .., _, _, _, h, hInstrs => by
      obtain ⟨test, hRead, hInstrs⟩ := Option.bind_eq_some_iff.1 hInstrs
      obtain ⟨body, hBody, hInstrs⟩ := Option.bind_eq_some_iff.1 hInstrs
      obtain ⟨rest, hRest, -⟩ := Option.bind_eq_some_iff.1 hInstrs
      exact isLogical_compound (isHeader_of_readAfter h.1 (ok_of_toOption hRead))
        (Suite.isLogical_lines h.2.1 hBody) (Otherwise.isLogical_lines h.2.2 hRest)
  | .define .., _, _, _, h, hInstrs => by
      obtain ⟨read, hRead, hInstrs⟩ := Option.bind_eq_some_iff.1 hInstrs
      obtain ⟨body, hBody, -⟩ := Option.bind_eq_some_iff.1 hInstrs
      exact List.forall_mem_cons.2
        ⟨(isHeader_of_readDefinitionHeader h.1 (ok_of_toOption hRead)).logical,
          Suite.isLogical_lines h.2 hBody⟩

theorem Suite.isLogical_lines : ∀ {suite : Suite} {within : Surroundings} {instrs : List Instr}
    {indent : Nat}, suite.HasLines → suite.instrs within = some instrs →
      ∀ line ∈ suite.lines indent, IsLogical line.2
  | .one _, _, _, _, h, hInstrs => Tree.isLogical_lines h hInstrs
  | .more .., _, _, _, h, hInstrs => by
      obtain ⟨first, hFirst, hInstrs⟩ := Option.bind_eq_some_iff.1 hInstrs
      obtain ⟨rest, hRest, -⟩ := Option.bind_eq_some_iff.1 hInstrs
      exact List.forall_mem_append.2
        ⟨Tree.isLogical_lines h.1 hFirst, Suite.isLogical_lines h.2 hRest⟩

theorem Clauses.isLogical_lines : ∀ {clauses : Clauses} {within : Surroundings}
    {rest : List (Expr × List Instr) × Option (List Instr)} {indent : Nat}, clauses.HasLines →
      clauses.instrs within = some rest → ∀ line ∈ clauses.lines indent, IsLogical line.2
  | .last _, _, _, _, h, hInstrs => by
      obtain ⟨otherwise, hOtherwise, -⟩ := Option.bind_eq_some_iff.1 hInstrs
      exact Otherwise.isLogical_lines h hOtherwise
  | .elif .., _, _, _, h, hInstrs => by
      obtain ⟨test, hRead, hInstrs⟩ := Option.bind_eq_some_iff.1 hInstrs
      obtain ⟨body, hBody, hInstrs⟩ := Option.bind_eq_some_iff.1 hInstrs
      obtain ⟨rest, hRest, -⟩ := Option.bind_eq_some_iff.1 hInstrs
      exact isLogical_compound (isHeader_of_readAfter h.1 (ok_of_toOption hRead))
        (Suite.isLogical_lines h.2.1 hBody) (Clauses.isLogical_lines h.2.2 hRest)

theorem Otherwise.isLogical_lines : ∀ {otherwise : Otherwise} {within : Surroundings}
    {body : Option (List Instr)} {indent : Nat}, otherwise.HasLines →
      otherwise.instrs within = some body → ∀ line ∈ otherwise.lines indent, IsLogical line.2
  | .nothing, _, _, _, _, _ => fun _ hLine => absurd hLine List.not_mem_nil
  | .body .., _, _, _, h, hInstrs => by
      obtain ⟨body, hBody, -⟩ := Option.map_eq_some_iff.1 hInstrs
      exact List.forall_mem_cons.2 ⟨isHeader_else.logical, Suite.isLogical_lines h hBody⟩

end

theorem length_le_extent (lines : List LogicalLine) : lines.length ≤ extent lines := by
  induction lines with
  | nil => exact Nat.le_refl 0
  | cons line rest ih =>
      rw [extent, List.length_cons]
      omega

/-- A text that is written for statements is compiled to their instructions. -/
theorem compile_pads {suite : Suite} (h : suite.HasLines) {instrs : List Instr}
    (hInstrs : suite.instrs within = some instrs) {text : List Char}
    (hText : Pads (suite.lines 0) (Text.lines text)) (number : Nat) :
    compile within text number = .ok instrs := by
  obtain ⟨logical, hLogical, hEntries⟩ :=
    joinLines_pads hText (Suite.isLogical_lines h hInstrs) number
  have hBudget : 4 * logical.length + 1 ≤ budgetFor logical := by
    have hExtent := length_le_extent logical
    rw [budgetFor]
    omega
  obtain ⟨-, -, -, -, -, -, hRead⟩ :=
    Suite.reads h hInstrs [] _ hEntries (by simp) hBudget
  rw [List.append_nil] at hRead
  rw [compile, logicalLines, hLogical]
  show (readBlock within 0 (budgetFor logical) logical >>= _) = _
  rw [hRead]
  rfl

end Stencil.CodeBlock
