import Stencil.CodeBlock

/-!
# Trees of statements and their lines

A code block is written for a tree of statements. A tree holds the code of every statement and
header as it is written, and it says how much deeper than its header each body is indented. Printing
gives lines, each with its indentation; reading is to give the instructions that the tree stands for
back.

The text of a block may hold more than the lines of the tree: lines that are blank, and comments
that stand on lines of their own, indented as they may be. A line of code that is complete is one
logical line, and its indentation is the number of spaces before it. Fillers leave no trace but in
the numbers of the lines after them.

## Main results

* `joinLines_pads`: the logical lines of a padded text are the lines it was written for.
-/

namespace Stencil.CodeBlock

open Stencil.Text

/-! ## Trees -/

mutual

/-- A statement. The body of a compound statement is indented deeper than its header by one space
and as many more as is said. -/
inductive Tree where
  /-- A statement without a body. -/
  | simple (code : List Char)
  | pass
  | breakLoop
  | continueLoop
  /-- A `return`, with its value or without. -/
  | returns (code : List Char)
  | conditional (header : List Char) (deeper : Nat) (body : Suite) (rest : Clauses)
  | forLoop (header : List Char) (deeper : Nat) (body : Suite) (otherwise : Otherwise)
  | whileLoop (header : List Char) (deeper : Nat) (body : Suite) (otherwise : Otherwise)
  | define (header : List Char) (deeper : Nat) (body : Suite)

/-- Statements one after another, at least one. -/
inductive Suite where
  | one (first : Tree)
  | more (first : Tree) (rest : Suite)

/-- What follows the first branch of a conditional. -/
inductive Clauses where
  | last (otherwise : Otherwise)
  | elif (header : List Char) (deeper : Nat) (body : Suite) (rest : Clauses)

/-- An `else`, or none. -/
inductive Otherwise where
  | nothing
  | body (deeper : Nat) (body : Suite)

end

/-- A line: how far it is indented, and its text. -/
abbrev TreeLine := Nat × List Char

/-- A header and its colon. -/
def headerLine (indent : Nat) (header : List Char) : TreeLine := (indent, header ++ [':'])

/-- The header of an `else`. -/
def elseWord : List Char := "else".toList

/-! ## Printing -/

mutual

/-- The lines of a statement that is indented by this much. -/
def Tree.lines (indent : Nat) : Tree → List TreeLine
  | .simple code => [(indent, code)]
  | .pass => [(indent, "pass".toList)]
  | .breakLoop => [(indent, "break".toList)]
  | .continueLoop => [(indent, "continue".toList)]
  | .returns code => [(indent, code)]
  | .conditional header deeper body rest =>
      headerLine indent header :: (body.lines (indent + deeper + 1) ++ rest.lines indent)
  | .forLoop header deeper body otherwise =>
      headerLine indent header :: (body.lines (indent + deeper + 1) ++ otherwise.lines indent)
  | .whileLoop header deeper body otherwise =>
      headerLine indent header :: (body.lines (indent + deeper + 1) ++ otherwise.lines indent)
  | .define header deeper body => headerLine indent header :: body.lines (indent + deeper + 1)

/-- The lines of statements that are indented by this much. -/
def Suite.lines (indent : Nat) : Suite → List TreeLine
  | .one first => first.lines indent
  | .more first rest => first.lines indent ++ rest.lines indent

/-- The lines of the clauses of a conditional that is indented by this much. -/
def Clauses.lines (indent : Nat) : Clauses → List TreeLine
  | .last otherwise => otherwise.lines indent
  | .elif header deeper body rest =>
      headerLine indent header :: (body.lines (indent + deeper + 1) ++ rest.lines indent)

/-- The lines of an `else` of a statement that is indented by this much. -/
def Otherwise.lines (indent : Nat) : Otherwise → List TreeLine
  | .nothing => []
  | .body deeper body => headerLine indent elseWord :: body.lines (indent + deeper + 1)

end

/-! ## Meaning -/

mutual

/-- The instructions of a statement. There are none when its code is no code of its kind, or when it
stands where it must not. -/
def Tree.instrs (within : Surroundings) : Tree → Option (List Instr)
  | .simple code => do
      let statement ← (Statement.read code).toOption
      return [.execute statement]
  | .pass => some []
  | .breakLoop => if within.inLoop then some [.breakLoop] else none
  | .continueLoop => if within.inLoop then some [.continueLoop] else none
  | .returns code => do
      let value ← (Expr.readReturn code).toOption
      if value.isSome && !within.inDefinition then none else some [.returnValue value]
  | .conditional header _ body rest => do
      let test ← (Expr.readAfter "if" header).toOption
      let body ← body.instrs within
      let (branches, otherwise) ← rest.instrs within
      return [.branch ((test, body) :: branches) otherwise]
  | .forLoop header _ body otherwise => do
      let (target, items) ← (readForHeader header).toOption
      let body ← body.instrs within.looping
      let otherwise ← otherwise.instrs within
      return [.forLoop target items body otherwise false]
  | .whileLoop header _ body otherwise => do
      let test ← (Expr.readAfter "while" header).toOption
      let body ← body.instrs within.looping
      let otherwise ← otherwise.instrs within
      return [.whileLoop test body otherwise]
  | .define header _ body => do
      let (name, parameters) ← (readDefinitionHeader header).toOption
      let body ← body.instrs within.defining
      return [.define .procedure name parameters body]

/-- The instructions of statements. -/
def Suite.instrs (within : Surroundings) : Suite → Option (List Instr)
  | .one first => first.instrs within
  | .more first rest => do
      let first ← first.instrs within
      let rest ← rest.instrs within
      return first ++ rest

/-- The branches after the first one of a conditional, and the body of its `else`. -/
def Clauses.instrs (within : Surroundings) :
    Clauses → Option (List (Expr × List Instr) × Option (List Instr))
  | .last otherwise => do
      let otherwise ← otherwise.instrs within
      return ([], otherwise)
  | .elif header _ body rest => do
      let test ← (Expr.readAfter "elif" header).toOption
      let body ← body.instrs within
      let (branches, otherwise) ← rest.instrs within
      return ((test, body) :: branches, otherwise)

/-- The body of an `else`. -/
def Otherwise.instrs (within : Surroundings) : Otherwise → Option (Option (List Instr))
  | .nothing => some none
  | .body _ body => some <$> body.instrs within

end

/-! ## Code on one line -/

/-- The code is written on one line, without blanks around it, and does not go on to the next
line. -/
structure IsLine (code : List Char) : Prop where
  oneLine : '\n' ∉ code
  trimmed : trim code = code
  ends : code.getLast? ≠ some '\\'

/-- A colon that is written behind the code is not part of a comment. -/
structure IsHeaderLine (code : List Char) : Prop extends IsLine code where
  noComment : ∀ tokens, strictTokens code = .ok tokens → ∀ t ∈ tokens, t.kind ≠ .comment

instance : DecidablePred IsLine := fun code =>
  decidable_of_iff ('\n' ∉ code ∧ trim code = code ∧ code.getLast? ≠ some '\\')
    ⟨fun h => ⟨h.1, h.2.1, h.2.2⟩, fun h => ⟨h.oneLine, h.trimmed, h.ends⟩⟩

instance : DecidablePred IsHeaderLine := fun code =>
  match hTokens : strictTokens code with
  | .ok tokens => decidable_of_iff (IsLine code ∧ ∀ t ∈ tokens, t.kind ≠ .comment)
      ⟨fun h => ⟨h.1, fun found hFound => by
          rw [hTokens] at hFound
          cases hFound
          exact h.2⟩, fun h => ⟨h.toIsLine, h.noComment tokens hTokens⟩⟩
  | .error fault => decidable_of_iff (IsLine code)
      ⟨fun h => ⟨h, fun found hFound => by
          rw [hTokens] at hFound
          cases hFound⟩, fun h => h.toIsLine⟩

mutual

/-- All code of the statement is on lines of its own. -/
def Tree.HasLines : Tree → Prop
  | .simple code => IsLine code
  | .returns code => IsLine code
  | .conditional header _ body rest => IsHeaderLine header ∧ body.HasLines ∧ rest.HasLines
  | .forLoop header _ body otherwise => IsHeaderLine header ∧ body.HasLines ∧ otherwise.HasLines
  | .whileLoop header _ body otherwise => IsHeaderLine header ∧ body.HasLines ∧ otherwise.HasLines
  | .define header _ body => IsHeaderLine header ∧ body.HasLines
  | _ => True

/-- All code of the statements is on lines of its own. -/
def Suite.HasLines : Suite → Prop
  | .one first => first.HasLines
  | .more first rest => first.HasLines ∧ rest.HasLines

/-- All code of the clauses is on lines of its own. -/
def Clauses.HasLines : Clauses → Prop
  | .last otherwise => otherwise.HasLines
  | .elif header _ body rest => IsHeaderLine header ∧ body.HasLines ∧ rest.HasLines

/-- All code of the `else` is on lines of its own. -/
def Otherwise.HasLines : Otherwise → Prop
  | .nothing => True
  | .body _ body => body.HasLines

end

/-! ## Texts -/

/-- A line that says nothing: a blank one, or a comment with spaces before it. -/
inductive IsFiller : List Char → Prop
  | blank {line : List Char} (h : allBlank line = true) : IsFiller line
  | comment (spaces : Nat) (content : List Char) :
      IsFiller (List.replicate spaces ' ' ++ '#' :: content)

/-- The lines of a text are these lines, each with its indentation, and fillers between them. -/
inductive Pads : List TreeLine → List (List Char) → Prop
  | nil : Pads [] []
  | filler {lines : List TreeLine} {line : List Char} {rest : List (List Char)} (h : IsFiller line)
      (hRest : Pads lines rest) : Pads lines (line :: rest)
  | line (indent : Nat) (code : List Char) {lines : List TreeLine} {rest : List (List Char)}
      (hRest : Pads lines rest) :
      Pads ((indent, code) :: lines) ((List.replicate indent ' ' ++ code) :: rest)

end Stencil.CodeBlock

namespace Stencil.Text

/-! ## Trimmed texts -/

theorem dropWhile_eq_self {p : Char → Bool} {text : List Char}
    (h : ∀ c ∈ text.head?, p c = false) : text.dropWhile p = text := by
  cases text with
  | nil => rfl
  | cons c rest => rw [List.dropWhile_cons_of_neg (Bool.eq_false_iff.1 (h c rfl))]

theorem head?_dropWhile (p : Char → Bool) (text : List Char) :
    ∀ c ∈ (text.dropWhile p).head?, p c = false := by
  intro c hc
  have hHead := List.head?_dropWhile_not p text
  rwa [Option.mem_def.1 hc] at hHead

/-- A text is trimmed when it starts and ends with a character that is not blank. -/
theorem trim_eq_self_iff {text : List Char} : trim text = text ↔
    (∀ c ∈ text.head?, isBlank c = false) ∧ ∀ c ∈ text.getLast?, isBlank c = false := by
  constructor
  · intro h
    have hStart : trimStart text = text := by
      refine (List.dropWhile_sublist isBlank).eq_of_length_le ?_
      conv => lhs; rw [← h]
      exact length_trimEnd_le _
    have hEnd : trimEnd text = text := by rwa [trim, hStart] at h
    constructor
    · rw [← hStart]
      exact head?_dropWhile isBlank text
    · rw [← hEnd, trimEnd, List.getLast?_reverse]
      exact head?_dropWhile isBlank _
  · rintro ⟨hStart, hEnd⟩
    have hReverse : text.reverse.dropWhile isBlank = text.reverse :=
      dropWhile_eq_self (by rwa [List.head?_reverse])
    rw [trim, trimStart, dropWhile_eq_self hStart, trimEnd, hReverse, List.reverse_reverse]

theorem trimEnd_eq_self {text : List Char} (h : trim text = text) : trimEnd text = text := by
  have hReverse : text.reverse.dropWhile isBlank = text.reverse :=
    dropWhile_eq_self (by rw [List.head?_reverse]; exact (trim_eq_self_iff.1 h).2)
  rw [trimEnd, hReverse, List.reverse_reverse]

/-! ## Spaces -/

theorem dropSpaces_replicate (spaces : Nat) {text : List Char} (h : text.head? ≠ some ' ') :
    dropSpaces (List.replicate spaces ' ' ++ text) = text := by
  rw [dropSpaces, List.dropWhile_append_of_pos (by simp)]
  exact dropWhile_eq_self fun c hc => beq_eq_false_iff_ne.2 fun hSpace => h (hSpace ▸ hc)

theorem leadingSpaces_replicate (spaces : Nat) {text : List Char} (h : text.head? ≠ some ' ') :
    leadingSpaces (List.replicate spaces ' ' ++ text) = spaces := by
  have hNone : text.takeWhile (· == ' ') = [] := by
    cases text with
    | nil => rfl
    | cons c rest =>
        refine List.takeWhile_cons_of_neg fun hSpace => h ?_
        rw [beq_iff_eq.1 hSpace]
        rfl
  rw [leadingSpaces, List.takeWhile_append_of_pos (by simp), hNone, List.append_nil,
    List.length_replicate]

theorem allBlank_dropSpaces {line : List Char} (h : allBlank line = true) :
    allBlank (dropSpaces line) = true :=
  List.all_eq_true.2 fun c hc =>
    List.all_eq_true.1 h c ((List.dropWhile_sublist _).mem hc)

end Stencil.Text

namespace Stencil.CodeBlock

open Stencil.Text

/-- The text is a whole logical line that is written on one line. -/
structure IsLogical (text : List Char) : Prop where
  oneLine : '\n' ∉ text
  trimmed : trim text = text
  closed : isOpen text = false
  starts : ∃ c rest, text = c :: rest ∧ c ≠ '#'

theorem IsLogical.head_not_blank {text : List Char} (h : IsLogical text) :
    ∃ c rest, text = c :: rest ∧ c ≠ '#' ∧ isBlank c = false := by
  obtain ⟨c, rest, rfl, hc⟩ := h.starts
  exact ⟨c, rest, rfl, hc, (trim_eq_self_iff.1 h.trimmed).1 c rfl⟩

theorem joinLines_filler {line : List Char} (h : IsFiller line) (number : Nat)
    (rest : List (List Char)) :
    joinLines none number (line :: rest) = joinLines none (number + 1) rest := by
  rw [joinLines]
  refine if_pos ?_
  cases h with
  | blank h =>
      rw [allBlank_dropSpaces h]
      rfl
  | comment spaces content =>
      rw [dropSpaces_replicate spaces (by simp)]
      exact Bool.or_true _

theorem joinLines_line (indent : Nat) {code : List Char} (h : IsLogical code) (number : Nat)
    (rest : List (List Char)) :
    joinLines none number ((List.replicate indent ' ' ++ code) :: rest) =
      (⟨indent, code, number⟩ :: ·) <$> joinLines none (number + 1) rest := by
  obtain ⟨c, others, rfl, hComment, hBlank⟩ := h.head_not_blank
  have hNot {d : Char} (hd : isBlank d = true) : c ≠ d := by
    rintro rfl
    rw [hd] at hBlank
    cases hBlank
  have hHead : (c :: others).head? ≠ some ' ' := fun hSpace =>
    hNot (d := ' ') rfl (Option.some.inj hSpace)
  have hCode : (allBlank (c :: others) || (c :: others).head? == some '#') = false := by
    simp [allBlank, hBlank, hComment]
  have hTab : ((c :: others).head? == some '\t') = false :=
    beq_eq_false_iff_ne.2 fun hTab => hNot (d := '\t') rfl (Option.some.inj hTab)
  rw [joinLines, dropSpaces_replicate indent hHead, leadingSpaces_replicate indent hHead]
  simp only [hCode, hTab, Bool.false_eq_true, if_false, trimEnd_eq_self h.trimmed]
  rw [joinLines.finish, h.closed]
  rfl

/-- What a logical line is to the readers, but for its number. -/
def LogicalLine.entry (line : LogicalLine) : TreeLine := (line.indent, line.text)

/-- The logical lines of a padded text are the lines it was written for. -/
theorem joinLines_pads {lines : List TreeLine} {physical : List (List Char)}
    (h : Pads lines physical) (hLines : ∀ line ∈ lines, IsLogical line.2) (number : Nat) :
    ∃ logical, joinLines none number physical = .ok logical ∧
      logical.map LogicalLine.entry = lines := by
  induction h generalizing number with
  | nil => exact ⟨[], by rw [joinLines], rfl⟩
  | filler h hRest ih =>
      rw [joinLines_filler h]
      exact ih hLines (number + 1)
  | line indent code hRest ih =>
      obtain ⟨hLine, hOthers⟩ := List.forall_mem_cons.1 hLines
      obtain ⟨logical, hLogical, hEntries⟩ := ih hOthers (number + 1)
      refine ⟨⟨indent, code, number⟩ :: logical, ?_, congrArg (_ :: ·) hEntries⟩
      rw [joinLines_line indent hLine, hLogical]
      rfl

end Stencil.CodeBlock
