import Stencil.Proofs.Layout.Margins

/-!
# The lines that statements are refused on

A statement of a code block may go on over several physical lines. It has the number of the first
one of them. A code block is refused because of a physical line that is indented with a tab, because
of a statement that does not end, or because of a statement that is wrong in itself or stands where
it must not. In each case the fault is on the line that the statement starts on.

A reader of a code block always stands at a `Place`: it has statements before it, or the header of a
compound statement. It goes on from one place to the next only when what it reads in between is
right, and so a place that refuses is told together with the way to it. The readers take statements
off a list and never look back, so each of them blames a place that it comes to. That they do not
run out of budget first is part of the argument: a reader without budget would blame whatever comes
next.

## Main results

* `joinLines_spans`: a logical line has the number of its first physical line.
* `Accounts.of_budget`: which place each reader blames.
* `compile_blames`: what a code block is refused for.
-/

namespace Stencil

open Stencil.Text

/-! ## Headers -/

namespace BlockKeyword

/-- The header of a block cannot be read. -/
def Fails (header : List Char) (cause : SyntaxFault) : BlockKeyword → Prop
  | .forLoop => readForHeader header = .error cause
  | .definition => readDefinitionHeader header = .error cause
  | .elseBranch => False
  | keyword => Expr.readAfter keyword.word header = .error cause

/-- The header can be read, as far as it is read at once: that of a loop waits for the `else`. -/
def Readable (header : List Char) : BlockKeyword → Prop
  | .forLoop => True
  | .whileLoop => True
  | .definition => ∃ read, readDefinitionHeader header = .ok read
  | .elseBranch => trim header = "else".toList
  | keyword => ∃ test, Expr.readAfter keyword.word header = .ok test

/-- What is around the body of a block. -/
def around (within : Surroundings) : BlockKeyword → Surroundings
  | .forLoop => within.looping
  | .whileLoop => within.looping
  | .definition => within.defining
  | _ => within

/-- May the clause go on with the statement behind a body with this keyword? -/
def GoesOn (clause : BlockKeyword) : BlockKeyword → Prop
  | .ifBranch => clause = .elifBranch ∨ clause = .elseBranch
  | .elifBranch => clause = .elifBranch ∨ clause = .elseBranch
  | .forLoop => clause = .elseBranch
  | .whileLoop => clause = .elseBranch
  | _ => False

end BlockKeyword

end Stencil

namespace Stencil.CodeBlock

open Stencil.Text

/-! ## Statements and physical lines -/

/-- Does a statement start on the physical line, if none goes on there? -/
def StartsStatement (raw : List Char) : Prop :=
  allBlank (dropSpaces raw) = false ∧ (dropSpaces raw).head? ≠ some '#'

/-- The text of the statement that starts on the physical line `raw` at `place` and goes on over the
lines before `stop`. -/
def spanned (physical : List (List Char)) (raw : List Char) (place stop : Nat) : List Char :=
  ((physical.drop (place + 1)).take (stop - (place + 1))).foldl continueWith
    (trimEnd (dropSpaces raw))

/-- A statement that starts on the physical line `raw` at `place` goes on over all lines before
`stop`. -/
structure Covers (physical : List (List Char)) (place stop : Nat) (raw : List Char) : Prop where
  first : physical[place]? = some raw
  starts : StartsStatement raw
  less : place < stop
  goesOn : ∀ between, place < between → between < stop →
    isOpen (spanned physical raw place between) = true

/-- No statement goes on at the physical line: it is the first one, or comes behind a line without a
statement, or behind a whole statement. -/
inductive Free (physical : List (List Char)) : Nat → Prop
  | start : Free physical 0
  | filler {place : Nat} {raw : List Char} : Free physical place → physical[place]? = some raw →
      ¬ StartsStatement raw → Free physical (place + 1)
  | behind {place stop : Nat} {raw : List Char} : Free physical place →
      Covers physical place stop raw → isOpen (spanned physical raw place stop) = false →
      Free physical stop

/-- The statement starts on the physical line `place` and goes on over the lines before `stop`. The
first one of all lines has the number `first`. -/
def Spans (physical : List (List Char)) (first place stop : Nat) (line : LogicalLine) : Prop :=
  ∃ raw, Free physical place ∧ Covers physical place stop raw ∧
    line = ⟨leadingSpaces raw, spanned physical raw place stop, first + place⟩

/-- Why physical lines are no logical lines: one is indented with a tab, or the last statement does
not end. The fault is on the line, or on the line that the statement starts on. -/
inductive CannotJoin (physical : List (List Char)) (first : Nat) : CompileFault → Prop
  | tab {place : Nat} {raw : List Char} : Free physical place → physical[place]? = some raw →
      StartsStatement raw → (dropSpaces raw).head? = some '\t' →
      CannotJoin physical first (.layout ⟨first + place, .tabIndent⟩)
  | unfinished {place : Nat} {line : LogicalLine} :
      Spans physical first place physical.length line → isOpen line.text = true →
      CannotJoin physical first (.layout ⟨first + place, .unfinishedStatement⟩)

section Joining

variable {physical rest : List (List Char)} {first place stop : Nat} {line : LogicalLine}
  {raw : List Char}

theorem spans_start (hFree : Free physical place) (hRaw : physical[place]? = some raw)
    (hStarts : StartsStatement raw) : Spans physical first place (place + 1)
      ⟨leadingSpaces raw, trimEnd (dropSpaces raw), first + place⟩ := by
  have hText : spanned physical raw place (place + 1) = trimEnd (dropSpaces raw) := by
    rw [spanned, Nat.sub_self, List.take_zero, List.foldl_nil]
  have hCovers : Covers physical place (place + 1) raw :=
    ⟨hRaw, hStarts, Nat.lt_succ_self place, fun between hAfter hBefore => by omega⟩
  exact ⟨raw, hFree, hCovers, by rw [hText]⟩

/-- An open statement goes on with the next physical line. -/
theorem Spans.extend (h : Spans physical first place stop line) (hOpen : isOpen line.text = true)
    (hRaw : physical[stop]? = some raw) :
    Spans physical first place (stop + 1) { line with text := continueWith line.text raw } := by
  obtain ⟨start, hFree, ⟨hFirst, hStarts, hLess, hGoesOn⟩, rfl⟩ := h
  have hNext : (physical.drop (place + 1))[stop - (place + 1)]? = some raw := by
    rw [List.getElem?_drop, Nat.add_sub_cancel' hLess, hRaw]
  have hText : spanned physical start place (stop + 1) =
      continueWith (spanned physical start place stop) raw := by
    rw [spanned, Nat.succ_sub hLess, List.take_add_one, hNext, List.foldl_append]
    rfl
  refine ⟨start, hFree, ⟨hFirst, hStarts, Nat.lt_succ_of_lt hLess, ?_⟩, by rw [hText]⟩
  intro between hAfter hBefore
  rcases Nat.lt_succ_iff_lt_or_eq.1 hBefore with hInside | rfl
  · exact hGoesOn between hAfter hInside
  · exact hOpen

theorem Spans.number (h : Spans physical first place stop line) : line.number = first + place := by
  obtain ⟨start, -, -, rfl⟩ := h
  rfl

/-- No statement goes on behind a whole one. -/
theorem Spans.free (h : Spans physical first place stop line) (hWhole : isOpen line.text = false) :
    Free physical stop := by
  obtain ⟨start, hFree, hCovers, rfl⟩ := h
  exact .behind hFree hCovers hWhole

/-- A statement does not go on behind the last physical line. -/
theorem Spans.toEnd (h : Spans physical first place stop line) (hStop : physical.length ≤ stop) :
    Spans physical first place physical.length line := by
  obtain ⟨start, hFree, ⟨hFirst, hStarts, -, hGoesOn⟩, rfl⟩ := h
  have hPlace := (List.getElem?_eq_some_iff.1 hFirst).1
  have hTake (count : Nat) (h : physical.length ≤ count) :
      (physical.drop (place + 1)).take (count - (place + 1)) = physical.drop (place + 1) :=
    List.take_of_length_le (by rw [List.length_drop]; omega)
  have hText : spanned physical start place stop =
      spanned physical start place physical.length := by
    rw [spanned, spanned, hTake stop hStop, hTake _ (Nat.le_refl _)]
  exact ⟨start, hFree, ⟨hFirst, hStarts, hPlace, fun between hAfter hBefore =>
    hGoesOn between hAfter (Nat.lt_of_lt_of_le hBefore hStop)⟩, by rw [hText]⟩

/-- The logical lines start on the physical lines of their numbers, or what is wrong is told. -/
def Joined (physical : List (List Char)) (first : Nat) :
    Except CompileFault (List LogicalLine) → Prop
  | .ok lines => ∀ line ∈ lines, ∃ place stop, Spans physical first place stop line
  | .error fault => CannotJoin physical first fault

/-- Every logical line starts on the physical line of its number, and so does a statement that does
not end. -/
theorem joinLines_spans {pending : Option LogicalLine} (hRest : physical.drop stop = rest)
    (hFree : pending = none → Free physical stop)
    (hPending : ∀ line ∈ pending, isOpen line.text = true ∧
      ∃ place, Spans physical first place stop line) :
    Joined physical first (joinLines pending (first + stop) rest) := by
  induction rest generalizing pending stop with
  | nil =>
      cases pending with
      | none =>
          rw [joinLines]
          exact List.forall_mem_nil _
      | some line =>
          obtain ⟨hOpen, place, hSpans⟩ := hPending line rfl
          rw [joinLines, hSpans.number]
          exact .unfinished (hSpans.toEnd (List.drop_eq_nil_iff.1 hRest)) hOpen
  | cons raw others ih =>
      have hRaw : physical[stop]? = some raw := by
        rw [← List.head?_drop, hRest]
        rfl
      have hOthers : physical.drop (stop + 1) = others := by
        rw [← List.tail_drop, hRest, List.tail_cons]
      have hNone (hNext : Free physical (stop + 1)) :
          Joined physical first (joinLines none (first + stop + 1) others) :=
        ih hOthers (fun _ => hNext) (by simp)
      have hFinish {line : LogicalLine} {place : Nat}
          (hSpans : Spans physical first place (stop + 1) line) :
          Joined physical first (joinLines.finish (first + stop) line others) := by
        rw [joinLines.finish]
        split
        · rename_i hOpen
          refine ih hOthers (fun hNone => ?_) ?_
          · cases hNone
          · rintro _ ⟨⟩
            exact ⟨hOpen, place, hSpans⟩
        · rename_i hWhole
          have hAfter := hNone (hSpans.free (Bool.eq_false_iff.2 hWhole))
          cases hMore : joinLines none (first + stop + 1) others with
          | error fault =>
              rw [hMore] at hAfter
              exact hAfter
          | ok lines =>
              rw [hMore] at hAfter
              exact List.forall_mem_cons.2 ⟨⟨place, stop + 1, hSpans⟩, hAfter⟩
      cases pending with
      | some line =>
          obtain ⟨hOpen, place, hSpans⟩ := hPending line rfl
          rw [joinLines]
          exact hFinish (hSpans.extend hOpen hRaw)
      | none =>
          have hHere := hFree rfl
          rw [joinLines]
          split
          · rename_i hFiller
            refine hNone (.filler hHere hRaw fun hStarts => ?_)
            rw [Bool.or_eq_true, beq_iff_eq] at hFiller
            rcases hFiller with hBlank | hComment
            · exact absurd hBlank (Bool.eq_false_iff.1 hStarts.1)
            · exact hStarts.2 hComment
          · rename_i hFiller
            rw [Bool.or_eq_true, not_or, Bool.not_eq_true] at hFiller
            have hStarts : StartsStatement raw :=
              ⟨hFiller.1, fun hHead => hFiller.2 (by simp [hHead])⟩
            split
            · rename_i hTab
              exact CannotJoin.tab hHere hRaw hStarts (beq_iff_eq.1 hTab)
            · exact hFinish (spans_start hHere hRaw hStarts)

end Joining

/-! ## Places -/

variable {rest left : List LogicalLine} {line : LogicalLine} {α β : Type}

/-- With some budget the reader comes to the value, and leaves the end of the lines. -/
def Gives (reader : Nat → Reader α) (rest : List LogicalLine) (value : α)
    (left : List LogicalLine) : Prop :=
  left <:+ rest ∧ ∃ budget, reader budget rest = .ok (value, left)

/-- What a reader of a code block has before it. -/
inductive Place
  /-- Statements that are indented so. -/
  | block (within : Surroundings) (indent : Nat) (lines : List LogicalLine)
  /-- A statement that starts with the line. -/
  | statement (within : Surroundings) (line : LogicalLine) (rest : List LogicalLine)
  /-- The header of a compound statement or of one of its clauses, with the body behind it. -/
  | compound (within : Surroundings) (keyword : BlockKeyword) (line : LogicalLine)
      (rest : List LogicalLine)

namespace Place

/-- The lines before the reader. -/
def lines : Place → List LogicalLine
  | block _ _ lines => lines
  | statement _ line rest => line :: rest
  | compound _ _ line rest => line :: rest

/-- The place that a reader goes on to. What stands in between has been read. -/
inductive Next : Place → Place → Prop
  | statement {within : Surroundings} {indent : Nat} {line : LogicalLine}
      {rest : List LogicalLine} : line.indent = indent →
      Next (.block within indent (line :: rest)) (.statement within line rest)
  | behind {within : Surroundings} {indent : Nat} {line : LogicalLine}
      {rest left : List LogicalLine} {body : List Instr} : line.indent = indent →
      Gives (readStatement within line) rest body left →
      Next (.block within indent (line :: rest)) (.block within indent left)
  | compound {within : Surroundings} {keyword : BlockKeyword} {line : LogicalLine}
      {rest : List LogicalLine} : keyword ≠ .elifBranch → keyword ≠ .elseBranch →
      line.startsWith keyword.word = true →
      Next (.statement within line rest) (.compound within keyword line rest)
  /-- The body stands behind the header. -/
  | inline {within : Surroundings} {keyword : BlockKeyword} {line : LogicalLine}
      {rest : List LogicalLine} {header inline : List Char} :
      splitStatement line = .ok (header, inline) → inline ≠ [] →
      Next (.compound within keyword line rest)
        (.block (keyword.around within) 0 [⟨0, inline, line.number⟩])
  /-- The body stands below the header. -/
  | below {within : Surroundings} {keyword : BlockKeyword} {line first : LogicalLine}
      {rest : List LogicalLine} {header : List Char} : splitStatement line = .ok (header, []) →
      line.indent < first.indent →
      Next (.compound within keyword line (first :: rest))
        (.block (keyword.around within) first.indent (first :: rest))
  /-- A clause goes on with the statement. -/
  | clause {within : Surroundings} {keyword clause : BlockKeyword} {line next : LogicalLine}
      {rest left : List LogicalLine} {header : List Char} {body : List Instr} :
      Gives (readCompound (keyword.around within) line) rest (header, body) (next :: left) →
      keyword.Readable header → clause.GoesOn keyword → next.indent = line.indent →
      next.startsWith clause.word = true →
      Next (.compound within keyword line rest) (.compound within clause next left)

/-- The reader gives up at the place. -/
inductive Refuses : Place → CompileFault → Prop
  | deeper {within : Surroundings} {indent : Nat} {line : LogicalLine}
      {rest : List LogicalLine} : indent < line.indent →
      Refuses (.block within indent (line :: rest)) (.layout ⟨line.number, .unexpectedIndent⟩)
  | flow {within : Surroundings} {line : LogicalLine} {rest : List LogicalLine}
      {keyword : FlowKeyword} {fault : CompileFault} :
      line.word?.bind FlowKeyword.ofWord? = some keyword →
      flowInstr within keyword line.text line.number = .error fault →
      Refuses (.statement within line rest) fault
  | simple {within : Surroundings} {line : LogicalLine} {rest : List LogicalLine}
      {cause : SyntaxFault} : line.word?.bind FlowKeyword.ofWord? = none →
      headerWords.any line.startsWith = false → Statement.read line.text = .error cause →
      Refuses (.statement within line rest) (.code line.number (.malformed cause))
  /-- A clause goes on with no statement. -/
  | stray {within : Surroundings} {line : LogicalLine} {rest : List LogicalLine} :
      (line.startsWith "elif" || line.startsWith "else") = true →
      Refuses (.statement within line rest)
        (.layout ⟨line.number, .strayWord (line.word?.getD [])⟩)
  | colon {within : Surroundings} {keyword : BlockKeyword} {line : LogicalLine}
      {rest : List LogicalLine} {fault : CompileFault} : splitStatement line = .error fault →
      Refuses (.compound within keyword line rest) fault
  /-- Nothing is indented below the header. -/
  | body {within : Surroundings} {keyword : BlockKeyword} {line : LogicalLine}
      {rest : List LogicalLine} {header : List Char} : splitStatement line = .ok (header, []) →
      (∀ first ∈ rest.head?, first.indent ≤ line.indent) →
      Refuses (.compound within keyword line rest) (.layout ⟨line.number, .missingBody⟩)
  /-- What is behind the body is indented less than the body, and more than the header. -/
  | loose {within : Surroundings} {keyword : BlockKeyword} {line first next : LogicalLine}
      {rest left : List LogicalLine} {header : List Char} {body : List Instr} :
      splitStatement line = .ok (header, []) → line.indent < first.indent →
      Gives (readBlock (keyword.around within) first.indent) (first :: rest) body (next :: left) →
      line.indent < next.indent →
      Refuses (.compound within keyword line (first :: rest))
        (.layout ⟨next.number, .looseUnindent⟩)
  | header {within : Surroundings} {keyword : BlockKeyword} {line : LogicalLine}
      {rest left : List LogicalLine} {header : List Char} {body : List Instr}
      {cause : SyntaxFault} :
      Gives (readCompound (keyword.around within) line) rest (header, body) left →
      keyword.Fails header cause →
      Refuses (.compound within keyword line rest) (.code line.number (.malformed cause))
  | elseHeader {within : Surroundings} {line : LogicalLine} {rest left : List LogicalLine}
      {header : List Char} {body : List Instr} :
      Gives (readCompound within line) rest (header, body) left → trim header ≠ "else".toList →
      Refuses (.compound within .elseBranch line rest)
        (.code line.number (.elseHeader header))

/-- The reader gives up at the place or at one that it comes to from there. -/
inductive Refused : Place → CompileFault → Prop
  | here {place : Place} {fault : CompileFault} : place.Refuses fault → Refused place fault
  | later {place next : Place} {fault : CompileFault} : place.Next next → Refused next fault →
      Refused place fault

variable {place next : Place} {fault : CompileFault}

/-- The lines before a reader have their numbers from the lines before it. -/
theorem Next.numbers (h : place.Next next) :
    ∀ line ∈ next.lines, ∃ known ∈ place.lines, line.number = known.number := by
  cases h with
  | behind _ hGives =>
      intro line hLine
      exact ⟨line, List.mem_cons_of_mem _ (hGives.1.subset hLine), rfl⟩
  | @inline _ _ line =>
      intro inner hInner
      rw [List.mem_singleton.1 hInner]
      exact ⟨line, List.mem_cons_self, rfl⟩
  | below =>
      intro line hLine
      exact ⟨line, List.mem_cons_of_mem _ hLine, rfl⟩
  | clause hGives =>
      intro line hLine
      exact ⟨line, List.mem_cons_of_mem _ (hGives.1.subset hLine), rfl⟩
  | _ =>
      intro line hLine
      exact ⟨line, hLine, rfl⟩

/-- A fault is on one of the lines before the reader. -/
theorem Refuses.line_mem (h : place.Refuses fault) :
    ∃ line ∈ place.lines, fault.line = line.number := by
  cases h with
  | flow _ hFlow => exact ⟨_, List.mem_cons_self, line_of_flowInstr hFlow⟩
  | colon hSplit =>
      refine ⟨_, List.mem_cons_self, ?_⟩
      unfold splitStatement at hSplit
      split at hSplit <;> cases hSplit <;> rfl
  | @loose _ _ _ _ next _ _ _ _ _ _ hGives _ =>
      exact ⟨next, List.mem_cons_of_mem _ (hGives.1.subset List.mem_cons_self), rfl⟩
  | _ => exact ⟨_, List.mem_cons_self, rfl⟩

theorem Refused.line_mem (h : place.Refused fault) :
    ∃ line ∈ place.lines, fault.line = line.number := by
  induction h with
  | here hRefuses => exact hRefuses.line_mem
  | later hNext _ ih =>
      obtain ⟨line, hLine, hNumber⟩ := ih
      obtain ⟨known, hKnown, hSame⟩ := hNext.numbers line hLine
      exact ⟨known, hKnown, hNumber.trans hSame⟩

end Place

/-! ## Readers -/

/-- What a reader comes to: a fault that it is refused for, or a value and the end of the lines. -/
def Accounted (refused : CompileFault → Prop) (rest : List LogicalLine) :
    Except CompileFault (α × List LogicalLine) → Prop
  | .error fault => refused fault
  | .ok (_, left) => left <:+ rest

namespace Accounted

variable {refused : CompileFault → Prop}

theorem andThen {inner : CompileFault → Prop}
    {result : Except CompileFault (α × List LogicalLine)}
    {next : α × List LogicalLine → Except CompileFault (β × List LogicalLine)}
    (h : Accounted inner rest result) (hFault : ∀ fault, inner fault → refused fault)
    (hNext : ∀ value left, left <:+ rest → result = .ok (value, left) →
      Accounted refused left (next (value, left))) :
    Accounted refused rest (result >>= next) := by
  cases result with
  | error fault => exact hFault fault h
  | ok pair =>
      obtain ⟨value, left⟩ := pair
      have hBoth := hNext value left h rfl
      show Accounted refused rest (next (value, left))
      cases hThen : next (value, left) with
      | error fault =>
          rw [hThen] at hBoth
          exact hBoth
      | ok last =>
          rw [hThen] at hBoth
          exact List.IsSuffix.trans hBoth h

theorem bind {inner : CompileFault → Prop} {reader : Reader α} {next : α → Reader β}
    (h : Accounted inner rest (reader rest)) (hFault : ∀ fault, inner fault → refused fault)
    (hNext : ∀ value left, left <:+ rest → reader rest = .ok (value, left) →
      Accounted refused left (next value left)) :
    Accounted refused rest ((reader >>= next) rest) :=
  h.andThen hFault hNext

theorem cons {result : Except CompileFault (α × List LogicalLine)}
    (h : Accounted refused rest result) : Accounted refused (line :: rest) result := by
  cases result with
  | error fault => exact h
  | ok pair => exact List.IsSuffix.trans h (List.suffix_cons line rest)

theorem pure {value : α} : Accounted refused rest ((Pure.pure value : Reader α) rest) :=
  List.suffix_refl rest

/-- Code on a line is read, or the line is refused. -/
theorem lift {result : Except CompileFault α} {next : α → Reader β}
    (hFault : ∀ fault, result = .error fault → refused fault)
    (hNext : ∀ value, result = .ok value → Accounted refused rest (next value rest)) :
    Accounted refused rest (((liftM result : Reader α) >>= next) rest) := by
  cases result with
  | error fault => exact hFault fault rfl
  | ok value => exact hNext value rfl

theorem onLine {number : Nat} {result : Except SyntaxFault α} {next : α → Reader β}
    (hFault : ∀ cause, result = .error cause → refused (.code number (.malformed cause)))
    (hNext : ∀ value, result = .ok value → Accounted refused rest (next value rest)) :
    Accounted refused rest (((liftM (Stencil.onLine number result) : Reader α) >>= next) rest) := by
  cases result with
  | error cause => exact hFault cause rfl
  | ok value => exact hNext value rfl

end Accounted

theorem gives_of_eq {reader : Nat → Reader α} {budget : Nat} {value : α} (hLeft : left <:+ rest)
    (h : reader budget rest = .ok (value, left)) : Gives reader rest value left :=
  ⟨hLeft, budget, h⟩

/-- What each reader comes to with a budget that is enough. An `else` is blamed for what the
statement before it lets it be blamed for. -/
structure Accounts (budget : Nat) : Prop where
  block : ∀ {within : Surroundings} {indent : Nat} {rest : List LogicalLine},
    4 * extent rest < budget →
    Accounted (Place.block within indent rest).Refused rest (readBlock within indent budget rest)
  statement : ∀ {within : Surroundings} {line : LogicalLine} {rest : List LogicalLine},
    4 * extent (line :: rest) ≤ budget →
    Accounted (Place.statement within line rest).Refused rest
      (readStatement within line budget rest)
  compound : ∀ {within : Surroundings} (keyword : BlockKeyword) {line : LogicalLine}
    {rest : List LogicalLine}, 4 * extent (line :: rest) ≤ budget + 2 →
    Accounted (Place.compound within keyword line rest).Refused rest
      (readCompound (keyword.around within) line budget rest)
  branches : ∀ {within : Surroundings} {keyword : BlockKeyword} {line : LogicalLine}
    {rest : List LogicalLine}, keyword = .ifBranch ∨ keyword = .elifBranch →
    4 * extent (line :: rest) ≤ budget + 1 →
    Accounted (Place.compound within keyword line rest).Refused rest
      (readBranches within line keyword.word budget rest)
  otherwise : ∀ {within : Surroundings} {indent : Nat} {refused : CompileFault → Prop}
    {rest : List LogicalLine}, 4 * extent rest ≤ budget + 1 → 1 ≤ budget →
    (∀ next left, rest = next :: left → next.indent = indent →
      next.startsWith BlockKeyword.elseBranch.word = true →
      ∀ fault, (Place.compound within .elseBranch next left).Refused fault → refused fault) →
    Accounted refused rest (readElse within indent budget rest)

section Step

variable {budget indent : Nat} {within : Surroundings}

theorem Accounts.readBlock (h : Accounts budget) (hBudget : 4 * extent rest < budget + 1) :
    Accounted (Place.block within indent rest).Refused rest
      (CodeBlock.readBlock within indent (budget + 1) rest) := by
  cases rest with
  | nil => exact List.suffix_refl []
  | cons line others =>
      rw [CodeBlock.readBlock]
      show Accounted _ _ (if line.indent < indent then _ else _)
      split
      · exact List.suffix_refl _
      split
      · rename_i hDeep
        exact .here (.deeper hDeep)
      have hSame : line.indent = indent := by omega
      have hCost : 4 * extent (line :: others) ≤ budget := by omega
      refine .cons ((h.statement hCost).andThen (fun _ => .later (.statement hSame)) ?_)
      intro first left hLeft hFirst
      have hLess := extent_le_of_suffix hLeft
      rw [extent] at hCost
      have hNext := Place.Next.behind hSame (gives_of_eq hLeft hFirst)
      exact (h.block (by omega)).andThen (fun _ => .later hNext) fun _ left _ _ =>
        List.suffix_refl left

/-- The body of a compound statement stands behind the header or below it. -/
theorem Accounts.readCompound (h : Accounts budget) (keyword : BlockKeyword)
    (hBudget : 4 * extent (line :: rest) ≤ budget + 1 + 2) :
    Accounted (Place.compound within keyword line rest).Refused rest
      (CodeBlock.readCompound (keyword.around within) line (budget + 1) rest) := by
  rw [extent] at hBudget
  rw [CodeBlock.readCompound]
  cases hSplit : splitStatement line with
  | error fault => exact .here (.colon hSplit)
  | ok pair =>
      obtain ⟨header, inline⟩ := pair
      by_cases hInline : inline = []
      · subst hInline
        cases rest with
        | nil => exact .here (.body hSplit (by simp))
        | cons first others =>
            show Accounted _ _ (if first.indent ≤ line.indent then _ else _)
            split
            · rename_i hShallow
              refine .here (.body hSplit ?_)
              rintro _ ⟨⟩
              exact hShallow
            · rename_i hDeep
              have hBelow := Nat.lt_of_not_le hDeep
              refine (h.block (by omega)).andThen (fun _ => .later (.below hSplit hBelow)) ?_
              intro body left hLeft hBody
              cases left with
              | nil => exact List.suffix_refl _
              | cons next more =>
                  show Accounted _ _ (if line.indent < next.indent then _ else _)
                  split
                  · rename_i hLoose
                    exact .here (.loose hSplit hBelow (gives_of_eq hLeft hBody) hLoose)
                  · exact List.suffix_refl _
      · have hShort := length_inline_lt hSplit hInline
        have hSome : inline.isEmpty = false := List.isEmpty_eq_false_iff.2 hInline
        have hCost : 4 * extent [⟨0, inline, line.number⟩] < budget := by
          simp only [extent]
          omega
        have hBody : Accounted (Place.block (keyword.around within) 0
            [⟨0, inline, line.number⟩]).Refused _ _ := h.block hCost
        show Accounted _ rest (if (!inline.isEmpty) = true then _ else _)
        rw [hSome]
        show Accounted _ rest
          (CodeBlock.readBlock (keyword.around within) 0 budget [⟨0, inline, line.number⟩] >>= _)
        cases hRead : CodeBlock.readBlock (keyword.around within) 0 budget
            [⟨0, inline, line.number⟩] with
        | error fault =>
            rw [hRead] at hBody
            exact .later (.inline hSplit hInline) hBody
        | ok pair => exact List.suffix_refl rest

theorem Accounts.readElse (h : Accounts budget) {refused : CompileFault → Prop}
    (hBudget : 4 * extent rest ≤ budget + 1 + 1)
    (hElse : ∀ next left, rest = next :: left → next.indent = indent →
      next.startsWith BlockKeyword.elseBranch.word = true →
      ∀ fault, (Place.compound within .elseBranch next left).Refused fault → refused fault) :
    Accounted refused rest (CodeBlock.readElse within indent (budget + 1) rest) := by
  rw [CodeBlock.readElse]
  refine of_nextStarts "else" .pure fun line others hSame hIndent hStarts => ?_
  have hRefused := hElse line others hSame hIndent hStarts
  subst hSame
  have hCompound : Accounted (Place.compound within .elseBranch line others).Refused others _ :=
    h.compound .elseBranch (by omega)
  refine .cons (hCompound.andThen hRefused fun pair left hLeft hPair => ?_)
  show Accounted refused left (if _ then _ else _)
  split
  · exact List.suffix_refl _
  · rename_i hOther
    exact hRefused _ (.here (.elseHeader (gives_of_eq hLeft hPair) hOther))

/-- What is behind the body is left to the clauses. -/
theorem Accounts.readBranches (h : Accounts budget) {keyword : BlockKeyword}
    (hKeyword : keyword = .ifBranch ∨ keyword = .elifBranch)
    (hBudget : 4 * extent (line :: rest) ≤ budget + 1 + 1) :
    Accounted (Place.compound within keyword line rest).Refused rest
      (CodeBlock.readBranches within line keyword.word (budget + 1) rest) := by
  have hAround : keyword.around within = within := by rcases hKeyword with rfl | rfl <;> rfl
  have hFails {header : List Char} {cause : SyntaxFault}
      (h : Expr.readAfter keyword.word header = .error cause) : keyword.Fails header cause := by
    rcases hKeyword with rfl | rfl <;> exact h
  have hReadable {header : List Char} {test : Expr}
      (h : Expr.readAfter keyword.word header = .ok test) : keyword.Readable header := by
    rcases hKeyword with rfl | rfl <;> exact ⟨test, h⟩
  have hGoesOn {clause : BlockKeyword} (h : clause = .elifBranch ∨ clause = .elseBranch) :
      clause.GoesOn keyword := by
    rcases hKeyword with rfl | rfl <;> exact h
  have hCompound : Accounted (Place.compound within keyword line rest).Refused rest
      (CodeBlock.readCompound within line budget rest) := by
    have hBoth : Accounted (Place.compound within keyword line rest).Refused rest _ :=
      h.compound keyword (by omega)
    rwa [hAround] at hBoth
  rw [CodeBlock.readBranches]
  refine hCompound.bind (fun _ => id) fun pair left hLeft hPair => ?_
  have hGives : Gives (CodeBlock.readCompound (keyword.around within) line) rest pair left := by
    rw [hAround]
    exact gives_of_eq hLeft hPair
  have hLess := extent_le_of_suffix hLeft
  rw [extent] at hBudget
  refine .onLine (fun cause hCause => .here (.header hGives (hFails hCause))) fun test hTest => ?_
  have hClause {clause : BlockKeyword} (hClause : clause = .elifBranch ∨ clause = .elseBranch)
      (next : LogicalLine) (others : List LogicalLine) (hSame : left = next :: others)
      (hIndent : next.indent = line.indent) (hStarts : next.startsWith clause.word = true) :
      ∀ fault, (Place.compound within clause next others).Refused fault →
        (Place.compound within keyword line rest).Refused fault := by
    subst hSame
    exact fun fault => .later (.clause hGives (hReadable hTest) (hGoesOn hClause) hIndent hStarts)
  refine of_nextStarts "elif" ?_ fun next others hSame hIndent hStarts => ?_
  · exact (h.otherwise (by omega) (by omega) (hClause (Or.inr rfl))).bind (fun _ => id)
      fun otherwise left _ _ => .pure
  · have hRefused := hClause (Or.inl rfl) next others hSame hIndent hStarts
    subst hSame
    exact .cons ((h.branches (Or.inr rfl) (by omega)).andThen hRefused fun _ left _ _ =>
      List.suffix_refl left)

/-- A loop: its body, the `else` behind it, and then its header. -/
theorem Accounts.readLoop (h : Accounts budget) {keyword : BlockKeyword}
    (hKeyword : keyword = .forLoop ∨ keyword = .whileLoop)
    (hBudget : 4 * extent (line :: rest) ≤ budget + 1)
    {next : List Char × List Instr → Option (List Instr) → Reader α}
    (hNext : ∀ pair otherwise left left', Gives
        (CodeBlock.readCompound (keyword.around within) line) rest pair left →
      Accounted (Place.compound within keyword line rest).Refused left'
        (next pair otherwise left')) :
    Accounted (Place.compound within keyword line rest).Refused rest ((do
      let pair ← CodeBlock.readCompound (keyword.around within) line budget
      let otherwise ← CodeBlock.readElse within line.indent budget
      next pair otherwise) rest) := by
  have hReadable (header : List Char) : keyword.Readable header := by
    rcases hKeyword with rfl | rfl <;> exact trivial
  have hGoesOn : BlockKeyword.elseBranch.GoesOn keyword := by
    rcases hKeyword with rfl | rfl <;> rfl
  refine (h.compound keyword (by omega)).bind (fun _ => id) fun pair left hLeft hPair => ?_
  have hGives := gives_of_eq hLeft hPair
  have hLess := extent_le_of_suffix hLeft
  rw [extent] at hBudget
  refine (h.otherwise (by omega) (by omega) ?_).bind (fun _ => id) fun otherwise left' _ _ =>
    hNext pair otherwise left left' hGives
  intro next others hSame hIndent hStarts fault
  subst hSame
  exact .later (.clause hGives (hReadable pair.1) hGoesOn hIndent hStarts)

theorem Accounts.readStatement (h : Accounts budget)
    (hBudget : 4 * extent (line :: rest) ≤ budget + 1) :
    Accounted (Place.statement within line rest).Refused rest
      (CodeBlock.readStatement within line (budget + 1) rest) := by
  have hCompound (keyword : BlockKeyword) {result : Except CompileFault (List Instr × _)}
      (hStarts : line.startsWith keyword.word = true) (hElif : keyword ≠ .elifBranch)
      (hElse : keyword ≠ .elseBranch)
      (h : Accounted (Place.compound within keyword line rest).Refused rest result) :
      Accounted (Place.statement within line rest).Refused rest result := by
    cases result with
    | error fault => exact .later (.compound hElif hElse hStarts) h
    | ok pair => exact h
  rw [CodeBlock.readStatement]
  cases hFlow : line.word?.bind FlowKeyword.ofWord? with
  | some keyword => exact .lift (fun fault hFault => .here (.flow hFlow hFault)) fun _ _ => .pure
  | none =>
      dsimp only
      split
      · rename_i hIf
        refine hCompound .ifBranch hIf (by decide) (by decide) ?_
        exact (h.branches (Or.inl rfl) (by omega)).bind (fun _ => id) fun _ _ _ _ => .pure
      split
      · rename_i hFor
        refine hCompound .forLoop hFor (by decide) (by decide) ?_
        refine h.readLoop (Or.inl rfl) hBudget fun pair otherwise left left' hGives => ?_
        exact .onLine (fun cause hCause => .here (.header hGives hCause)) fun _ _ => .pure
      split
      · rename_i hWhile
        refine hCompound .whileLoop hWhile (by decide) (by decide) ?_
        refine h.readLoop (Or.inr rfl) hBudget fun pair otherwise left left' hGives => ?_
        exact .onLine (fun cause hCause => .here (.header hGives hCause)) fun _ _ => .pure
      split
      · rename_i hDef
        refine hCompound .definition hDef (by decide) (by decide) ?_
        refine (h.compound .definition (by omega)).bind (fun _ => id) ?_
        intro pair left hLeft hPair
        have hGives := gives_of_eq hLeft hPair
        exact .onLine (fun cause hCause => .here (.header hGives hCause)) fun _ _ => .pure
      split
      · rename_i hClause
        exact .here (.stray hClause)
      · rename_i hIf hFor hWhile hDef hClause
        rw [Bool.not_eq_true, Bool.or_eq_false_iff] at hClause
        have hWords : headerWords.any line.startsWith = false := by
          simp [headerWords, hIf, hFor, hWhile, hDef, hClause]
        exact .onLine (fun cause hCause => .here (.simple hFlow hWords hCause)) fun _ _ => .pure

end Step

theorem Accounts.of_budget (budget : Nat) : Accounts budget := by
  induction budget with
  | zero =>
      -- A line takes a character more than nothing, so only a block can be empty.
      constructor
      · intro within indent rest hBudget
        omega
      · intro within line rest hBudget
        rw [extent] at hBudget
        omega
      · intro within keyword line rest hBudget
        rw [extent] at hBudget
        omega
      · intro within keyword line rest hKeyword hBudget
        rw [extent] at hBudget
        omega
      · intro within indent refused rest hBudget hPos
        omega
  | succ budget ih =>
      exact ⟨ih.readBlock, ih.readStatement, fun keyword => ih.readCompound keyword,
        ih.readBranches, fun hBudget _ => ih.readElse hBudget⟩

/-- Why a code block is refused: its lines are no statements, or the reader gives up at a place that
it comes to, on the line that a statement starts on. -/
inductive Blames (within : Surroundings) (text : List Char) (number : Nat) : CompileFault → Prop
  | join {fault : CompileFault} : CannotJoin (lines text) number fault →
      Blames within text number fault
  | statement {all : List LogicalLine} {line : LogicalLine} {place stop : Nat}
      {fault : CompileFault} : logicalLines text number = .ok all →
      (Place.block within 0 all).Refused fault → line ∈ all →
      Spans (lines text) number place stop line → fault.line = line.number →
      Blames within text number fault

/-- A code block is refused for a line or for a statement of it. -/
theorem compile_blames {within : Surroundings} {text : List Char} {number : Nat}
    {fault : CompileFault} (h : compile within text number = .error fault) :
    Blames within text number fault := by
  have hJoined : Joined (lines text) number (logicalLines text number) :=
    joinLines_spans (List.drop_zero (l := lines text)) (fun _ => .start) (by simp)
  rw [compile] at h
  cases hLines : logicalLines text number with
  | error cause =>
      rw [hLines] at h hJoined
      cases h
      exact .join hJoined
  | ok all =>
      rw [hLines] at h hJoined
      have hBudget : 4 * extent all < budgetFor all := by
        rw [budgetFor]
        omega
      have hBlock : Accounted (Place.block within 0 all).Refused all
          (readBlock within 0 (budgetFor all) all) :=
        (Accounts.of_budget (budgetFor all)).block hBudget
      replace h : (readBlock within 0 (budgetFor all) all >>= fun pair => .ok pair.1) =
        Except.error fault := h
      cases hRead : readBlock within 0 (budgetFor all) all with
      | error cause =>
          rw [hRead] at h hBlock
          cases h
          obtain ⟨line, hLine, hNumber⟩ := Place.Refused.line_mem hBlock
          obtain ⟨place, stop, hSpans⟩ := hJoined line hLine
          exact .statement hLines hBlock hLine hSpans hNumber
      | ok pair =>
          rw [hRead] at h
          cases h

/-- A refused code block has the line that its fault names. -/
theorem Blames.place {within : Surroundings} {text : List Char} {number : Nat}
    {fault : CompileFault} (h : Blames within text number fault) :
    ∃ place raw, (lines text)[place]? = some raw ∧ fault.line = number + place := by
  cases h with
  | join hJoin =>
      cases hJoin with
      | tab _ hRaw _ _ => exact ⟨_, _, hRaw, rfl⟩
      | unfinished hSpans _ =>
          obtain ⟨raw, -, hCovers, -⟩ := hSpans
          exact ⟨_, raw, hCovers.first, rfl⟩
  | statement _ _ _ hSpans hNumber =>
      obtain ⟨raw, -, hCovers, rfl⟩ := hSpans
      exact ⟨_, raw, hCovers.first, hNumber⟩

end Stencil.CodeBlock
