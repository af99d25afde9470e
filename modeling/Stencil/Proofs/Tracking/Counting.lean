import Stencil.Proofs.Placing

/-!
# Which loops are tracked

A loop over items is tracked when it is written as a directive, and not when it stands in a code
block. So a compiled template has as many tracked loops as its text has sections that are such
loops, wherever they are nested, and nothing in a code block adds to them.

## Main results

* `CodeBlock.trackedLoops_compile`: a code block tracks no loop.
* `Program.trackedLoops_read`: the tracked loops of a template are its directives.
-/

namespace Stencil

/-! ## Counting -/

mutual

/-- How many tracked loops are in an instruction, at any depth. -/
def Instr.trackedLoops : Instr → Nat
  | .branch branches otherwise => branchTrackedLoops branches + optionalTrackedLoops otherwise
  | .forLoop _ _ body otherwise tracked =>
      tracked.toNat + allTrackedLoops body + optionalTrackedLoops otherwise
  | .whileLoop _ body otherwise => allTrackedLoops body + optionalTrackedLoops otherwise
  | .define _ _ _ body => allTrackedLoops body
  | .setFragment _ body => allTrackedLoops body
  | _ => 0

/-- How many tracked loops are in instructions. -/
def allTrackedLoops : List Instr → Nat
  | [] => 0
  | instr :: rest => instr.trackedLoops + allTrackedLoops rest

/-- How many tracked loops are in a body that may be absent. -/
def optionalTrackedLoops : Option (List Instr) → Nat
  | none => 0
  | some body => allTrackedLoops body

/-- How many tracked loops are in branches. -/
def branchTrackedLoops : List (Expr × List Instr) → Nat
  | [] => 0
  | (_, body) :: rest => allTrackedLoops body + branchTrackedLoops rest

end

mutual

/-- How many loops over items are in a section, at any depth, that are written as directives. -/
def Section.itemLoops : Section → Nat
  | .block _ .forLoop _ _ body => 1 + suiteItemLoops body
  | .block _ _ _ _ body => suiteItemLoops body
  | _ => 0

/-- How many loops over items are in sections. -/
def suiteItemLoops : List Section → Nat
  | [] => 0
  | content :: rest => content.itemLoops + suiteItemLoops rest

end

attribute [local simp] allTrackedLoops branchTrackedLoops Instr.trackedLoops

section Lists

variable (first rest : List Instr) (branches others : List (Expr × List Instr))

theorem allTrackedLoops_append :
    allTrackedLoops (first ++ rest) = allTrackedLoops first + allTrackedLoops rest := by
  induction first with
  | nil => simp
  | cons instr first ih => simp [ih, Nat.add_assoc]

theorem allTrackedLoops_reverse : allTrackedLoops first.reverse = allTrackedLoops first := by
  induction first with
  | nil => rfl
  | cons instr first ih =>
      simp only [List.reverse_cons, allTrackedLoops_append, ih, allTrackedLoops]
      omega

theorem branchTrackedLoops_append :
    branchTrackedLoops (branches ++ others) =
      branchTrackedLoops branches + branchTrackedLoops others := by
  induction branches with
  | nil => simp
  | cons branch branches ih => simp [ih, Nat.add_assoc]

end Lists

theorem trackedLoops_flowInstr (within : Surroundings) (keyword : FlowKeyword) (code : List Char)
    (line : Nat) :
    Ensures (fun instr : Option Instr => allTrackedLoops instr.toList = 0)
      (flowInstr within keyword code line) := by
  unfold flowInstr
  cases keyword with
  | pass => exact .pure rfl
  | breakLoop => exact .ite (fun _ => .pure rfl) fun _ => .error _
  | continueLoop => exact .ite (fun _ => .pure rfl) fun _ => .error _
  | returnValue => exact .andThen fun value => .ite (fun _ => .error _) fun _ => .pure rfl

/-! ## Code blocks -/

theorem branchTrackedLoops_eq_zero {branches : List (Expr × List Instr)}
    (h : ∀ branch ∈ branches, allTrackedLoops branch.2 = 0) : branchTrackedLoops branches = 0 := by
  induction branches with
  | nil => rfl
  | cons branch rest ih =>
      rw [List.forall_mem_cons] at h
      rw [branchTrackedLoops, h.1, ih h.2]

theorem optionalTrackedLoops_eq_zero {otherwise : Option (List Instr)}
    (h : ∀ body ∈ otherwise, allTrackedLoops body = 0) : optionalTrackedLoops otherwise = 0 := by
  cases otherwise with
  | none => rfl
  | some body => exact h body rfl

namespace CodeBlock

/-- That no loop is tracked follows the rules for code blocks. -/
theorem trackedLoops_rules : CodeRules (fun _ instr => instr.trackedLoops = 0)
    (fun _ body => allTrackedLoops body = 0) where
  nil _ := rfl
  cons h hRest := by rw [allTrackedLoops, h, hRest]
  flow within keyword code line :=
    (trackedLoops_flowInstr within keyword code line).mono fun found hFound instr hInstr => by
      rw [Option.mem_toList] at hInstr
      rw [hInstr] at hFound
      simpa using hFound
  execute _ _ := rfl
  branch _ hBranches hOtherwise := by
    rw [Instr.trackedLoops, branchTrackedLoops_eq_zero hBranches,
      optionalTrackedLoops_eq_zero hOtherwise]
  forLoop _ _ hBody hOtherwise := by
    rw [Instr.trackedLoops, hBody, optionalTrackedLoops_eq_zero hOtherwise]
    rfl
  whileLoop _ hBody hOtherwise := by
    rw [Instr.trackedLoops, hBody, optionalTrackedLoops_eq_zero hOtherwise]
  procedure _ _ hBody := by rw [Instr.trackedLoops, hBody]

/-- A code block tracks no loop. -/
theorem trackedLoops_compile (within : Surroundings) (text : List Char) (number : Nat) :
    Ensures (fun body => allTrackedLoops body = 0) (compile within text number) :=
  (trackedLoops_rules.ensures_compile within text number).mono fun _ hBody =>
    trackedLoops_rules.whole within hBody

end CodeBlock

/-! ## Directives -/

/-- How many tracked loops a construct that is still open adds. -/
def OpenBlock.trackedLoops : OpenBlock → Nat
  | .nothing => 0
  | .branches done => branchTrackedLoops done
  | .loop overItems _ body _ => overItems.toNat + allTrackedLoops body

namespace OpenBlock

@[simp] theorem trackedLoops_nothing : nothing.trackedLoops = 0 := rfl

@[simp] theorem trackedLoops_branches (done : List (Expr × List Instr)) :
    (branches done).trackedLoops = branchTrackedLoops done := rfl

@[simp] theorem trackedLoops_loop (overItems : Bool) (header : List Char) (body : List Instr)
    (line : Nat) :
    (loop overItems header body line).trackedLoops = overItems.toNat + allTrackedLoops body := rfl

end OpenBlock

theorem trackedLoops_loopInstr (overItems : Bool) (header : List Char) (body : List Instr)
    (otherwise : Option (List Instr)) (line : Nat) :
    Ensures (fun loop : Instr => loop.trackedLoops =
        overItems.toNat + allTrackedLoops body + optionalTrackedLoops otherwise)
      (loopInstr overItems header body otherwise line) := by
  cases overItems with
  | true => exact .andThen fun head => .pure rfl
  | false => exact .andThen fun test => .pure (by simp)

theorem trackedLoops_close (open_ : OpenBlock) (out : Emitted) :
    Ensures (fun done => allTrackedLoops done = allTrackedLoops out + open_.trackedLoops)
      (open_.close out) := by
  cases open_ with
  | nothing => exact .pure rfl
  | branches done =>
      refine .pure ?_
      simp only [allTrackedLoops, Instr.trackedLoops, optionalTrackedLoops,
        OpenBlock.trackedLoops_branches]
      omega
  | loop overItems header body line =>
      have hLoop := trackedLoops_loopInstr overItems header body none line
      refine .map (hLoop.mono fun loop hLoop => ?_)
      simp only [allTrackedLoops, hLoop, optionalTrackedLoops, OpenBlock.trackedLoops_loop]
      omega

theorem trackedLoops_addText (out : Emitted) (content : String) :
    allTrackedLoops (out.addText content) = allTrackedLoops out := by
  unfold Emitted.addText
  split
  · rfl
  · split
    · rfl
    · simp

theorem trackedLoops_compilePieces (number : Nat) (out : Emitted) (pieces : List Piece) :
    Ensures (fun done => allTrackedLoops done = allTrackedLoops out)
      (compilePieces number out pieces) := by
  induction pieces generalizing out with
  | nil => exact .pure rfl
  | cons piece rest ih =>
      cases piece with
      | text content =>
          rw [← trackedLoops_addText out (String.ofList content)]
          exact ih _
      | expression code escape =>
          rw [compilePieces]
          split
          · refine (ih _).mono fun done hDone => hDone.trans ?_
            simp
          · exact .error _

theorem trackedLoops_compileLine (indent : Nat) (out : Emitted) (line : TextLine) :
    Ensures (fun done => allTrackedLoops done = allTrackedLoops out)
      (compileLine indent out line) := by
  rw [← trackedLoops_addText out (String.ofList (List.replicate indent ' '))]
  exact trackedLoops_compilePieces line.number _ line.pieces

theorem trackedLoops_compileLines (out : Emitted) (lines : List TextLine) :
    Ensures (fun done => allTrackedLoops done = allTrackedLoops out) (compileLines out lines) := by
  induction lines generalizing out with
  | nil => exact .pure rfl
  | cons line rest ih =>
      rw [compileLines]
      refine (trackedLoops_compileLine 0 out line).bind fun more hMore => ?_
      exact (ih more).mono fun done hDone => hDone.trans hMore

/-- Sections add the loops over items that are in them to those before. -/
theorem trackedLoops_compileSuite (within : Surroundings) (open_ : OpenBlock) (out : Emitted)
    (sections : List Section) :
    Ensures (fun body => allTrackedLoops body =
        allTrackedLoops out + open_.trackedLoops + suiteItemLoops sections)
      (compileSuite within open_ out sections) := by
  induction within, open_, out, sections using compileSuite.induct with
  | case1 within open_ out =>
      rw [compileSuite]
      refine (trackedLoops_close open_ out).bind fun done hDone => .pure ?_
      rw [allTrackedLoops_reverse, hDone, suiteItemLoops, Nat.add_zero]
  | case2 within out line header indent body rest done ihBody ihRest =>
      rw [compileSuite]
      refine .andThen fun test => ihBody.bind fun inner hInner => (ihRest test inner).mono ?_
      intro result hResult
      simp only [allTrackedLoops, branchTrackedLoops_append, branchTrackedLoops, suiteItemLoops,
        Section.itemLoops, OpenBlock.trackedLoops_branches, OpenBlock.trackedLoops_nothing]
        at hInner hResult ⊢
      omega
  | case3 within open_ out line header indent body rest hNot =>
      rw [compileSuite]
      · exact .andThen fun _ => .error _
      · exact hNot
  | case4 within out line header indent body rest done ihBody ihRest =>
      rw [compileSuite]
      refine .andThen fun _ => ihBody.bind fun inner hInner => (ihRest inner).mono ?_
      intro result hResult
      simp only [allTrackedLoops, Instr.trackedLoops, optionalTrackedLoops, suiteItemLoops,
        Section.itemLoops, OpenBlock.trackedLoops_branches, OpenBlock.trackedLoops_nothing]
        at hInner hResult ⊢
      omega
  | case5 within out line header indent body rest overItems loopHeader loopBody loopLine ihBody
      ihRest =>
      rw [compileSuite]
      refine .andThen fun _ => ihBody.bind fun inner hInner => ?_
      refine (trackedLoops_loopInstr overItems loopHeader loopBody (some inner) loopLine).bind ?_
      refine fun loop hLoop => (ihRest loop).mono fun result hResult => ?_
      simp only [allTrackedLoops, optionalTrackedLoops, suiteItemLoops, Section.itemLoops,
        OpenBlock.trackedLoops_loop, OpenBlock.trackedLoops_nothing] at hInner hLoop hResult ⊢
      omega
  | case6 within out line header indent body rest =>
      rw [compileSuite]
      exact .error _
  | case7 within open_ out line header indent body rest ihBody ihRest =>
      rw [compileSuite]
      refine (trackedLoops_close open_ out).bind fun done hDone => .andThen fun test => ?_
      refine ihBody.bind fun inner hInner => (ihRest done test inner).mono fun result hResult => ?_
      simp only [allTrackedLoops, branchTrackedLoops, suiteItemLoops, Section.itemLoops,
        OpenBlock.trackedLoops_branches, OpenBlock.trackedLoops_nothing] at hInner hResult ⊢
      omega
  | case8 within open_ out line header indent body rest ihBody ihRest =>
      rw [compileSuite]
      refine (trackedLoops_close open_ out).bind fun done hDone => ?_
      refine ihBody.bind fun inner hInner => (ihRest done inner).mono fun result hResult => ?_
      simp only [allTrackedLoops, suiteItemLoops, Section.itemLoops, OpenBlock.trackedLoops_loop,
        OpenBlock.trackedLoops_nothing, Bool.toNat_true] at hInner hResult ⊢
      omega
  | case9 within open_ out line header indent body rest ihBody ihRest =>
      rw [compileSuite]
      refine (trackedLoops_close open_ out).bind fun done hDone => ?_
      refine ihBody.bind fun inner hInner => (ihRest done inner).mono fun result hResult => ?_
      simp only [allTrackedLoops, suiteItemLoops, Section.itemLoops, OpenBlock.trackedLoops_loop,
        OpenBlock.trackedLoops_nothing, Bool.toNat_false] at hInner hResult ⊢
      omega
  | case10 within open_ out line header indent body rest ihBody ihRest =>
      rw [compileSuite]
      refine (trackedLoops_close open_ out).bind fun done hDone => .andThen fun head => ?_
      refine ihBody.bind fun inner hInner => (ihRest done head.1 head.2 inner).mono ?_
      intro result hResult
      simp only [allTrackedLoops, Instr.trackedLoops, suiteItemLoops, Section.itemLoops,
        OpenBlock.trackedLoops_nothing] at hInner hResult ⊢
      omega
  | case11 within open_ out content rest ihRest =>
      rw [compileSuite]
      refine (trackedLoops_close open_ out).bind fun done hDone => ?_
      refine (trackedLoops_compileLine within.indent done content).bind fun more hMore => ?_
      refine (ihRest more).mono fun result hResult => ?_
      simp only [suiteItemLoops, Section.itemLoops, OpenBlock.trackedLoops_nothing] at hResult ⊢
      omega
  | case12 within open_ out line code rest ihRest ihStatement =>
      rw [compileSuite]
      refine (trackedLoops_close open_ out).bind fun done hDone => ?_
      refine .ite (fun _ => (ihRest done).mono fun result hResult => ?_) fun _ =>
        .andThen fun statement => (ihStatement done statement).mono fun result hResult => ?_
      · simp only [suiteItemLoops, Section.itemLoops, OpenBlock.trackedLoops_nothing] at hResult ⊢
        omega
      · simp only [allTrackedLoops, Instr.trackedLoops, suiteItemLoops, Section.itemLoops,
          OpenBlock.trackedLoops_nothing] at hResult ⊢
        omega
  | case13 within open_ out line keyword code rest ihRest =>
      rw [compileSuite]
      refine (trackedLoops_close open_ out).bind fun done hDone => ?_
      refine (trackedLoops_flowInstr within keyword code line).bind fun instr hInstr => ?_
      refine (ihRest done instr).mono fun result hResult => ?_
      simp only [allTrackedLoops_append, suiteItemLoops, Section.itemLoops,
        OpenBlock.trackedLoops_nothing] at hResult ⊢
      omega
  | case14 within open_ out line text rest ihRest =>
      rw [compileSuite]
      refine (trackedLoops_close open_ out).bind fun done hDone => ?_
      refine (CodeBlock.trackedLoops_compile within text line).bind fun body hBody => ?_
      refine (ihRest done body).mono fun result hResult => ?_
      simp only [allTrackedLoops_append, allTrackedLoops_reverse, suiteItemLoops, Section.itemLoops,
        OpenBlock.trackedLoops_nothing] at hResult ⊢
      omega
  | case15 within open_ out line name code rest ihRest =>
      rw [compileSuite]
      refine (trackedLoops_close open_ out).bind fun done hDone => .andThen fun value => ?_
      refine (ihRest done value).mono fun result hResult => ?_
      simp only [allTrackedLoops, Instr.trackedLoops, suiteItemLoops, Section.itemLoops,
        OpenBlock.trackedLoops_nothing] at hResult ⊢
      omega
  | case16 within open_ out number name lines rest ihRest =>
      rw [compileSuite]
      refine (trackedLoops_close open_ out).bind fun done hDone => ?_
      refine (trackedLoops_compileLines [] lines).bind fun body hBody => ?_
      refine (ihRest done body).mono fun result hResult => ?_
      simp only [allTrackedLoops, Instr.trackedLoops, allTrackedLoops_reverse, suiteItemLoops,
        Section.itemLoops, OpenBlock.trackedLoops_nothing] at hBody hResult ⊢
      omega

/-- The tracked loops of a compiled template are the loops over items among its directives. -/
theorem Program.trackedLoops_read {text : List Char} {program : Program}
    (h : Program.read text = .ok program) :
    ∃ document, Document.read text = .ok document ∧
      allTrackedLoops program.body = suiteItemLoops document.body := by
  rw [Program.read_eq] at h
  cases hRead : Document.read text with
  | error fault =>
      rw [hRead] at h
      cases h
  | ok document =>
      rw [hRead] at h
      have hBody (parameters : List Parameter) :
          Ensures (fun program => allTrackedLoops program.body = suiteItemLoops document.body)
            ((fun body => (⟨parameters, body⟩ : Program)) <$>
              compileSuite .outside .nothing [] document.body) := by
        refine .map ((trackedLoops_compileSuite .outside .nothing [] document.body).mono ?_)
        intro body hCount
        simpa using hCount
      have hProgram : Ensures
          (fun program => allTrackedLoops program.body = suiteItemLoops document.body)
          (Program.ofDocument document) := by
        unfold Program.ofDocument
        cases document.parameters with
        | none => exact hBody []
        | some text => exact .andThen hBody
      exact ⟨document, rfl, hProgram program h⟩

end Stencil
