import Stencil.Calling
import Stencil.Proofs.Following

/-!
# Loop control stays in its loop

In a compiled template, what steers a loop stands in the body of a loop, and what returns a value
stands in a definition. So no body of the template can end with a jump that no loop has stopped: not
the template itself, not a definition in it, and not a fragment; and the template itself never ends
with a value. Where the jumps stop on their way, and when the `else` of a loop is carried out, is
told by the execution by number.

## Main results

* `allows_execute`: how an instruction can end, from where it stands.
* `Program.jumps_stay_in_loops`: loop control in every body of a compiled template.
-/

namespace Stencil

/-! ## Bodies -/

mutual

/-- The bodies of the definitions and the fragments in an instruction, at any depth. -/
def Instr.innerBodies : Instr → List (List Instr)
  | .branch branches otherwise => branchBodies branches ++ optionalBodies otherwise
  | .forLoop _ _ body otherwise _ => allBodies body ++ optionalBodies otherwise
  | .whileLoop _ body otherwise => allBodies body ++ optionalBodies otherwise
  | .define _ _ _ body => body :: allBodies body
  | .setFragment _ body => body :: allBodies body
  | _ => []

/-- The bodies of the definitions and the fragments in instructions. -/
def allBodies : List Instr → List (List Instr)
  | [] => []
  | instr :: rest => instr.innerBodies ++ allBodies rest

/-- The bodies of the definitions and the fragments in a body that may be absent. -/
def optionalBodies : Option (List Instr) → List (List Instr)
  | none => []
  | some body => allBodies body

/-- The bodies of the definitions and the fragments in branches. -/
def branchBodies : List (Expr × List Instr) → List (List Instr)
  | [] => []
  | (_, body) :: rest => allBodies body ++ branchBodies rest

end

/-- Everything in a template that is executed as a whole: its own body, and the bodies of its
definitions and its fragments. -/
def Program.bodies (program : Program) : List (List Instr) :=
  program.body :: allBodies program.body

section Bodies

variable {P : List Instr → Prop} {body : List Instr} {otherwise : Option (List Instr)}
  {branches : List (Expr × List Instr)}

theorem forall_allBodies (h : ∀ instr ∈ body, ∀ inner ∈ instr.innerBodies, P inner) :
    ∀ inner ∈ allBodies body, P inner := by
  induction body with
  | nil => simp [allBodies]
  | cons instr rest ih =>
      obtain ⟨hInstr, hRest⟩ := List.forall_mem_cons.1 h
      rw [allBodies]
      exact List.forall_mem_append.2 ⟨hInstr, ih hRest⟩

theorem forall_optionalBodies
    (h : ∀ body ∈ otherwise, ∀ instr ∈ body, ∀ inner ∈ instr.innerBodies, P inner) :
    ∀ inner ∈ optionalBodies otherwise, P inner := by
  cases otherwise with
  | none => simp [optionalBodies]
  | some body => exact forall_allBodies (h body rfl)

theorem forall_branchBodies
    (h : ∀ branch ∈ branches, ∀ instr ∈ branch.2, ∀ inner ∈ instr.innerBodies, P inner) :
    ∀ inner ∈ branchBodies branches, P inner := by
  induction branches with
  | nil => simp [branchBodies]
  | cons branch rest ih =>
      obtain ⟨hBranch, hRest⟩ := List.forall_mem_cons.1 h
      rw [branchBodies]
      exact List.forall_mem_append.2 ⟨forall_allBodies hBranch, ih hRest⟩

end Bodies

/-- The instructions stand where they may, outside all loops. -/
def IsClosed (body : List Instr) : Prop :=
  ∃ inDefinition, ∀ instr ∈ body, instr.Placed false inDefinition

/-- What steers loops in an inner body is not about the loops around the body. -/
theorem Instr.Placed.isClosed_innerBodies {inLoop inDefinition : Bool} {instr : Instr}
    (h : instr.Placed inLoop inDefinition) : ∀ body ∈ instr.innerBodies, IsClosed body := by
  induction h with
  | branch hBranches hOtherwise ihBranches ihOtherwise =>
      exact List.forall_mem_append.2
        ⟨forall_branchBodies ihBranches, forall_optionalBodies ihOtherwise⟩
  | forLoop target items tracked hBody hOtherwise ihBody ihOtherwise =>
      exact List.forall_mem_append.2
        ⟨forall_allBodies ihBody, forall_optionalBodies ihOtherwise⟩
  | whileLoop test hBody hOtherwise ihBody ihOtherwise =>
      exact List.forall_mem_append.2
        ⟨forall_allBodies ihBody, forall_optionalBodies ihOtherwise⟩
  | define kind name parameters hBody ihBody =>
      exact List.forall_mem_cons.2 ⟨⟨true, hBody⟩, forall_allBodies ihBody⟩
  | setFragment hName hBody ihBody =>
      exact List.forall_mem_cons.2 ⟨⟨false, hBody⟩, forall_allBodies ihBody⟩
  | _ => exact fun body hBody => absurd hBody (List.not_mem_nil)

theorem Program.isClosed_bodies {program : Program}
    (h : Surroundings.outside.Accepts program.body) : ∀ body ∈ program.bodies, IsClosed body :=
  List.forall_mem_cons.2
    ⟨⟨false, h⟩, forall_allBodies fun instr hInstr => (h instr hInstr).isClosed_innerBodies⟩

/-! ## How execution can end -/

/-- May instructions end this way that stand inside a loop or outside all loops, and inside a
definition or outside all definitions? -/
def Flow.Allowed (inLoop inDefinition : Bool) : Flow → Prop
  | normal => True
  | broke => inLoop = true
  | continued => inLoop = true
  | returned value => value.isSome = true → inDefinition = true

/-- The execution gives nothing else than progress that is allowed there. -/
def Allows (inLoop inDefinition : Bool) (action : Run Progress) : Prop :=
  Ensures (fun progress : Progress => progress.1.Allowed inLoop inDefinition) action

section Ends

variable {services : Services} {l d : Bool} {body : List Instr} {otherwise : Option (List Instr)}

theorem allows_executeAll
    (h : ∀ instr ∈ body, ∀ scene out, Allows l d (execute services scene out instr))
    (scene : Scene) (out : Rendering Value) : Allows l d (executeAll services scene out body) := by
  induction body generalizing out with
  | nil => exact .pure trivial
  | cons instr rest ih =>
      obtain ⟨hInstr, hRest⟩ := List.forall_mem_cons.1 h
      rw [executeAll_cons]
      refine (hInstr scene out).bind fun progress hProgress => ?_
      obtain ⟨flow, out'⟩ := progress
      cases flow with
      | normal => exact ih hRest out'
      | _ => exact .pure hProgress

theorem allows_executeOptional
    (h : ∀ body ∈ otherwise, ∀ instr ∈ body, ∀ scene out,
      Allows l d (execute services scene out instr))
    (scene : Scene) (out : Rendering Value) :
    Allows l d (executeOptional services scene out otherwise) := by
  cases otherwise with
  | none => exact .pure trivial
  | some body => exact allows_executeAll (h body rfl) scene out

theorem allows_executeBranches {branches : List (Expr × List Instr)}
    (h : ∀ branch ∈ branches, ∀ instr ∈ branch.2, ∀ scene out,
      Allows l d (execute services scene out instr))
    (scene : Scene) (out : Rendering Value) :
    Ensures (fun found : Option Progress => ∀ progress ∈ found, progress.1.Allowed l d)
      (executeBranches services scene out branches) := by
  induction branches with
  | nil => exact .pure fun progress hProgress => absurd hProgress (Option.not_mem_none progress)
  | cons branch rest ih =>
      obtain ⟨hBranch, hRest⟩ := List.forall_mem_cons.1 h
      rw [executeBranches]
      refine .andThen fun holds => .ite (fun _ => .map ?_) fun _ => ih hRest
      refine Ensures.mono (allows_executeAll hBranch scene out) fun progress hProgress => ?_
      rintro _ ⟨⟩
      exact hProgress

theorem allows_forEach {tracked : Bool} {pass : Loops → Value → Rendering Value → Run Progress}
    (h : ∀ loops item out, Allows l d (pass loops item out)) (loops : Loops)
    (out : Rendering Value) (items : List Value) :
    Allows l d (forEach tracked pass loops out items) := by
  induction items generalizing loops out with
  | nil => exact .pure trivial
  | cons item rest ih =>
      refine (h _ item out).bind fun progress hProgress => ?_
      exact .ite (fun _ => ih _ _) fun _ => .pure hProgress

theorem allows_whileHolds {test : Rendering Value → Run Bool}
    {pass : Rendering Value → Run Progress} (h : ∀ out, Allows l d (pass out)) (passes : Nat)
    (out : Rendering Value) : Allows l d (whileHolds test pass passes out) := by
  induction passes generalizing out with
  | zero =>
      refine .andThen fun holds => .ite (fun _ => ?_) fun _ => .pure trivial
      rintro progress ⟨setting, before, after, hThrow⟩
      cases hThrow
  | succ passes ih =>
      refine .andThen fun holds => .ite (fun _ => ?_) fun _ => .pure trivial
      refine (h out).bind fun progress hProgress => ?_
      exact .ite (fun _ => ih _) fun _ => .pure hProgress

/-- A loop stops the jumps of its passes. -/
theorem allows_afterLoop {scene : Scene} {loop : Run Progress} (hLoop : Allows true d loop)
    (h : ∀ out, Allows l d (executeOptional services scene out otherwise)) :
    Allows l d (do
      let (flow, out) ← loop
      match flow with
      | .normal => executeOptional services scene out otherwise
      | .returned value => return (.returned value, out)
      | _ => return (.normal, out)) := by
  refine hLoop.bind fun progress hProgress => ?_
  obtain ⟨flow, out⟩ := progress
  cases flow with
  | normal => exact h out
  | returned value => exact .pure hProgress
  | _ => exact .pure trivial

/-- Instructions that stand where they may end as is allowed there. -/
theorem allows_execute {instr : Instr} (h : instr.Placed l d) :
    ∀ scene out, Allows l d (execute services scene out instr) := by
  induction h with
  | text content => exact fun scene out => .pure trivial
  | emit value escape => exact fun scene out => .andThen fun _ => .pure trivial
  | execute statement => exact fun scene out => .andThen fun _ => .pure trivial
  | branch hBranches hOtherwise ihBranches ihOtherwise =>
      intro scene out
      rw [execute]
      refine (allows_executeBranches ihBranches scene out).bind fun found hFound => ?_
      cases found with
      | some progress => exact .pure (hFound progress rfl)
      | none => exact allows_executeOptional ihOtherwise scene out
  | forLoop target items tracked hBody hOtherwise ihBody ihOtherwise =>
      intro scene out
      rw [execute]
      refine .andThen fun source => .andThen fun values => allows_afterLoop ?_
        (allows_executeOptional ihOtherwise scene)
      exact allows_forEach (fun loops item out => .andThen fun _ =>
        allows_executeAll ihBody { scene with loops } out) _ out values
  | whileLoop test hBody hOtherwise ihBody ihOtherwise =>
      intro scene out
      rw [execute]
      refine .andThen fun setting => allows_afterLoop ?_ (allows_executeOptional ihOtherwise scene)
      exact allows_whileHolds (allows_executeAll ihBody scene) _ out
  | define kind name parameters hBody ihBody =>
      exact fun scene out => .andThen fun _ => .andThen fun _ => .pure trivial
  | setVar hName value => exact fun scene out => .andThen fun _ => .pure trivial
  | @setFragment l d name body hName hBody ihBody =>
      intro scene out
      rw [execute]
      refine Ensures.bind (allows_executeAll ihBody scene .empty) fun progress hProgress => ?_
      obtain ⟨flow, fragment⟩ := progress
      cases flow with
      | returned value =>
          refine .pure fun hSome => ?_
          cases hProgress hSome
      | _ => exact .andThen fun _ => .pure trivial
  | breakLoop => exact fun scene out => .pure rfl
  | continueLoop => exact fun scene out => .pure rfl
  | returnNothing => exact fun scene out => .pure (by simp [Flow.Allowed])
  | returnValue value => exact fun scene out => .andThen fun _ => .pure fun _ => rfl

end Ends

/-! ## Compiled templates -/

/-- Every body of a compiled template keeps its loop control to itself. When it is carried out to
the end, no jump is left. On the way, each jump is stopped by the innermost loop whose body it
stands in, and the `else` of a loop is carried out exactly when no pass left the loop by a jump or
with a value. The template itself does not end with a value. -/
theorem Program.jumps_stay_in_loops {text : List Char} {program : Program}
    (hRead : Program.read text = .ok program) {body : List Instr} (hBody : body ∈ program.bodies)
    {services : Services} {scene : Scene} {out rendered : Rendering Value} {flow : Flow}
    {setting : Setting} {before after : Store}
    (hRun : executeAll services scene out body setting before = .ok (flow, rendered) after) :
    (flow ≠ .broke ∧ flow ≠ .continued) ∧
    (body = program.body → ∀ value, flow ≠ .returned (some value)) ∧
    ∃ visits, followAll services 0 scene out body setting before =
        .ok ((flow.aimedAt 0, rendered), visits) after ∧
      ∀ visit ∈ visits, visit.IsOrderly := by
  have hAccepts : Surroundings.outside.Accepts program.body := accepts_read text program hRead
  have hAllowed {d : Bool} (hPlaced : ∀ instr ∈ body, instr.Placed false d) :
      flow.Allowed false d :=
    allows_executeAll (fun instr hInstr => allows_execute (hPlaced instr hInstr)) scene out
      (flow, rendered) ⟨setting, before, after, hRun⟩
  refine ⟨?_, fun hSame value hFlow => ?_, ?_⟩
  · obtain ⟨inDefinition, hPlaced⟩ := isClosed_bodies hAccepts body hBody
    have hFlow := hAllowed hPlaced
    constructor
    · rintro rfl
      cases hFlow
    · rintro rfl
      cases hFlow
  · subst hSame
    rw [hFlow] at hAllowed
    cases hAllowed hAccepts rfl
  · have hCourse : (Prod.fst <$> followAll services 0 scene out body) setting before =
        .ok (flow.aimedAt 0, rendered) after := by
      have hMap : (Progress.aimedAt 0 <$> executeAll services scene out body) setting before =
          EStateM.map (Progress.aimedAt 0) (executeAll services scene out body setting) before :=
        rfl
      rw [followAll_aimed, hMap, EStateM.map, hRun]
      rfl
    obtain ⟨⟨course, visits⟩, hFollow, rfl⟩ := Run.exists_of_map_eq_ok hCourse
    refine ⟨visits, hFollow, ?_⟩
    exact (orderly_followAll 0 scene out body _ ⟨setting, before, after, hFollow⟩).2

/-! ### A loop that is left by the `else` of another one -/

namespace Nested

def outerHeader : List Char := "for x in \"ab\"".toList

def innerHeader : List Char := "for y in \"\"".toList

/-- The inner loop makes no pass, and its `else` leaves the outer one. -/
def text : String :=
  "$for x in \"ab\":\n    $for y in \"\":\n        $break\n    $else:\n        $break\n" ++
    "$else:\n    no\n"

def sections : List Section :=
  [.block 1 .forLoop outerHeader 0
    [.block 2 .forLoop innerHeader 0 [.flow 3 .breakLoop "break".toList],
      .block 4 .elseBranch "else".toList 0 [.flow 5 .breakLoop "break".toList]],
    .block 6 .elseBranch "else".toList 0 [.line ⟨7, [.text "no\n".toList]⟩]]

def program : Program where
  parameters := []
  body := [.forLoop (.name "x") (.literal (.string "ab"))
    [.forLoop (.name "y") (.literal (.string "")) [.breakLoop] (some [.breakLoop]) true]
    (some [.text "no\n"]) true]

def scene : Scene := ⟨Store.builtinFrame, [], .html⟩

def setting : Setting := ⟨⟨[], [], []⟩, 9⟩

/-- Are these the sections of the text? -/
def isDocument : Except LayoutFault Document → Bool
  | .ok ⟨none, [.block 1 .forLoop outer 0
        [.block 2 .forLoop inner 0 [.flow 3 .breakLoop code],
          .block 4 .elseBranch header 0 [.flow 5 .breakLoop code']],
        .block 6 .elseBranch header' 0 [.line ⟨7, [.text content]⟩]]⟩ =>
      (outer, inner, code, header, code', header', content) ==
        (outerHeader, innerHeader, "break".toList, "else".toList, "break".toList, "else".toList,
          "no\n".toList)
  | _ => false

theorem read_document : Document.read text.toList = .ok ⟨none, sections⟩ := by
  have hCheck : isDocument (Document.read text.toList) = true := by decide +kernel
  unfold isDocument at hCheck
  split at hCheck
  · rename_i hDocument
    rw [hDocument]
    simp only [beq_iff_eq, Prod.mk.injEq] at hCheck
    obtain ⟨rfl, rfl, rfl, rfl, rfl, rfl, rfl⟩ := hCheck
    rfl
  · cases hCheck

/-- Is this a header over the characters of a text? -/
def isHeader (name text : String) : Except SyntaxFault (Target × Expr) → Bool
  | .ok (.name x, .literal (.string content)) => x == name && content == text
  | _ => false

theorem eq_of_isHeader {name text : String} {result : Except SyntaxFault (Target × Expr)}
    (h : isHeader name text result = true) :
    result = .ok (.name name, .literal (.string text)) := by
  unfold isHeader at h
  split at h
  · rw [Bool.and_eq_true, beq_iff_eq, beq_iff_eq] at h
    rw [h.1, h.2]
  · cases h

theorem read_text : Program.read text.toList = .ok program := by
  have hOuter : readForHeader outerHeader = .ok (.name "x", .literal (.string "ab")) :=
    eq_of_isHeader (by decide +kernel)
  have hInner : readForHeader innerHeader = .ok (.name "y", .literal (.string "")) :=
    eq_of_isHeader (by decide +kernel)
  have hElse (line : Nat) : checkElse "else".toList line = .ok () := rfl
  have hBody : compileSuite .outside .nothing [] sections = .ok program.body := by
    simp only [sections, compileSuite, OpenBlock.close, loopInstr, flowInstr, onLine, hOuter,
      hInner, hElse]
    rfl
  have hDocument : Program.ofDocument ⟨none, sections⟩ =
      (fun body => ⟨[], body⟩) <$> compileSuite .outside .nothing [] sections := rfl
  rw [Program.read_eq, read_document]
  exact hDocument.trans (by rw [hBody]; rfl)

end Nested

/-- The `else` of the inner loop is carried out, and leaves the outer loop without its `else`. -/
theorem Program.else_leaves_outer_loop :
    Program.read Nested.text.toList = .ok Nested.program ∧
    ∃ after, executeAll .standard Nested.scene .empty Nested.program.body Nested.setting .initial =
        .ok (.normal, .empty) after ∧
      followAll .standard 0 Nested.scene .empty Nested.program.body Nested.setting .initial =
        .ok ((.normal, .empty), [⟨2, [], true⟩, ⟨1, [.leave 1], false⟩]) after ∧
      ∀ visit ∈ [⟨2, [], true⟩, ⟨1, [.leave 1], false⟩], Visit.IsOrderly visit := by
  have hRun : ∃ after,
      executeAll .standard Nested.scene .empty Nested.program.body Nested.setting .initial =
        .ok (.normal, .empty) after := ⟨_, rfl⟩
  obtain ⟨after, hRun⟩ := hRun
  obtain ⟨-, -, visits, hFollow, hVisits⟩ :=
    jumps_stay_in_loops Nested.read_text (List.mem_cons_self ..) hRun
  have hLoops : ∃ after,
      followAll .standard 0 Nested.scene .empty Nested.program.body Nested.setting .initial =
        .ok ((.normal, .empty), [⟨2, [], true⟩, ⟨1, [.leave 1], false⟩]) after := ⟨_, rfl⟩
  obtain ⟨after', hLoops⟩ := hLoops
  rw [hLoops] at hFollow
  cases hFollow
  exact ⟨Nested.read_text, after, hRun, hLoops, hVisits⟩

end Stencil
