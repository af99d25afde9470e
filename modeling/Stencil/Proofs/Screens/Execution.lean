import Stencil.Proofs.Screens.Rules

/-!
# Execution behind a screen

Instructions have a property when the steps of evaluation have it and, besides, the definition of a
variable, and the end of a loop that needs more passes than are allowed. The names that instructions
read must be such as may be looked up in their frame. A function that is defined reads its names in
the frame it is defined in, or in a frame inside that one, so it is one that the screen admits.

## Main results

* `View.CodeRules.executeAll`: instructions have the property.
-/

namespace Stencil

namespace View

variable {W : Type} [Preorder W]

/-- Steps of execution that work on what a run may come across have the property. -/
structure CodeRules (view : View W) (P : W → {α : Type} → [Renamable α] → Run α → Prop) : Prop
    extends view.Rules P where
  unfinished : ∀ {w : W} {α : Type} [Renamable α], P w (throw .unfinished : Run α)
  passes : ∀ {w : W} {α : Type} [Renamable α] {next : Nat → Run α},
    (∀ passes, P w (next passes)) → P w (MonadReader.read >>= fun setting => next setting.passes)
  define : ∀ {w : W} {value : Value} (frame : FrameId) (name : String),
    view.Passes w value → P w (Run.define frame name value)
  /-- A function is defined as it is, without a mark. -/
  defineFunction : ∀ {w : W} {closure : Closure Value} (frame : FrameId) (name : String),
    view.Passes w (Value.function closure none) →
    P w (Run.defineAsIs frame name (.function closure none))
  /-- Code may be defined where the names that it reads may be looked up. -/
  admits : ∀ {w : W} {body : List Instr} {frame : FrameId},
    (view.screen w).admits body frame ↔ view.Covers w frame (Instr.allReads body)

namespace CodeRules

variable {view : View W} {P : W → {α : Type} → [Renamable α] → Run α → Prop} {w : W}

/-! ## Variables -/

theorem defineAll (rules : view.CodeRules P) (frame : FrameId) {entries : List (String × Value)}
    (h : view.Passes w entries) : P w (Run.defineAll frame entries) := by
  induction entries generalizing w with
  | nil => exact rules.pure rfl
  | cons entry rest ih =>
      rw [Run.defineAll]
      exact rules.bind (rules.define frame entry.1 h.head.snd) fun _ hLe _ _ =>
        ih (passes_mono hLe h.tail)

mutual

theorem assign (rules : view.CodeRules P) (frame : FrameId) : ∀ (target : Target) {w : W}
    {value : Value}, view.Passes w value → P w (Stencil.assign frame value target)
  | .name name, _, _, hValue => rules.define frame name hValue
  | .tuple targets, _, _, hValue =>
      rules.bind (rules.liftFault hValue.items) fun _ _ _ hItems =>
        Rules.ite (rules.fault _) (Rules.ite (rules.fault _)
          (assignEach rules frame targets hItems))

theorem assignEach (rules : view.CodeRules P) (frame : FrameId) : ∀ (targets : List Target) {w : W}
    {values : List Value}, view.Passes w values → P w (Stencil.assignEach frame values targets)
  | [], _, _, _ => rules.pure rfl
  | _ :: _, _, [], _ => rules.pure rfl
  | target :: rest, _, _ :: _, hValues =>
      rules.bind (assign rules frame target hValues.head) fun _ hLe _ _ =>
        assignEach rules frame rest (passes_mono hLe hValues.tail)

end

theorem assignAll (rules : view.CodeRules P) (frame : FrameId) {value : Value} :
    ∀ (targets : List Target) {w : W}, view.Passes w value →
      P w (Stencil.assignAll frame value targets)
  | [], _, _ => rules.pure rfl
  | target :: rest, _, hValue =>
      rules.bind (assign rules frame target hValue) fun _ hLe _ _ =>
        assignAll rules frame rest (passes_mono hLe hValue)

/-! ## Loops -/

/-- A loop over items makes a pass for each of them at most. -/
theorem forEach (rules : view.CodeRules P) {tracked : Bool}
    {pass : Loops → Value → Rendering Value → Run Progress}
    (hPass : ∀ w', w ≤ w' → ∀ loops item out, view.Passes w' item → view.Passes w' out →
      P w' (pass loops item out))
    {items : List Value} (hItems : view.Passes w items) (loops : Loops) {out : Rendering Value}
    (hOut : view.Passes w out) : P w (Stencil.forEach tracked pass loops out items) := by
  induction items generalizing w loops out with
  | nil => exact rules.pure (Screen.Passes.pair rfl hOut)
  | cons item rest ih =>
      rw [Stencil.forEach]
      refine rules.bind (hPass w le_rfl _ item out hItems.head hOut) fun w' hLe progress
        hProgress =>
        Rules.ite ?_ (rules.pure hProgress)
      exact ih (fun w'' hLe' => hPass w'' (hLe.trans hLe')) (passes_mono hLe hItems.tail) _
        hProgress.snd

/-- A loop that tests a condition makes as many passes as are allowed, or stops. -/
theorem whileHolds (rules : view.CodeRules P) {test : Rendering Value → Run Bool}
    {pass : Rendering Value → Run Progress}
    (hTest : ∀ w', w ≤ w' → ∀ out, view.Passes w' out → P w' (test out))
    (hPass : ∀ w', w ≤ w' → ∀ out, view.Passes w' out → P w' (pass out)) (passes : Nat)
    {out : Rendering Value} (hOut : view.Passes w out) :
    P w (Stencil.whileHolds test pass passes out) := by
  induction passes generalizing w out with
  | zero =>
      refine rules.bind (hTest w le_rfl out hOut) fun _ hLe _ _ => Rules.ite rules.unfinished ?_
      exact rules.pure (Screen.Passes.pair rfl (passes_mono hLe hOut))
  | succ passes ih =>
      refine rules.bind (hTest w le_rfl out hOut) fun w₁ h₁ _ _ => Rules.ite ?_
        (rules.pure (Screen.Passes.pair rfl (passes_mono h₁ hOut)))
      refine rules.bind (hPass w₁ h₁ out (passes_mono h₁ hOut)) fun w₂ h₂ progress hProgress =>
        Rules.ite ?_ (rules.pure hProgress)
      have hLe := h₁.trans h₂
      exact ih (fun w' hLe' => hTest w' (hLe.trans hLe')) (fun w' hLe' => hPass w' (hLe.trans hLe'))
        hProgress.snd

/-- After its passes, a loop goes on with its `else`, or with the jump that ended it. -/
theorem afterLoop (rules : view.CodeRules P) {otherwise : Rendering Value → Run Progress}
    {progress : Progress} (hProgress : view.Passes w progress)
    (h : ∀ out, view.Passes w out → P w (otherwise out)) :
    P w (match progress.1 with
      | .normal => otherwise progress.2
      | .returned value => return (.returned value, progress.2)
      | _ => return (.normal, progress.2)) := by
  obtain ⟨flow, out⟩ := progress
  cases flow with
  | normal => exact h out hProgress.snd
  | returned value => exact rules.pure hProgress
  | _ => exact rules.pure (Screen.Passes.pair rfl hProgress.snd)

/-! ## Instructions -/

section Instructions

variable {services : Services}

theorem statement (rules : view.CodeRules P) (h : view.Obeyed P services) {scene : Scene}
    {statement : Statement} (hReads : view.Covers w scene.frame statement.reads)
    {out : Rendering Value} (hOut : view.Passes w out) :
    P w (statement.execute services scene out) := by
  cases statement with
  | assign targets value =>
      exact rules.bind (rules.evaluate h value hReads hOut) fun _ _ _ hValue =>
        rules.assignAll scene.frame targets hValue
  | augmented name op value =>
      have hValue : view.Covers w scene.frame value.reads :=
        hReads.subset (List.subset_cons_self ..)
      refine rules.bind (rules.lookup (List.mem_cons_self ..) hReads hOut)
        fun w₁ h₁ _ hCurrent => ?_
      refine rules.bind (rules.evaluate h value (hValue.mono h₁) (passes_mono h₁ hOut))
        fun w₂ h₂ _ hOperand => ?_
      exact rules.bind (rules.liftFault ((passes_mono h₂ hCurrent).binary op hOperand))
        fun _ _ _ hResult => rules.define scene.frame name hResult
  | expression value =>
      exact rules.bind (rules.evaluate h value hReads hOut) fun _ _ _ _ => rules.pure rfl

/-- A definition binds a function that the screen admits. -/
theorem definition (rules : view.CodeRules P) (h : view.Obeyed P services) {scene : Scene}
    {parameters : List Parameter} {body : List Instr}
    (hReads : view.Covers w scene.frame (defaultReads parameters ++ Instr.allReads body))
    {out : Rendering Value} (hOut : view.Passes w out) (kind : DefinitionKind) (name : String) :
    P w (Stencil.closureOf services scene out kind name parameters body >>=
      Run.defineAsIs scene.frame name) := by
  rw [Stencil.closureOf, bind_assoc]
  refine rules.bind (rules.evaluateDefaults h parameters hReads.left hOut)
    fun _ hLe _ hDefaults => ?_
  rw [pure_bind]
  exact rules.defineFunction scene.frame name
    (Screen.Passes.ofClosure (rules.admits.2 (hReads.right.mono hLe)) hDefaults)

mutual

/-- Executing an instruction has the property. -/
theorem execute (rules : view.CodeRules P) (h : view.Obeyed P services) : ∀ (instr : Instr)
    {scene : Scene} {w : W} {out : Rendering Value}, view.Covers w scene.frame instr.reads →
      view.Passes w out → P w (Stencil.execute services scene out instr)
  | .text content, _, _, _, _, hOut => rules.pure (Screen.Passes.pair rfl (hOut.push content))
  | .emit value escape, scene, _, _, hReads, hOut =>
      rules.bind (rules.evaluate h value hReads hOut) fun _ hLe value _ =>
        rules.pure (Screen.Passes.pair rfl ((passes_mono hLe hOut).emit scene value escape))
  | .execute statement, _, _, _, hReads, hOut =>
      rules.bind (rules.statement h hReads hOut) fun _ hLe _ _ =>
        rules.pure (Screen.Passes.pair rfl (passes_mono hLe hOut))
  | .branch branches otherwise, _, _, _, hReads, hOut =>
      rules.bind (executeBranches rules h branches hReads.left hOut) fun _ hLe found hFound => by
        cases found with
        | some progress => exact rules.pure hFound.of_some
        | none =>
            exact executeOptional rules h otherwise (hReads.right.mono hLe) (passes_mono hLe hOut)
  | .forLoop target items body otherwise tracked, scene, _, _, hReads, hOut => by
      refine rules.bind (rules.evaluate h items hReads.left hOut) fun w₁ h₁ source hSource => ?_
      refine rules.bind (rules.liftFault hSource.items) fun w₂ h₂ found hFound => ?_
      have hReads := hReads.right.mono (h₁.trans h₂)
      refine rules.bind (rules.forEach (fun w' hLe loops item out hItem hOut => ?_) hFound _
        (passes_mono (h₁.trans h₂) hOut)) fun w₃ h₃ progress hProgress =>
          rules.afterLoop hProgress fun out hOut =>
            executeOptional rules h otherwise (hReads.right.mono h₃) hOut
      refine rules.bind (rules.assign scene.frame target hItem) fun w'' hLe' _ _ => ?_
      have hPass : view.Covers w'' ({ scene with loops } : Scene).frame (Instr.allReads body) :=
        hReads.left.mono (hLe.trans hLe')
      exact executeAll rules h body hPass (passes_mono hLe' hOut)
  | .whileLoop test body otherwise, scene, w, out, hReads, hOut => by
      have hNext (passes : Nat) : P w (do
          let (flow, out) ← Stencil.whileHolds
            (fun out => Value.truthy <$> test.evaluate services scene out)
            (fun out => Stencil.executeAll services scene out body) passes out
          match flow with
          | .normal => Stencil.executeOptional services scene out otherwise
          | .returned value => return (.returned value, out)
          | _ => return (.normal, out)) := by
        refine rules.bind (rules.whileHolds
          (fun w' hLe out hOut => rules.map
            (rules.evaluate h test (hReads.left.mono hLe) hOut) fun _ _ _ => rfl)
          (fun w' hLe out hOut => executeAll rules h body (hReads.right.left.mono hLe) hOut) passes
          hOut) fun w' hLe progress hProgress => rules.afterLoop hProgress fun out hOut =>
            executeOptional rules h otherwise (hReads.right.right.mono hLe) hOut
      exact rules.passes hNext
  | .define kind name parameters body, _, _, _, hReads, hOut => by
      rw [Stencil.execute, ← bind_assoc]
      exact rules.bind (rules.definition h hReads hOut kind name) fun _ hLe _ _ =>
        rules.pure (Screen.Passes.pair rfl (passes_mono hLe hOut))
  | .setVar name value, _, _, _, hReads, hOut =>
      rules.bind (rules.evaluate h value hReads hOut) fun _ hLe _ hValue =>
        rules.pure (Screen.Passes.pair rfl ((passes_mono hLe hOut).setValue name hValue))
  | .setFragment name body, _, _, out, hReads, hOut => by
      refine rules.bind (executeAll rules h body hReads rfl) fun w' hLe progress hProgress => ?_
      obtain ⟨flow, fragment⟩ := progress
      have hOut := passes_mono hLe hOut
      have hText : view.Passes w' (Value.ofString fragment.text) := rfl
      have hNamed : P w' (Run.settle (.ofString fragment.text) >>= fun text =>
          pure (Flow.normal, out.insert name text) : Run Progress) :=
        rules.bind (rules.settle hText) fun _ hLe' _ hText =>
          rules.pure (Screen.Passes.pair rfl ((passes_mono hLe' hOut).setValue name hText))
      cases flow with
      | returned value => exact rules.pure (hProgress.fst.pair hOut)
      | normal => exact hNamed
      | broke => exact hNamed
      | continued => exact hNamed
  | .breakLoop, _, _, _, _, hOut => rules.pure (Screen.Passes.pair rfl hOut)
  | .continueLoop, _, _, _, _, hOut => rules.pure (Screen.Passes.pair rfl hOut)
  | .returnValue value, _, _, _, hReads, hOut =>
      rules.bind (rules.evaluateOption h value hReads hOut) fun _ hLe _ hValue =>
        rules.pure (Screen.Passes.pair (congrArg Flow.returned hValue) (passes_mono hLe hOut))

/-- Executing instructions has the property. -/
theorem executeAll (rules : view.CodeRules P) (h : view.Obeyed P services) :
    ∀ (instrs : List Instr) {scene : Scene} {w : W} {out : Rendering Value},
      view.Covers w scene.frame (Instr.allReads instrs) → view.Passes w out →
      P w (Stencil.executeAll services scene out instrs)
  | [], _, _, _, _, hOut => rules.pure (Screen.Passes.pair rfl hOut)
  | instr :: rest, _, _, _, hReads, hOut =>
      rules.bind (execute rules h instr hReads.left hOut) fun _ hLe progress hProgress => by
        obtain ⟨flow, out⟩ := progress
        cases flow with
        | normal => exact executeAll rules h rest (hReads.right.mono hLe) hProgress.snd
        | _ => exact rules.pure hProgress

theorem executeOptional (rules : view.CodeRules P) (h : view.Obeyed P services) :
    ∀ (instrs : Option (List Instr)) {scene : Scene} {w : W} {out : Rendering Value},
      view.Covers w scene.frame (Instr.optionalReads instrs) → view.Passes w out →
      P w (Stencil.executeOptional services scene out instrs)
  | none, _, _, _, _, hOut => rules.pure (Screen.Passes.pair rfl hOut)
  | some body, _, _, _, hReads, hOut => executeAll rules h body hReads hOut

theorem executeBranches (rules : view.CodeRules P) (h : view.Obeyed P services) :
    ∀ (branches : List (Expr × List Instr)) {scene : Scene} {w : W} {out : Rendering Value},
      view.Covers w scene.frame (Instr.branchReads branches) → view.Passes w out →
      P w (Stencil.executeBranches services scene out branches)
  | [], _, _, _, _, _ => rules.pure .none
  | (test, body) :: rest, _, _, _, hReads, hOut =>
      rules.bind (rules.evaluate h test hReads.left hOut) fun _ hLe _ _ =>
        have hReads := hReads.right.mono hLe
        have hOut := passes_mono hLe hOut
        Rules.ite
          (rules.map (executeAll rules h body hReads.left hOut) fun _ _ hProgress => hProgress.some)
          (executeBranches rules h rest hReads.right hOut)

end

end Instructions

end CodeRules

end View

end Stencil
