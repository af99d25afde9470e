import Stencil.Proofs.Alike.Evaluation

/-!
# Execution that is alike

Instructions that are executed twice, in scenes that belong together, change the flow in the same
way and render what is alike. The scene's own frame is the only one that they define variables in,
so it must not be sealed.

## Main results

* `alike_executeAll`: instructions render what is alike.
-/

namespace Stencil

variable {I : Invariant} {p q : Pairing}

instance : Renamable Flow where
  rename ρ flow := match flow with
    | .returned value => .returned (Renamable.rename ρ value)
    | flow => flow
  of_agree h a b hab := by
    cases a <;> cases b <;> simp only [Flow.returned.injEq, reduceCtorEq] at hab ⊢
    · exact ⟨trivial, trivial⟩
    · exact ⟨trivial, trivial⟩
    · exact ⟨trivial, trivial⟩
    · exact Renamable.of_agree h _ _ hab

/-- Scenes that belong together, in whose frame variables can be defined. -/
structure Scene.AlikeOpen (p : Pairing) (scene twin : Scene) : Prop extends
    Scene.Alike p scene twin where
  isOpen : ¬ p.isSealed scene.frame

theorem Scene.AlikeOpen.mono {scene twin : Scene} (h : scene.AlikeOpen p twin) (hLe : p ≤ q) :
    scene.AlikeOpen q twin :=
  ⟨h.toAlike.mono hLe, fun hSealed => h.isOpen (hLe.stays _ _ h.frame hSealed)⟩

/-! ## Assignment -/

section Assignment

mutual

theorem alike_assign {p : Pairing} {i j : FrameId} (hPair : p.frame j = some i)
    (hOpen : ¬ p.isSealed i) : ∀ (target : Target) (value twin : Value), Alike p value twin →
      Run.Alike I p (assign i value target) (assign j twin target)
  | .name name, _, _, hValue => .define hPair hOpen name hValue
  | .tuple targets, _, _, hValue => by
      refine (Run.Alike.liftFault hValue.items).bind fun q hq items others hItems => ?_
      have hLength : items.length = others.length :=
        hItems.same (f := List.length) fun ρ x => List.length_map _
      rw [hLength]
      exact .ite Iff.rfl (.fault _) (.ite Iff.rfl (.fault _)
        (alike_assignEach (hq.frame i j hPair) (fun hSealed => hOpen (hq.stays i j hPair hSealed))
          targets items others hItems))

theorem alike_assignEach {p : Pairing} {i j : FrameId} (hPair : p.frame j = some i)
    (hOpen : ¬ p.isSealed i) : ∀ (targets : List Target) (values twins : List Value),
      Alike p values twins → Run.Alike I p (assignEach i values targets)
        (assignEach j twins targets)
  | [], _, _, _ => .pure rfl
  | _ :: _, [], [], _ => .pure rfl
  | _ :: _, [], _ :: _, hValues => by cases hValues
  | _ :: _, _ :: _, [], hValues => by cases hValues
  | target :: rest, value :: values, twin :: twins, hValues => by
      obtain ⟨hValue, hRest⟩ := List.cons.inj hValues
      refine (alike_assign hPair hOpen target value twin hValue).bind fun q hq _ _ _ => ?_
      exact alike_assignEach (hq.frame i j hPair)
        (fun hSealed => hOpen (hq.stays i j hPair hSealed)) rest values twins
        (Alike.mono hRest hq)

end

theorem alike_assignAll {p : Pairing} {i j : FrameId} (hPair : p.frame j = some i)
    (hOpen : ¬ p.isSealed i) {value twin : Value} (hValue : Alike p value twin) :
    ∀ targets : List Target, Run.Alike I p (assignAll i value targets) (assignAll j twin targets)
  | [] => .pure rfl
  | target :: rest =>
      (alike_assign hPair hOpen target value twin hValue).bind fun _ hq _ _ _ =>
        alike_assignAll (hq.frame i j hPair) (fun hSealed => hOpen (hq.stays i j hPair hSealed))
          (hValue.mono hq) rest

end Assignment

/-! ## Instructions -/

section Instructions

variable {services : Services}

theorem alike_statement (h : services.Alike I p) {scene twin : Scene}
    (hScene : scene.AlikeOpen p twin) {out out' : Rendering Value} (hOut : Alike p out out')
    (statement : Statement) (hFollows : p.Follows statement.testsIdentity) :
    Run.Alike I p (statement.execute services scene out)
      (statement.execute services twin out') := by
  cases statement with
  | assign targets value =>
      refine (alike_evaluate h hScene.toAlike hOut value hFollows).bind fun q hq _ _ hValue => ?_
      exact alike_assignAll (hScene.mono hq).frame (hScene.mono hq).isOpen hValue targets
  | augmented name op value =>
      refine (alike_lookup hScene.toAlike hOut name).bind fun q hq _ _ hCurrent => ?_
      refine (alike_evaluate (h.mono hq) (hScene.toAlike.mono hq) (hOut.mono hq) value
        (hFollows.mono hq.toExtends)).bind fun r hr _ _ hOperand => ?_
      refine (Run.Alike.liftFault ((hCurrent.mono hr).binary op hOperand)).bind
        fun u hu _ _ hResult => ?_
      have hScene := hScene.mono (hq.trans (hr.trans hu))
      exact .define hScene.frame hScene.isOpen name hResult
  | expression value =>
      exact (alike_evaluate h hScene.toAlike hOut value hFollows).bind fun _ _ _ _ _ => .pure rfl

theorem Alike.emit {scene twin : Scene} (hScene : scene.Alike p twin) {out out' : Rendering Value}
    (hOut : Alike p out out') {value value' : Value} (hValue : Alike p value value')
    (escape : Bool) : Alike p (scene.emit out value escape) (twin.emit out' value' escape) := by
  have hPush (text : String) : Alike p (out.push text) (out'.push text) :=
    hOut.apply (f := fun r => r.push text) fun ρ _ r => Rendering.push_rename ρ r text
  unfold Scene.emit
  rw [hValue.isNone, hValue.text, hScene.escape]
  split
  · exact hOut
  · split
    · exact hPush _
    · exact hPush _

theorem Alike.setValue {out out' : Rendering Value} (hOut : Alike p out out') (name : String)
    {value twin : Value} (hValue : Alike p value twin) :
    Alike p (out.insert name value) (out'.insert name twin) :=
  (hOut.pair hValue).apply (f := fun x => Rendering.insert x.1 name x.2)
    fun ρ _ x => Value.insert_rename ρ x.1 name x.2

theorem Alike.goesOn {flow flow' : Flow} (h : Alike p flow flow') : flow.goesOn = flow'.goesOn :=
  h.same fun ρ flow => by cases flow <;> rfl

theorem alike_forEach {tracked : Bool}
    {pass pass' : Loops → Value → Rendering Value → Run Progress} {p : Pairing}
    (hPass : ∀ q, p ≤ q → ∀ loops item item' out out', Alike q item item' → Alike q out out' →
      Run.Alike I q (pass loops item out) (pass' loops item' out'))
    {items items' : List Value} (hItems : Alike p items items') (loops : Loops)
    {out out' : Rendering Value} (hOut : Alike p out out') :
    Run.Alike I p (forEach tracked pass loops out items)
      (forEach tracked pass' loops out' items') := by
  induction items generalizing p items' loops out out' with
  | nil =>
      cases items' with
      | nil => exact .pure (Alike.pair rfl hOut)
      | cons item' rest' => cases hItems
  | cons item rest ih =>
      cases items' with
      | nil => cases hItems
      | cons item' rest' =>
          obtain ⟨hItem, hRest⟩ := List.cons.inj hItems
          rw [forEach, forEach]
          refine (hPass p le_rfl _ item item' out out' hItem hOut).bind
            fun q hq progress progress' hProgress => ?_
          refine .ite (by rw [hProgress.fst.goesOn]) ?_ (.pure hProgress)
          exact ih (fun r hr => hPass r (hq.trans hr)) (Alike.mono hRest hq) _ hProgress.snd

theorem alike_whileHolds {test test' : Rendering Value → Run Bool}
    {pass pass' : Rendering Value → Run Progress} {p : Pairing}
    (hTest : ∀ q, p ≤ q → ∀ out out', Alike q out out' → Run.Alike I q (test out) (test' out'))
    (hPass : ∀ q, p ≤ q → ∀ out out', Alike q out out' → Run.Alike I q (pass out) (pass' out'))
    (passes : Nat) {out out' : Rendering Value} (hOut : Alike p out out') :
    Run.Alike I p (whileHolds test pass passes out) (whileHolds test' pass' passes out') := by
  induction passes generalizing p out out' with
  | zero =>
      refine (hTest p le_rfl out out' hOut).bind fun q hq holds holds' hSame => ?_
      exact .ite (Eq.to_iff (congrArg (· = true) hSame)) (.throw _)
        (.pure (Alike.pair rfl (hOut.mono hq)))
  | succ passes ih =>
      refine (hTest p le_rfl out out' hOut).bind fun q hq holds holds' hSame => ?_
      refine .ite (Eq.to_iff (congrArg (· = true) hSame)) ?_ (.pure (Alike.pair rfl (hOut.mono hq)))
      refine (hPass q hq out out' (hOut.mono hq)).bind fun r hr progress progress' hProgress => ?_
      refine .ite (by rw [hProgress.fst.goesOn]) ?_ (.pure hProgress)
      have hqr := hq.trans hr
      exact ih (fun u hu => hTest u (hqr.trans hu)) (fun u hu => hPass u (hqr.trans hu))
        hProgress.snd

/-- How a loop ends that was left by a flow: nothing but a returned value goes beyond it. -/
theorem alike_afterLoop {otherwise otherwise' : Rendering Value → Run Progress}
    {progress progress' : Progress} (hProgress : Alike p progress progress')
    (h : ∀ out out', Alike p out out' → Run.Alike I p (otherwise out) (otherwise' out')) :
    Run.Alike I p
      (match progress.1 with
        | .normal => otherwise progress.2
        | .returned value => return (.returned value, progress.2)
        | _ => return (.normal, progress.2))
      (match progress'.1 with
        | .normal => otherwise' progress'.2
        | .returned value => return (.returned value, progress'.2)
        | _ => return (.normal, progress'.2)) := by
  obtain ⟨flow, out⟩ := progress
  obtain ⟨flow', out'⟩ := progress'
  have hFlow := hProgress.fst
  have hOut := hProgress.snd
  cases flow <;> cases flow' <;> try cases hFlow
  · exact h out out' hOut
  · exact .pure (Alike.pair rfl hOut)
  · exact .pure (Alike.pair rfl hOut)
  · exact .pure hProgress

mutual

theorem alike_execute {p : Pairing} (h : services.Alike I p) {scene twin : Scene}
    (hScene : scene.AlikeOpen p twin) : ∀ (instr : Instr) (out out' : Rendering Value),
      Alike p out out' → p.Follows instr.testsIdentity →
      Run.Alike I p (execute services scene out instr) (execute services twin out' instr)
  | .text content, out, out', hOut, _ => by
      have hPush : Alike p (out.push content) (out'.push content) :=
        hOut.apply (f := fun r => r.push content) fun ρ _ r => Rendering.push_rename ρ r content
      exact .pure (Alike.pair rfl hPush)
  | .emit value escape, out, out', hOut, hFollows => by
      refine (alike_evaluate h hScene.toAlike hOut value hFollows).bind fun q hq _ _ hValue => ?_
      exact .pure (Alike.pair rfl
        (Alike.emit (hScene.toAlike.mono hq) (hOut.mono hq) hValue escape))
  | .execute statement, out, out', hOut, hFollows =>
      (alike_statement h hScene hOut statement hFollows).bind fun _ hq _ _ _ =>
        .pure (Alike.pair rfl (hOut.mono hq))
  | .branch branches otherwise, out, out', hOut, hFollows => by
      obtain ⟨hBranches, hOtherwise⟩ := Pairing.follows_or.1 hFollows
      refine (alike_executeBranches h hScene branches out out' hOut hBranches).bind
        fun q hq found found' hFound => ?_
      cases found with
      | some progress =>
          cases found' with
          | some progress' => exact .pure (Option.some.inj hFound)
          | none => cases hFound
      | none =>
          cases found' with
          | some progress' => cases hFound
          | none =>
              exact alike_executeOptional (h.mono hq) (hScene.mono hq) otherwise out out'
                (hOut.mono hq) (hOtherwise.mono hq.toExtends)
  | .forLoop target items body otherwise tracked, out, out', hOut, hFollows => by
      obtain ⟨hFollows, hOtherwise⟩ := Pairing.follows_or.1 hFollows
      obtain ⟨hItems, hBody⟩ := Pairing.follows_or.1 hFollows
      refine (alike_evaluate h hScene.toAlike hOut items hItems).bind
        fun q hq source source' hSource => ?_
      refine (Run.Alike.liftFault hSource.items).bind fun r hr found found' hFound => ?_
      have hqr := hq.trans hr
      have hLength : found.length = found'.length :=
        hFound.same (f := List.length) fun ρ x => List.length_map _
      rw [hLength, hScene.loops]
      refine (alike_forEach (fun u hu loops item item' out out' hItem hOut => ?_) hFound _
        (hOut.mono hqr)).bind fun u hu progress progress' hProgress => ?_
      · have hpu := hqr.trans hu
        have hScene := hScene.mono hpu
        refine (alike_assign hScene.frame hScene.isOpen target item item' hItem).bind
          fun v hv _ _ _ => ?_
        have hpv := hpu.trans hv
        have hScene := hScene.mono hv
        have hPass : Scene.AlikeOpen v { scene with loops } { twin with loops } :=
          ⟨⟨hScene.frame, rfl, hScene.escape⟩, hScene.isOpen⟩
        exact alike_executeAll (h.mono hpv) hPass body out out' (hOut.mono hv)
          (hBody.mono hpv.toExtends)
      · have hpu := hqr.trans hu
        exact alike_afterLoop hProgress fun out out' hOut =>
          alike_executeOptional (h.mono hpu) (hScene.mono hpu) otherwise out out' hOut
            (hOtherwise.mono hpu.toExtends)
  | .whileLoop test body otherwise, out, out', hOut, hFollows => by
      obtain ⟨hFollows, hOtherwise⟩ := Pairing.follows_or.1 hFollows
      obtain ⟨hTest, hBody⟩ := Pairing.follows_or.1 hFollows
      refine .read ?_
      refine (alike_whileHolds (fun q hq out out' hOut => ?_) (fun q hq out out' hOut => ?_)
        p.setting.passes hOut).bind fun q hq progress progress' hProgress => ?_
      · exact (alike_evaluate (h.mono hq) (hScene.toAlike.mono hq) hOut test
          (hTest.mono hq.toExtends)).map fun _ _ _ _ hValue => hValue.truthy
      · exact alike_executeAll (h.mono hq) (hScene.mono hq) body out out' hOut
          (hBody.mono hq.toExtends)
      · exact alike_afterLoop hProgress fun out out' hOut =>
          alike_executeOptional (h.mono hq) (hScene.mono hq) otherwise out out' hOut
            (hOtherwise.mono hq.toExtends)
  | .define kind name parameters body, out, out', hOut, hFollows => by
      obtain ⟨hParameters, hBody⟩ := Pairing.follows_or.1 hFollows
      have hClosure : Run.Alike I p (closureOf services scene out kind name parameters body)
          (closureOf services twin out' kind name parameters body) := by
        refine (alike_evaluateDefaults h hScene.toAlike hOut parameters hParameters).bind
          fun q hq defaults defaults' hDefaults => .pure ?_
        have hFrame := (q.frame_eq_iff body scene.frame twin.frame).2
          ⟨hBody.mono hq.toExtends, hq.frame _ _ hScene.frame⟩
        show Value.rename q.left (.function _ _) = Value.rename q.right (.function _ _)
        rw [Value.rename_function, Value.rename_function]
        simp only [Closure.rename, hFrame, hScene.escape]
        exact congrArg (fun values => Value.function ⟨kind, name, parameters, body, _, values, _⟩ _)
          hDefaults
      refine hClosure.bind fun q hq closure closure' hValue => ?_
      have hScene := hScene.mono hq
      exact (Run.Alike.defineAsIs hScene.frame hScene.isOpen name hValue).bind
        fun r hr _ _ _ => .pure (Alike.pair rfl (hOut.mono (hq.trans hr)))
  | .setVar name value, out, out', hOut, hFollows =>
      (alike_evaluate h hScene.toAlike hOut value hFollows).bind fun _ hq _ _ hValue =>
        .pure (Alike.pair rfl ((hOut.mono hq).setValue name hValue))
  | .setFragment name body, out, out', hOut, hFollows => by
      refine (alike_executeAll h hScene body .empty .empty rfl hFollows).bind
        fun q hq progress progress' hProgress => ?_
      obtain ⟨flow, fragment⟩ := progress
      obtain ⟨flow', fragment'⟩ := progress'
      have hFlow := hProgress.fst
      have hText : Alike q (Value.ofString fragment.text) (Value.ofString fragment'.text) := by
        have hSame : fragment.text = fragment'.text := hProgress.snd.same Rendering.text_rename
        rw [hSame]
        rfl
      have hNamed : Run.Alike I q
          (Run.settle (.ofString fragment.text) >>= fun text =>
            pure (Flow.normal, out.insert name text) : Run Progress)
          (Run.settle (.ofString fragment'.text) >>= fun text =>
            pure (Flow.normal, out'.insert name text)) :=
        (Run.Alike.settle hText).bind fun _ hr _ _ hText =>
          .pure (Alike.pair rfl ((hOut.mono (hq.trans hr)).setValue name hText))
      cases flow <;> cases flow' <;> try cases hFlow
      · exact hNamed
      · exact hNamed
      · exact hNamed
      · exact .pure (Alike.pair hFlow (hOut.mono hq))
  | .breakLoop, _, _, hOut, _ => .pure (Alike.pair rfl hOut)
  | .continueLoop, _, _, hOut, _ => .pure (Alike.pair rfl hOut)
  | .returnValue value, out, out', hOut, hFollows => by
      have hValue : Run.Alike I p (value.mapM (Expr.evaluate services scene out))
          (value.mapM (Expr.evaluate services twin out')) := by
        refine .optionMapM fun expr hExpr => ?_
        refine alike_evaluate h hScene.toAlike hOut expr ?_
        rwa [hExpr] at hFollows
      exact hValue.bind fun _ hq _ _ hFound =>
        .pure (Alike.pair (congrArg Flow.returned hFound) (hOut.mono hq))

/-- Instructions change the flow in the same way and render what is alike. -/
theorem alike_executeAll {p : Pairing} (h : services.Alike I p) {scene twin : Scene}
    (hScene : scene.AlikeOpen p twin) : ∀ (instrs : List Instr) (out out' : Rendering Value),
      Alike p out out' → p.Follows (Instr.anyTestsIdentity instrs) →
      Run.Alike I p (executeAll services scene out instrs) (executeAll services twin out' instrs)
  | [], _, _, hOut, _ => .pure (Alike.pair rfl hOut)
  | instr :: rest, out, out', hOut, hFollows => by
      obtain ⟨hInstr, hRest⟩ := Pairing.follows_or.1 hFollows
      refine (alike_execute h hScene instr out out' hOut hInstr).bind
        fun q hq progress progress' hProgress => ?_
      obtain ⟨flow, out⟩ := progress
      obtain ⟨flow', out'⟩ := progress'
      have hFlow := hProgress.fst
      cases flow <;> cases flow' <;> try cases hFlow
      · exact alike_executeAll (h.mono hq) (hScene.mono hq) rest out out' hProgress.snd
          (hRest.mono hq.toExtends)
      · exact .pure hProgress
      · exact .pure hProgress
      · exact .pure hProgress

theorem alike_executeOptional {p : Pairing} (h : services.Alike I p) {scene twin : Scene}
    (hScene : scene.AlikeOpen p twin) :
    ∀ (instrs : Option (List Instr)) (out out' : Rendering Value), Alike p out out' →
      p.Follows (Instr.optionTestsIdentity instrs) →
      Run.Alike I p (executeOptional services scene out instrs)
        (executeOptional services twin out' instrs)
  | none, _, _, hOut, _ => .pure (Alike.pair rfl hOut)
  | some body, out, out', hOut, hFollows => alike_executeAll h hScene body out out' hOut hFollows

theorem alike_executeBranches {p : Pairing} (h : services.Alike I p) {scene twin : Scene}
    (hScene : scene.AlikeOpen p twin) :
    ∀ (branches : List (Expr × List Instr)) (out out' : Rendering Value), Alike p out out' →
      p.Follows (Instr.branchesTestIdentity branches) →
      Run.Alike I p (executeBranches services scene out branches)
        (executeBranches services twin out' branches)
  | [], _, _, _, _ => .pure rfl
  | (test, body) :: rest, out, out', hOut, hFollows => by
      obtain ⟨hFollows, hRest⟩ := Pairing.follows_or.1 hFollows
      obtain ⟨hTest, hBody⟩ := Pairing.follows_or.1 hFollows
      refine (alike_evaluate h hScene.toAlike hOut test hTest).bind fun q hq _ _ hValue => ?_
      refine .ite (by rw [hValue.truthy]) ?_ ?_
      · exact (alike_executeAll (h.mono hq) (hScene.mono hq) body out out' (hOut.mono hq)
          (hBody.mono hq.toExtends)).map fun _ _ _ _ hProgress => hProgress.some
      · exact alike_executeBranches (h.mono hq) (hScene.mono hq) rest out out' (hOut.mono hq)
          (hRest.mono hq.toExtends)

end

end Instructions

end Stencil
