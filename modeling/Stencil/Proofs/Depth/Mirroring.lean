import Stencil.Proofs.Depth.Machine
import Stencil.Proofs.Ending.Steady

/-!
# The machine does what the tower does

An action on the machine mirrors a run when it does what the run does, the count at its end is the
count at its start, however it ends, and no more calls than allowed were inside one another. The
actions of the machine mirror the runs on the level of the tower that is left at their count: a call
goes one level down, since the count is one higher inside it. Only a loop that tests a condition can
stop a run unfinished, so where that happens, a body with such a loop was entered.

## Main results

* `Counted.Mirrors.inCall`: a call on the machine mirrors what happens inside it, one deeper.
* `Counted.mirrors_executeAll`: execution on the machine mirrors execution.
-/

namespace Stencil

namespace Counted

/-! ## Mirroring -/

/-- Does a loop that tests a condition stand in one of the bodies? -/
def HaveWhile (bodies : List (List Instr)) : Prop :=
  ∃ body ∈ bodies, Instr.anyHasWhile body = true

theorem HaveWhile.mono {bodies others : List (List Instr)} (h : HaveWhile bodies)
    (hSubset : bodies ⊆ others) : HaveWhile others := by
  obtain ⟨body, hBody, hWhile⟩ := h
  exact ⟨body, hSubset hBody, hWhile⟩

/-- On a machine with this count, the action does what the run does and leaves the count as it is,
and no more calls than allowed are inside one another meanwhile. If it stops unfinished, there is a
reason: it is to blame itself, or a body that it entered has a loop that tests a condition. -/
def Mirrors {α : Type} (depth : Nat) (blame : Prop) (action : Counted α) (run : Run α) : Prop :=
  ∀ setting store deepest entered, deepest ≤ callLimit →
    ∃ last fresh, deepest ≤ last ∧ last ≤ callLimit ∧
      action setting ⟨store, depth, deepest, entered⟩ =
        Depths.after ⟨store, depth, deepest, entered⟩ last fresh (run setting store) ∧
      ∀ after, run setting store = .error .unfinished after → blame ∨ HaveWhile fresh

namespace Mirrors

variable {α β : Type} {depth : Nat} {blame : Prop}

theorem ofRun (run : Run α) [h : run.Steady] : Mirrors depth blame (Counted.ofRun run) run :=
  fun setting store deepest _ hDeepest =>
    ⟨deepest, [], Nat.le_refl _, hDeepest, rfl,
      fun after hRun => absurd hRun (h.ends setting store after)⟩

theorem pure (value : α) : Mirrors depth blame (pure value) (pure value) :=
  ofRun (Pure.pure value)

/-- An action that is to blame may stop unfinished. -/
theorem unfinished (hBlame : blame) :
    Mirrors depth blame (throw .unfinished : Counted α) (throw .unfinished : Run α) :=
  fun _ _ deepest _ hDeepest =>
    ⟨deepest, [], Nat.le_refl _, hDeepest, rfl, fun _ _ => .inl hBlame⟩

theorem read : Mirrors depth blame read read := ofRun MonadReader.read

theorem bind {action : Counted α} {run : Run α} {next : α → Counted β} {next' : α → Run β}
    (h : Mirrors depth blame action run)
    (hNext : ∀ value, Mirrors depth blame (next value) (next' value)) :
    Mirrors depth blame (action >>= next) (run >>= next') := by
  intro setting store deepest entered hDeepest
  obtain ⟨last, fresh, hLe, hLast, hAction, hWhy⟩ := h setting store deepest entered hDeepest
  have hBind : (action >>= next) setting ⟨store, depth, deepest, entered⟩ =
      EStateM.bind (action setting) (fun value => next value setting)
        ⟨store, depth, deepest, entered⟩ := rfl
  have hBind' : (run >>= next') setting store =
      EStateM.bind (run setting) (fun value => next' value setting) store := rfl
  rw [hBind, hBind', EStateM.bind, EStateM.bind, hAction]
  cases hRun : run setting store with
  | error stop after =>
      refine ⟨last, fresh, hLe, hLast, rfl, fun after' hEnd => hWhy after ?_⟩
      rw [hRun]
      cases hEnd
      rfl
  | ok value after =>
      obtain ⟨final, more, hLe', hFinal, hNext, hWhy'⟩ :=
        hNext value setting after last (fresh ++ entered) hLast
      refine ⟨final, more ++ fresh, Nat.le_trans hLe hLe', hFinal, ?_, fun after' hEnd => ?_⟩
      · simp only [Depths.after, List.append_assoc] at hNext ⊢
        exact hNext
      · exact (hWhy' after' hEnd).imp_right fun hWhile =>
          hWhile.mono (List.subset_append_left ..)

theorem map {action : Counted α} {run : Run α} (f : α → β) (h : Mirrors depth blame action run) :
    Mirrors depth blame (f <$> action) (f <$> run) := by
  rw [map_eq_pure_bind, map_eq_pure_bind]
  exact h.bind fun value => .pure (f value)

theorem ite {c : Prop} [Decidable c] {action other : Counted α} {run run' : Run α}
    (h : Mirrors depth blame action run) (h' : Mirrors depth blame other run') :
    Mirrors depth blame (if c then action else other) (if c then run else run') := by
  split
  · exact h
  · exact h'

theorem optionMapM {γ : Type} {f : γ → Counted α} {f' : γ → Run α}
    (h : ∀ x, Mirrors depth blame (f x) (f' x)) (value : Option γ) :
    Mirrors depth blame (value.mapM f) (value.mapM f') := by
  cases value with
  | none => exact .pure none
  | some x => exact (h x).map some

/-- A call counts as long as it goes on, and no longer, however it ends. If its body is to blame,
then the body that the call has entered has a loop that tests a condition. -/
theorem inCall {body : List Instr} {action : Counted α} {run : Run α} (hDepth : depth < callLimit)
    (h : Mirrors (depth + 1) (Instr.anyHasWhile body = true) action run) :
    Mirrors depth blame (Counted.inCall body action) run := by
  intro setting store deepest entered hDeepest
  obtain ⟨last, fresh, hLe, hLast, hAction, hWhy⟩ := h setting store (max deepest (depth + 1))
    (body :: entered) (Nat.max_le.2 ⟨hDeepest, hDepth⟩)
  refine ⟨last, fresh ++ [body], Nat.le_trans (Nat.le_max_left ..) hLe, hLast, ?_,
    fun after hEnd => .inr ?_⟩
  · rw [Counted.inCall, if_neg (Nat.not_le_of_lt hDepth)]
    simp only [hAction]
    cases run setting store <;> simp [Depths.after]
  · cases hWhy after hEnd with
    | inl hBody => exact ⟨body, List.mem_append_right _ (List.mem_singleton.2 rfl), hBody⟩
    | inr hWhile => exact hWhile.mono (List.subset_append_left ..)

/-- A call that begins when the count is at its limit is refused. -/
theorem refused (body : List Instr) (action : Counted α) :
    Mirrors callLimit blame (Counted.inCall body action) (Run.fault (.value .callDepth)) := by
  intro setting store deepest entered hDeepest
  refine ⟨deepest, [], Nat.le_refl _, hDeepest, ?_, fun after hEnd => by cases hEnd⟩
  rw [Counted.inCall, if_pos (Nat.le_refl _)]
  rfl

end Mirrors

end Counted

/-- Calls and attributes on a machine with this count mirror those of the services. -/
structure Callees.Mirror (depth : Nat) (callees : Callees) (services : Services) : Prop where
  call : ∀ {blame : Prop} value arguments,
    Counted.Mirrors depth blame (callees.call value arguments) (services.call value arguments)
  access : ∀ {blame : Prop} value name,
    Counted.Mirrors depth blame (callees.access value name) (services.access value name)

namespace Counted

variable {depth : Nat} {blame : Prop} {callees : Callees} {services : Services}

/-! ## Expressions -/

section Expressions

variable {scene : Scene} {out : Rendering Value}

theorem mirrors_item (h : callees.Mirror depth services) (value key : Value) :
    Mirrors depth blame (item callees value key) (services.item value key) := by
  unfold item Services.item
  cases value with
  | renderer _ _ => exact (Mirrors.ofRun _).bind fun name => h.access _ name
  | _ => exact .ofRun _

mutual

theorem mirrors_evaluate (h : callees.Mirror depth services) : ∀ expr : Expr,
    Mirrors depth blame (evaluate callees scene out expr) (expr.evaluate services scene out)
  | .literal _ => .ofRun _
  | .name _ => .ofRun _
  | .list items => (mirrors_evaluateAll h items).bind fun _ => .ofRun _
  | .tuple items => (mirrors_evaluateAll h items).bind fun _ => .ofRun _
  | .dict entries => (mirrors_evaluateEntries h [] entries).bind fun _ => .ofRun _
  | .attribute value field =>
      (mirrors_evaluate h value).bind fun value => (h.access value field).bind fun _ => .ofRun _
  | .index value key =>
      (mirrors_evaluate h value).bind fun value => (mirrors_evaluate h key).bind fun key =>
        (mirrors_item h value key).bind fun _ => .ofRun _
  | .slice value start stop step =>
      (mirrors_evaluate h value).bind fun _ => (mirrors_evaluateOptional h start).bind fun _ =>
        (mirrors_evaluateOptional h stop).bind fun _ =>
          (mirrors_evaluateOptional h step).bind fun _ => (Mirrors.ofRun _).bind fun _ => .ofRun _
  | .call function arguments named =>
      (mirrors_evaluate h function).bind fun function =>
        (mirrors_evaluateAll h arguments).bind fun positional =>
          (mirrors_evaluateNamed h [] named).bind fun named =>
            (h.call function ⟨positional, named⟩).bind fun _ => .ofRun _
  | .unary _ operand =>
      (mirrors_evaluate h operand).bind fun _ => (Mirrors.ofRun _).bind fun _ => .ofRun _
  | .binary _ left right =>
      (mirrors_evaluate h left).bind fun _ => (mirrors_evaluate h right).bind fun _ =>
        (Mirrors.ofRun _).bind fun _ => .ofRun _
  | .compare left links =>
      (mirrors_evaluate h left).bind fun left =>
        (mirrors_evaluateLinks h left links).bind fun _ => .pure _
  | .and left right =>
      (mirrors_evaluate h left).bind fun _ => .ite (mirrors_evaluate h right) (.pure _)
  | .or left right =>
      (mirrors_evaluate h left).bind fun _ => .ite (.pure _) (mirrors_evaluate h right)
  | .conditional test body otherwise =>
      (mirrors_evaluate h test).bind fun _ =>
        .ite (mirrors_evaluate h body) (mirrors_evaluate h otherwise)

theorem mirrors_evaluateAll (h : callees.Mirror depth services) : ∀ exprs : List Expr,
    Mirrors depth blame (evaluateAll callees scene out exprs)
      (Expr.evaluateAll services scene out exprs)
  | [] => .pure _
  | expr :: rest =>
      (mirrors_evaluate h expr).bind fun _ => (mirrors_evaluateAll h rest).bind fun _ => .pure _

theorem mirrors_evaluateEntries (h : callees.Mirror depth services) (done : Entries Value) :
    ∀ entries : List (Expr × Expr),
      Mirrors depth blame (evaluateEntries callees scene out done entries)
        (Expr.evaluateEntries services scene out done entries)
  | [] => .pure _
  | (key, expr) :: rest =>
      (mirrors_evaluate h key).bind fun _ => (mirrors_evaluate h expr).bind fun _ =>
        mirrors_evaluateEntries h _ rest

theorem mirrors_evaluateNamed (h : callees.Mirror depth services) (done : Entries Value) :
    ∀ named : List (String × Expr),
      Mirrors depth blame (evaluateNamed callees scene out done named)
        (Expr.evaluateNamed services scene out done named)
  | [] => .pure _
  | (_, expr) :: rest =>
      (mirrors_evaluate h expr).bind fun _ => mirrors_evaluateNamed h _ rest

theorem mirrors_evaluateOptional (h : callees.Mirror depth services) : ∀ expr : Option Expr,
    Mirrors depth blame (evaluateOptional callees scene out expr)
      (Expr.evaluateOptional services scene out expr)
  | none => .pure _
  | some expr => (mirrors_evaluate h expr).bind fun _ => .pure _

theorem mirrors_evaluateLinks (h : callees.Mirror depth services) (left : Value) :
    ∀ links : List (CompareOp × Expr),
      Mirrors depth blame (evaluateLinks callees scene out left links)
        (Expr.evaluateLinks services scene out left links)
  | [] => .pure _
  | (_, expr) :: rest =>
      (mirrors_evaluate h expr).bind fun right => (Mirrors.ofRun _).bind fun _ =>
        .ite (mirrors_evaluateLinks h right rest) (.pure _)

end

theorem mirrors_evaluateDefaults (h : callees.Mirror depth services) :
    ∀ parameters : List Parameter,
      Mirrors depth blame (evaluateDefaults callees scene out parameters)
        (Stencil.evaluateDefaults services scene out parameters)
  | [] => .pure _
  | parameter :: rest =>
      (Mirrors.optionMapM (mirrors_evaluate h) parameter.default).bind fun _ =>
        (mirrors_evaluateDefaults h rest).bind fun _ => .pure _

theorem mirrors_statement (h : callees.Mirror depth services) (statement : Statement) :
    Mirrors depth blame (executeStatement callees scene out statement)
      (statement.execute services scene out) := by
  cases statement with
  | assign targets value => exact (mirrors_evaluate h value).bind fun _ => .ofRun _
  | augmented name op value =>
      exact (Mirrors.ofRun _).bind fun _ => (mirrors_evaluate h value).bind fun _ =>
        (Mirrors.ofRun _).bind fun _ => .ofRun _
  | expression value => exact (mirrors_evaluate h value).bind fun _ => .pure _

end Expressions

/-! ## Instructions -/

section Instructions

theorem mirrors_forEach {tracked : Bool}
    {pass : Loops → Value → Rendering Value → Counted Progress}
    {pass' : Loops → Value → Rendering Value → Run Progress}
    (h : ∀ loops item out, Mirrors depth blame (pass loops item out) (pass' loops item out))
    (items : List Value) (loops : Loops) (out : Rendering Value) :
    Mirrors depth blame (forEach tracked pass loops out items)
      (Stencil.forEach tracked pass' loops out items) := by
  induction items generalizing loops out with
  | nil => exact .pure _
  | cons item rest ih =>
      rw [forEach, Stencil.forEach]
      exact (h _ item out).bind fun progress => .ite (ih _ progress.2) (.pure _)

theorem mirrors_whileHolds {test : Rendering Value → Counted Bool}
    {test' : Rendering Value → Run Bool} {pass : Rendering Value → Counted Progress}
    {pass' : Rendering Value → Run Progress}
    (hTest : ∀ out, Mirrors depth blame (test out) (test' out))
    (h : ∀ out, Mirrors depth blame (pass out) (pass' out)) (hBlame : blame) (passes : Nat)
    (out : Rendering Value) : Mirrors depth blame (whileHolds test pass passes out)
      (Stencil.whileHolds test' pass' passes out) := by
  induction passes generalizing out with
  | zero => exact (hTest out).bind fun holds => .ite (.unfinished hBlame) (.pure _)
  | succ passes ih =>
      refine (hTest out).bind fun holds => .ite ?_ (.pure _)
      exact (h out).bind fun progress => .ite (ih progress.2) (.pure _)

/-- After its passes, a loop goes on with its `else`, or with the jump that ended it. -/
theorem mirrors_afterLoop {action : Counted Progress} {run : Run Progress}
    {otherwise : Rendering Value → Counted Progress}
    {otherwise' : Rendering Value → Run Progress} (hLoop : Mirrors depth blame action run)
    (h : ∀ out, Mirrors depth blame (otherwise out) (otherwise' out)) :
    Mirrors depth blame
      (do
        let (flow, out) ← action
        match flow with
        | .normal => otherwise out
        | .returned value => return (.returned value, out)
        | _ => return (.normal, out))
      (do
        let (flow, out) ← run
        match flow with
        | .normal => otherwise' out
        | .returned value => return (.returned value, out)
        | _ => return (.normal, out)) := by
  refine hLoop.bind fun progress => ?_
  obtain ⟨flow, out⟩ := progress
  cases flow with
  | normal => exact h out
  | _ => exact .pure _

mutual

theorem mirrors_execute (h : callees.Mirror depth services) (scene : Scene) :
    ∀ (instr : Instr) (out : Rendering Value), (instr.hasWhile = true → blame) →
      Mirrors depth blame (execute callees scene out instr)
        (Stencil.execute services scene out instr)
  | .text _, _, _ => .pure _
  | .emit value _, _, _ => (mirrors_evaluate h value).bind fun _ => .pure _
  | .execute statement, _, _ => (mirrors_statement h statement).bind fun _ => .pure _
  | .branch branches otherwise, out, hBlame =>
      (mirrors_executeBranches h scene branches out
        fun hWhile => hBlame (Bool.or_eq_true_iff.2 (.inl hWhile))).bind fun found => by
        cases found with
        | some progress => exact .pure progress
        | none =>
            exact mirrors_executeOptional h scene otherwise out
              fun hWhile => hBlame (Bool.or_eq_true_iff.2 (.inr hWhile))
  | .forLoop target items body otherwise tracked, out, hBlame => by
      rw [execute, Stencil.execute]
      refine (mirrors_evaluate h items).bind fun source => (Mirrors.ofRun _).bind fun found => ?_
      refine mirrors_afterLoop (mirrors_forEach (fun loops item out => ?_) found _ out) fun out =>
        mirrors_executeOptional h scene otherwise out
          fun hWhile => hBlame (Bool.or_eq_true_iff.2 (.inr hWhile))
      exact (Mirrors.ofRun _).bind fun _ => mirrors_executeAll h { scene with loops } body out
        fun hWhile => hBlame (Bool.or_eq_true_iff.2 (.inl hWhile))
  | .whileLoop test body otherwise, out, hBlame => by
      have hBlame : blame := hBlame rfl
      rw [execute, Stencil.execute]
      refine Mirrors.read.bind fun setting => mirrors_afterLoop ?_ fun out =>
        mirrors_executeOptional h scene otherwise out fun _ => hBlame
      exact mirrors_whileHolds (fun out => (mirrors_evaluate h test).map _)
        (fun out => mirrors_executeAll h scene body out fun _ => hBlame) hBlame setting.passes out
  | .define kind name parameters body, out, _ => by
      rw [execute, Stencil.execute, closureOf, bind_assoc]
      refine (mirrors_evaluateDefaults h parameters).bind fun defaults => ?_
      rw [pure_bind]
      exact (Mirrors.ofRun _).bind fun _ => .pure _
  | .setVar _ value, _, _ => (mirrors_evaluate h value).bind fun _ => .pure _
  | .setFragment name body, out, hBlame => by
      rw [execute, Stencil.execute]
      refine (mirrors_executeAll h scene body .empty hBlame).bind fun progress => ?_
      obtain ⟨flow, fragment⟩ := progress
      cases flow with
      | returned value => exact .pure _
      | _ => exact (Mirrors.ofRun _).bind fun text => .pure _
  | .breakLoop, _, _ => .pure _
  | .continueLoop, _, _ => .pure _
  | .returnValue value, _, _ =>
      (Mirrors.optionMapM (mirrors_evaluate h) value).bind fun _ => .pure _

/-- Execution on the machine mirrors execution. Instructions with a loop that tests a condition are
to blame if they stop unfinished. -/
theorem mirrors_executeAll (h : callees.Mirror depth services) (scene : Scene) :
    ∀ (instrs : List Instr) (out : Rendering Value), (Instr.anyHasWhile instrs = true → blame) →
      Mirrors depth blame (executeAll callees scene out instrs)
        (Stencil.executeAll services scene out instrs)
  | [], _, _ => .pure _
  | instr :: rest, out, hBlame => by
      rw [executeAll, Stencil.executeAll]
      refine (mirrors_execute h scene instr out
        fun hWhile => hBlame (Bool.or_eq_true_iff.2 (.inl hWhile))).bind fun progress => ?_
      obtain ⟨flow, out⟩ := progress
      cases flow with
      | normal =>
          exact mirrors_executeAll h scene rest out
            fun hWhile => hBlame (Bool.or_eq_true_iff.2 (.inr hWhile))
      | _ => exact .pure _

theorem mirrors_executeOptional (h : callees.Mirror depth services) (scene : Scene) :
    ∀ (body : Option (List Instr)) (out : Rendering Value),
      (Instr.optionHasWhile body = true → blame) →
      Mirrors depth blame (executeOptional callees scene out body)
        (Stencil.executeOptional services scene out body)
  | none, _, _ => .pure _
  | some body, out, hBlame => mirrors_executeAll h scene body out hBlame

theorem mirrors_executeBranches (h : callees.Mirror depth services) (scene : Scene) :
    ∀ (branches : List (Expr × List Instr)) (out : Rendering Value),
      (Instr.branchesHaveWhile branches = true → blame) →
      Mirrors depth blame (executeBranches callees scene out branches)
        (Stencil.executeBranches services scene out branches)
  | [], _, _ => .pure _
  | (test, body) :: rest, out, hBlame =>
      (mirrors_evaluate h test).bind fun _ =>
        .ite ((mirrors_executeAll h scene body out
            fun hWhile => hBlame (Bool.or_eq_true_iff.2 (.inl hWhile))).map some)
          (mirrors_executeBranches h scene rest out
            fun hWhile => hBlame (Bool.or_eq_true_iff.2 (.inr hWhile)))

end

end Instructions

end Counted

end Stencil
