import Stencil.Proofs.Keeping

/-!
# What running code changes

Evaluating an expression may call functions and templates, which may call others, load templates of
a library, or be called back by a built-in function. Each of them opens a frame of its own and
defines variables there only. So no frame that was there before the evaluation is changed. Executing
instructions also defines variables in the frame of the scene, and in no other frame that was there.

## Main results

* `keepsAll_evaluate`: evaluation changes no frame that was there.
* `keepsBut_executeAll`: execution changes the frame of the scene only.
* `keepsAll_services`: calls, however deep inside one another, change no frame that was there.
-/

namespace Stencil

open Run Store

/-- Calling a value and asking for an attribute change no frame that was there. -/
structure Services.KeepAll (services : Services) : Prop where
  call : ∀ value arguments, Preserves KeepsAll (services.call value arguments)
  access : ∀ value name, Preserves KeepsAll (services.access value name)

variable {services : Services}

/-! ## Expressions -/

section Expressions

variable (scene : Scene) (out : Rendering Value)

theorem keepsAll_lookup (name : String) : Preserves KeepsAll (scene.lookup out name) := by
  refine (Preserves.lookup? scene.frame name).bind fun found => ?_
  cases found with
  | some value => exact .settle value
  | none =>
      simp only
      split
      · split
        · exact .settle _
        · exact .fault _
      · exact .settle _
      · exact .fault _

theorem keepsAll_item (h : services.KeepAll) (value key : Value) :
    Preserves KeepsAll (services.item value key) := by
  unfold Services.item
  split
  · exact (Preserves.liftFault _).bind fun name => h.access _ name
  · exact .ofEvaluation _

mutual

/-- Evaluation changes no frame that was there. -/
theorem keepsAll_evaluate (h : services.KeepAll) : ∀ expr : Expr,
    Preserves KeepsAll (expr.evaluate services scene out)
  | .literal _ => .settle _
  | .name identifier => keepsAll_lookup scene out identifier
  | .list items => (keepsAll_evaluateAll h items).bind fun _ => .settle _
  | .tuple items => (keepsAll_evaluateAll h items).bind fun _ => .settle _
  | .dict entries => (keepsAll_evaluateEntries h [] entries).bind fun _ => .settle _
  | .attribute value field =>
      (keepsAll_evaluate h value).bind fun _ => (h.access _ field).bind fun _ => .settle _
  | .index value key =>
      (keepsAll_evaluate h value).bind fun _ => (keepsAll_evaluate h key).bind fun _ =>
        (keepsAll_item h _ _).bind fun _ => .settle _
  | .slice value start stop step =>
      (keepsAll_evaluate h value).bind fun _ => (keepsAll_evaluateOptional h start).bind fun _ =>
        (keepsAll_evaluateOptional h stop).bind fun _ =>
          (keepsAll_evaluateOptional h step).bind fun _ =>
            (Preserves.liftFault _).bind fun _ => .settle _
  | .call function arguments named =>
      (keepsAll_evaluate h function).bind fun _ => (keepsAll_evaluateAll h arguments).bind fun _ =>
        (keepsAll_evaluateNamed h [] named).bind fun _ => (h.call _ _).bind fun _ => .settle _
  | .unary _ operand =>
      (keepsAll_evaluate h operand).bind fun _ => (Preserves.liftFault _).bind fun _ => .settle _
  | .binary _ left right =>
      (keepsAll_evaluate h left).bind fun _ => (keepsAll_evaluate h right).bind fun _ =>
        (Preserves.liftFault _).bind fun _ => .settle _
  | .compare left links =>
      (keepsAll_evaluate h left).bind fun _ => (keepsAll_evaluateLinks h _ links).bind fun _ =>
        .pure _
  | .and left right =>
      (keepsAll_evaluate h left).bind fun _ => .ite (keepsAll_evaluate h right) (.pure _)
  | .or left right =>
      (keepsAll_evaluate h left).bind fun _ => .ite (.pure _) (keepsAll_evaluate h right)
  | .conditional test body otherwise =>
      (keepsAll_evaluate h test).bind fun _ =>
        .ite (keepsAll_evaluate h body) (keepsAll_evaluate h otherwise)

theorem keepsAll_evaluateAll (h : services.KeepAll) : ∀ exprs : List Expr,
    Preserves KeepsAll (Expr.evaluateAll services scene out exprs)
  | [] => .pure _
  | expr :: rest =>
      (keepsAll_evaluate h expr).bind fun _ => (keepsAll_evaluateAll h rest).bind fun _ => .pure _

theorem keepsAll_evaluateEntries (h : services.KeepAll) (done : Entries Value) :
    ∀ entries : List (Expr × Expr),
    Preserves KeepsAll (Expr.evaluateEntries services scene out done entries)
  | [] => .pure _
  | (key, expr) :: rest =>
      (keepsAll_evaluate h key).bind fun _ => (keepsAll_evaluate h expr).bind fun _ =>
        keepsAll_evaluateEntries h _ rest

theorem keepsAll_evaluateNamed (h : services.KeepAll) (done : Entries Value) :
    ∀ named : List (String × Expr),
    Preserves KeepsAll (Expr.evaluateNamed services scene out done named)
  | [] => .pure _
  | (_, expr) :: rest => (keepsAll_evaluate h expr).bind fun _ => keepsAll_evaluateNamed h _ rest

theorem keepsAll_evaluateOptional (h : services.KeepAll) : ∀ expr : Option Expr,
    Preserves KeepsAll (Expr.evaluateOptional services scene out expr)
  | none => .pure _
  | some expr => (keepsAll_evaluate h expr).bind fun _ => .pure _

theorem keepsAll_evaluateLinks (h : services.KeepAll) (left : Value) :
    ∀ links : List (CompareOp × Expr),
    Preserves KeepsAll (Expr.evaluateLinks services scene out left links)
  | [] => .pure _
  | (_, expr) :: rest =>
      (keepsAll_evaluate h expr).bind fun _ => (Preserves.liftFault _).bind fun _ =>
        .ite (keepsAll_evaluateLinks h _ rest) (.pure _)

end

theorem keepsAll_evaluateDefaults (h : services.KeepAll) : ∀ parameters : List Parameter,
    Preserves KeepsAll (evaluateDefaults services scene out parameters)
  | [] => .pure _
  | parameter :: rest =>
      (Preserves.optionMapM (keepsAll_evaluate scene out h) parameter.default).bind fun _ =>
        (keepsAll_evaluateDefaults h rest).bind fun _ => .pure _

end Expressions

/-! ## Instructions -/

section Instructions

mutual

theorem keepsBut_assign (frame : FrameId) : ∀ (target : Target) (value : Value),
    Preserves (KeepsBut frame) (assign frame value target)
  | .name name, _ => .define _ name _
  | .tuple targets, _ =>
      (Preserves.liftFault _).bind fun _ =>
        .ite (.fault _) (.ite (.fault _) (keepsBut_assignEach frame targets _))

theorem keepsBut_assignEach (frame : FrameId) : ∀ (targets : List Target) (values : List Value),
    Preserves (KeepsBut frame) (assignEach frame values targets)
  | [], _ => .pure _
  | _ :: _, [] => .pure _
  | target :: rest, value :: values =>
      (keepsBut_assign frame target value).bind fun _ => keepsBut_assignEach frame rest values

end

theorem keepsBut_assignAll (frame : FrameId) (value : Value) : ∀ targets : List Target,
    Preserves (KeepsBut frame) (assignAll frame value targets)
  | [] => .pure _
  | target :: rest =>
      (keepsBut_assign frame target value).bind fun _ => keepsBut_assignAll frame value rest

/-- What changes no frame at all does not change the other frames. -/
theorem Run.Preserves.but {α : Type} {action : Run α} (h : Preserves KeepsAll action)
    (frame : FrameId) : Preserves (KeepsBut frame) action :=
  h.weaken fun _ _ hKeeps => hKeeps.weaken fun _ hFalse => hFalse.elim

theorem keepsBut_statement (h : services.KeepAll) (scene : Scene) (out : Rendering Value)
    (statement : Statement) :
    Preserves (KeepsBut scene.frame) (statement.execute services scene out) := by
  cases statement with
  | assign targets value =>
      exact ((keepsAll_evaluate scene out h value).but _).bind fun _ =>
        keepsBut_assignAll scene.frame _ targets
  | augmented name op value =>
      exact ((keepsAll_lookup scene out name).but _).bind fun _ =>
        ((keepsAll_evaluate scene out h value).but _).bind fun _ =>
          (Preserves.liftFault _).bind fun _ => .define _ name _
  | expression value =>
      exact ((keepsAll_evaluate scene out h value).but _).bind fun _ => .pure _

theorem preserves_forEach {R : Store → Store → Prop} [Std.Refl R] [Trans R R R] {tracked : Bool}
    {pass : Loops → Value → Rendering Value → Run Progress}
    (hPass : ∀ loops item out, Preserves R (pass loops item out)) (items : List Value)
    (loops : Loops) (out : Rendering Value) :
    Preserves R (forEach tracked pass loops out items) := by
  induction items generalizing loops out with
  | nil => exact .pure _
  | cons item rest ih =>
      exact (hPass _ item out).bind fun progress => .ite (ih _ progress.2) (.pure _)

theorem preserves_whileHolds {R : Store → Store → Prop} [Std.Refl R] [Trans R R R]
    {test : Rendering Value → Run Bool} {pass : Rendering Value → Run Progress}
    (hTest : ∀ out, Preserves R (test out)) (hPass : ∀ out, Preserves R (pass out))
    (passes : Nat) (out : Rendering Value) : Preserves R (whileHolds test pass passes out) := by
  induction passes generalizing out with
  | zero => exact (hTest out).bind fun _ => .ite (.throw _) (.pure _)
  | succ passes ih =>
      exact (hTest out).bind fun _ =>
        .ite ((hPass out).bind fun progress => .ite (ih progress.2) (.pure _)) (.pure _)

mutual

theorem keepsBut_execute (h : services.KeepAll) (scene : Scene) :
    ∀ (instr : Instr) (out : Rendering Value),
    Preserves (KeepsBut scene.frame) (execute services scene out instr)
  | .text content, out => .pure _
  | .emit value escape, out =>
      ((keepsAll_evaluate scene out h value).but _).bind fun _ => .pure _
  | .execute statement, out => (keepsBut_statement h scene out statement).bind fun _ => .pure _
  | .branch branches otherwise, out =>
      (keepsBut_executeBranches h scene branches out).bind fun found => by
        cases found with
        | some progress => exact .pure _
        | none => exact keepsBut_executeOptional h scene otherwise out
  | .forLoop target items body otherwise tracked, out =>
      ((keepsAll_evaluate scene out h items).but _).bind fun source =>
        (Preserves.liftFault _).bind fun found =>
          (preserves_forEach (fun loops item out =>
            (keepsBut_assign scene.frame target item).bind fun _ =>
              keepsBut_executeAll h { scene with loops } body out) found _ out).bind
                fun progress => by
                obtain ⟨flow, out⟩ := progress
                cases flow with
                | normal => exact keepsBut_executeOptional h scene otherwise out
                | _ => exact .pure _
  | .whileLoop test body otherwise, out =>
      Preserves.read.bind fun setting =>
        (preserves_whileHolds (fun out => ((keepsAll_evaluate scene out h test).but _).map _)
          (fun out => keepsBut_executeAll h scene body out) setting.passes out).bind
            fun progress => by
            obtain ⟨flow, out⟩ := progress
            cases flow with
            | normal => exact keepsBut_executeOptional h scene otherwise out
            | _ => exact .pure _
  | .define kind name parameters body, out =>
      Preserves.bind (((keepsAll_evaluateDefaults scene out h parameters).but _).bind
        fun _ => .pure _) fun _ => (Preserves.defineAsIs _ name _).bind fun _ => .pure _
  | .setVar name value, out =>
      ((keepsAll_evaluate scene out h value).but _).bind fun _ => .pure _
  | .setFragment name body, out =>
      (keepsBut_executeAll h scene body .empty).bind fun progress => by
        obtain ⟨flow, fragment⟩ := progress
        cases flow with
        | returned value => exact .pure _
        | _ => exact (Preserves.settle _).bind fun _ => .pure _
  | .breakLoop, out => .pure _
  | .continueLoop, out => .pure _
  | .returnValue value, out =>
      (Preserves.optionMapM (fun expr => (keepsAll_evaluate scene out h expr).but _) value).bind
        fun _ => .pure _

/-- Execution changes the frame of the scene only. -/
theorem keepsBut_executeAll (h : services.KeepAll) (scene : Scene) :
    ∀ (instrs : List Instr) (out : Rendering Value),
    Preserves (KeepsBut scene.frame) (executeAll services scene out instrs)
  | [], out => .pure _
  | instr :: rest, out =>
      (keepsBut_execute h scene instr out).bind fun progress => by
        obtain ⟨flow, out⟩ := progress
        cases flow with
        | normal => exact keepsBut_executeAll h scene rest out
        | _ => exact .pure _

theorem keepsBut_executeOptional (h : services.KeepAll) (scene : Scene) :
    ∀ (instrs : Option (List Instr)) (out : Rendering Value),
    Preserves (KeepsBut scene.frame) (executeOptional services scene out instrs)
  | none, _ => .pure _
  | some body, out => keepsBut_executeAll h scene body out

theorem keepsBut_executeBranches (h : services.KeepAll) (scene : Scene) :
    ∀ (branches : List (Expr × List Instr)) (out : Rendering Value),
    Preserves (KeepsBut scene.frame) (executeBranches services scene out branches)
  | [], _ => .pure _
  | (test, body) :: rest, out =>
      ((keepsAll_evaluate scene out h test).but _).bind fun _ =>
        .ite ((keepsBut_executeAll h scene body out).map some)
          (keepsBut_executeBranches h scene rest out)

end

end Instructions

/-! ## Calls -/

section Calls

/-- What is done to a program that was read: its globals are defined in a frame of their own, and
the defaults of its parameters are evaluated there. -/
def Template.prepare (services : Services) (name : String) (program : Program)
    (globals : List (String × Value)) (escape : Escape) : Run (Template Value) := do
  let frame ← Run.openFrame Store.builtinFrame
  Run.defineAll frame globals
  let defaults ← evaluateDefaults services ⟨frame, [], escape⟩ .empty program.parameters
  return ⟨name, program, defaults, escape, frame⟩

theorem Template.compile_eq (services : Services) (text name : String)
    (globals : List (String × Value)) (escape : Option Escape) :
    Template.compile services text name globals escape =
      match Program.read (normalizeText text.toList) with
      | .ok program => Template.prepare services name program globals (escape.getD (.ofName name))
      | .error fault => Run.fail (.malformed name fault) := by
  unfold Template.compile
  cases Program.read (normalizeText text.toList) <;> rfl

theorem keepsAll_compile (h : services.KeepAll) (text name : String)
    (globals : List (String × Value)) (escape : Option Escape) :
    Preserves KeepsAll (Template.compile services text name globals escape) := by
  rw [Template.compile_eq]
  cases Program.read (normalizeText text.toList) with
  | error fault => exact .fail _
  | ok program =>
      exact Preserves.inNewFrame _ fun frame => (Preserves.defineAll frame globals).bind fun _ =>
        ((keepsAll_evaluateDefaults _ _ h program.parameters).but frame).bind fun _ => .pure _

/-- The services for what happens inside a call, if there are any, keep all frames. -/
abbrev KeepAllInside (inner : Option Services) : Prop := ∀ services ∈ inner, services.KeepAll

variable {inner : Option Services} {loader : Services}

theorem keepsAll_runTemplate (h : KeepAllInside inner) (template : Template Value)
    (extras : List (String × Value)) (arguments : Arguments) :
    Preserves KeepsAll (template.run inner extras arguments) := by
  cases inner with
  | none => exact .fault _
  | some services =>
      refine (Preserves.liftFault _).bind fun bound => Preserves.inNewFrame _ fun frame => ?_
      exact (Preserves.defineAll frame extras).bind fun _ =>
        (Preserves.defineAll frame bound).bind fun _ =>
          (keepsBut_executeAll (h services rfl) ⟨frame, [], template.escape⟩
            template.program.body .empty).bind fun _ => .pure _

theorem keepsAll_runClosure (h : KeepAllInside inner) (closure : Closure Value)
    (arguments : Arguments) : Preserves KeepsAll (closure.run inner arguments) := by
  cases inner with
  | none => exact .fault _
  | some services =>
      refine (Preserves.liftFault _).bind fun bound => Preserves.inNewFrame _ fun frame => ?_
      refine (Preserves.defineAll frame bound).bind fun _ =>
        (keepsBut_executeAll (h services rfl) ⟨frame, [], closure.escape⟩ closure.body .empty).bind
          fun progress => ?_
      obtain ⟨flow, out⟩ := progress
      cases flow with
      | returned value => cases value <;> cases closure.kind <;> exact .pure _
      | _ => cases closure.kind <;> exact .pure _

theorem keepsAll_load (h : services.KeepAll) (renderer : Renderer Value) (name : String) :
    Preserves KeepsAll (renderer.load services name) := by
  unfold Renderer.load
  refine (Preserves.liftFailure _).bind fun _ => Preserves.files.bind fun files => .ite ?_ ?_
  · have hCache : Preserves KeepsAll (renderer.library.cache.mapM fun _ => Run.newCache) :=
      .optionMapM (fun _ => .newCache) _
    exact hCache.bind fun _ => .pure _
  · cases files.find? (Path.join renderer.library.root name) with
    | none => exact .fail _
    | some file =>
        exact (Preserves.liftFailure _).bind fun text =>
          (keepsAll_compile h _ _ _ _).bind fun template =>
            (Preserves.count _).bind fun _ => .pure _

theorem keepsAll_resolve (h : services.KeepAll) (renderer : Renderer Value) (name : String) :
    Preserves KeepsAll (renderer.resolve services name) := by
  unfold Renderer.resolve
  cases renderer.library.cache with
  | none => exact keepsAll_load h renderer name
  | some cache =>
      refine (Preserves.remembered? cache name).bind fun found => ?_
      cases found with
      | some resolved => exact .pure resolved
      | none => exact (keepsAll_load h renderer name).bind fun resolved => .remember cache name _

theorem keepsAll_invoke (hInner : KeepAllInside inner) (h : services.KeepAll)
    (renderer : Renderer Value) (leaf : Template Value) (arguments : Arguments) :
    Preserves KeepsAll (renderer.invoke inner services leaf arguments) := by
  refine (keepsAll_runTemplate hInner leaf _ arguments).bind fun content => ?_
  cases renderer.layout with
  | none => exact .pure content
  | some layout =>
      refine Preserves.bind ?_ fun page => keepsAll_runTemplate hInner page _ _
      refine (keepsAll_resolve h _ _).bind fun resolved => ?_
      cases resolved with
      | template content => exact .pure content
      | directory renderer => exact .fail _

theorem keepsAll_access (h : loader.KeepAll) (value : Value) (name : String) :
    Preserves KeepsAll (accessWith loader value name) := by
  unfold accessWith
  split
  · refine (keepsAll_resolve h _ name).bind fun resolved => ?_
    cases resolved <;> exact .pure _
  · exact .ofEvaluation _

section Builtins

variable {callback : Value → Value → Run Value}
  (h : ∀ function item, Preserves KeepsAll (callback function item))
include h

theorem keepsAll_keepItems (function : Value) (items : List Value) (kept : List Value) :
    Preserves KeepsAll (Builtin.keepItems callback function kept items) := by
  induction items generalizing kept with
  | nil => exact .pure _
  | cons item rest ih => exact .ite (ih _) ((h function item).bind fun _ => ih _)

theorem keepsAll_rankOf (key : Option Value) (item : Value) :
    Preserves KeepsAll (Builtin.rankOf callback key item) := by
  cases key with
  | none => exact .pure item
  | some function => exact h function item

theorem keepsAll_rankItems (key : Option Value) (items : List Value) (done : List Ranked) :
    Preserves KeepsAll (Builtin.rankItems callback key done items) := by
  induction items generalizing done with
  | nil => exact .pure _
  | cons item rest ih => exact (keepsAll_rankOf h key item).bind fun _ => ih _

theorem keepsAll_bestItem (symbol : String) (wanted : Ordering) (key : Option Value)
    (items : List Value) (best : Option Ranked) :
    Preserves KeepsAll (Builtin.bestItem callback symbol wanted key best items) := by
  induction items generalizing best with
  | nil => exact .pure _
  | cons item rest ih =>
      refine (keepsAll_rankOf h key item).bind fun rank => ?_
      cases best with
      | none => exact ih _
      | some best => exact (Preserves.liftFault _).bind fun _ => ih _

theorem keepsAll_builtin (name : String) (arguments : Arguments) :
    Preserves KeepsAll (Builtin.apply callback name arguments) := by
  have hExtreme (name symbol : String) (wanted : Ordering) :
      Preserves KeepsAll (Builtin.extreme callback name symbol wanted arguments) :=
    (Preserves.liftFault _).bind fun _ => (Preserves.liftFault _).bind fun items =>
      (keepsAll_bestItem h symbol wanted _ items none).bind fun _ => .liftFault _
  unfold Builtin.apply
  split
  · exact (Preserves.liftFault _).bind fun _ => (Preserves.liftFault _).bind fun items =>
      (keepsAll_keepItems h _ items []).bind fun _ => .pure _
  · exact (Preserves.liftFault _).bind fun _ => (Preserves.liftFault _).bind fun items =>
      (keepsAll_rankItems h _ items []).bind fun _ => (Preserves.liftFault _).bind fun _ => .pure _
  · exact hExtreme "max" ">" .gt
  · exact hExtreme "min" "<" .lt
  · exact .liftFault _

end Builtins

theorem keepsAll_brace {access : Value → String → Run Value}
    (h : ∀ value name, Preserves KeepsAll (access value name)) (format : List Char)
    (arguments : Arguments) : Preserves KeepsAll (Format.brace access format arguments) := by
  have hFollow (names : List String) (value : Value) :
      Preserves KeepsAll (Format.followAttributes access value names) := by
    induction names generalizing value with
    | nil => exact .pure value
    | cons name rest ih => exact (h value name).bind fun _ => ih _
  have hFill (pieces : List Format.BracePiece) (done : List (List Char)) (next : Nat) :
      Preserves KeepsAll (Format.fillBraces access arguments done next pieces) := by
    induction pieces generalizing done next with
    | nil => exact .pure _
    | cons piece rest ih =>
        cases piece with
        | text content => exact ih _ _
        | broken cause => exact .liftFault _
        | field field =>
            exact (Preserves.liftFault _).bind fun found =>
              (hFollow field.attributes found.1).bind fun _ =>
                (Preserves.liftFault _).bind fun _ => ih _ _
  exact (hFill _ [] 0).map _

theorem keepsAll_call {access : Value → String → Run Value}
    {callback : Value → Value → Run Value} (hInner : KeepAllInside inner)
    (hLoader : loader.KeepAll)
    (hAccess : ∀ value name, Preserves KeepsAll (access value name))
    (hCallback : ∀ function item, Preserves KeepsAll (callback function item)) (value : Value)
    (arguments : Arguments) :
    Preserves KeepsAll (callWith inner access callback loader value arguments) := by
  unfold callWith
  split
  · exact keepsAll_builtin hCallback _ arguments
  · exact keepsAll_brace hAccess _ arguments
  · exact .ofEvaluation _
  · exact keepsAll_runClosure hInner _ arguments
  · exact (keepsAll_runTemplate hInner _ [] arguments).map _
  · exact (keepsAll_invoke hInner hLoader _ _ arguments).map _
  · exact .fault _

theorem keepsAll_assemble (hInner : KeepAllInside inner) (hLoader : loader.KeepAll) :
    (assemble inner loader).KeepAll where
  call := keepsAll_call hInner hLoader (keepsAll_access hLoader) fun function _ =>
    keepsAll_call hInner hLoader (keepsAll_access hLoader) (fun _ _ => .fault _) function _
  access := keepsAll_access hLoader

/-- Calls and attributes, however deep inside one another, change no frame that was there. -/
theorem keepsAll_services (calls : Nat) : (Stencil.services calls).KeepAll :=
  services_of_assemble ⟨fun _ _ => .fault _, fun _ _ => .fault _⟩
    (fun _ _ hInner hLoader => keepsAll_assemble hInner hLoader)
    (fun _ h =>
      { call := fun value arguments =>
          Preserves.read.bind fun setting => (h setting.passes).call value arguments
        access := fun value name =>
          Preserves.read.bind fun setting => (h setting.passes).access value name }) calls

end Calls

end Stencil
