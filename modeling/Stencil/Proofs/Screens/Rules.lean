import Stencil.Proofs.Reads
import Stencil.Proofs.Screens

/-!
# Evaluation behind a screen

What is true of each step that evaluation takes is true of evaluation. A `View` tells, for each
state of things `w`, which values a run may come across there, and which names it may look up in
which frames. As a run goes on, things get more, and what was let through stays so.

`View.Rules` says that a property of runs is kept by the steps of evaluation: by stopping and going
on, by marking a value, and by looking up a name. Calls and attributes are left to the services.
Evaluating an expression that reads only names that may be looked up, calling a built-in function
and filling in a format then have the property, whichever it is.

## Main results

* `View.Rules.evaluate`, `View.Rules.evaluateDefaults`: expressions and defaults have the property.
* `View.Rules.builtin`, `View.Rules.brace`: so have built-in functions and formats.
-/

namespace Stencil

/-- What a run may come across, as it goes on. -/
structure View (W : Type) [Preorder W] where
  screen : W → Screen
  /-- Is the frame one that a run may be in? -/
  knows : W → FrameId → Prop
  /-- May this name be looked up in this frame? -/
  sees : W → FrameId → String → Prop
  screen_mono : ∀ {w w' : W}, w ≤ w' → screen w ≤ screen w'
  knows_mono : ∀ {w w' : W} {frame : FrameId}, w ≤ w' → knows w frame → knows w' frame
  sees_mono : ∀ {w w' : W} {frame : FrameId} {name : String}, w ≤ w' → knows w frame →
    sees w frame name → sees w' frame name

namespace View

variable {W : Type} [Preorder W]

/-- The thing is one that a run may come across. -/
abbrev Passes (view : View W) (w : W) {α : Type} [Renamable α] (a : α) : Prop :=
  (view.screen w).Passes a

/-- A run may be in the frame and look these names up there. -/
def Covers (view : View W) (w : W) (frame : FrameId) (names : List String) : Prop :=
  view.knows w frame ∧ ∀ name ∈ names, view.sees w frame name

/-- Steps of evaluation that work on what a run may come across have the property, and so do steps
one after another. -/
structure Rules (view : View W) (P : W → {α : Type} → [Renamable α] → Run α → Prop) : Prop where
  pure : ∀ {w : W} {α : Type} [Renamable α] {a : α}, view.Passes w a → P w (pure a : Run α)
  fail : ∀ {w : W} {α : Type} [Renamable α] (cause : Failure), P w (Run.fail cause : Run α)
  bind : ∀ {w : W} {α β : Type} [Renamable α] [Renamable β] {action : Run α} {next : α → Run β},
    P w action → (∀ w', w ≤ w' → ∀ a, view.Passes w' a → P w' (next a)) → P w (action >>= next)
  settle : ∀ {w : W} {value : Value}, view.Passes w value → P w (Run.settle value)
  lookup? : ∀ {w : W} {frame : FrameId} {name : String}, view.knows w frame →
    view.sees w frame name → P w (Run.lookup? frame name)

/-- Calls and attributes of what a run may come across have the property. -/
structure Obeyed (view : View W) (P : W → {α : Type} → [Renamable α] → Run α → Prop)
    (services : Services) : Prop where
  call : ∀ w value arguments, view.Passes w value → view.Passes w arguments →
    P w (services.call value arguments)
  access : ∀ w value name, view.Passes w value → P w (services.access value name)

section Covers

variable {view : View W} {w w' : W} {frame : FrameId} {names others : List String}

theorem Covers.mono (h : view.Covers w frame names) (hLe : w ≤ w') : view.Covers w' frame names :=
  ⟨view.knows_mono hLe h.1, fun name hName => view.sees_mono hLe h.1 (h.2 name hName)⟩

theorem Covers.subset (h : view.Covers w frame names) (hSubset : others ⊆ names) :
    view.Covers w frame others :=
  ⟨h.1, fun name hName => h.2 name (hSubset hName)⟩

theorem Covers.left (h : view.Covers w frame (names ++ others)) : view.Covers w frame names :=
  h.subset (List.subset_append_left ..)

theorem Covers.right (h : view.Covers w frame (names ++ others)) : view.Covers w frame others :=
  h.subset (List.subset_append_right ..)

theorem passes_mono {α : Type} [Renamable α] {a : α} (hLe : w ≤ w') (h : view.Passes w a) :
    view.Passes w' a :=
  h.mono (view.screen_mono hLe)

end Covers

namespace Rules

variable {view : View W} {P : W → {α : Type} → [Renamable α] → Run α → Prop} {w : W}

/-! ## Steps -/

section Steps

variable {α β : Type} [Renamable α] [Renamable β]

theorem fault (rules : view.Rules P) (cause : Fault) : P w (Run.fault cause : Run α) :=
  rules.fail (.evaluation cause)

theorem map (rules : view.Rules P) {action : Run α} {f : α → β} (h : P w action)
    (hf : ∀ w' a, view.Passes w' a → view.Passes w' (f a)) : P w (f <$> action) := by
  rw [← bind_pure_comp]
  exact rules.bind h fun w' _ a ha => rules.pure (hf w' a ha)

theorem ofEvaluation (rules : view.Rules P) {x : Except Fault α} (h : view.Passes w x) :
    P w (Run.ofEvaluation x) := by
  cases x with
  | error cause => exact rules.fault cause
  | ok a => exact rules.pure (Except.ok.inj h)

theorem liftFault (rules : view.Rules P) {x : Except Fault α} (h : view.Passes w x) :
    P w (liftM x : Run α) := rules.ofEvaluation h

omit [Preorder W] [Renamable β] in
theorem ite {c : Prop} [Decidable c] {action other : Run α} (h : P w action) (h' : P w other) :
    P w (if c then action else other) := by
  split
  · exact h
  · exact h'

end Steps

/-! ## Expressions -/

section Expressions

variable {services : Services} {scene : Scene} {out : Rendering Value}

theorem lookup (rules : view.Rules P) {name : String} {names : List String} (hName : name ∈ names)
    (hReads : view.Covers w scene.frame names) (hOut : view.Passes w out) :
    P w (scene.lookup out name) := by
  refine rules.bind (rules.lookup? hReads.1 (hReads.2 name hName)) fun w' hLe found hFound => ?_
  cases found with
  | some value => exact rules.settle hFound.of_some
  | none =>
      simp only
      split
      · cases hLoops : scene.loops with
        | nil => exact rules.fault _
        | cons innermost outer =>
            refine rules.settle ?_
            show Value.rename _ (.loop _ _) = Value.rename _ (.loop _ _)
            simp [LoopLevel.rename, Function.comp_def]
      · exact rules.settle (passes_mono hLe hOut).ofRendering
      · exact rules.fault _

theorem item (rules : view.Rules P) (h : view.Obeyed P services) {value key : Value}
    (hValue : view.Passes w value) (hKey : view.Passes w key) : P w (services.item value key) := by
  rw [Services.item_eq]
  cases value.renderer? with
  | none => exact rules.ofEvaluation (hValue.index hKey)
  | some renderer =>
      have hName : view.Passes w (key.wantString "template name") := .ofExcept fun _ _ => rfl
      exact rules.bind (rules.liftFault hName) fun w' hLe name _ =>
        h.access w' value name (passes_mono hLe hValue)

mutual

/-- Evaluating an expression has the property. -/
theorem evaluate (rules : view.Rules P) (h : view.Obeyed P services) : ∀ (expr : Expr) {w : W},
    view.Covers w scene.frame expr.reads → view.Passes w out →
    P w (expr.evaluate services scene out)
  | .literal constant, _, _, _ => rules.settle (.literal constant)
  | .name _, _, hReads, hOut =>
      rules.lookup (List.mem_singleton.2 rfl) hReads hOut
  | .list items, _, hReads, hOut =>
      rules.bind (evaluateAll rules h items hReads hOut) fun _ _ _ hValues =>
        rules.settle hValues.ofList
  | .tuple items, _, hReads, hOut =>
      rules.bind (evaluateAll rules h items hReads hOut) fun _ _ _ hValues =>
        rules.settle hValues.ofList
  | .dict entries, _, hReads, hOut =>
      rules.bind (evaluateEntries rules h entries hReads hOut .nil) fun _ _ _ hValues =>
        rules.settle hValues.ofEntries
  | .attribute value field, _, hReads, hOut =>
      rules.bind (evaluate rules h value hReads hOut) fun w' _ value hValue =>
        rules.bind (h.access w' value field hValue) fun _ _ _ hFound => rules.settle hFound
  | .index value key, _, hReads, hOut =>
      rules.bind (evaluate rules h value hReads.left hOut) fun _ hLe _ hValue =>
        rules.bind (evaluate rules h key (hReads.right.mono hLe) (passes_mono hLe hOut))
          fun _ hLe' _ hKey => rules.bind (rules.item h (passes_mono hLe' hValue) hKey)
            fun _ _ _ hFound => rules.settle hFound
  | .slice value start stop step, _, hReads, hOut =>
      rules.bind (evaluate rules h value hReads.left hOut) fun _ h₁ _ hValue =>
        have hReads := hReads.right.mono h₁
        have hOut := passes_mono h₁ hOut
        rules.bind (evaluateOptional rules h start hReads.left hOut) fun _ h₂ _ hStart =>
          have hReads := hReads.right.mono h₂
          have hOut := passes_mono h₂ hOut
          have hValue := passes_mono h₂ hValue
          rules.bind (evaluateOptional rules h stop hReads.left hOut) fun _ h₃ _ hStop =>
            rules.bind (evaluateOptional rules h step (hReads.right.mono h₃) (passes_mono h₃ hOut))
              fun _ h₄ _ hStep =>
                have h₃₄ := h₃.trans h₄
                rules.bind (rules.liftFault ((passes_mono h₃₄ hValue).slice
                  (passes_mono h₃₄ hStart) (passes_mono h₄ hStop) hStep)) fun _ _ _ hPart =>
                    rules.settle hPart
  | .call function arguments named, _, hReads, hOut =>
      rules.bind (evaluate rules h function hReads.left hOut) fun _ h₁ _ hFunction =>
        have hReads := hReads.right.mono h₁
        have hOut := passes_mono h₁ hOut
        rules.bind (evaluateAll rules h arguments hReads.left hOut) fun _ h₂ _ hPositional =>
          rules.bind (evaluateNamed rules h named (hReads.right.mono h₂) (passes_mono h₂ hOut) .nil)
            fun w₃ h₃ _ hNamed =>
              rules.bind (h.call w₃ _ _ (passes_mono (h₂.trans h₃) hFunction)
                ((passes_mono h₃ hPositional).mkArguments hNamed)) fun _ _ _ hResult =>
                  rules.settle hResult
  | .unary op operand, _, hReads, hOut =>
      rules.bind (evaluate rules h operand hReads hOut) fun _ _ _ hOperand =>
        rules.bind (rules.liftFault (hOperand.unary op)) fun _ _ _ hResult => rules.settle hResult
  | .binary op left right, _, hReads, hOut =>
      rules.bind (evaluate rules h left hReads.left hOut) fun _ hLe _ hLeft =>
        rules.bind (evaluate rules h right (hReads.right.mono hLe) (passes_mono hLe hOut))
          fun _ hLe' _ hRight =>
            rules.bind (rules.liftFault ((passes_mono hLe' hLeft).binary op hRight))
              fun _ _ _ hResult => rules.settle hResult
  | .compare left links, _, hReads, hOut =>
      rules.bind (evaluate rules h left hReads.left hOut) fun _ hLe left _ =>
        rules.bind (evaluateLinks rules h left links (hReads.right.mono hLe) (passes_mono hLe hOut))
          fun _ _ _ _ => rules.pure rfl
  | .and left right, _, hReads, hOut =>
      rules.bind (evaluate rules h left hReads.left hOut) fun _ hLe _ hLeft =>
        ite (evaluate rules h right (hReads.right.mono hLe) (passes_mono hLe hOut))
          (rules.pure hLeft)
  | .or left right, _, hReads, hOut =>
      rules.bind (evaluate rules h left hReads.left hOut) fun _ hLe _ hLeft =>
        ite (rules.pure hLeft)
          (evaluate rules h right (hReads.right.mono hLe) (passes_mono hLe hOut))
  | .conditional test body otherwise, _, hReads, hOut =>
      rules.bind (evaluate rules h test hReads.left hOut) fun _ hLe _ _ =>
        have hReads := hReads.right.mono hLe
        have hOut := passes_mono hLe hOut
        ite (evaluate rules h body hReads.left hOut) (evaluate rules h otherwise hReads.right hOut)

theorem evaluateAll (rules : view.Rules P) (h : view.Obeyed P services) :
    ∀ (exprs : List Expr) {w : W}, view.Covers w scene.frame (Expr.allReads exprs) →
      view.Passes w out → P w (Expr.evaluateAll services scene out exprs)
  | [], _, _, _ => rules.pure .nil
  | expr :: rest, _, hReads, hOut =>
      rules.bind (evaluate rules h expr hReads.left hOut) fun _ hLe _ hValue =>
        rules.bind (evaluateAll rules h rest (hReads.right.mono hLe) (passes_mono hLe hOut))
          fun _ hLe' _ hValues => rules.pure ((passes_mono hLe' hValue).cons hValues)

theorem evaluateEntries (rules : view.Rules P) (h : view.Obeyed P services) :
    ∀ (entries : List (Expr × Expr)) {w : W} {done : Entries Value},
      view.Covers w scene.frame (Expr.entryReads entries) → view.Passes w out →
      view.Passes w done → P w (Expr.evaluateEntries services scene out done entries)
  | [], _, _, _, _, hDone => rules.pure hDone
  | (key, expr) :: rest, _, _, hReads, hOut, hDone =>
      rules.bind (evaluate rules h key hReads.left hOut) fun _ hLe key _ =>
        have hReads := hReads.right.mono hLe
        have hOut := passes_mono hLe hOut
        rules.bind (evaluate rules h expr hReads.left hOut) fun _ hLe' _ hValue =>
          evaluateEntries rules h rest (hReads.right.mono hLe') (passes_mono hLe' hOut)
            ((passes_mono (hLe.trans hLe') hDone).insert key.text hValue)

theorem evaluateNamed (rules : view.Rules P) (h : view.Obeyed P services) :
    ∀ (named : List (String × Expr)) {w : W} {done : Entries Value},
      view.Covers w scene.frame (Expr.namedReads named) → view.Passes w out →
      view.Passes w done → P w (Expr.evaluateNamed services scene out done named)
  | [], _, _, _, _, hDone => rules.pure hDone
  | (label, expr) :: rest, _, _, hReads, hOut, hDone =>
      rules.bind (evaluate rules h expr hReads.left hOut) fun _ hLe _ hValue =>
        evaluateNamed rules h rest (hReads.right.mono hLe) (passes_mono hLe hOut)
          ((passes_mono hLe hDone).insert label hValue)

theorem evaluateOptional (rules : view.Rules P) (h : view.Obeyed P services) :
    ∀ (expr : Option Expr) {w : W}, view.Covers w scene.frame (Expr.optionalReads expr) →
      view.Passes w out → P w (Expr.evaluateOptional services scene out expr)
  | none, _, _, _ => rules.pure .none
  | some expr, _, hReads, hOut =>
      rules.bind (evaluate rules h expr hReads hOut) fun _ _ _ hValue => rules.pure hValue.some

theorem evaluateLinks (rules : view.Rules P) (h : view.Obeyed P services) (left : Value) :
    ∀ (links : List (CompareOp × Expr)) {w : W},
      view.Covers w scene.frame (Expr.linkReads links) → view.Passes w out →
      P w (Expr.evaluateLinks services scene out left links)
  | [], _, _, _ => rules.pure rfl
  | (op, expr) :: rest, _, hReads, hOut =>
      rules.bind (evaluate rules h expr hReads.left hOut) fun w' hLe right _ =>
        have hHolds : view.Passes w' (op.apply left right) := .ofExcept fun _ _ => rfl
        rules.bind (rules.liftFault hHolds) fun _ hLe' _ _ =>
          ite (evaluateLinks rules h right rest (hReads.right.mono (hLe.trans hLe'))
            (passes_mono (hLe.trans hLe') hOut)) (rules.pure rfl)

end

/-- Evaluating an expression that may be absent has the property. -/
theorem evaluateOption (rules : view.Rules P) (h : view.Obeyed P services) (expr : Option Expr)
    (hReads : view.Covers w scene.frame (Expr.optionalReads expr)) (hOut : view.Passes w out) :
    P w (expr.mapM (Expr.evaluate services scene out)) := by
  cases expr with
  | none => exact rules.pure .none
  | some expr => exact rules.map (rules.evaluate h expr hReads hOut) fun _ _ ha => ha.some

/-- Evaluating the defaults of parameters has the property. -/
theorem evaluateDefaults (rules : view.Rules P) (h : view.Obeyed P services) :
    ∀ (parameters : List Parameter) {w : W},
      view.Covers w scene.frame (defaultReads parameters) → view.Passes w out →
      P w (Stencil.evaluateDefaults services scene out parameters)
  | [], _, _, _ => rules.pure .nil
  | parameter :: rest, _, hReads, hOut =>
      rules.bind (rules.evaluateOption h parameter.default hReads.left hOut) fun _ hLe _ hValue =>
        rules.bind (evaluateDefaults rules h rest (hReads.right.mono hLe) (passes_mono hLe hOut))
          fun _ hLe' _ hValues => rules.pure ((passes_mono hLe' hValue).cons hValues)

end Expressions

/-! ## Built-in functions -/

section Builtins

variable {callback : Value → Value → Run Value} {arguments : Arguments}

/-- Calling what a run may come across for an item has the property. -/
def Callback (view : View W) (P : W → {α : Type} → [Renamable α] → Run α → Prop)
    (callback : Value → Value → Run Value) : Prop :=
  ∀ w function item, view.Passes w function → view.Passes w item → P w (callback function item)

theorem keepItems (rules : view.Rules P) (h : Callback view P callback) {function : Value}
    (hFunction : view.Passes w function) {kept : List Value} (hKept : view.Passes w kept)
    {items : List Value} (hItems : view.Passes w items) :
    P w (Builtin.keepItems callback function kept items) := by
  have hKeep {w : W} {item : Value} {kept : List Value} (keep : Bool) (hItem : view.Passes w item)
      (hKept : view.Passes w kept) : view.Passes w (if keep then item :: kept else kept) := by
    cases keep
    · exact hKept
    · exact hItem.cons hKept
  induction items generalizing w kept with
  | nil => exact rules.pure hKept.reverse
  | cons item rest ih =>
      refine ite (ih hFunction (hKeep _ hItems.head hKept) hItems.tail) ?_
      exact rules.bind (h w function item hFunction hItems.head) fun w' hLe answer _ =>
        ih (passes_mono hLe hFunction)
          (hKeep _ (passes_mono hLe hItems.head) (passes_mono hLe hKept))
          (passes_mono hLe hItems.tail)

theorem rankOf (rules : view.Rules P) (h : Callback view P callback) {key : Option Value}
    (hKey : view.Passes w key) {item : Value} (hItem : view.Passes w item) :
    P w (Builtin.rankOf callback key item) := by
  cases key with
  | none => exact rules.pure hItem
  | some function => exact h w function item hKey.of_some hItem

theorem rankItems (rules : view.Rules P) (h : Callback view P callback) {key : Option Value}
    (hKey : view.Passes w key) {done : List Ranked} (hDone : view.Passes w done)
    {items : List Value} (hItems : view.Passes w items) :
    P w (Builtin.rankItems callback key done items) := by
  induction items generalizing w done with
  | nil => exact rules.pure hDone.reverse
  | cons item rest ih =>
      refine rules.bind (rules.rankOf h hKey hItems.head) fun w' hLe rank hRank => ?_
      have hRanked : view.Passes w' (⟨rank, item⟩ : Ranked) :=
        congrArg₂ Ranked.mk hRank (passes_mono hLe hItems.head)
      exact ih (passes_mono hLe hKey) (hRanked.cons (passes_mono hLe hDone))
        (passes_mono hLe hItems.tail)

theorem bestItem (rules : view.Rules P) (h : Callback view P callback) (symbol : String)
    (wanted : Ordering) {key : Option Value} (hKey : view.Passes w key) {best : Option Ranked}
    (hBest : view.Passes w best) {items : List Value} (hItems : view.Passes w items) :
    P w (Builtin.bestItem callback symbol wanted key best items) := by
  induction items generalizing w best with
  | nil => exact rules.pure hBest
  | cons item rest ih =>
      refine rules.bind (rules.rankOf h hKey hItems.head) fun w' hLe rank hRank => ?_
      have hRanked : view.Passes w' (⟨rank, item⟩ : Ranked) :=
        congrArg₂ Ranked.mk hRank (passes_mono hLe hItems.head)
      have hKey := passes_mono hLe hKey
      have hRest := passes_mono hLe hItems.tail
      cases best with
      | none => exact ih hKey hRanked.some hRest
      | some best =>
          have hOrder : view.Passes w' (rank.orderFor symbol best.rank) := .ofExcept fun _ _ => rfl
          refine rules.bind (rules.liftFault hOrder) fun w'' hLe' order _ =>
            ih (passes_mono hLe' hKey) ?_ (passes_mono hLe' hRest)
          split
          · exact (passes_mono hLe' hRanked).some
          · exact passes_mono (hLe.trans hLe') hBest

theorem sorted (rules : view.Rules P) (h : Callback view P callback)
    (hArguments : view.Passes w arguments) : P w (Builtin.sorted callback arguments) := by
  have hTake := hArguments.take "key"
  have hReverse := hTake.snd.take "reverse"
  have hCheck : view.Passes w
      (((arguments.take "key").2.take "reverse").2.check "sorted" 1 (some 1)) :=
    .ofExcept fun _ _ => rfl
  unfold Builtin.sorted
  refine rules.bind (rules.liftFault hCheck) fun w₁ h₁ _ _ => ?_
  refine rules.bind (rules.liftFault ((passes_mono h₁ hReverse.snd).argument 0).items)
    fun w₂ h₂ items hItems => ?_
  refine rules.bind (rules.rankItems h (passes_mono (h₁.trans h₂) hTake.fst).keyOf .nil hItems)
    fun w₃ h₃ ranked hRanked => ?_
  refine rules.bind (rules.liftFault (hRanked.apply fun ρ _ => Ranked.sort_rename ρ _))
    fun w₄ h₄ sorted hSorted => rules.pure ?_
  have hItems : view.Passes w₄ (sorted.map Ranked.item) :=
    hSorted.apply (f := List.map Ranked.item) fun ρ _ xs => by
      show List.map _ (List.map _ xs) = List.map _ (List.map _ xs)
      rw [List.map_map, List.map_map]
      rfl
  exact hItems.ofList

theorem extreme (rules : view.Rules P) (h : Callback view P callback)
    (name symbol : String) (wanted : Ordering) (hArguments : view.Passes w arguments) :
    P w (Builtin.extreme callback name symbol wanted arguments) := by
  have hTake := hArguments.take "key"
  have hDefault := hTake.snd.take "default"
  have hCheck : view.Passes w (((arguments.take "key").2.take "default").2.check name 1 none) :=
    .ofExcept fun _ _ => rfl
  have hItems : view.Passes w
      (Builtin.itemsToCompare ((arguments.take "key").2.take "default").2.positional) := by
    have hPositional := hDefault.snd.positional
    unfold Builtin.itemsToCompare
    split
    · rename_i value hValues
      rw [hValues] at hPositional
      exact hPositional.head.items
    · exact congrArg Except.ok hPositional
  unfold Builtin.extreme
  refine rules.bind (rules.liftFault hCheck) fun w₁ h₁ _ _ => ?_
  refine rules.bind (rules.liftFault (passes_mono h₁ hItems)) fun w₂ h₂ items hItems => ?_
  refine rules.bind
    (rules.bestItem h symbol wanted (passes_mono (h₁.trans h₂) hTake.fst).keyOf .none hItems)
    fun w₃ h₃ best hBest => rules.liftFault (Screen.Passes.resultOf name ?_)
  cases best with
  | none => exact passes_mono ((h₁.trans h₂).trans h₃) hDefault.fst
  | some best =>
      have hItem : view.Passes w₃ best.item := congrArg Ranked.item hBest.of_some
      exact hItem.some

/-- A built-in function has the property when the functions that it calls have it. -/
theorem builtin (rules : view.Rules P) (h : Callback view P callback) (name : String)
    (hArguments : view.Passes w arguments) : P w (Builtin.apply callback name arguments) := by
  unfold Builtin.apply
  split
  · have hCheck : view.Passes w (arguments.check "filter" 2 (some 2)) := .ofExcept fun _ _ => rfl
    refine rules.bind (rules.liftFault hCheck) fun w₁ h₁ _ _ => ?_
    have hArguments := passes_mono h₁ hArguments
    refine rules.bind (rules.liftFault (hArguments.argument 1).items) fun w₂ h₂ items hItems => ?_
    exact rules.bind
      (rules.keepItems h (passes_mono h₂ (hArguments.argument 0)) .nil hItems)
      fun _ _ _ hKept => rules.pure hKept.ofList
  · exact rules.sorted h hArguments
  · exact rules.extreme h _ _ _ hArguments
  · exact rules.extreme h _ _ _ hArguments
  · exact rules.liftFault (hArguments.apply (f := Builtin.compute _) fun ρ _ x =>
      Builtin.compute_rename ρ _ x)

/-- Filling in a format has the property when the attributes that it asks for have it. -/
theorem brace (rules : view.Rules P) {access : Value → String → Run Value}
    (h : ∀ w value name, view.Passes w value → P w (access value name)) (format : List Char)
    (hArguments : view.Passes w arguments) : P w (Format.brace access format arguments) := by
  have hFollow (names : List String) {w : W} (value : Value) (hValue : view.Passes w value) :
      P w (Format.followAttributes access value names) := by
    induction names generalizing w value with
    | nil => exact rules.pure hValue
    | cons name rest ih =>
        exact rules.bind (h w value name hValue) fun w' _ found hFound => ih found hFound
  have hFill (pieces : List Format.BracePiece) {w : W} (hArguments : view.Passes w arguments)
      (done : List (List Char)) (next : Nat) :
      P w (Format.fillBraces access arguments done next pieces) := by
    induction pieces generalizing w done next with
    | nil => exact rules.pure rfl
    | cons piece rest ih =>
        cases piece with
        | text content => exact ih hArguments _ _
        | broken cause => exact rules.liftFault rfl
        | field field =>
            have hFound : view.Passes w (field.source.find arguments next) :=
              hArguments.apply (f := fun x => field.source.find x next)
                fun ρ _ x => Format.FieldSource.find_rename ρ field.source x next
            refine rules.bind (rules.liftFault hFound) fun w₁ h₁ found hFound => ?_
            refine rules.bind (hFollow field.attributes found.1 hFound.fst) fun w₂ h₂ value _ => ?_
            have hText : view.Passes w₂ (Format.applySpec field.spec value) :=
              .ofExcept fun _ _ => rfl
            exact rules.bind (rules.liftFault hText) fun w₃ h₃ text _ =>
              ih (passes_mono ((h₁.trans h₂).trans h₃) hArguments) _ _
  exact rules.map (hFill _ hArguments [] 0) fun _ _ _ => rfl

end Builtins

end Rules

end View

end Stencil
