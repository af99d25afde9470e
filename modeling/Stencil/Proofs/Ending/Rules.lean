import Stencil.Proofs.Ending.Reach

/-!
# Evaluation within a reach

What is true of each step that evaluation takes is true of evaluation. `Reach.Rules` says that a
property of runs is kept by these steps, as long as the values that they work on are within a reach:
by stopping and going on, by marking a value, and by looking up a variable. Calls and attributes are
left to the services. Evaluating an expression, calling a built-in function and filling in a format
then have the property, whichever it is.

## Main results

* `Reach.Rules.evaluate`, `Reach.Rules.evaluateDefaults`: expressions and defaults have the
  property.
* `Reach.Rules.builtin`, `Reach.Rules.brace`: so have built-in functions and formats.
-/

namespace Stencil

/-- Steps that work on values within a reach have the property, in frames that are known to hold
such values, and so do steps one after another. -/
structure Reach.Rules (reach : Reach) (known : FrameId → Prop)
    (P : {α : Type} → [Renamable α] → Run α → Prop) : Prop where
  pure : ∀ {α : Type} [Renamable α] {a : α}, reach.Inside a → P (pure a : Run α)
  fail : ∀ {α : Type} [Renamable α] (cause : Failure), P (Run.fail cause : Run α)
  bind : ∀ {α β : Type} [Renamable α] [Renamable β] {action : Run α} {next : α → Run β},
    P action → (∀ a, reach.Inside a → P (next a)) → P (action >>= next)
  settle : ∀ {value : Value}, reach.Inside value → P (Run.settle value)
  lookup? : ∀ {frame : FrameId}, known frame → ∀ name, P (Run.lookup? frame name)

/-- Calls and attributes of what is within the reach have the property. -/
structure Services.Obey (services : Services) (reach : Reach)
    (P : {α : Type} → [Renamable α] → Run α → Prop) : Prop where
  call : ∀ value arguments, reach.Inside value → reach.Inside arguments →
    P (services.call value arguments)
  access : ∀ value name, reach.Inside value → P (services.access value name)

theorem inside_literal {reach : Reach} (constant : Literal) : reach.Inside constant.value := by
  cases constant <;> rfl

theorem Reach.Inside.reverse {reach : Reach} {α : Type} [Renamable α] {xs : List α}
    (h : reach.Inside xs) : reach.Inside xs.reverse :=
  h.apply (f := List.reverse) fun _ _ _ => List.map_reverse.symm

theorem Reach.Inside.keyOf {reach : Reach} {key : Option Value} (h : reach.Inside key) :
    reach.Inside (Builtin.keyOf key) := by
  cases key with
  | none => exact .none
  | some function =>
      show reach.Inside (if (!function.isNone) = true then Option.some function else Option.none)
      split
      · exact h
      · exact .none

theorem Reach.Inside.resultOf {reach : Reach} (name : String) {found : Option Value}
    (h : reach.Inside found) : reach.Inside (Builtin.resultOf name found) := by
  cases found with
  | none => rfl
  | some value => exact congrArg Except.ok h.of_some

namespace Reach.Rules

variable {reach : Reach} {known : FrameId → Prop}
  {P : {α : Type} → [Renamable α] → Run α → Prop}

/-! ## Steps -/

section Steps

variable {α β : Type} [Renamable α] [Renamable β]

theorem fault (rules : reach.Rules known P) (cause : Fault) : P (Run.fault cause : Run α) :=
  rules.fail (.evaluation cause)

theorem map (rules : reach.Rules known P) {action : Run α} {f : α → β} (h : P action)
    (hf : ∀ a, reach.Inside a → reach.Inside (f a)) : P (f <$> action) := by
  rw [← bind_pure_comp]
  exact rules.bind h fun a ha => rules.pure (hf a ha)

theorem ofEvaluation (rules : reach.Rules known P) {x : Except Fault α} (h : reach.Inside x) :
    P (Run.ofEvaluation x) := by
  cases x with
  | error cause => exact rules.fault cause
  | ok a => exact rules.pure (Except.ok.inj h)

theorem liftFault (rules : reach.Rules known P) {x : Except Fault α} (h : reach.Inside x) :
    P (liftM x : Run α) := rules.ofEvaluation h

omit [Renamable β] in
theorem ite {c : Prop} [Decidable c] {action other : Run α} (h : P action) (h' : P other) :
    P (if c then action else other) := by
  split
  · exact h
  · exact h'

theorem optionMapM (rules : reach.Rules known P) {γ : Type} {f : γ → Run α} (value : Option γ)
    (h : ∀ x, P (f x)) : P (value.mapM f) := by
  cases value with
  | none => exact rules.pure .none
  | some x => exact rules.map (h x) fun _ ha => ha.some

end Steps

/-! ## Expressions -/

section Expressions

variable {services : Services} {scene : Scene} {out : Rendering Value}

theorem lookup (rules : reach.Rules known P) (hFrame : known scene.frame) (hOut : reach.Inside out)
    (name : String) : P (scene.lookup out name) := by
  refine rules.bind (rules.lookup? hFrame name) fun found hFound => ?_
  cases found with
  | some value => exact rules.settle hFound.of_some
  | none =>
      simp only
      split
      · cases hLoops : scene.loops with
        | nil => exact rules.fault _
        | cons innermost outer =>
            refine rules.settle ?_
            show Value.rename _ (.loop _ _) = Value.rename _ (.loop _ _)
            simp [LoopLevel.rename, Function.comp_def]
      · exact rules.settle hOut.ofRendering
      · exact rules.fault _

theorem item (rules : reach.Rules known P) (h : services.Obey reach P) {value key : Value}
    (hValue : reach.Inside value) (hKey : reach.Inside key) : P (services.item value key) := by
  rw [Services.item_eq]
  cases value.renderer? with
  | none => exact rules.ofEvaluation (hValue.index hKey)
  | some renderer =>
      have hName : reach.Inside (key.wantString "template name") := .ofExcept fun _ _ => rfl
      exact rules.bind (rules.liftFault hName) fun name _ => h.access value name hValue

mutual

/-- Evaluating an expression has the property. -/
theorem evaluate (rules : reach.Rules known P) (h : services.Obey reach P)
    (hFrame : known scene.frame) (hOut : reach.Inside out) : ∀ expr : Expr,
      P (expr.evaluate services scene out)
  | .literal constant => rules.settle (inside_literal constant)
  | .name identifier => rules.lookup hFrame hOut identifier
  | .list items =>
      rules.bind (evaluateAll rules h hFrame hOut items) fun _ hValues =>
        rules.settle hValues.ofList
  | .tuple items =>
      rules.bind (evaluateAll rules h hFrame hOut items) fun _ hValues =>
        rules.settle hValues.ofList
  | .dict entries =>
      rules.bind (evaluateEntries rules h hFrame hOut .nil entries) fun _ hValues =>
        rules.settle hValues.ofEntries
  | .attribute value field =>
      rules.bind (evaluate rules h hFrame hOut value) fun value hValue =>
        rules.bind (h.access value field hValue) fun _ hFound => rules.settle hFound
  | .index value key =>
      rules.bind (evaluate rules h hFrame hOut value) fun _ hValue =>
        rules.bind (evaluate rules h hFrame hOut key) fun _ hKey =>
          rules.bind (rules.item h hValue hKey) fun _ hFound => rules.settle hFound
  | .slice value start stop step =>
      rules.bind (evaluate rules h hFrame hOut value) fun _ hValue =>
        rules.bind (evaluateOptional rules h hFrame hOut start) fun _ hStart =>
          rules.bind (evaluateOptional rules h hFrame hOut stop) fun _ hStop =>
            rules.bind (evaluateOptional rules h hFrame hOut step) fun _ hStep =>
              rules.bind (rules.liftFault (hValue.slice hStart hStop hStep)) fun _ hPart =>
                rules.settle hPart
  | .call function arguments named =>
      rules.bind (evaluate rules h hFrame hOut function) fun function hFunction =>
        rules.bind (evaluateAll rules h hFrame hOut arguments) fun positional hPositional =>
          rules.bind (evaluateNamed rules h hFrame hOut .nil named) fun named hNamed =>
            rules.bind (h.call function ⟨positional, named⟩ hFunction
              (congrArg₂ Arguments.mk hPositional hNamed)) fun _ hResult => rules.settle hResult
  | .unary op operand =>
      rules.bind (evaluate rules h hFrame hOut operand) fun _ hOperand =>
        rules.bind (rules.liftFault (hOperand.unary op)) fun _ hResult => rules.settle hResult
  | .binary op left right =>
      rules.bind (evaluate rules h hFrame hOut left) fun _ hLeft =>
        rules.bind (evaluate rules h hFrame hOut right) fun _ hRight =>
          rules.bind (rules.liftFault (hLeft.binary op hRight)) fun _ hResult =>
            rules.settle hResult
  | .compare left links =>
      rules.bind (evaluate rules h hFrame hOut left) fun left _ =>
        rules.bind (evaluateLinks rules h hFrame hOut left links) fun _ _ => rules.pure rfl
  | .and left right =>
      rules.bind (evaluate rules h hFrame hOut left) fun _ hLeft =>
        ite (evaluate rules h hFrame hOut right) (rules.pure hLeft)
  | .or left right =>
      rules.bind (evaluate rules h hFrame hOut left) fun _ hLeft =>
        ite (rules.pure hLeft) (evaluate rules h hFrame hOut right)
  | .conditional test body otherwise =>
      rules.bind (evaluate rules h hFrame hOut test) fun _ _ =>
        ite (evaluate rules h hFrame hOut body) (evaluate rules h hFrame hOut otherwise)

theorem evaluateAll (rules : reach.Rules known P) (h : services.Obey reach P)
    (hFrame : known scene.frame) (hOut : reach.Inside out) : ∀ exprs : List Expr,
      P (Expr.evaluateAll services scene out exprs)
  | [] => rules.pure .nil
  | expr :: rest =>
      rules.bind (evaluate rules h hFrame hOut expr) fun _ hValue =>
        rules.bind (evaluateAll rules h hFrame hOut rest) fun _ hValues =>
          rules.pure (hValue.cons hValues)

theorem evaluateEntries (rules : reach.Rules known P) (h : services.Obey reach P)
    (hFrame : known scene.frame) (hOut : reach.Inside out) {done : Entries Value}
    (hDone : reach.Inside done) : ∀ entries : List (Expr × Expr),
      P (Expr.evaluateEntries services scene out done entries)
  | [] => rules.pure hDone
  | (key, expr) :: rest =>
      rules.bind (evaluate rules h hFrame hOut key) fun key _ =>
        rules.bind (evaluate rules h hFrame hOut expr) fun _ hValue =>
          evaluateEntries rules h hFrame hOut (hDone.insert key.text hValue) rest

theorem evaluateNamed (rules : reach.Rules known P) (h : services.Obey reach P)
    (hFrame : known scene.frame) (hOut : reach.Inside out) {done : Entries Value}
    (hDone : reach.Inside done) : ∀ named : List (String × Expr),
      P (Expr.evaluateNamed services scene out done named)
  | [] => rules.pure hDone
  | (label, expr) :: rest =>
      rules.bind (evaluate rules h hFrame hOut expr) fun _ hValue =>
        evaluateNamed rules h hFrame hOut (hDone.insert label hValue) rest

theorem evaluateOptional (rules : reach.Rules known P) (h : services.Obey reach P)
    (hFrame : known scene.frame) (hOut : reach.Inside out) : ∀ expr : Option Expr,
      P (Expr.evaluateOptional services scene out expr)
  | none => rules.pure .none
  | some expr =>
      rules.bind (evaluate rules h hFrame hOut expr) fun _ hValue => rules.pure hValue.some

theorem evaluateLinks (rules : reach.Rules known P) (h : services.Obey reach P)
    (hFrame : known scene.frame) (hOut : reach.Inside out) (left : Value) :
    ∀ links : List (CompareOp × Expr), P (Expr.evaluateLinks services scene out left links)
  | [] => rules.pure rfl
  | (op, expr) :: rest =>
      rules.bind (evaluate rules h hFrame hOut expr) fun right _ =>
        have hHolds : reach.Inside (op.apply left right) := .ofExcept fun _ _ => rfl
        rules.bind (rules.liftFault hHolds) fun _ _ =>
          ite (evaluateLinks rules h hFrame hOut right rest) (rules.pure rfl)

end

/-- Evaluating the defaults of parameters has the property. -/
theorem evaluateDefaults (rules : reach.Rules known P) (h : services.Obey reach P)
    (hFrame : known scene.frame) (hOut : reach.Inside out) : ∀ parameters : List Parameter,
      P (Stencil.evaluateDefaults services scene out parameters)
  | [] => rules.pure .nil
  | parameter :: rest =>
      rules.bind (rules.optionMapM parameter.default (rules.evaluate h hFrame hOut))
        fun _ hValue => rules.bind (evaluateDefaults rules h hFrame hOut rest)
          fun _ hValues => rules.pure (hValue.cons hValues)

end Expressions

/-! ## Built-in functions -/

section Builtins

variable {callback : Value → Value → Run Value} {arguments : Arguments}

/-- Calling what is within the reach for an item within the reach has the property. -/
def Callback (reach : Reach) (P : {α : Type} → [Renamable α] → Run α → Prop)
    (callback : Value → Value → Run Value) : Prop :=
  ∀ function item, reach.Inside function → reach.Inside item → P (callback function item)

theorem keepItems (rules : reach.Rules known P) (h : Callback reach P callback) {function : Value}
    (hFunction : reach.Inside function) {kept : List Value} (hKept : reach.Inside kept)
    {items : List Value} (hItems : reach.Inside items) :
    P (Builtin.keepItems callback function kept items) := by
  have hKeep {item : Value} {kept : List Value} (keep : Bool) (hItem : reach.Inside item)
      (hKept : reach.Inside kept) : reach.Inside (if keep then item :: kept else kept) := by
    cases keep
    · exact hKept
    · exact hItem.cons hKept
  induction items generalizing kept with
  | nil => exact rules.pure hKept.reverse
  | cons item rest ih =>
      refine ite (ih (hKeep _ hItems.head hKept) hItems.tail) ?_
      exact rules.bind (h function item hFunction hItems.head) fun answer _ =>
        ih (hKeep _ hItems.head hKept) hItems.tail

theorem rankOf (rules : reach.Rules known P) (h : Callback reach P callback) {key : Option Value}
    (hKey : reach.Inside key) {item : Value} (hItem : reach.Inside item) :
    P (Builtin.rankOf callback key item) := by
  cases key with
  | none => exact rules.pure hItem
  | some function => exact h function item hKey.of_some hItem

theorem rankItems (rules : reach.Rules known P) (h : Callback reach P callback)
    {key : Option Value} (hKey : reach.Inside key) {done : List Ranked} (hDone : reach.Inside done)
    {items : List Value} (hItems : reach.Inside items) :
    P (Builtin.rankItems callback key done items) := by
  induction items generalizing done with
  | nil => exact rules.pure hDone.reverse
  | cons item rest ih =>
      refine rules.bind (rules.rankOf h hKey hItems.head) fun rank hRank => ?_
      have hRanked : reach.Inside (⟨rank, item⟩ : Ranked) := congrArg₂ Ranked.mk hRank hItems.head
      exact ih (hRanked.cons hDone) hItems.tail

theorem bestItem (rules : reach.Rules known P) (h : Callback reach P callback) (symbol : String)
    (wanted : Ordering) {key : Option Value} (hKey : reach.Inside key) {best : Option Ranked}
    (hBest : reach.Inside best) {items : List Value} (hItems : reach.Inside items) :
    P (Builtin.bestItem callback symbol wanted key best items) := by
  induction items generalizing best with
  | nil => exact rules.pure hBest
  | cons item rest ih =>
      refine rules.bind (rules.rankOf h hKey hItems.head) fun rank hRank => ?_
      have hRanked : reach.Inside (⟨rank, item⟩ : Ranked) := congrArg₂ Ranked.mk hRank hItems.head
      cases best with
      | none => exact ih hRanked.some hItems.tail
      | some best =>
          have hOrder : reach.Inside (rank.orderFor symbol best.rank) := .ofExcept fun _ _ => rfl
          refine rules.bind (rules.liftFault hOrder) fun order _ => ih ?_ hItems.tail
          split
          · exact hRanked.some
          · exact hBest

theorem sorted (rules : reach.Rules known P) (h : Callback reach P callback)
    (hArguments : reach.Inside arguments) : P (Builtin.sorted callback arguments) := by
  have hTake := hArguments.take "key"
  have hReverse := hTake.snd.take "reverse"
  have hCheck : reach.Inside
      (((arguments.take "key").2.take "reverse").2.check "sorted" 1 (some 1)) :=
    .ofExcept fun _ _ => rfl
  unfold Builtin.sorted
  refine rules.bind (rules.liftFault hCheck) fun _ _ => ?_
  refine rules.bind (rules.liftFault (hReverse.snd.argument 0).items) fun items hItems => ?_
  refine rules.bind (rules.rankItems h hTake.fst.keyOf .nil hItems) fun ranked hRanked => ?_
  refine rules.bind (rules.liftFault (hRanked.apply fun ρ _ => Ranked.sort_rename ρ _))
    fun sorted hSorted => rules.pure ?_
  have hItems : reach.Inside (sorted.map Ranked.item) :=
    hSorted.apply (f := List.map Ranked.item) fun ρ _ xs => by
      show List.map _ (List.map _ xs) = List.map _ (List.map _ xs)
      rw [List.map_map, List.map_map]
      rfl
  exact hItems.ofList

theorem extreme (rules : reach.Rules known P) (h : Callback reach P callback)
    (name symbol : String) (wanted : Ordering) (hArguments : reach.Inside arguments) :
    P (Builtin.extreme callback name symbol wanted arguments) := by
  have hTake := hArguments.take "key"
  have hDefault := hTake.snd.take "default"
  have hCheck : reach.Inside (((arguments.take "key").2.take "default").2.check name 1 none) :=
    .ofExcept fun _ _ => rfl
  have hItems : reach.Inside
      (Builtin.itemsToCompare ((arguments.take "key").2.take "default").2.positional) := by
    have hPositional := hDefault.snd.positional
    unfold Builtin.itemsToCompare
    split
    · rename_i value hValues
      rw [hValues] at hPositional
      exact hPositional.head.items
    · exact congrArg Except.ok hPositional
  unfold Builtin.extreme
  refine rules.bind (rules.liftFault hCheck) fun _ _ => ?_
  refine rules.bind (rules.liftFault hItems) fun items hItems => ?_
  refine rules.bind (rules.bestItem h symbol wanted hTake.fst.keyOf .none hItems)
    fun best hBest => rules.liftFault (Reach.Inside.resultOf name ?_)
  cases best with
  | none => exact hDefault.fst
  | some best =>
      have hItem : reach.Inside best.item := congrArg Ranked.item hBest.of_some
      exact hItem.some

/-- A built-in function has the property when the functions that it calls have it. -/
theorem builtin (rules : reach.Rules known P) (h : Callback reach P callback) (name : String)
    (hArguments : reach.Inside arguments) : P (Builtin.apply callback name arguments) := by
  unfold Builtin.apply
  split
  · have hCheck : reach.Inside (arguments.check "filter" 2 (some 2)) := .ofExcept fun _ _ => rfl
    refine rules.bind (rules.liftFault hCheck) fun _ _ => ?_
    refine rules.bind (rules.liftFault (hArguments.argument 1).items) fun items hItems => ?_
    exact rules.bind (rules.keepItems h (hArguments.argument 0) .nil hItems)
      fun _ hKept => rules.pure hKept.ofList
  · exact rules.sorted h hArguments
  · exact rules.extreme h _ _ _ hArguments
  · exact rules.extreme h _ _ _ hArguments
  · exact rules.liftFault (hArguments.apply (f := Builtin.compute _) fun ρ _ x =>
      Builtin.compute_rename ρ _ x)

/-- Filling in a format has the property when the attributes that it asks for have it. -/
theorem brace (rules : reach.Rules known P) {access : Value → String → Run Value}
    (h : ∀ value name, reach.Inside value → P (access value name)) (format : List Char)
    (hArguments : reach.Inside arguments) : P (Format.brace access format arguments) := by
  have hFollow (names : List String) (value : Value) (hValue : reach.Inside value) :
      P (Format.followAttributes access value names) := by
    induction names generalizing value with
    | nil => exact rules.pure hValue
    | cons name rest ih =>
        exact rules.bind (h value name hValue) fun found hFound => ih found hFound
  have hFill (pieces : List Format.BracePiece) (done : List (List Char)) (next : Nat) :
      P (Format.fillBraces access arguments done next pieces) := by
    induction pieces generalizing done next with
    | nil => exact rules.pure rfl
    | cons piece rest ih =>
        cases piece with
        | text content => exact ih _ _
        | broken cause => exact rules.liftFault rfl
        | field field =>
            have hFound : reach.Inside (field.source.find arguments next) :=
              hArguments.apply (f := fun x => field.source.find x next)
                fun ρ _ x => Format.FieldSource.find_rename ρ field.source x next
            refine rules.bind (rules.liftFault hFound) fun found hFound => ?_
            refine rules.bind (hFollow field.attributes found.1 hFound.fst) fun value _ => ?_
            have hText : reach.Inside (Format.applySpec field.spec value) :=
              .ofExcept fun _ _ => rfl
            exact rules.bind (rules.liftFault hText) fun text _ => ih _ _
  exact rules.map (hFill _ [] 0) fun _ _ => rfl

end Builtins

end Reach.Rules

end Stencil
