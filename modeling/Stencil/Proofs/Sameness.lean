import Mathlib.Order.CompleteBooleanAlgebra
import Mathlib.Order.CompletePartialOrder
import Stencil.Proofs.Equality
import Stencil.Proofs.Screens.Calls
import Stencil.Proofs.Screens.Stores

/-!
# Names compared with themselves

A variable holds a value with a mark, so looking its name up twice gives one value twice, and a name
is equal to itself, the same as itself, and in the list of itself. A function that is bound by its
own definition has no mark: each look-up makes a new function of it, and two functions are never
equal. All three comparisons of such a name with itself fail, though they hold as soon as the
function is assigned to another name.

There are no other variables. The built-in functions have their marks from the start, and the steps
of a run define a variable with a marked value or by a definition.

## Main results

* `Run.marked_rules`: each step of a run leaves variables that are marked or defined.
* `settled_equals_itself`, `definition_differs_from_itself`: a name that is compared with itself.
* `names_equal_themselves`: in every run, a name equals itself unless it is a defined function.
-/

namespace Stencil

namespace Value

/-- A function as its definition binds it. -/
def IsDefinition (value : Value) : Prop := ∃ closure, value = .function closure Option.none

/-- A new value gets a mark. -/
theorem isSettled_settle (value : Value) (next : Nat) :
    (value.settle next).1.isSettled = true := by
  cases value with
  | list items mark =>
      obtain ⟨items⟩ := items
      cases mark with
      | none => rw [settle_list]; rfl
      | some n => rfl
  | loop level outer =>
      obtain ⟨position, mark⟩ := level
      cases mark <;> rfl
  | none => rfl
  | bool b => rfl
  | int i => rfl
  | float x => rfl
  | string text mark => cases mark <;> rfl
  | dict entries mark => cases mark <;> rfl
  | rendering content mark => cases mark <;> rfl
  | builtin name mark => cases mark <;> rfl
  | method receiver name mark => cases mark <;> rfl
  | function closure mark => cases mark <;> rfl
  | template content mark => cases mark <;> rfl
  | renderer content mark => cases mark <;> rfl
  | page content leaf mark => cases mark <;> rfl

/-- A value with a mark is the same as itself, unless it is a float. -/
theorem same_self {value : Value} (hSettled : value.isSettled = true) (hRegular : value.IsRegular) :
    value.same value = true := by
  have hMark (hMark : value.mark?.isSome = true) : Mark.same value.mark? value.mark? = true := by
    obtain ⟨n, hMark⟩ := Option.isSome_iff_exists.1 hMark
    exact Mark.same_eq_true_iff.2 ⟨n, hMark, hMark⟩
  cases value with
  | none => rfl
  | bool b => exact beq_self_eq_true b
  | int i => exact beq_self_eq_true i
  | float x =>
      cases hRegular with
      | object isObject => cases isObject
  | _ => exact hMark hSettled

end Value

/-! ## Variables in a run -/

/-- What is looked up stands in one of the frames. -/
theorem Frames.exists_of_lookupWithin {α : Type} {frames : Frames α} {name : String} {value : α}
    {steps : Nat} {id : FrameId} (h : frames.lookupWithin name steps id = some value) :
    ∃ place frame, frames.frame? place = some frame ∧
      Entries.find? name frame.bindings = some value := by
  fun_induction Frames.lookupWithin frames name steps id with
  | case1 => cases h
  | case2 steps id frame hFrame found hFound => exact ⟨id, frame, hFrame, hFound.trans h⟩
  | case3 => rename_i ih; exact ih h
  | case4 => cases h

namespace Store

/-- Each variable has a value with a mark, or is a function as its definition binds it. -/
def Marked (store : Store) : Prop :=
  ∀ id frame name value, store.frames.frame? id = some frame →
    Entries.find? name frame.bindings = some value →
    value.isSettled = true ∨ value.IsDefinition

/-- The variables are marked or defined afterwards, if they were before. -/
def KeepsMarked (before after : Store) : Prop := before.Marked → after.Marked

instance : Std.Refl KeepsMarked := ⟨fun _ h => h⟩

instance : Trans KeepsMarked KeepsMarked KeepsMarked := ⟨fun h h' hMarked => h' (h hMarked)⟩

variable {store : Store}

theorem marked_initial : Store.initial.Marked := by
  intro id frame name value hFrame hFound
  have hId : id < Store.initial.frames.next := (Array.getElem?_eq_some_iff.1 hFrame).1
  obtain rfl : id = 0 := Nat.lt_one_iff.1 hId
  obtain rfl : _ = frame := Option.some.inj hFrame
  rw [Entries.find?_eq_lookup] at hFound
  obtain ⟨before, after, hSplit, -⟩ := List.lookup_eq_some_iff.1 hFound
  have hNames : (Builtin.names.zipIdx.map fun entry =>
      (entry.1, Value.builtin entry.1 (some entry.2))) = before ++ (name, value) :: after := hSplit
  have hMem : (name, value) ∈ before ++ (name, value) :: after := by simp
  rw [← hNames] at hMem
  obtain ⟨entry, -, hEntry⟩ := List.mem_map.1 hMem
  rw [← (Prod.mk.inj hEntry).2]
  exact .inl rfl

theorem Marked.of_frames {after : Store} (h : store.Marked)
    (hFrames : after.frames = store.frames) : after.Marked := by
  intro id frame name value hFrame
  rw [hFrames] at hFrame
  exact h id frame name value hFrame

theorem Marked.child (h : store.Marked) (parent : FrameId) :
    Store.Marked { store with frames := store.frames.child parent } := by
  intro id frame name value hFrame hFound
  obtain ⟨-, hBefore⟩ | ⟨-, rfl⟩ := Frames.frame?_child_eq_some hFrame
  · exact h id frame name value hBefore hFound
  · cases hFound

theorem Marked.define (h : store.Marked) (id : FrameId) (name : String) {value : Value}
    (hValue : value.isSettled = true ∨ value.IsDefinition) :
    Store.Marked { store with frames := store.frames.define id name value } := by
  intro other frame key found hFrame hFound
  obtain ⟨-, hBefore⟩ | ⟨before, -, hBefore, rfl⟩ := Frames.frame?_define_eq_some hFrame
  · exact h other frame key found hBefore hFound
  · by_cases hKey : key = name
    · rw [hKey, Entries.find?_insert_same] at hFound
      rw [← Option.some.inj hFound]
      exact hValue
    · rw [Entries.find?_insert_other hKey] at hFound
      exact h other before key found hBefore hFound

/-- What is looked up is marked or defined. -/
theorem Marked.lookup? (h : store.Marked) {frame : FrameId} {name : String} {value : Value}
    (hFound : store.frames.lookup? frame name = some value) :
    value.isSettled = true ∨ value.IsDefinition := by
  obtain ⟨place, frame, hFrame, hHere⟩ := Frames.exists_of_lookupWithin hFound
  exact h place frame name value hFrame hHere

end Store

/-! ## Runs -/

/-- Values may hold anything. -/
def Screen.open : Screen where
  admits _ _ := True
  serves _ _ _ := True

/-- Everything passes where values may hold anything. -/
theorem Screen.passes_open {α : Type} [Renamable α] (a : α) : Screen.open.Passes a := by
  have hNumbers : Screen.open.numbers 0 = Screen.open.numbers 1 := by
    simp [Screen.numbers, Screen.Serves, Screen.open]
  exact congrArg (Renamable.rename · a) hNumbers

/-- A run may come across any value, and look any name up in any frame. -/
def View.open : View Unit where
  screen _ := .open
  knows _ _ := True
  sees _ _ _ := True
  screen_mono _ := le_rfl
  knows_mono _ h := h
  sees_mono _ _ h := h

namespace Run

open Store

namespace Preserves

theorem settle_marked (value : Value) : Preserves KeepsMarked (Run.settle value) :=
  fun _ _ h => h.of_frames rfl

theorem defineAsIs_marked (frame : FrameId) (name : String) {value : Value}
    (hValue : value.isSettled = true ∨ value.IsDefinition) :
    Preserves KeepsMarked (Run.defineAsIs frame name value) :=
  fun _ _ h => h.define frame name hValue

theorem define_marked (frame : FrameId) (name : String) (value : Value) :
    Preserves KeepsMarked (Run.define frame name value) :=
  fun _ store h => Marked.define (h.of_frames rfl) frame name
    (.inl (value.isSettled_settle store.nextMark))

end Preserves

/-- Each step of a run leaves variables that are marked or defined. -/
theorem marked_rules : View.open.CallRules fun _ _ _ action => Preserves KeepsMarked action where
  pure _ := .pure _
  fail cause := .fail cause
  bind h hNext := h.bind fun a => hNext () le_rfl a (Screen.passes_open a)
  settle _ := .settle_marked _
  lookup? _ _ := .lookup? _ _
  unfinished := .throw _
  passes h := Preserves.read.bind fun setting => h setting.passes
  define frame name _ := .define_marked frame name _
  defineFunction frame name _ := .defineAsIs_marked frame name (.inr ⟨_, rfl⟩)
  admits := iff_of_true trivial ⟨trivial, fun _ _ => trivial⟩
  inNewFrame _ hNext := by
    refine Preserves.bind (fun _ store h => h.child _) fun frame => ?_
    exact hNext () le_rfl frame fun _ _ => ⟨trivial, fun _ _ => trivial⟩
  newCache hNext := Preserves.bind (fun _ _ h => h.of_frames rfl) fun memory =>
    hNext () le_rfl memory fun _ _ _ hServes => hServes
  remembered? {_ _ cache _} name _ := Preserves.remembered? cache name
  remember {_ _ cache _ name _} _ _ _ := by
    refine (Preserves.remembered? cache name).bind fun found => ?_
    cases found with
    | some earlier => exact .pure earlier
    | none => exact fun _ _ h => h.of_frames rfl
  count _ := fun _ _ h => h.of_frames rfl
  locate _ hNext := Preserves.read.bind fun setting => (Preserves.ofResult _).bind fun located =>
    hNext located fun _ _ => trivial
  builtins _ := ⟨trivial, fun _ _ => trivial⟩

end Run

/-! ## Comparisons -/

/-- A value is settled from the next mark on. -/
theorem Run.settle_apply (value : Value) (setting : Setting) (store : Store) :
    Run.settle value setting store = .ok (value.settle store.nextMark).1
      { store with nextMark := (value.settle store.nextMark).2 } := rfl

/-- The comparisons `x == x`, `x is x` and `x in [x]` of a name with itself. -/
def Expr.selfComparisons (name : String) : List Expr :=
  [.compare (.name name) [(.equal, .name name)], .compare (.name name) [(.same, .name name)],
    .compare (.name name) [(.isIn, .list [.name name])]]

section Comparisons

variable {scene : Scene} {name : String} {value : Value} {store : Store}
  (hFound : store.frames.lookup? scene.frame name = some value)
  (services : Services) (out : Rendering Value) (setting : Setting)

include hFound

/-- Looking a variable up gives its value, with a new mark if it has none. -/
theorem lookup_apply : scene.lookup out name setting store =
    .ok (value.settle store.nextMark).1
      { store with nextMark := (value.settle store.nextMark).2 } := by
  have hLookup : Run.lookup? scene.frame name setting store = .ok (some value) store :=
    congrArg (EStateM.Result.ok · store) hFound
  unfold Scene.lookup
  simp only [Run.Preserves.bind_apply, hLookup, Run.settle_apply]

/-- A name is looked up on both sides of a comparison, one after the other. -/
theorem evaluate_compare_self {op : CompareOp} {next last : Nat} {left right : Value} {holds : Bool}
    (hLeft : value.settle store.nextMark = (left, next))
    (hRight : value.settle next = (right, last))
    (hHolds : op.apply left right = .ok holds) :
    (Expr.compare (.name name) [(op, .name name)]).evaluate services scene out setting store =
      .ok (.bool holds) { store with nextMark := last } := by
  have hFirst := lookup_apply hFound out setting
  have hSecond := @lookup_apply scene name value { store with nextMark := next } hFound out setting
  simp only [hLeft, hRight] at hFirst hSecond
  simp only [Expr.evaluate, Expr.evaluateLinks, Run.Preserves.bind_apply, hFirst, hSecond, hHolds]
  cases holds <;> rfl

/-- So it is when it is sought in a list of itself. -/
theorem evaluate_in_self {next last : Nat} {left right : Value}
    (hLeft : value.settle store.nextMark = (left, next))
    (hRight : value.settle next = (right, last))
    (hSettled : right.isSettled = true) :
    (Expr.compare (.name name) [(.isIn, .list [.name name])]).evaluate services scene out setting
      store = .ok (.bool (right.equals left)) { store with nextMark := last + 1 } := by
  have hFirst := lookup_apply hFound out setting
  have hSecond := @lookup_apply scene name value { store with nextMark := next } hFound out setting
  simp only [hLeft, hRight] at hFirst hSecond
  have hList : (Value.ofList [right]).settle last = (.list ⟨[right]⟩ (some last), last + 1) := by
    simp [Value.ofList, Value.ofArray, Value.settle, hSettled]
  have hContains : CompareOp.isIn.apply left (.list ⟨[right]⟩ (some last)) =
      .ok (right.equals left) := by
    simp [CompareOp.apply, Value.contains]
  have hSettle : Run.settle (.ofList [right]) setting { store with nextMark := last } =
      .ok (.list ⟨[right]⟩ (some last)) { store with nextMark := last + 1 } := by
    rw [Run.settle_apply, hList]
  have hNone : (pure [] : Run (List Value)) setting { store with nextMark := last } =
      .ok [] { store with nextMark := last } := rfl
  have hOne : (pure [right] : Run (List Value)) setting { store with nextMark := last } =
      .ok [right] { store with nextMark := last } := rfl
  simp only [Expr.evaluate, Expr.evaluateAll, Expr.evaluateLinks, Run.Preserves.bind_apply, hFirst,
    hSecond, hNone, hOne, hSettle, hContains]
  cases right.equals left <;> rfl

/-- All comparisons of a name with itself hold when two look-ups give values that are equal and the
same. -/
theorem evaluate_selfComparisons {next last : Nat} {left right : Value} {holds : Bool}
    (hLeft : value.settle store.nextMark = (left, next))
    (hRight : value.settle next = (right, last))
    (hSettled : right.isSettled = true) (hEqual : left.equals right = holds)
    (hSame : left.same right = holds) (hIn : right.equals left = holds) :
    ∀ expr ∈ Expr.selfComparisons name,
      ((expr.evaluate services scene out).perform setting store).1 = .ok (.bool holds) := by
  have hResult {expr : Expr} {after : Store}
      (h : expr.evaluate services scene out setting store = .ok (.bool holds) after) :
      ((expr.evaluate services scene out).perform setting store).1 = .ok (.bool holds) := by
    unfold Run.perform ReaderT.run EStateM.run
    rw [h]
  intro expr hExpr
  simp only [Expr.selfComparisons, List.mem_cons, List.not_mem_nil, or_false] at hExpr
  rcases hExpr with rfl | rfl | rfl
  · exact hResult (evaluate_compare_self hFound services out setting hLeft hRight
      (congrArg Except.ok hEqual))
  · exact hResult (evaluate_compare_self hFound services out setting hLeft hRight
      (congrArg Except.ok hSame))
  · have hSought := evaluate_in_self hFound services out setting hLeft hRight hSettled
    rw [hIn] at hSought
    exact hResult hSought

/-- A value with a mark is found twice as it is. -/
theorem settled_equals_itself (hSettled : value.isSettled = true) (hRegular : value.IsRegular) :
    ∀ expr ∈ Expr.selfComparisons name,
      ((expr.evaluate services scene out).perform setting store).1 = .ok (.bool true) := by
  have hKept (next : Nat) : value.settle next = (value, next) :=
    Value.settle_of_isSettled hSettled next
  have hEqual := hRegular.equals_self
  exact evaluate_selfComparisons hFound services out setting (hKept _) (hKept _) hSettled hEqual
    (Value.same_self hSettled hRegular) hEqual

/-- A definition that is looked up twice gives two functions. -/
theorem definition_differs_from_itself (hDefinition : value.IsDefinition) :
    ∀ expr ∈ Expr.selfComparisons name,
      ((expr.evaluate services scene out).perform setting store).1 = .ok (.bool false) := by
  obtain ⟨closure, rfl⟩ := hDefinition
  have hNew (next : Nat) : (Value.function closure none).settle next =
      (.function closure (some next), next + 1) := rfl
  have hDiffer (mark other : Nat) (h : mark ≠ other) :
      (Value.function closure (some mark)).equals (.function closure (some other)) = false :=
    beq_false_of_ne h
  have hNext := hDiffer _ _ (Nat.ne_of_lt (Nat.lt_succ_self store.nextMark))
  have hBack := hDiffer _ _ (Nat.ne_of_gt (Nat.lt_succ_self store.nextMark))
  exact evaluate_selfComparisons hFound services out setting (hNew _) (hNew _) rfl hNext hNext hBack

end Comparisons

/-- In every run a name equals itself, unless a function is bound to it by its definition.

What a run evaluates, executes, calls, compiles or renders leaves variables with marks and defined
functions, as there are at the start. Of a variable with a mark, the comparisons with itself hold,
whatever regular value it has; of a defined function none of them does. -/
theorem names_equal_themselves :
    Store.initial.Marked ∧
    (∀ calls loads,
      (∀ scene out (expr : Expr),
        Run.Preserves Store.KeepsMarked (expr.evaluate (.within calls loads) scene out)) ∧
      (∀ scene out body,
        Run.Preserves Store.KeepsMarked (executeAll (.within calls loads) scene out body)) ∧
      (∀ value arguments,
        Run.Preserves Store.KeepsMarked ((Services.within calls loads).call value arguments)) ∧
      (∀ text name globals escape, Run.Preserves Store.KeepsMarked
        (Template.compile (.within calls loads) text name globals escape))) ∧
    (∀ root, Run.Preserves Store.KeepsMarked (Renderer.new root)) ∧
    (∀ (renderer : Renderer Value),
      (∀ configurations, Run.Preserves Store.KeepsMarked
        (Configuration.applyAll renderer configurations)) ∧
      (∀ name parameters, Run.Preserves Store.KeepsMarked (renderer.render name parameters))) ∧
    (∀ store, store.Marked → ∀ (scene : Scene) name value,
      store.frames.lookup? scene.frame name = some value →
      value.IsRegular ∨ value.IsDefinition → ∀ services out setting,
      ∃ holds, (holds = true ↔ ¬ value.IsDefinition) ∧ ∀ expr ∈ Expr.selfComparisons name,
        ((expr.evaluate services scene out).perform setting store).1 = .ok (.bool holds)) := by
  have rules := Run.marked_rules
  have hCovers (frame : FrameId) (names : List String) : View.open.Covers () frame names :=
    ⟨trivial, fun _ _ => trivial⟩
  refine ⟨Store.marked_initial, fun calls loads => ?_, fun root => ?_, fun renderer => ?_, ?_⟩
  · have hServices := rules.within calls loads
    refine ⟨fun scene out expr => ?_, fun scene out body => ?_, fun value arguments => ?_,
      fun text name globals escape => ?_⟩
    · exact rules.evaluate (w := ()) hServices expr (hCovers ..) (Screen.passes_open out)
    · exact rules.executeAll (w := ()) hServices body (hCovers ..) (Screen.passes_open out)
    · exact hServices.call () value arguments (Screen.passes_open value)
        (Screen.passes_open arguments)
    · exact rules.compile (w := ()) hServices text name (Screen.passes_open globals) escape
  · exact rules.newRenderer (w := ()) (fun _ _ _ _ h => h.of_frames rfl)
      fun _ _ _ _ => trivial
  · constructor
    · intro configurations
      exact rules.applyAll (w := ()) (fun _ _ _ value _ => Screen.passes_open value)
        (Screen.passes_open renderer)
    · intro name parameters
      exact rules.render (w := ()) (Screen.passes_open renderer) name
        (Screen.passes_open parameters)
  · intro store hStore scene name value hFound hValue services out setting
    by_cases hDefinition : value.IsDefinition
    · refine ⟨false, by simpa using hDefinition, ?_⟩
      exact definition_differs_from_itself hFound services out setting hDefinition
    · refine ⟨true, by simpa using hDefinition, ?_⟩
      have hSettled := (hStore.lookup? hFound).resolve_right hDefinition
      have hRegular := hValue.resolve_right hDefinition
      exact settled_equals_itself hFound services out setting hSettled hRegular

end Stencil
