import Stencil.Config
import Stencil.Proofs.Isolation

/-!
# Sessions

A session is a list of steps that share one store: texts are compiled, libraries without a memory
are set up, and values are called. A step may use new data and what earlier steps gave, so functions
that a template leaves in its rendering can be called later. Each call starts at the top level.

## Main results

* `Session.keepsAll_storeAt`: a later step changes no frame that was there.
-/

namespace Stencil

/-! ## Setting libraries up -/

/-- One more thing that is said about a library. -/
inductive Configuration (α : Type) where
  | layout (name : String)
  | escape (filter : Escape)
  | global (name : String) (value : α)
  | exposeAs (name : String)

namespace Configuration

/-- The configuration with other values. -/
def map {α β : Type} (f : α → β) : Configuration α → Configuration β
  | layout name => .layout name
  | escape filter => .escape filter
  | global name value => .global name (f value)
  | exposeAs name => .exposeAs name

/-- The renderer with one more thing said. -/
def apply (renderer : Renderer Value) : Configuration Value → Run (Renderer Value)
  | layout name => return renderer.withLayout name
  | escape filter => return renderer.withEscape filter
  | global name value => renderer.withGlobal name value
  | exposeAs name => return renderer.exposeAs name

/-- The renderer with several things said, one after another. -/
def applyAll (renderer : Renderer Value) : List (Configuration Value) → Run (Renderer Value)
  | [] => return renderer
  | first :: rest => do
      let renderer ← first.apply renderer
      applyAll renderer rest

end Configuration

/-! ## Steps -/

/-- Where a step takes a value from. -/
inductive Source where
  /-- A new value. -/
  | data (document : Json)
  /-- What the step of this number gave. -/
  | result (step : Nat)

/-- A step of a session. -/
inductive Step where
  /-- Keeps a new value. -/
  | keep (document : Json)
  | compile (text name : String) (globals : List (String × Source)) (escape : Option Escape)
  /-- Sets up a library without a memory. -/
  | library (root : String) (configuration : List (Configuration Source))
  /-- Calls a value, or an attribute of it. -/
  | call (target : Source) (field : Option String) (positional : List Source)
      (named : List (String × Source))

/-- How a step ends. -/
abbrev Ending := Except Stop Value

namespace Source

/-- The value of a source, after the steps that ended in this way. A step that stopped gave the
absent value. -/
def value (endings : List Ending) : Source → Value
  | data document => .ofJson document
  | result step => (endings[step]?.bind Except.toOption).getD .none

/-- The steps that a source refers to. -/
def references : Source → List Nat
  | data _ => []
  | result step => [step]

/-- The source with other numbers for the steps. -/
def relabel (f : Nat → Nat) : Source → Source
  | data document => .data document
  | result step => .result (f step)

end Source

namespace Step

/-- The sources of a configuration. -/
def configured : Configuration Source → List Source
  | .global _ source => [source]
  | _ => []

/-- The sources of a step. -/
def sources : Step → List Source
  | keep _ => []
  | compile _ _ globals _ => globals.map Prod.snd
  | library _ configuration => configuration.flatMap configured
  | call target _ positional named => target :: positional ++ named.map Prod.snd

/-- The steps that a step refers to. -/
def references (step : Step) : List Nat := step.sources.flatMap Source.references

/-- The step with other numbers for the steps that it refers to. -/
def relabel (f : Nat → Nat) : Step → Step
  | keep document => .keep document
  | compile text name globals escape =>
      .compile text name (globals.map fun entry => (entry.1, entry.2.relabel f)) escape
  | library root configuration => .library root (configuration.map (.map (Source.relabel f)))
  | call target field positional named =>
      .call (target.relabel f) field (positional.map (Source.relabel f))
        (named.map fun entry => (entry.1, entry.2.relabel f))

/-- Named values of named sources. -/
def namedValues (endings : List Ending) (named : List (String × Source)) : List (String × Value) :=
  named.map fun entry => (entry.1, entry.2.value endings)

/-- The value that is called: a value, or an attribute of it. -/
def callee (target : Value) : Option String → Run Value
  | some name => Services.standard.access target name
  | none => return target

/-- Carries a step out, after the steps that ended in this way. -/
def run (endings : List Ending) : Step → Run Value
  | keep document => Run.settle (.ofJson document)
  | compile text name globals escape => do
      let template ← Template.compile .standard text name (namedValues endings globals) escape
      Run.settle (.template template none)
  | library root configuration => do
      let renderer ← Renderer.new root
      let renderer ← renderer.withCache false
      let renderer ← Configuration.applyAll renderer
        (configuration.map (.map (Source.value endings)))
      Run.settle (.renderer renderer none)
  | call target field positional named => do
      let function ← callee (target.value endings) field
      let result ← Services.standard.call function
        ⟨positional.map (Source.value endings), namedValues endings named⟩
      Run.settle result

end Step

/-! ## Sessions -/

/-- Steps that refer to earlier steps only. -/
structure Session where
  steps : List Step
  earlier : ∀ (n : Nat) (step : Step), steps[n]? = some step → ∀ k ∈ step.references, k < n

namespace Session

/-- The store, and how the steps up to here ended. -/
structure State where
  store : Store
  endings : List Ending

/-- What is there before the first step. -/
def State.initial : State := ⟨.initial, []⟩

/-- Carries one more step out. -/
def State.advance (setting : Setting) (state : State) (step : Step) : State :=
  let (ending, store) := (step.run state.endings).perform setting state.store
  ⟨store, state.endings ++ [ending]⟩

variable (session : Session) (setting : Setting)

/-- The state after so many steps. -/
def state (n : Nat) : State := (session.steps.take n).foldl (State.advance setting) .initial

/-- The store after so many steps. -/
def storeAt (n : Nat) : Store := (session.state setting n).store

/-- How the steps end. -/
def endings : List Ending := (session.state setting session.steps.length).endings

/-! ## One step after another -/

theorem state_succ {n : Nat} {step : Step} (h : session.steps[n]? = some step) :
    session.state setting (n + 1) = (session.state setting n).advance setting step := by
  simp only [state, List.take_add_one, h, Option.toList_some, List.foldl_append, List.foldl_cons,
    List.foldl_nil]

theorem state_of_le {n : Nat} (h : session.steps.length ≤ n) :
    session.state setting n = session.state setting session.steps.length := by
  simp only [state, List.take_length, List.take_of_length_le h]

theorem length_endings {n : Nat} (h : n ≤ session.steps.length) :
    (session.state setting n).endings.length = n := by
  induction n with
  | zero => rfl
  | succ n ih =>
      obtain ⟨step, hStep⟩ : ∃ step, session.steps[n]? = some step :=
        ⟨_, List.getElem?_eq_getElem h⟩
      rw [state_succ session setting hStep, State.advance, List.length_append, ih (by omega)]
      rfl

/-- How a step ended stays as it is. -/
theorem endings_prefix {m n : Nat} (h : m ≤ n) :
    (session.state setting m).endings <+: (session.state setting n).endings := by
  induction h with
  | refl => exact List.prefix_refl _
  | @step n hmn ih =>
      cases hStep : session.steps[n]? with
      | none =>
          have hLength := List.getElem?_eq_none_iff.1 hStep
          rw [state_of_le session setting (Nat.le_succ_of_le hLength),
            ← state_of_le session setting hLength]
          exact ih
      | some step =>
          rw [state_succ session setting hStep]
          exact ih.trans (List.prefix_append _ _)

/-- The endings that a step finds are those of the whole session. -/
theorem getElem?_endings_state {k n : Nat} (hk : k < n) (hn : n ≤ session.steps.length) :
    (session.state setting n).endings[k]? = (session.endings setting)[k]? := by
  obtain ⟨rest, hRest⟩ := endings_prefix session setting hn
  have hLength : k < (session.state setting n).endings.length := by
    rwa [length_endings session setting hn]
  rw [endings, ← hRest, List.getElem?_append_left hLength]

/-- The ending of a step is that of carrying it out. -/
theorem getElem?_endings {n : Nat} {step : Step} (h : session.steps[n]? = some step) :
    (session.endings setting)[n]? =
      some ((step.run (session.state setting n).endings).perform setting
        (session.state setting n).store).1 := by
  have hLt := (List.getElem?_eq_some_iff.1 h).1
  have hPrefix := endings_prefix session setting (Nat.succ_le_of_lt hLt)
  rw [Nat.succ_eq_add_one, state_succ session setting h, State.advance] at hPrefix
  have hLength := length_endings session setting (Nat.le_of_lt hLt)
  obtain ⟨rest, hRest⟩ := hPrefix
  rw [endings, ← hRest, List.append_assoc, List.getElem?_append_right (Nat.le_of_eq hLength),
    hLength, Nat.sub_self]
  rfl

/-! ## What later steps keep -/

open Run Store

theorem keepsAll_applyAll (configuration : List (Configuration Value))
    (renderer : Renderer Value) :
    Preserves KeepsAll (Configuration.applyAll renderer configuration) := by
  induction configuration generalizing renderer with
  | nil => exact .pure _
  | cons first rest ih =>
      refine Preserves.bind ?_ fun renderer => ih renderer
      cases first with
      | «global» name value => exact (Preserves.settle value).bind fun _ => .pure _
      | _ => exact .pure _

/-- A step changes no frame that was there. -/
theorem keepsAll_run (endings : List Ending) (step : Step) :
    Preserves KeepsAll (step.run endings) := by
  have hServices := keepsAll_services callLimit
  cases step with
  | keep document => exact .settle _
  | compile text name globals escape =>
      exact (keepsAll_compile hServices text name _ escape).bind fun _ => .settle _
  | library root configuration =>
      have hCounter : Preserves KeepsAll Run.newCounter :=
        fun _ _ => .of_frames rfl (Nat.le_refl _)
      have hNew : Preserves KeepsAll (Renderer.new root) :=
        Preserves.newCache.bind fun _ => hCounter.bind fun _ => .pure _
      have hCache (renderer : Renderer Value) : Preserves KeepsAll (renderer.withCache false) :=
        (Preserves.pure _).bind fun _ => .pure _
      exact hNew.bind fun renderer => (hCache renderer).bind fun renderer =>
        (keepsAll_applyAll _ renderer).bind fun _ => .settle _
  | call target field positional named =>
      have hFunction : Preserves KeepsAll (Step.callee (target.value endings) field) := by
        cases field with
        | none => exact .pure _
        | some name => exact hServices.access _ name
      exact hFunction.bind fun function => (hServices.call function _).bind fun _ => .settle _

/-- A later step changes no frame that was there. -/
theorem keepsAll_storeAt {m n : Nat} (h : m ≤ n) :
    KeepsAll (session.storeAt setting m) (session.storeAt setting n) := by
  unfold storeAt
  induction h with
  | refl => exact .refl _ _
  | @step n hmn ih =>
      cases hStep : session.steps[n]? with
      | none =>
          have hLength := List.getElem?_eq_none_iff.1 hStep
          rw [state_of_le session setting (Nat.le_succ_of_le hLength),
            ← state_of_le session setting hLength]
          exact ih
      | some step =>
          rw [state_succ session setting hStep]
          exact ih.trans (keepsAll_run _ step setting _)

end Session

end Stencil
