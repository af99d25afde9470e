import Stencil.Store

/-!
# What every result satisfies

Compiling and executing are computations that may stop without a result. `Ensures P action` says
that a result of the action, when it has one, satisfies `P`, whatever it started with. What a
computation can return is told by its monad; here the same is said for computations that only
return or fail.

## Main results

* `Ensures.bind`: the results of two steps in a row.
* `Run.exists_of_bind_eq_ok`: a run that gives a result went through its steps.
-/

namespace Stencil

instance exceptAttach {ε : Type} : MonadAttach (Except ε) where
  CanReturn action value := action = .ok value
  attach
    | .ok value => .ok ⟨value, rfl⟩
    | .error cause => .error cause

instance lawfulExceptAttach {ε : Type} : LawfulMonadAttach (Except ε) where
  map_attach {_ action} := by cases action <;> rfl
  canReturn_map_imp {_ _ action value} h := by
    cases action with
    | error cause => cases h
    | ok result =>
        cases h
        exact result.2

/-- Every result of the action satisfies `P`. -/
def Ensures {m : Type → Type} [MonadAttach m] {α : Type} (P : α → Prop) (action : m α) : Prop :=
  ∀ value, MonadAttach.CanReturn action value → P value

namespace Ensures

variable {m : Type → Type} [Monad m] [LawfulMonad m] [MonadAttach m] [LawfulMonadAttach m]
variable {α β : Type} {P Q : α → Prop}

omit [Monad m] [LawfulMonad m] [LawfulMonadAttach m] in
theorem mono {action : m α} (h : Ensures P action) (hPQ : ∀ value, P value → Q value) :
    Ensures Q action :=
  fun value hValue => hPQ value (h value hValue)

theorem pure {value : α} (h : P value) : Ensures P (pure value : m α) := by
  intro result hResult
  rwa [← LawfulMonadAttach.eq_of_canReturn_pure hResult]

theorem bind {R : β → Prop} {action : m α} {next : α → m β} (h : Ensures P action)
    (hNext : ∀ value, P value → Ensures R (next value)) : Ensures R (action >>= next) := by
  intro result hResult
  obtain ⟨value, hValue, hResult⟩ := LawfulMonadAttach.canReturn_bind_imp' hResult
  exact hNext value (h value hValue) result hResult

/-- Whatever the first step gives, the second one ensures the same. -/
theorem andThen {R : β → Prop} {action : m α} {next : α → m β}
    (hNext : ∀ value, Ensures R (next value)) : Ensures R (action >>= next) :=
  bind (fun _ _ => trivial : Ensures (fun _ => True) action) fun value _ => hNext value

theorem map {R : β → Prop} {action : m α} {f : α → β}
    (h : Ensures (fun value => R (f value)) action) :
    Ensures R (f <$> action) := by
  intro result hResult
  obtain ⟨value, hValue, rfl⟩ := LawfulMonadAttach.canReturn_map_imp' hResult
  exact h value hValue

omit [Monad m] [LawfulMonad m] [LawfulMonadAttach m] in
theorem ite {c : Prop} [Decidable c] {action other : m α} (h : c → Ensures P action)
    (h' : ¬ c → Ensures P other) : Ensures P (if c then action else other) := by
  by_cases hc : c
  · rw [if_pos hc]
    exact h hc
  · rw [if_neg hc]
    exact h' hc

theorem error {ε : Type} (cause : ε) : Ensures P (.error cause : Except ε α) := by
  intro value hValue
  cases hValue

end Ensures

/-! ## Runs that give a result -/

namespace Run

variable {α β : Type} {action : Run α} {setting : Setting} {before after : Store} {result : β}

theorem perform_of_eq_ok {value : α} (h : action setting before = .ok value after) :
    action.perform setting before = (.ok value, after) := by
  rw [perform, ReaderT.run, EStateM.run, h]

theorem perform_of_eq_error {stop : Stop} (h : action setting before = .error stop after) :
    action.perform setting before = (.error stop, after) := by
  rw [perform, ReaderT.run, EStateM.run, h]

theorem eq_ok_of_perform {value : α} (h : (action.perform setting before).1 = .ok value) :
    action setting before = .ok value (action.perform setting before).2 := by
  cases hAction : action setting before with
  | ok found after =>
      rw [perform_of_eq_ok hAction] at h ⊢
      cases h
      rfl
  | error stop after =>
      rw [perform_of_eq_error hAction] at h
      cases h

theorem eq_error_of_perform {stop : Stop} (h : (action.perform setting before).1 = .error stop) :
    action setting before = .error stop (action.perform setting before).2 := by
  cases hAction : action setting before with
  | ok found after =>
      rw [perform_of_eq_ok hAction] at h
      cases h
  | error cause after =>
      rw [perform_of_eq_error hAction] at h ⊢
      cases h
      rfl

/-- A run goes on with the result of its first step. -/
theorem bind_of_eq_ok {next : α → Run β} {value : α} {middle : Store}
    (h : action setting before = .ok value middle) :
    (action >>= next) setting before = next value setting middle := by
  show EStateM.bind (action setting) (fun value => next value setting) before = _
  rw [EStateM.bind, h]

theorem exists_of_map_eq_ok {f : α → β} (h : (f <$> action) setting before = .ok result after) :
    ∃ value, action setting before = .ok value after ∧ f value = result := by
  have hMap : (f <$> action) setting before = EStateM.map f (action setting) before := rfl
  rw [hMap, EStateM.map] at h
  split at h
  · rename_i value store hAction
    cases h
    exact ⟨value, hAction, rfl⟩
  · cases h

theorem exists_of_bind_eq_ok {next : α → Run β}
    (h : (action >>= next) setting before = .ok result after) :
    ∃ value store, action setting before = .ok value store ∧
      next value setting store = .ok result after := by
  have hBind : (action >>= next) setting before =
      EStateM.bind (action setting) (fun value => next value setting) before := rfl
  rw [hBind, EStateM.bind] at h
  split at h
  · rename_i value store hAction
    exact ⟨value, store, hAction, h⟩
  · cases h

end Run

end Stencil
