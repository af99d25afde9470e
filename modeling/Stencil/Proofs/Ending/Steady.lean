import Stencil.Calling

/-!
# What may fail to end

A loop over items ends with its items; a loop that tests a condition may go on forever. Nothing else
does: the steps that instructions are made of have a result or a failure. `Run.Steady` says so of a
step, as an instance that is found from how the step is put together.

## Main results

* `Instr.anyHasWhile`: is there a loop that tests a condition?
* `Run.Steady.bind`: steady steps, one after another, are steady.
-/

namespace Stencil

/-! ## Loops that test a condition -/

namespace Instr

mutual

/-- Is there a loop that tests a condition in the instruction? -/
def hasWhile : Instr → Bool
  | .text _ => false
  | .emit _ _ => false
  | .execute _ => false
  | .branch branches otherwise => branchesHaveWhile branches || optionHasWhile otherwise
  | .forLoop _ _ body otherwise _ => anyHasWhile body || optionHasWhile otherwise
  | .whileLoop _ _ _ => true
  | .define _ _ _ body => anyHasWhile body
  | .setVar _ _ => false
  | .setFragment _ body => anyHasWhile body
  | .breakLoop => false
  | .continueLoop => false
  | .returnValue _ => false

/-- Is there such a loop in one of the instructions? -/
def anyHasWhile : List Instr → Bool
  | [] => false
  | instr :: rest => instr.hasWhile || anyHasWhile rest

/-- Is there such a loop in instructions that may be absent? -/
def optionHasWhile : Option (List Instr) → Bool
  | none => false
  | some body => anyHasWhile body

/-- Is there such a loop in the body of a branch? -/
def branchesHaveWhile : List (Expr × List Instr) → Bool
  | [] => false
  | (_, body) :: rest => anyHasWhile body || branchesHaveWhile rest

end

end Instr

/-! ## Steps with an end -/

/-- The run has a result or a failure; it never stops unfinished. -/
class Run.Steady {α : Type} (run : Run α) : Prop where
  ends : ∀ setting store after, run setting store ≠ .error .unfinished after

namespace Run

variable {α β : Type}

instance steady_pure (value : α) : Steady (pure value : Run α) :=
  ⟨fun _ _ _ h => by cases h⟩

instance steady_fail (cause : Failure) : Steady (fail cause : Run α) :=
  ⟨fun _ _ _ h => by cases h⟩

instance steady_fault (cause : Fault) : Steady (fault cause : Run α) :=
  steady_fail (.evaluation cause)

/-- Steady steps, one after another, are steady. -/
theorem Steady.bind {run : Run α} {next : α → Run β} (h : Steady run)
    (hNext : ∀ value, Steady (next value)) : Steady (run >>= next) where
  ends setting store after hEnd := by
    have hBind : (run >>= next) setting store =
        EStateM.bind (run setting) (fun value => next value setting) store := rfl
    rw [hBind, EStateM.bind] at hEnd
    cases hRun : run setting store with
    | ok value middle =>
        rw [hRun] at hEnd
        exact (hNext value).ends setting middle after hEnd
    | error stop middle =>
        rw [hRun] at hEnd
        cases hEnd
        exact h.ends setting store _ hRun

instance steady_bind {run : Run α} {next : α → Run β} [h : Steady run]
    [hNext : ∀ value, Steady (next value)] : Steady (run >>= next) := h.bind hNext

instance steady_ite {c : Prop} [Decidable c] {run other : Run α} [h : Steady run]
    [h' : Steady other] : Steady (if c then run else other) := by
  split
  · exact h
  · exact h'

instance steady_mapM {γ : Type} {f : γ → Run α} [h : ∀ x, Steady (f x)] (value : Option γ) :
    Steady (value.mapM f) := by
  cases value with
  | none => exact steady_pure none
  | some x =>
      have hMap : (some x).mapM f = f x >>= fun value => pure (some value) :=
        map_eq_pure_bind ..
      rw [hMap]
      exact steady_bind

instance steady_ofEvaluation (result : Except Fault α) : Steady (ofEvaluation result) := by
  cases result with
  | ok value => exact steady_pure value
  | error cause => exact steady_fault cause

instance steady_liftFault (result : Except Fault α) : Steady (liftM result : Run α) :=
  steady_ofEvaluation result

instance steady_liftFailure (result : Except Failure α) : Steady (liftM result : Run α) := by
  cases result with
  | ok value => exact steady_pure value
  | error cause => exact steady_fail cause

instance steady_read : Steady read :=
  ⟨fun _ _ _ h => by cases h⟩

instance steady_get : Steady get :=
  ⟨fun _ _ _ h => by cases h⟩

instance steady_modifyGet (f : Store → α × Store) : Steady (modifyGet f) :=
  ⟨fun _ _ _ h => by cases h⟩

/-! ## Steps on the store -/

instance steady_files : Steady files := steady_bind

instance steady_settle (value : Value) : Steady (settle value) := steady_modifyGet _

instance steady_openFrame (parent : FrameId) : Steady (openFrame parent) := steady_modifyGet _

instance steady_defineAsIs (frame : FrameId) (name : String) (value : Value) :
    Steady (defineAsIs frame name value) := steady_modifyGet _

instance steady_define (frame : FrameId) (name : String) (value : Value) :
    Steady (define frame name value) := steady_bind

instance steady_defineAll (frame : FrameId) (entries : List (String × Value)) :
    Steady (defineAll frame entries) := by
  induction entries with
  | nil => exact steady_pure ()
  | cons entry rest ih => exact steady_bind

instance steady_lookup? (frame : FrameId) (name : String) : Steady (lookup? frame name) :=
  steady_bind

instance steady_newCache : Steady newCache := steady_modifyGet _

instance steady_remembered? (cache : Nat) (name : String) : Steady (remembered? cache name) :=
  steady_bind

instance steady_remember (cache : Nat) (name : String) (resolved : Resolved) :
    Steady (remember cache name resolved) := by
  refine (steady_remembered? cache name).bind fun found => ?_
  cases found with
  | some earlier => exact steady_pure earlier
  | none => exact (steady_modifyGet _).bind fun _ => steady_pure resolved

instance steady_count (counter : Nat) : Steady (count counter) := steady_modifyGet _

/-! ## Variables -/

instance steady_lookup (scene : Scene) (out : Rendering Value) (name : String) :
    Steady (scene.lookup out name) := by
  refine (steady_lookup? scene.frame name).bind fun found => ?_
  cases found with
  | some value => exact steady_settle value
  | none =>
      dsimp only
      split
      · cases scene.loops.value? with
        | some value => exact steady_settle value
        | none => exact steady_fault _
      · exact steady_settle _
      · exact steady_fault _

mutual

instance steady_assign (frame : FrameId) (value : Value) : ∀ target : Target,
    Steady (assign frame value target)
  | .name name => steady_define frame name value
  | .tuple targets => by
      rw [assign]
      have hEach (items : List Value) : Steady (assignEach frame items targets) :=
        steady_assignEach frame items targets
      exact steady_bind

instance steady_assignEach (frame : FrameId) : ∀ (values : List Value) (targets : List Target),
    Steady (assignEach frame values targets)
  | _, [] => steady_pure ()
  | [], _ :: _ => steady_pure ()
  | value :: values, target :: rest => by
      have hTarget : Steady (assign frame value target) := steady_assign frame value target
      have hRest : Steady (assignEach frame values rest) := steady_assignEach frame values rest
      rw [assignEach]
      exact steady_bind

end

instance steady_assignAll (frame : FrameId) (value : Value) (targets : List Target) :
    Steady (assignAll frame value targets) := by
  induction targets with
  | nil => exact steady_pure ()
  | cons target rest ih => exact steady_bind

end Run

end Stencil
