import Stencil.Proofs.Renaming.Settling

/-!
# What a run keeps

A run changes the store, but most of what was stored before stays as it was. A relation between the
store before a run and the store after it tells what is kept. When the relation is a preorder, steps
that keep something keep it together, whatever the result of each of them is.

The relation `Store.Keeps own` says that frames are only added, that of the frames that were there
only those in `own` may change, and that a frame that changes stays inside the same frame and loses
none of its names.

## Main results

* `Run.Preserves.bind`: steps one after another keep what each of them keeps.
* `Run.Preserves.inNewFrame`: what is defined in a frame that a step has opened itself does not
  count as a change.
-/

namespace Stencil

/-! ## Relations between stores -/

namespace Store

/-- A frame afterwards: it lies inside the same frame, and its names are still there, in order. -/
structure FrameGrows (before after : Frame Value) : Prop where
  parent : after.parent = before.parent
  names : Entries.keys before.bindings <+: Entries.keys after.bindings

/-- Frames are only added, and no frame that was there changes, except those in `own`, which may
get variables and new values for them. -/
structure Keeps (own : FrameId → Prop) (before after : Store) : Prop where
  frames : before.frames.next ≤ after.frames.next
  marks : before.nextMark ≤ after.nextMark
  frame : ∀ id < before.frames.next, ¬ own id →
    after.frames.frame? id = before.frames.frame? id
  own : ∀ id frame, before.frames.frame? id = some frame →
    ∃ grown, after.frames.frame? id = some grown ∧ FrameGrows frame grown

/-- No frame that was there changes. -/
abbrev KeepsAll : Store → Store → Prop := Keeps fun _ => False

/-- Of the frames that were there only this one changes. -/
abbrev KeepsBut (frame : FrameId) : Store → Store → Prop := Keeps (· = frame)

theorem FrameGrows.refl (frame : Frame Value) : FrameGrows frame frame :=
  ⟨rfl, List.prefix_refl _⟩

theorem FrameGrows.trans {a b c : Frame Value} (h : FrameGrows a b) (h' : FrameGrows b c) :
    FrameGrows a c :=
  ⟨h'.parent.trans h.parent, h.names.trans h'.names⟩

theorem FrameGrows.insert (frame : Frame Value) (name : String) (value : Value) :
    FrameGrows frame
      { frame with bindings := Entries.insert name value frame.bindings } := by
  refine ⟨rfl, ?_⟩
  show Entries.keys frame.bindings <+: Entries.keys (Entries.insert name value frame.bindings)
  rw [Entries.keys_insert]
  split
  · exact List.prefix_refl _
  · exact List.prefix_append _ _

variable {own : FrameId → Prop} {before after : Store}

theorem Keeps.refl (own : FrameId → Prop) (store : Store) : Keeps own store store :=
  ⟨Nat.le_refl _, Nat.le_refl _, fun _ _ _ => rfl, fun _ frame h => ⟨frame, h, .refl frame⟩⟩

theorem Keeps.trans {last : Store} (h : Keeps own before after) (h' : Keeps own after last) :
    Keeps own before last where
  frames := Nat.le_trans h.frames h'.frames
  marks := Nat.le_trans h.marks h'.marks
  frame id hId hOwn := by
    have hAfter : id < after.frames.next := Nat.lt_of_lt_of_le hId h.frames
    rw [h'.frame id hAfter hOwn, h.frame id hId hOwn]
  own id frame hFrame := by
    obtain ⟨grown, hGrown, hGrows⟩ := h.own id frame hFrame
    obtain ⟨further, hFurther, hGrows'⟩ := h'.own id grown hGrown
    exact ⟨further, hFurther, hGrows.trans hGrows'⟩

instance : Std.Refl (Keeps own) := ⟨Keeps.refl own⟩

instance : Trans (Keeps own) (Keeps own) (Keeps own) := ⟨Keeps.trans⟩

/-- What may not change at all may not change with exceptions either. -/
theorem Keeps.weaken {more : FrameId → Prop} (hMore : ∀ id, own id → more id)
    (h : Keeps own before after) : Keeps more before after :=
  ⟨h.frames, h.marks, fun id hId hNot => h.frame id hId fun hOwn => hNot (hMore id hOwn), h.own⟩

/-- A change of nothing but the marks, the memories and the counts. -/
theorem Keeps.of_frames (hFrames : after.frames = before.frames)
    (hMarks : before.nextMark ≤ after.nextMark) : Keeps own before after := by
  refine ⟨Nat.le_of_eq (congrArg Frames.next hFrames.symm), hMarks, fun _ _ _ => by rw [hFrames],
    fun _ frame h => ?_⟩
  exact ⟨frame, by rw [hFrames, h], .refl frame⟩

end Store

/-! ## Runs that keep a relation -/

namespace Run

/-- The store after the run is related to the store before it, whatever the result is. -/
def Preserves {α : Type} (R : Store → Store → Prop) (action : Run α) : Prop :=
  ∀ setting store, R store (action.perform setting store).2

namespace Preserves

variable {α β : Type} {R : Store → Store → Prop}

theorem of_result {action : Run α} (h : ∀ setting store, match action setting store with
    | .ok _ after => R store after
    | .error _ after => R store after) : Preserves R action := by
  intro setting store
  have hStep := h setting store
  simp only [perform, ReaderT.run, EStateM.run]
  split <;> simp_all

theorem result {action : Run α} (h : Preserves R action) (setting : Setting) (store : Store) :
    match action setting store with
    | .ok _ after => R store after
    | .error _ after => R store after := by
  have hStep := h setting store
  simp only [perform, ReaderT.run, EStateM.run] at hStep
  split at hStep <;> simp_all

theorem weaken {S : Store → Store → Prop} {action : Run α} (h : Preserves R action)
    (hRS : ∀ before after, R before after → S before after) : Preserves S action :=
  fun setting store => hRS _ _ (h setting store)

/-- A step after another one: both are seen through their results. -/
theorem bind_apply (action : Run α) (next : α → Run β) (setting : Setting) (store : Store) :
    (action >>= next) setting store = match action setting store with
      | .ok value after => next value setting after
      | .error stop after => .error stop after := by
  show EStateM.bind (action setting) (fun value => next value setting) store = _
  unfold EStateM.bind
  cases action setting store <;> rfl

section Preorder

variable [Std.Refl R]

theorem pure (value : α) : Preserves R (Pure.pure value : Run α) :=
  fun _ store => Std.Refl.refl store

theorem fail (cause : Failure) : Preserves R (Run.fail cause : Run α) :=
  fun _ store => Std.Refl.refl store

theorem fault (cause : Fault) : Preserves R (Run.fault cause : Run α) := fail _

theorem throw (stop : Stop) : Preserves R (throw stop : Run α) :=
  fun _ store => Std.Refl.refl store

theorem ofEvaluation (result : Except Fault α) : Preserves R (Run.ofEvaluation result) := by
  cases result with
  | ok value => exact pure value
  | error cause => exact fault cause

theorem ofResult (result : Except Failure α) : Preserves R (Run.ofResult result) := by
  cases result with
  | ok value => exact pure value
  | error cause => exact fail cause

theorem liftFault (result : Except Fault α) : Preserves R (liftM result : Run α) :=
  ofEvaluation result

theorem liftFailure (result : Except Failure α) : Preserves R (liftM result : Run α) :=
  ofResult result

theorem read : Preserves R (MonadReader.read : Run Setting) := fun _ store => Std.Refl.refl store

theorem lookup? (frame : FrameId) (name : String) : Preserves R (Run.lookup? frame name) :=
  fun _ store => Std.Refl.refl store

theorem files : Preserves R Run.files := fun _ store => Std.Refl.refl store

theorem remembered? (cache : Nat) (name : String) : Preserves R (Run.remembered? cache name) :=
  fun _ store => Std.Refl.refl store

variable [Trans R R R]

omit [Std.Refl R] in
/-- Steps one after another keep what each of them keeps. -/
theorem bind {action : Run α} {next : α → Run β} (h : Preserves R action)
    (hNext : ∀ value, Preserves R (next value)) : Preserves R (action >>= next) := by
  refine of_result fun setting store => ?_
  rw [bind_apply]
  have hFirst := h.result setting store
  cases hRun : action setting store with
  | error stop after => simpa [hRun] using hFirst
  | ok value after =>
      have hFirst : R store after := by simpa [hRun] using hFirst
      have hSecond := (hNext value).result setting after
      show match next value setting after with
        | .ok _ last => R store last
        | .error _ last => R store last
      cases hRest : next value setting after with
      | ok result last =>
          have hSecond : R after last := by simpa [hRest] using hSecond
          exact (Trans.trans hFirst hSecond : R store last)
      | error stop last =>
          have hSecond : R after last := by simpa [hRest] using hSecond
          exact (Trans.trans hFirst hSecond : R store last)

theorem map {action : Run α} (f : α → β) (h : Preserves R action) : Preserves R (f <$> action) := by
  rw [← bind_pure_comp]
  exact h.bind fun value => pure (f value)

omit [Std.Refl R] [Trans R R R] in
theorem ite {c : Prop} [Decidable c] {yes no : Run α} (hYes : Preserves R yes)
    (hNo : Preserves R no) : Preserves R (if c then yes else no) := by
  split
  · exact hYes
  · exact hNo

theorem optionMapM {action : α → Run β} (h : ∀ value, Preserves R (action value))
    (value : Option α) : Preserves R (value.mapM action) := by
  cases value with
  | none => exact pure none
  | some value => exact (h value).map some

end Preorder

/-! ## Steps that change the store -/

open Store

variable {own : FrameId → Prop}

theorem settle (value : Value) : Preserves (Keeps own) (Run.settle value) :=
  fun _ store => .of_frames rfl (value.le_settle_snd store.nextMark)

theorem defineAsIs (frame : FrameId) (name : String) (value : Value) :
    Preserves (KeepsBut frame) (Run.defineAsIs frame name value) := by
  intro setting store
  refine ⟨?_, Nat.le_refl _, fun id _ hNot => ?_, fun id before hBefore => ?_⟩
  · exact Nat.le_of_eq (Frames.next_define ..).symm
  · exact Frames.frame?_define_other hNot name value
  · by_cases hId : id = frame
    · subst hId
      refine ⟨_, (Frames.frame?_define_same ..).trans (congrArg _ hBefore), ?_⟩
      exact .insert before name value
    · exact ⟨before, (Frames.frame?_define_other hId name value).trans hBefore, .refl before⟩

theorem define (frame : FrameId) (name : String) (value : Value) :
    Preserves (KeepsBut frame) (Run.define frame name value) :=
  (settle value).bind fun _ => defineAsIs frame name _

theorem defineAll (frame : FrameId) (entries : List (String × Value)) :
    Preserves (KeepsBut frame) (Run.defineAll frame entries) := by
  induction entries with
  | nil => exact pure ()
  | cons entry rest ih => exact (define frame entry.1 entry.2).bind fun _ => ih

/-- What is defined in a frame that the step has opened itself does not count as a change. -/
theorem inNewFrame {α : Type} (parent : FrameId) {body : FrameId → Run α}
    (h : ∀ frame, Preserves (KeepsBut frame) (body frame)) :
    Preserves (Keeps own) (Run.openFrame parent >>= body) := by
  intro setting store
  have hBody := h store.frames.next setting
    { store with frames := store.frames.child parent }
  show Keeps own store
    ((body store.frames.next).perform setting { store with frames := store.frames.child parent }).2
  refine ⟨?_, hBody.marks, fun id hId _ => ?_, fun id frame hFrame => ?_⟩
  · have hNext : store.frames.next ≤ (store.frames.child parent).next := by
      rw [Frames.next_child]
      exact Nat.le_succ _
    exact Nat.le_trans hNext hBody.frames
  · have hChild : id < (store.frames.child parent).next := by
      rw [Frames.next_child]
      exact Nat.lt_succ_of_lt hId
    rw [hBody.frame id hChild (Nat.ne_of_lt hId)]
    exact Frames.frame?_child hId parent
  · have hId : id < store.frames.next := by
      obtain ⟨hLt, -⟩ := Array.getElem?_eq_some_iff.1 hFrame
      exact hLt
    exact hBody.own id frame ((Frames.frame?_child hId parent).trans hFrame)

theorem newCache : Preserves (Keeps own) Run.newCache :=
  fun _ _ => .of_frames rfl (Nat.le_refl _)

theorem count (counter : Nat) : Preserves (Keeps own) (Run.count counter) :=
  fun _ _ => .of_frames rfl (Nat.le_refl _)

theorem remember (cache : Nat) (name : String) (resolved : Resolved) :
    Preserves (Keeps own) (Run.remember cache name resolved) := by
  refine (remembered? cache name).bind fun found => ?_
  cases found with
  | some earlier => exact pure earlier
  | none => exact bind (fun _ _ => .of_frames rfl (Nat.le_refl _)) fun _ => pure resolved

end Preserves

end Run

end Stencil
