import Stencil.Proofs.Keeping
import Stencil.Proofs.Screens.Calls
import Stencil.Proofs.Screens.Rules
import Stencil.Proofs.Screens.Stores

/-!
# Runs on stores that differ at a name

Some frames are in the shade of a name: in them the name may have other values in one store than in
another one, or a value in one of them only. What lies inside a frame in the shade is in the shade,
too. Whatever refers to a frame in the shade reads other names only, so it finds the same in both
stores.

Two stores are twins when they are the same but for the values of the name in the shade. Two runs
match when, from twins, they end with the same result or stop for the same reason, and leave twins
again. A run that looks up a name only where it may, outside the shade of the name, matches itself.
That is so for each step of a run, and so for evaluation, execution and calls.

## Main results

* `Store.Twins.lookup?`: what may be looked up is the same in twins.
* `Store.Twins.define`, `Store.Twins.child`: twins stay twins when they are changed alike.
* `Store.Twins.defineLeft`: and when the name is given a value in the shade, on the left alone.
* `Run.matches_rules`: the steps of a run match themselves.
* `Run.Matches.defineOthers`: in a frame in the shade, the variables of the name may be left out.
-/

namespace Stencil

/-- How many frames there are, and which of them are in the shade of a name. -/
structure Shade where
  known : Nat
  shaded : FrameId → Prop
  builtins : Store.builtinFrame < known ∧ ¬ shaded Store.builtinFrame

namespace Shade

/-- Frames are added. Those that were there stay in the shade, or outside it. -/
instance : Preorder Shade where
  le before after := before.known ≤ after.known ∧
    ∀ id < before.known, after.shaded id ↔ before.shaded id
  le_refl _ := ⟨Nat.le_refl _, fun _ _ => Iff.rfl⟩
  le_trans _ _ _ h h' := ⟨Nat.le_trans h.1 h'.1, fun id hId =>
    (h'.2 id (Nat.lt_of_lt_of_le hId h.1)).trans (h.2 id hId)⟩

/-- Only the frame of the built-in functions is there, and is not in the shade. -/
def initial : Shade := ⟨1, fun _ => False, Nat.zero_lt_one, fun hDark => hDark⟩

/-- One more frame, in the shade or not. -/
def grow (shade : Shade) (dark : Prop) : Shade where
  known := shade.known + 1
  shaded id := if id = shade.known then dark else shade.shaded id
  builtins := by
    have hLt := shade.builtins.1
    refine ⟨Nat.lt_succ_of_lt hLt, ?_⟩
    rw [if_neg (Nat.ne_of_lt hLt)]
    exact shade.builtins.2

theorem le_grow (shade : Shade) (dark : Prop) : shade ≤ shade.grow dark :=
  ⟨Nat.le_succ _, fun id hId => by
    show (if id = shade.known then dark else shade.shaded id) ↔ shade.shaded id
    rw [if_neg (Nat.ne_of_lt hId)]⟩

theorem shaded_grow_of_lt {shade : Shade} {id : FrameId} (h : id < shade.known) (dark : Prop) :
    (shade.grow dark).shaded id ↔ shade.shaded id :=
  (shade.le_grow dark).2 id h

theorem shaded_grow_known (shade : Shade) (dark : Prop) :
    (shade.grow dark).shaded shade.known ↔ dark := by
  show (if shade.known = shade.known then dark else _) ↔ dark
  rw [if_pos rfl]

end Shade

/-- In the shade of a name everything but the name may be looked up. -/
def View.shade (name : String) : View Shade where
  screen shade :=
    { admits := fun body frame => frame < shade.known ∧
        ∀ other ∈ Instr.allReads body, shade.shaded frame → other ≠ name
      serves := fun _ _ _ => True }
  knows shade frame := frame < shade.known
  sees shade frame other := shade.shaded frame → other ≠ name
  screen_mono h := ⟨fun _ frame hBody => ⟨Nat.lt_of_lt_of_le hBody.1 h.1, fun other hOther hDark =>
    hBody.2 other hOther ((h.2 frame hBody.1).1 hDark)⟩, fun _ _ _ hServes => hServes⟩
  knows_mono h hKnown := Nat.lt_of_lt_of_le hKnown h.1
  sees_mono h hKnown hSees hDark := hSees ((h.2 _ hKnown).1 hDark)

/-- The frames are the same but for the name, if it is in the shade. -/
structure Frame.Twins (name : String) (dark : Prop) (frame other : Frame Value) : Prop where
  parent : other.parent = frame.parent
  bindings : ∀ key, (dark → key ≠ name) →
    Entries.find? key other.bindings = Entries.find? key frame.bindings

/-- The stores are the same but for the values of the name in the shade. What lies inside a frame in
the shade is in the shade as well, and whatever refers to one does not read the name. -/
structure Store.Twins (name : String) (shade : Shade) (store other : Store) : Prop where
  known : store.frames.next = shade.known
  next : other.frames.next = store.frames.next
  nextMark : other.nextMark = store.nextMark
  caches : other.caches = store.caches
  counters : other.counters = store.counters
  frames : ∀ id frame twin, store.frames.frame? id = some frame →
    other.frames.frame? id = some twin → frame.Twins name (shade.shaded id) twin
  inside : ∀ id frame parent, store.frames.frame? id = some frame → frame.parent = some parent →
    parent < id ∧ (shade.shaded parent → shade.shaded id)
  respects : store.Respects ((View.shade name).screen shade)
    fun id key => shade.shaded id ∧ key = name

namespace Store.Twins

variable {name : String} {shade : Shade} {store other : Store}

theorem frame?_eq_none_iff (h : Twins name shade store other) {id : FrameId} :
    other.frames.frame? id = none ↔ store.frames.frame? id = none := by
  rw [Frames.frame?, Frames.frame?, Array.getElem?_eq_none_iff, Array.getElem?_eq_none_iff]
  exact iff_of_eq (congrArg (· ≤ id) h.next)

/-- A frame of one of the twins is a frame of the other one. -/
theorem exists_twin (h : Twins name shade store other) {id : FrameId} {frame : Frame Value}
    (hFrame : store.frames.frame? id = some frame) :
    ∃ twin, other.frames.frame? id = some twin ∧ frame.Twins name (shade.shaded id) twin := by
  cases hTwin : other.frames.frame? id with
  | none => rw [h.frame?_eq_none_iff.1 hTwin] at hFrame; cases hFrame
  | some twin => exact ⟨twin, rfl, h.frames id frame twin hFrame hTwin⟩

/-- A name that may be looked up in a frame may be looked up in the frame around it. -/
theorem sees_parent (h : Twins name shade store other) {id parent : FrameId} {frame : Frame Value}
    {key : String} (hSees : shade.shaded id → key ≠ name)
    (hFrame : store.frames.frame? id = some frame) (hParent : frame.parent = some parent) :
    shade.shaded parent → key ≠ name :=
  fun hDark => hSees ((h.inside id frame parent hFrame hParent).2 hDark)

theorem lookupWithin (h : Twins name shade store other) {key : String} (steps : Nat) {id : FrameId}
    (hSees : shade.shaded id → key ≠ name) :
    other.frames.lookupWithin key steps id = store.frames.lookupWithin key steps id := by
  induction steps generalizing id with
  | zero =>
      unfold Frames.lookupWithin
      cases hFrame : store.frames.frame? id with
      | none => rw [h.frame?_eq_none_iff.2 hFrame]
      | some frame =>
          obtain ⟨twin, hTwin, hSame⟩ := h.exists_twin hFrame
          simp only [hTwin, hSame.bindings key hSees, hSame.parent]
          cases Entries.find? key frame.bindings <;> cases frame.parent <;> rfl
  | succ steps ih =>
      unfold Frames.lookupWithin
      cases hFrame : store.frames.frame? id with
      | none => rw [h.frame?_eq_none_iff.2 hFrame]
      | some frame =>
          obtain ⟨twin, hTwin, hSame⟩ := h.exists_twin hFrame
          simp only [hTwin, hSame.bindings key hSees, hSame.parent]
          cases hParent : frame.parent with
          | none => rfl
          | some parent =>
              cases Entries.find? key frame.bindings with
              | some value => rfl
              | none => exact ih (h.sees_parent hSees hFrame hParent)

/-- What may be looked up is the same, and may be come across. -/
theorem lookup? (h : Twins name shade store other) {id : FrameId} {key : String}
    (hSees : shade.shaded id → key ≠ name) :
    other.frames.lookup? id key = store.frames.lookup? id key ∧
      (View.shade name).Passes shade (store.frames.lookup? id key) :=
  ⟨h.lookupWithin id hSees,
    h.respects.lookupWithin (fun id => shade.shaded id → key ≠ name)
      (fun _ hClear hHidden => hClear hHidden.1 hHidden.2)
      (fun _ _ hClear hFrame _ hParent => h.sees_parent hClear hFrame hParent) id id hSees⟩

/-- Defining a variable leaves the frames inside the frames that they were in. -/
theorem inside_define (h : Twins name shade store other) (place : FrameId) (key : String)
    (value : Value) (id : FrameId) (frame : Frame Value) (parent : FrameId)
    (hFrame : (store.frames.define place key value).frame? id = some frame)
    (hParent : frame.parent = some parent) :
    parent < id ∧ (shade.shaded parent → shade.shaded id) := by
  obtain ⟨-, hBefore⟩ | ⟨before, rfl, hBefore, rfl⟩ := Frames.frame?_define_eq_some hFrame
  · exact h.inside id frame parent hBefore hParent
  · exact h.inside id before parent hBefore hParent

/-- A variable is given the same value in both. -/
theorem define (h : Twins name shade store other) (id : FrameId) (key : String) {value : Value}
    (hValue : (View.shade name).Passes shade value) :
    Twins name shade { store with frames := store.frames.define id key value }
      { other with frames := other.frames.define id key value } where
  known := (Frames.next_define ..).trans h.known
  next := (Frames.next_define ..).trans (h.next.trans (Frames.next_define ..).symm)
  nextMark := h.nextMark
  caches := h.caches
  counters := h.counters
  frames place frame twin hFrame hTwin := by
    obtain ⟨hOther, hBefore⟩ | ⟨before, rfl, hBefore, rfl⟩ := Frames.frame?_define_eq_some hFrame
    · rw [Frames.frame?_define_other hOther] at hTwin
      exact h.frames place frame twin hBefore hTwin
    · obtain ⟨hOther, -⟩ | ⟨before', -, hBefore', rfl⟩ := Frames.frame?_define_eq_some hTwin
      · exact absurd rfl hOther
      · have hSame := h.frames place before before' hBefore hBefore'
        refine ⟨hSame.parent, fun found hSees => ?_⟩
        by_cases hKey : found = key
        · rw [hKey, Entries.find?_insert_same, Entries.find?_insert_same]
        · rw [Entries.find?_insert_other hKey, Entries.find?_insert_other hKey]
          exact hSame.bindings found hSees
  inside := h.inside_define id key value
  respects := h.respects.define id key hValue

/-- The name is given a value in the shade, on the left alone. -/
theorem defineLeft (h : Twins name shade store other) {id : FrameId} (hDark : shade.shaded id)
    (value : Value) :
    Twins name shade { store with frames := store.frames.define id name value } other where
  known := (Frames.next_define ..).trans h.known
  next := h.next.trans (Frames.next_define ..).symm
  nextMark := h.nextMark
  caches := h.caches
  counters := h.counters
  frames place frame twin hFrame hTwin := by
    obtain ⟨-, hBefore⟩ | ⟨before, rfl, hBefore, rfl⟩ := Frames.frame?_define_eq_some hFrame
    · exact h.frames place frame twin hBefore hTwin
    · have hSame := h.frames place before twin hBefore hTwin
      refine ⟨hSame.parent, fun key hSees => ?_⟩
      rw [Entries.find?_insert_other (hSees hDark)]
      exact hSame.bindings key hSees
  inside := h.inside_define id name value
  respects := by
    refine ⟨fun place frame key found hFrame hFound hClear => ?_, h.respects.memories⟩
    obtain ⟨-, hBefore⟩ | ⟨before, rfl, hBefore, rfl⟩ := Frames.frame?_define_eq_some hFrame
    · exact h.respects.bindings place frame key found hBefore hFound hClear
    · rw [Entries.find?_insert_other fun hKey => hClear ⟨hDark, hKey⟩] at hFound
      exact h.respects.bindings place before key found hBefore hFound hClear

/-- A frame is opened in both. It is in the shade if the frame around it is. -/
theorem child (h : Twins name shade store other) {parent : FrameId} (hParent : parent < shade.known)
    {dark : Prop} (hDark : shade.shaded parent → dark) :
    Twins name (shade.grow dark) { store with frames := store.frames.child parent }
      { other with frames := other.frames.child parent } where
  known := (Frames.next_child ..).trans (congrArg (· + 1) h.known)
  next := (Frames.next_child ..).trans ((congrArg (· + 1) h.next).trans (Frames.next_child ..).symm)
  nextMark := h.nextMark
  caches := h.caches
  counters := h.counters
  frames id frame twin hFrame hTwin := by
    obtain ⟨hId, hBefore⟩ | ⟨rfl, rfl⟩ := Frames.frame?_child_eq_some hFrame
    · rw [Frames.frame?_child (h.next ▸ hId)] at hTwin
      have hSame := h.frames id frame twin hBefore hTwin
      have hShaded := Shade.shaded_grow_of_lt (h.known ▸ hId) dark
      exact ⟨hSame.parent, fun key hSees => hSame.bindings key fun hHere => hSees (hShaded.2 hHere)⟩
    · rw [← h.next, Frames.frame?_child_next] at hTwin
      obtain rfl := Option.some.inj hTwin
      exact ⟨rfl, fun _ _ => rfl⟩
  inside id frame around hFrame hAround := by
    obtain ⟨hId, hBefore⟩ | ⟨rfl, rfl⟩ := Frames.frame?_child_eq_some hFrame
    · obtain ⟨hLt, hShaded⟩ := h.inside id frame around hBefore hAround
      have hId : id < shade.known := h.known ▸ hId
      rw [Shade.shaded_grow_of_lt hId, Shade.shaded_grow_of_lt (Nat.lt_trans hLt hId)]
      exact ⟨hLt, hShaded⟩
    · obtain rfl : parent = around := Option.some.inj hAround
      rw [h.known, Shade.shaded_grow_of_lt hParent, Shade.shaded_grow_known]
      exact ⟨hParent, hDark⟩
  respects := by
    have hGrown := (h.respects.child parent).mono
      ((View.shade name).screen_mono (shade.le_grow dark))
    refine ⟨fun id frame key value hFrame hFound hClear => ?_, hGrown.memories⟩
    obtain ⟨hId, -⟩ | ⟨-, rfl⟩ := Frames.frame?_child_eq_some hFrame
    · have hShaded := Shade.shaded_grow_of_lt (h.known ▸ hId) dark
      exact hGrown.bindings id frame key value hFrame hFound fun hHere =>
        hClear ⟨hShaded.2 hHere.1, hHere.2⟩
    · cases hFound

/-- The count of marks and the counters are changed alike. -/
theorem counts (h : Twins name shade store other) (nextMark : Nat) (counters : Array Nat) :
    Twins name shade { store with nextMark, counters } { other with nextMark, counters } :=
  ⟨h.known, h.next, rfl, h.caches, rfl, h.frames, h.inside, h.respects.counts nextMark counters⟩

/-- The memories are changed alike. -/
theorem withCaches (h : Twins name shade store other) {caches : Array (Entries Resolved)}
    (hCaches : Store.Respects ((View.shade name).screen shade)
      (fun id key => shade.shaded id ∧ key = name) { store with caches }) :
    Twins name shade { store with caches } { other with caches } :=
  ⟨h.known, h.next, h.nextMark, rfl, h.counters, h.frames, h.inside, hCaches⟩

/-- At the start no frame is in the shade. -/
theorem initial (name : String) : Twins name .initial .initial .initial where
  known := rfl
  next := rfl
  nextMark := rfl
  caches := rfl
  counters := rfl
  frames id frame twin hFrame hTwin := by
    obtain rfl : frame = twin := Option.some.inj (hFrame.symm.trans hTwin)
    exact ⟨rfl, fun _ _ => rfl⟩
  inside id frame parent hFrame hParent := by
    have hId : id < Store.initial.frames.next := (Array.getElem?_eq_some_iff.1 hFrame).1
    obtain rfl : id = 0 := Nat.lt_one_iff.1 hId
    obtain rfl : _ = frame := Option.some.inj hFrame
    cases hParent
  respects := Store.Respects.initial

end Store.Twins

/-! ## Runs on twins -/

namespace Run

/-- The runs end with the same result, or stop for the same reason, and leave twins. -/
def Outcomes (name : String) (shade : Shade) {α : Type} [Renamable α] :
    EStateM.Result Stop Store α → EStateM.Result Stop Store α → Prop
  | .ok a after, .ok b after' =>
      b = a ∧ (View.shade name).Passes shade a ∧ after.Twins name shade after'
  | .error stop after, .error stop' after' => stop' = stop ∧ after.Twins name shade after'
  | _, _ => False

/-- From twins the runs have the same outcome. -/
def Matches (name : String) (shade : Shade) {α : Type} [Renamable α] (action twin : Run α) : Prop :=
  ∀ setting store other, store.Twins name shade other →
    ∃ after, shade ≤ after ∧ Outcomes name after (action setting store) (twin setting other)

namespace Matches

variable {name : String} {shade : Shade} {α β : Type} [Renamable α] [Renamable β]

theorem pure {a : α} (h : (View.shade name).Passes shade a) :
    Matches name shade (Pure.pure a) (Pure.pure a) :=
  fun _ _ _ hStore => ⟨shade, le_rfl, rfl, h, hStore⟩

theorem stop (cause : Stop) : Matches name shade (throw cause : Run α) (throw cause) :=
  fun _ _ _ hStore => ⟨shade, le_rfl, rfl, hStore⟩

theorem bind {action twin : Run α} {next nextTwin : α → Run β} (h : Matches name shade action twin)
    (hNext : ∀ after, shade ≤ after → ∀ a, (View.shade name).Passes after a →
      Matches name after (next a) (nextTwin a)) :
    Matches name shade (action >>= next) (twin >>= nextTwin) := by
  intro setting store other hStore
  obtain ⟨middle, hMiddle, hOutcomes⟩ := h setting store other hStore
  rw [Preserves.bind_apply, Preserves.bind_apply]
  cases hRun : action setting store with
  | error cause after =>
      cases hTwin : twin setting other with
      | error cause' after' =>
          rw [hRun, hTwin] at hOutcomes
          exact ⟨middle, hMiddle, hOutcomes⟩
      | ok b after' => rw [hRun, hTwin] at hOutcomes; exact hOutcomes.elim
  | ok a after =>
      cases hTwin : twin setting other with
      | error cause' after' => rw [hRun, hTwin] at hOutcomes; exact hOutcomes.elim
      | ok b after' =>
          rw [hRun, hTwin] at hOutcomes
          obtain ⟨rfl, ha, hAfter⟩ := hOutcomes
          obtain ⟨last, hLast, hOutcomes⟩ := hNext middle hMiddle b ha setting after after' hAfter
          exact ⟨last, hMiddle.trans hLast, hOutcomes⟩

/-- A step that gives what it finds in the store. -/
theorem get {f : Store → α} (h : ∀ store other, store.Twins name shade other →
      f other = f store ∧ (View.shade name).Passes shade (f store)) :
    Matches name shade (do return f (← MonadState.get) : Run α) (do return f (← MonadState.get)) :=
  fun _ store other hStore =>
    ⟨shade, le_rfl, (h store other hStore).1, (h store other hStore).2, hStore⟩

/-- A step that changes the store. -/
theorem modifyGet {f g : Store → α × Store} (h : ∀ store other, store.Twins name shade other →
      (g other).1 = (f store).1 ∧ (View.shade name).Passes shade (f store).1 ∧
        (f store).2.Twins name shade (g other).2) :
    Matches name shade (MonadStateOf.modifyGet f : Run α) (MonadStateOf.modifyGet g) :=
  fun _ store other hStore => ⟨shade, le_rfl, h store other hStore⟩

theorem settle {value : Value} (h : (View.shade name).Passes shade value) :
    Matches name shade (Run.settle value) (Run.settle value) :=
  modifyGet fun store other hStore => by
    rw [hStore.nextMark]
    exact ⟨rfl, h.settle store.nextMark, hStore.counters ▸ hStore.counts _ _⟩

/-- A step that changes the store and gives nothing. -/
theorem modify {f : Store → Store}
    (h : ∀ store other, store.Twins name shade other → (f store).Twins name shade (f other)) :
    Matches name shade (MonadState.modifyGet fun store => (PUnit.unit, f store) : Run Unit)
      (MonadState.modifyGet fun store => (PUnit.unit, f store)) :=
  modifyGet fun store other hStore => ⟨rfl, rfl, h store other hStore⟩

theorem remembered? (cache : Nat) (key : String) :
    Matches name shade (Run.remembered? cache key) (Run.remembered? cache key) :=
  get fun store other hStore => ⟨by rw [hStore.caches], hStore.respects.remembered cache key⟩

theorem newCounter : Matches name shade Run.newCounter Run.newCounter :=
  modifyGet fun store other hStore => by
    rw [hStore.counters]
    exact ⟨rfl, rfl, hStore.nextMark ▸ hStore.counts _ _⟩

/-- What is defined in a new frame, which is in the shade when the frame around it is, and may be
otherwise. -/
theorem inNewFrame {parent : FrameId} (hParent : parent < shade.known) (dark : Prop)
    (hDark : shade.shaded parent → dark) {next nextTwin : FrameId → Run α}
    (h : Matches name (shade.grow dark) (next shade.known) (nextTwin shade.known)) :
    Matches name shade (Run.openFrame parent >>= next) (Run.openFrame parent >>= nextTwin) := by
  intro setting store other hStore
  obtain ⟨after, hAfter, hOutcomes⟩ := h setting _ _ (hStore.child hParent hDark)
  refine ⟨after, (shade.le_grow dark).trans hAfter, ?_⟩
  show Outcomes name after
    (next store.frames.next setting { store with frames := store.frames.child parent })
    (nextTwin other.frames.next setting { other with frames := other.frames.child parent })
  rw [hStore.next, hStore.known]
  exact hOutcomes

/-- What comes out of runs that match. -/
theorem perform {action twin : Run α} (h : Matches name shade action twin) (setting : Setting)
    {store other : Store} (hStore : store.Twins name shade other) :
    ∃ after, shade ≤ after ∧ (twin.perform setting other).1 = (action.perform setting store).1 ∧
      (action.perform setting store).2.Twins name after (twin.perform setting other).2 ∧
      ∀ a, (action.perform setting store).1 = .ok a → (View.shade name).Passes after a := by
  obtain ⟨after, hLe, hOutcomes⟩ := h setting store other hStore
  refine ⟨after, hLe, ?_⟩
  unfold Run.perform ReaderT.run EStateM.run
  cases hRun : action setting store with
  | error cause last =>
      cases hTwin : twin setting other with
      | error cause' last' =>
          rw [hRun, hTwin] at hOutcomes
          exact ⟨congrArg Except.error hOutcomes.1, hOutcomes.2, nofun⟩
      | ok b last' => rw [hRun, hTwin] at hOutcomes; exact hOutcomes.elim
  | ok a last =>
      cases hTwin : twin setting other with
      | error cause' last' => rw [hRun, hTwin] at hOutcomes; exact hOutcomes.elim
      | ok b last' =>
          rw [hRun, hTwin] at hOutcomes
          obtain ⟨rfl, hPass, hLast⟩ := hOutcomes
          exact ⟨rfl, hLast, fun _ hSame => Except.ok.inj hSame ▸ hPass⟩

end Matches

open Matches in
/-- The steps of a run match themselves. -/
theorem matches_rules (name : String) :
    (View.shade name).CallRules fun shade _ _ action => Matches name shade action action where
  pure h := Matches.pure h
  fail cause := stop (.failure cause)
  bind h hNext := h.bind hNext
  settle h := Matches.settle h
  lookup? _ hSees := get fun _ _ hStore => hStore.lookup? hSees
  unfinished := stop .unfinished
  passes h := fun setting store other hStore => h setting.passes setting store other hStore
  define frame key h := (Matches.settle h).bind fun _ _ _ hValue =>
    Matches.modify fun _ _ hStore => hStore.define frame key hValue
  defineFunction frame key h := Matches.modify fun _ _ hStore => hStore.define frame key h
  admits := Iff.rfl
  inNewFrame {shade _ _ parent _} hParent hNext := by
    refine Matches.inNewFrame hParent (shade.shaded parent) (fun hDark => hDark) ?_
    refine hNext _ (shade.le_grow _) shade.known fun names hNames => ⟨Nat.lt_succ_self _, ?_⟩
    intro key hKey hDark
    exact hNames.2 key hKey ((shade.shaded_grow_known _).1 hDark)
  newCache {shade _ _ _} hNext := by
    have hNew : Matches name shade Run.newCache Run.newCache :=
      modifyGet fun store other hStore => by
        rw [hStore.caches]
        exact ⟨rfl, rfl, hStore.withCaches hStore.respects.newCache⟩
    exact hNew.bind fun _ hLe memory _ => hNext _ hLe memory fun _ _ _ hServes => hServes
  remembered? {_ _ cache _} name _ := Matches.remembered? cache name
  remember {_ _ cache _ key resolved} _ hKey h := by
    refine (Matches.remembered? cache key).bind fun after hLe found hFound => ?_
    cases found with
    | some earlier => exact Matches.pure hFound.of_some
    | none =>
        have h := View.passes_mono hLe h
        have hStored : Matches name after
            (modify fun store =>
              { store with caches := store.caches.modify cache (Entries.insert key resolved) } :
                Run Unit)
            (modify fun store =>
              { store with caches := store.caches.modify cache (Entries.insert key resolved) }) :=
          Matches.modify fun store other hStore => by
            rw [hStore.caches]
            exact hStore.withCaches (hStore.respects.remember cache hKey h)
        exact hStored.bind fun _ hLe' _ _ => Matches.pure (View.passes_mono hLe' h)
  count _ := Matches.modify fun store other hStore => by
    rw [hStore.counters]
    exact hStore.nextMark ▸ hStore.counts _ _
  locate {_ _ _ root _ _ key next} _ hNext := fun setting store other hStore => by
    show ∃ after, _ ≤ after ∧ Outcomes name after
      ((Run.ofResult (Renderer.locate setting.files root key) >>= next) setting store)
      ((Run.ofResult (Renderer.locate setting.files root key) >>= next) setting other)
    cases Renderer.locate setting.files root key with
    | error cause => exact ⟨_, le_rfl, rfl, hStore⟩
    | ok located => exact hNext located (fun _ _ => trivial) setting store other hStore
  builtins {shade} names := ⟨shade.builtins.1, fun _ _ hDark => absurd hDark shade.builtins.2⟩

/-- Defines variables of a frame, but for those of this name: their values get their marks and are
dropped. -/
def defineOthers (name : String) (frame : FrameId) : List (String × Value) → Run Unit
  | [] => pure ()
  | (key, value) :: rest =>
      if key = name then do
        let _ ← settle value
        defineOthers name frame rest
      else do
        define frame key value
        defineOthers name frame rest

namespace Matches

variable {name : String} {shade : Shade} {α : Type} [Renamable α]

/-- In the shade the name may have a value on the left alone. -/
theorem defineLeft {frame : FrameId} (hDark : shade.shaded frame) (value : Value)
    {next twin : Run α}
    (h : Matches name shade next twin) :
    Matches name shade (do Run.defineAsIs frame name value; next) twin :=
  fun setting _ other hStore => h setting _ other (hStore.defineLeft hDark value)

/-- In a frame in the shade, the variables of the name may be left out. -/
theorem defineOthers {frame : FrameId} (hDark : shade.shaded frame) (hFrame : frame < shade.known)
    {entries : List (String × Value)} (hEntries : (View.shade name).Passes shade entries) :
    Matches name shade (Run.defineAll frame entries) (Run.defineOthers name frame entries) := by
  have rules := matches_rules name
  induction entries generalizing shade with
  | nil => exact rules.pure rfl
  | cons entry rest ih =>
      obtain ⟨key, value⟩ := entry
      have hNext {after : Shade} (hLe : shade ≤ after) :
          Matches name after (Run.defineAll frame rest) (Run.defineOthers name frame rest) :=
        ih ((hLe.2 frame hFrame).2 hDark) (Nat.lt_of_lt_of_le hFrame hLe.1)
          (View.passes_mono hLe hEntries.tail)
      rw [Run.defineAll, Run.defineOthers]
      split
      · rename_i hKey
        subst hKey
        rw [Run.define, bind_assoc]
        exact (rules.settle hEntries.head.snd).bind fun after hLe settled _ =>
          (hNext hLe).defineLeft ((hLe.2 frame hFrame).2 hDark) settled
      · exact (rules.define frame key hEntries.head.snd).bind fun after hLe _ _ => hNext hLe

end Matches

end Run

end Stencil
