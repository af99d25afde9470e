import Stencil.Proofs.Ending.Steps
import Stencil.Proofs.Screens

/-!
# Stores behind a screen

What the frames and the memories of a store hold is as a screen says, apart from variables that are
hidden: they may hold anything, as long as nothing looks them up. Names that are remembered are
names that lead down. What a run does to a store leaves it so.

## Main results

* `Store.Respects.lookupWithin`: what is looked up passes, if the look-up comes across nothing
  hidden.
* `Store.Respects.define`, `Store.Respects.child`, `Store.Respects.remember`: steps on the store.
-/

namespace Stencil

/-! ## Frames after a step -/

namespace Frames

variable {α : Type} {frames : Frames α} {id : FrameId} {frame : Frame α}

/-- A frame after another one was opened was there before, or is the new one. -/
theorem frame?_child_eq_some {parent : FrameId}
    (h : (frames.child parent).frame? id = some frame) :
    (id < frames.next ∧ frames.frame? id = some frame) ∨
      (id = frames.next ∧ frame = ⟨[], some parent⟩) := by
  by_cases hOld : id < frames.next
  · exact .inl ⟨hOld, (frame?_child hOld parent).symm.trans h⟩
  · have hNew : id < (frames.child parent).next := (Array.getElem?_eq_some_iff.1 h).1
    rw [next_child] at hNew
    obtain rfl : id = frames.next :=
      Nat.le_antisymm (Nat.le_of_lt_succ hNew) (Nat.le_of_not_lt hOld)
    rw [frame?_child_next] at h
    exact .inr ⟨rfl, (Option.some.inj h).symm⟩

/-- A frame after a variable was defined is as it was, unless it is the one of the variable. -/
theorem frame?_define_eq_some {place : FrameId} {name : String} {value : α}
    (h : (frames.define place name value).frame? id = some frame) :
    (id ≠ place ∧ frames.frame? id = some frame) ∨
      ∃ before, id = place ∧ frames.frame? id = some before ∧
        frame = { before with bindings := Entries.insert name value before.bindings } := by
  by_cases hSame : id = place
  · subst hSame
    rw [frame?_define_same] at h
    obtain ⟨before, hBefore, rfl⟩ := Option.map_eq_some_iff.1 h
    exact .inr ⟨before, rfl, hBefore, rfl⟩
  · exact .inl ⟨hSame, (frame?_define_other hSame name value).symm.trans h⟩

end Frames

/-- The frames, apart from what is hidden in them, and the memories hold what the screen lets
through. -/
structure Store.Respects (screen : Screen) (hidden : FrameId → String → Prop) (store : Store) :
    Prop where
  bindings : ∀ id frame name value, store.frames.frame? id = some frame →
    Entries.find? name frame.bindings = some value → ¬ hidden id name → value.Respects screen
  memories : ∀ (cache : Nat) (entries : Entries Resolved) (name : String) (resolved : Resolved),
    store.caches[cache]? = some entries → Entries.find? name entries = some resolved →
    checkName name = .ok () ∧ resolved.Respects screen

namespace Store.Respects

variable {screen wide : Screen} {hidden : FrameId → String → Prop} {store : Store}

theorem mono (hLe : screen ≤ wide) (h : store.Respects screen hidden) :
    store.Respects wide hidden where
  bindings id frame name value hFrame hFound hClear :=
    have hValue := h.bindings id frame name value hFrame hFound hClear
    Value.passes_iff.1 ((Value.passes_iff.2 hValue).mono hLe)
  memories cache entries name resolved hEntries hFound :=
    have hMemory := h.memories cache entries name resolved hEntries hFound
    ⟨hMemory.1, Resolved.passes_iff.1 ((Resolved.passes_iff.2 hMemory.2).mono hLe)⟩

/-- At the start there are the built-in functions alone. -/
theorem initial : Store.initial.Respects screen hidden where
  bindings id frame name value hFrame hFound _ := by
    have hEntries (names : List (String × Nat)) : entriesRespect screen
        (names.map fun name => (name.1, Value.builtin name.1 (some name.2))) := by
      induction names with
      | nil => trivial
      | cons name rest ih => exact ⟨trivial, ih⟩
    have hId : id < Store.initial.frames.next := (Array.getElem?_eq_some_iff.1 hFrame).1
    obtain rfl : id = 0 := Nat.lt_one_iff.1 hId
    obtain rfl : _ = frame := Option.some.inj hFrame
    have hFound' := (passes_entries_iff.2 (hEntries Builtin.names.zipIdx)).find? name
    exact Value.passes_iff.1 (Screen.Passes.of_some (hFound ▸ hFound'))
  memories cache entries name resolved hEntries _ := by cases hEntries

/-- What is looked up passes when nothing is hidden under its name in the frames that the look-up
goes through. -/
theorem lookupWithin (h : store.Respects screen hidden) {name : String} (clear : FrameId → Prop)
    (hClear : ∀ id, clear id → ¬ hidden id name)
    (hParent : ∀ id frame, clear id → store.frames.frame? id = some frame →
      ∀ parent ∈ frame.parent, clear parent) (steps : Nat) (id : FrameId) (hId : clear id) :
    screen.Passes (store.frames.lookupWithin name steps id) := by
  induction steps generalizing id with
  | zero =>
      unfold Frames.lookupWithin
      cases hFrame : store.frames.frame? id with
      | none => exact .none
      | some frame =>
          cases hFound : Entries.find? name frame.bindings with
          | some value =>
              simp only [hFound]
              exact (Value.passes_iff.2
                (h.bindings id frame name value hFrame hFound (hClear id hId))).some
          | none => cases hUp : frame.parent <;> simp only [hFound, hUp] <;> exact .none
  | succ steps ih =>
      unfold Frames.lookupWithin
      cases hFrame : store.frames.frame? id with
      | none => exact .none
      | some frame =>
          cases hFound : Entries.find? name frame.bindings with
          | some value =>
              simp only [hFound]
              exact (Value.passes_iff.2
                (h.bindings id frame name value hFrame hFound (hClear id hId))).some
          | none =>
              cases hUp : frame.parent with
              | none => simp only [hFound, hUp]; exact .none
              | some parent =>
                  simp only [hFound, hUp]
                  exact ih parent (hParent id frame hId hFrame parent hUp)

/-- A variable is given a value that passes. -/
theorem define (h : store.Respects screen hidden) (id : FrameId) (name : String) {value : Value}
    (hValue : screen.Passes value) :
    Store.Respects screen hidden { store with frames := store.frames.define id name value } where
  bindings other frame key found hFrame hFound hClear := by
    obtain ⟨-, hBefore⟩ | ⟨before, rfl, hBefore, rfl⟩ := Frames.frame?_define_eq_some hFrame
    · exact h.bindings other frame key found hBefore hFound hClear
    · by_cases hKey : key = name
      · rw [hKey, Entries.find?_insert_same] at hFound
        rw [← Option.some.inj hFound]
        exact Value.passes_iff.1 hValue
      · rw [Entries.find?_insert_other hKey] at hFound
        exact h.bindings other before key found hBefore hFound hClear
  memories := h.memories

/-- A frame that is opened holds nothing. -/
theorem child (h : store.Respects screen hidden) (parent : FrameId) :
    Store.Respects screen hidden { store with frames := store.frames.child parent } where
  bindings id frame name value hFrame hFound hClear := by
    obtain ⟨-, hBefore⟩ | ⟨-, rfl⟩ := Frames.frame?_child_eq_some hFrame
    · exact h.bindings id frame name value hBefore hFound hClear
    · cases hFound
  memories := h.memories

/-- The count of marks and the counters hold no values. -/
theorem counts (h : store.Respects screen hidden) (nextMark : Nat) (counters : Array Nat) :
    Store.Respects screen hidden { store with nextMark, counters } :=
  ⟨h.bindings, h.memories⟩

/-- A memory that is made is empty. -/
theorem newCache (h : store.Respects screen hidden) :
    Store.Respects screen hidden { store with caches := store.caches.push [] } where
  bindings := h.bindings
  memories cache entries name resolved hEntries hFound := by
    rw [Array.getElem?_push] at hEntries
    split at hEntries
    · rw [← Option.some.inj hEntries] at hFound
      cases hFound
    · exact h.memories cache entries name resolved hEntries hFound

/-- What is remembered passes. -/
theorem remembered (h : store.Respects screen hidden) (cache : Nat) (name : String) :
    screen.Passes ((store.caches[cache]?).bind (Entries.find? name)) := by
  cases hEntries : store.caches[cache]? with
  | none => exact .none
  | some entries =>
      cases hFound : Entries.find? name entries with
      | none => simp only [Option.bind_some, hFound]; exact .none
      | some resolved =>
          simp only [Option.bind_some, hFound]
          exact (Resolved.passes_iff.2
            (h.memories cache entries name resolved hEntries hFound).2).some

/-- What a name that leads down has led to is remembered. -/
theorem remember (h : store.Respects screen hidden) (cache : Nat) {name : String}
    (hName : checkName name = .ok ()) {resolved : Resolved} (hResolved : screen.Passes resolved) :
    Store.Respects screen hidden
      { store with caches := store.caches.modify cache (Entries.insert name resolved) } where
  bindings := h.bindings
  memories other entries key found hEntries hFound := by
    rw [Array.getElem?_modify] at hEntries
    split at hEntries
    · obtain ⟨before, hBefore, rfl⟩ := Option.map_eq_some_iff.1 hEntries
      by_cases hSame : key = name
      · rw [hSame, Entries.find?_insert_same] at hFound
        rw [← Option.some.inj hFound, hSame]
        exact ⟨hName, Resolved.passes_iff.1 hResolved⟩
      · rw [Entries.find?_insert_other hSame] at hFound
        exact h.memories other before key found hBefore hFound
    · exact h.memories other entries key found hEntries hFound

end Store.Respects

/-- A value that is given its mark passes as before. -/
theorem Screen.Passes.settle {screen : Screen} {value : Value} (h : screen.Passes value)
    (next : Nat) : screen.Passes (value.settle next).1 :=
  Value.rename_settle next next value value h ⟨fun _ _ => rfl, fun _ _ => rfl⟩

end Stencil
