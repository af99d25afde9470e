import Stencil.Proofs.Ending.Reach

/-!
# Runs that come to an end

A run within a reach ends: with a result, which is within the reach again, or with a failure. It
never stops unfinished. What the frames and memories of the reach hold stays within the reach, so
the next run finds a store like the one that this run has found.

## Main results

* `Run.Finishes.bind`: steps that end, one after another, end.
* `Run.Finishes.define`, `Run.Finishes.lookup?`, `Run.Finishes.remember`: steps on the store end.
* `Store.Within.sound`: the stores that runs within the reach may start from.
-/

namespace Stencil

/-! ## Stores -/

/-- What the frames and the memories of the reach hold is within it. -/
structure Reach.Sound (reach : Reach) (store : Store) : Prop where
  builtins : reach.frame Store.builtinFrame
  bindings : ∀ id frame, reach.frame id → store.frames.frame? id = some frame →
    reach.Inside frame.bindings
  parents : ∀ id frame, reach.frame id → store.frames.frame? id = some frame →
    ∀ parent ∈ frame.parent, reach.frame parent
  newFrames : ∀ id, store.frames.next ≤ id → reach.frame id
  memories : ∀ memory entries name resolved, reach.memory memory →
    store.caches[memory]? = some entries → Entries.find? name entries = some resolved →
    reach.Inside resolved
  newMemories : ∀ memory, store.caches.size ≤ memory → reach.memory memory

section Values

variable {reach : Reach}

theorem Reach.Inside.of_entriesWithin {entries : List (String × Value)}
    (h : entriesWithin reach entries) : reach.Inside entries := by
  have hSame := entries_inside entries h
  rwa [renameEntries_eq, renameEntries_eq] at hSame

theorem Resolved.inside {resolved : Resolved} (h : resolved.Within reach) :
    reach.Inside resolved := by
  cases resolved with
  | template content =>
      have hSame := Value.inside (.template content none) h
      rw [Value.rename_template, Value.rename_template] at hSame
      exact congrArg Resolved.template (Value.template.inj hSame).1
  | directory renderer =>
      have hSame := Value.inside (.renderer renderer none) h
      rw [Value.rename_renderer, Value.rename_renderer] at hSame
      exact congrArg Resolved.directory (Value.renderer.inj hSame).1

theorem Arguments.inside {arguments : Arguments} (h : arguments.Within reach) :
    reach.Inside arguments := by
  have hItems := items_inside arguments.positional h.1
  rw [renameItems_eq, renameItems_eq] at hItems
  exact congrArg₂ Arguments.mk hItems (Reach.Inside.of_entriesWithin h.2)

/-- A store that is within the reach is one that runs may start from. -/
theorem Store.Within.sound {store : Store} (h : store.Within reach) : reach.Sound store where
  builtins := h.builtins
  bindings id frame hId hFrame := .of_entriesWithin (h.frames id frame hId hFrame).1
  parents id frame hId hFrame := (h.frames id frame hId hFrame).2
  newFrames := h.newFrames
  memories memory entries name resolved hMemory hEntries hFound :=
    Resolved.inside (h.memories memory entries name resolved hMemory hEntries hFound)
  newMemories := h.newMemories

/-- A variable of a frame of the reach has a value within the reach. -/
theorem Reach.Sound.lookupWithin {store : Store} (h : reach.Sound store) (name : String)
    (steps : Nat) (id : FrameId) (hId : reach.frame id) :
    reach.Inside (store.frames.lookupWithin name steps id) := by
  induction steps generalizing id with
  | zero =>
      unfold Frames.lookupWithin
      cases hFrame : store.frames.frame? id with
      | none => exact .none
      | some frame =>
          have hFind := (h.bindings id frame hId hFrame).find? name
          cases hFound : Entries.find? name frame.bindings with
          | some value => simpa only [hFound] using hFind
          | none => cases hParent : frame.parent <;> simp only [hFound, hParent] <;> exact .none
  | succ steps ih =>
      unfold Frames.lookupWithin
      cases hFrame : store.frames.frame? id with
      | none => exact .none
      | some frame =>
          have hFind := (h.bindings id frame hId hFrame).find? name
          cases hFound : Entries.find? name frame.bindings with
          | some value => simpa only [hFound] using hFind
          | none =>
              cases hParent : frame.parent with
              | none => simp only [hFound, hParent]; exact .none
              | some parent =>
                  simp only [hFound, hParent]
                  exact ih parent (h.parents id frame hId hFrame parent hParent)

/-- A frame of the reach gets a variable with a value within the reach. -/
theorem Reach.Sound.define {store : Store} (h : reach.Sound store) (id : FrameId) (name : String)
    {value : Value} (hValue : reach.Inside value) :
    reach.Sound { store with frames := store.frames.define id name value } where
  builtins := h.builtins
  bindings other frame hOther hFrame := by
    by_cases hSame : other = id
    · subst hSame
      rw [Frames.frame?_define_same] at hFrame
      obtain ⟨before, hBefore, rfl⟩ := Option.map_eq_some_iff.1 hFrame
      exact (h.bindings other before hOther hBefore).insert name hValue
    · rw [Frames.frame?_define_other hSame] at hFrame
      exact h.bindings other frame hOther hFrame
  parents other frame hOther hFrame := by
    by_cases hSame : other = id
    · subst hSame
      rw [Frames.frame?_define_same] at hFrame
      obtain ⟨before, hBefore, rfl⟩ := Option.map_eq_some_iff.1 hFrame
      exact h.parents other before hOther hBefore
    · rw [Frames.frame?_define_other hSame] at hFrame
      exact h.parents other frame hOther hFrame
  newFrames other hOther := h.newFrames other (by simpa using hOther)
  memories := h.memories
  newMemories := h.newMemories

/-- A frame that is opened belongs to the reach. -/
theorem Reach.Sound.child {store : Store} (h : reach.Sound store) {parent : FrameId}
    (hParent : reach.frame parent) :
    reach.Sound { store with frames := store.frames.child parent } where
  builtins := h.builtins
  bindings id frame hId hFrame := by
    by_cases hOld : id < store.frames.next
    · rw [Frames.frame?_child hOld] at hFrame
      exact h.bindings id frame hId hFrame
    · have hNew : id < (store.frames.child parent).next := (Array.getElem?_eq_some_iff.1 hFrame).1
      rw [Frames.next_child] at hNew
      obtain rfl : id = store.frames.next :=
        Nat.le_antisymm (Nat.le_of_lt_succ hNew) (Nat.le_of_not_lt hOld)
      rw [Frames.frame?_child_next] at hFrame
      rw [← Option.some.inj hFrame]
      exact .nil
  parents id frame hId hFrame := by
    by_cases hOld : id < store.frames.next
    · rw [Frames.frame?_child hOld] at hFrame
      exact h.parents id frame hId hFrame
    · have hNew : id < (store.frames.child parent).next := (Array.getElem?_eq_some_iff.1 hFrame).1
      rw [Frames.next_child] at hNew
      obtain rfl : id = store.frames.next :=
        Nat.le_antisymm (Nat.le_of_lt_succ hNew) (Nat.le_of_not_lt hOld)
      rw [Frames.frame?_child_next] at hFrame
      rw [← Option.some.inj hFrame]
      intro other hOther
      rwa [← Option.some.inj hOther]
  newFrames id hId := by
    rw [Frames.next_child] at hId
    exact h.newFrames id (Nat.le_of_succ_le hId)
  memories := h.memories
  newMemories := h.newMemories

end Values

/-! ## Ends of runs -/

/-- The run has a result within the reach, or a failure, and leaves a store to go on from. -/
def Reach.Ended (reach : Reach) {α : Type} [Renamable α] : EStateM.Result Stop Store α → Prop
  | .ok a store => reach.Inside a ∧ reach.Sound store
  | .error stop store => stop ≠ .unfinished ∧ reach.Sound store

/-- However many passes are allowed, the run ends. -/
def Run.Finishes (reach : Reach) {α : Type} [Renamable α] (action : Run α) : Prop :=
  ∀ passes store, reach.Sound store → reach.Ended (action ⟨reach.files, passes⟩ store)

namespace Run.Finishes

variable {α β : Type} [Renamable α] [Renamable β] {reach : Reach}

theorem pure {a : α} (h : reach.Inside a) : Finishes reach (pure a) :=
  fun _ _ hStore => ⟨h, hStore⟩

theorem fail (cause : Failure) : Finishes reach (Run.fail cause : Run α) :=
  fun _ _ hStore => ⟨by simp, hStore⟩

theorem fault (cause : Fault) : Finishes reach (Run.fault cause : Run α) :=
  fail (.evaluation cause)

/-- Steps that end, one after another, end. -/
theorem bind {action : Run α} {next : α → Run β} (h : Finishes reach action)
    (hNext : ∀ a, reach.Inside a → Finishes reach (next a)) : Finishes reach (action >>= next) := by
  intro passes store hStore
  have hFirst := h passes store hStore
  rw [Preserves.bind_apply]
  cases hAction : action ⟨reach.files, passes⟩ store with
  | error stop after =>
      rw [hAction] at hFirst
      exact hFirst
  | ok a after =>
      rw [hAction] at hFirst
      exact hNext a hFirst.1 passes after hFirst.2

theorem map {action : Run α} {f : α → β} (h : Finishes reach action)
    (hf : ∀ a, reach.Inside a → reach.Inside (f a)) : Finishes reach (f <$> action) := by
  rw [← bind_pure_comp]
  exact h.bind fun a ha => pure (hf a ha)

theorem ofEvaluation {x : Except Fault α} (h : reach.Inside x) :
    Finishes reach (Run.ofEvaluation x) := by
  cases x with
  | error cause => exact fault cause
  | ok a => exact pure (Except.ok.inj h)

theorem liftFault {x : Except Fault α} (h : reach.Inside x) :
    Finishes reach (liftM x : Run α) := ofEvaluation h

theorem ite {c : Prop} [Decidable c] {action other : Run α} (h : Finishes reach action)
    (h' : Finishes reach other) : Finishes reach (if c then action else other) := by
  split
  · exact h
  · exact h'

theorem optionMapM {γ : Type} {f : γ → Run α} {value : Option γ}
    (h : ∀ x ∈ value, Finishes reach (f x)) : Finishes reach (value.mapM f) := by
  cases value with
  | none => exact pure .none
  | some x => exact (h x rfl).map fun _ ha => ha.some

/-- Any number of passes may be allowed, and the files are those of the reach. -/
theorem read {next : Setting → Run α} (h : ∀ passes, Finishes reach (next ⟨reach.files, passes⟩)) :
    Finishes reach (MonadReader.read >>= next) :=
  fun passes store hStore => h passes passes store hStore

/-! ## Steps on the store -/

theorem settle {value : Value} (h : reach.Inside value) : Finishes reach (Run.settle value) := by
  intro passes store hStore
  refine ⟨Value.rename_settle _ _ value value h ⟨fun _ _ => rfl, fun _ _ => rfl⟩, ?_⟩
  exact ⟨hStore.builtins, hStore.bindings, hStore.parents, hStore.newFrames, hStore.memories,
    hStore.newMemories⟩

theorem lookup? {frame : FrameId} (h : reach.frame frame) (name : String) :
    Finishes reach (Run.lookup? frame name) :=
  fun _ _ hStore => ⟨hStore.lookupWithin name frame frame h, hStore⟩

theorem defineAsIs (frame : FrameId) (name : String) {value : Value} (h : reach.Inside value) :
    Finishes reach (Run.defineAsIs frame name value) :=
  fun _ _ hStore => ⟨rfl, hStore.define frame name h⟩

theorem define (frame : FrameId) (name : String) {value : Value} (h : reach.Inside value) :
    Finishes reach (Run.define frame name value) :=
  (settle h).bind fun _ hValue => defineAsIs frame name hValue

theorem defineAll (frame : FrameId) {entries : List (String × Value)} (h : reach.Inside entries) :
    Finishes reach (Run.defineAll frame entries) := by
  induction entries with
  | nil => exact pure rfl
  | cons entry rest ih =>
      rw [Run.defineAll]
      exact (define frame entry.1 h.head.snd).bind fun _ _ => ih h.tail

/-- What is done in a new frame. -/
theorem inNewFrame {parent : FrameId} (hParent : reach.frame parent) {body : FrameId → Run α}
    (h : ∀ frame, reach.frame frame → Finishes reach (body frame)) :
    Finishes reach (openFrame parent >>= body) := by
  intro passes store hStore
  exact h store.frames.next (hStore.newFrames _ (Nat.le_refl _)) passes _ (hStore.child hParent)

theorem count (counter : Nat) : Finishes reach (Run.count counter) :=
  fun _ _ hStore => ⟨rfl, hStore.builtins, hStore.bindings, hStore.parents, hStore.newFrames,
    hStore.memories, hStore.newMemories⟩

/-- A new memory belongs to the reach. -/
theorem newCache {next : Nat → Run α}
    (h : ∀ memory, reach.memory memory → Finishes reach (next memory)) :
    Finishes reach (Run.newCache >>= next) := by
  intro passes store hStore
  refine h store.caches.size (hStore.newMemories _ (Nat.le_refl _)) passes _ ?_
  refine ⟨hStore.builtins, hStore.bindings, hStore.parents, hStore.newFrames,
    fun memory entries name resolved hMemory hEntries hFound => ?_, fun memory hMemory => ?_⟩
  · rw [Array.getElem?_push] at hEntries
    split at hEntries
    · rw [← Option.some.inj hEntries] at hFound
      cases hFound
    · exact hStore.memories memory entries name resolved hMemory hEntries hFound
  · rw [Array.size_push] at hMemory
    exact hStore.newMemories memory (by omega)

theorem remembered? {memory : Nat} (h : reach.memory memory) (name : String) :
    Finishes reach (Run.remembered? memory name) := by
  intro passes store hStore
  refine ⟨?_, hStore⟩
  cases hEntries : store.caches[memory]? with
  | none => exact .none
  | some entries =>
      cases hFound : Entries.find? name entries with
      | none => simp only [Option.bind_some, hFound]; exact .none
      | some resolved =>
          simp only [Option.bind_some, hFound]
          exact (hStore.memories memory entries name resolved h hEntries hFound).some

/-- What a name has led to is within the reach, now and when it is remembered. -/
theorem remember {memory : Nat} (h : reach.memory memory) (name : String) {resolved : Resolved}
    (hResolved : reach.Inside resolved) : Finishes reach (Run.remember memory name resolved) := by
  refine (remembered? h name).bind fun found hFound => ?_
  cases found with
  | some earlier => exact pure hFound.of_some
  | none =>
      intro passes store hStore
      refine ⟨hResolved, hStore.builtins, hStore.bindings, hStore.parents, hStore.newFrames,
        fun other entries key found hOther hEntries hKey => ?_, fun other hOther => ?_⟩
      · rw [Array.getElem?_modify] at hEntries
        split at hEntries
        · obtain ⟨before, hBefore, rfl⟩ := Option.map_eq_some_iff.1 hEntries
          by_cases hSame : key = name
          · rw [hSame, Entries.find?_insert_same] at hKey
            rwa [← Option.some.inj hKey]
          · rw [Entries.find?_insert_other hSame] at hKey
            exact hStore.memories other before key found hOther hBefore hKey
        · exact hStore.memories other entries key found hOther hEntries hKey
      · exact hStore.newMemories other (by simpa using hOther)

end Run.Finishes

end Stencil
