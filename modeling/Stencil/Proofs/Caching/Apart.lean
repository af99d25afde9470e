import Stencil.Proofs.Ensuring
import Stencil.Proofs.Screens.Calls
import Stencil.Proofs.Screens.Stores

/-!
# Runs apart from a counter

A library remembers what names have led to, and counts the templates that it compiles. Libraries
that came from one another share a counter, and a memory belongs to libraries with one counter only.
A library may be a global of another one, so code of the one may look names up in the other; but
what does so with libraries of other counters leaves the memories and the count of this one as they
are.

`Screen.apart` tells the values in which every library has another counter than a given one, and a
memory out of a set that is known. `Run.StaysApart` says that a run from a store of such values
leaves such a store, with memories added to the set, and has spared all else. When no counter is
given, any library may be there, and what is left is that a memory keeps what it holds, and that no
library has a memory that is not there.

## Main results

* `Run.staysApart_rules`: the steps of a run stay apart.
* `Store.EndsApart.perform`: what has become of the store when a run is carried out.
-/

namespace Stencil

/-! ## Memories and counts -/

namespace Store

/-- What a memory holds. -/
def entries (store : Store) (memory : Nat) : Entries Resolved := store.caches[memory]?.getD []

/-- The count of a counter. -/
def total (store : Store) (counter : Nat) : Nat := store.counters[counter]?.getD 0

/-- What a library with this memory remembers under the name. -/
def kept? (store : Store) (memory : Option Nat) (name : String) : Option Resolved :=
  memory.bind fun memory => Entries.find? name (store.entries memory)

/-- The store in which the memory, if there is one, holds what the name has led to. -/
def keep (store : Store) (memory : Option Nat) (name : String) (resolved : Resolved) : Store :=
  match memory with
  | some memory =>
      { store with caches := store.caches.modify memory (Entries.insert name resolved) }
  | none => store

/-- The store with one memory more. -/
def withMemory (store : Store) : Store := { store with caches := store.caches.push [] }

variable {store : Store} {name key : String} {resolved : Resolved} {m memory : Nat}

theorem kept?_of_mem {memory : Option Nat} (h : m ∈ memory) (name : String) :
    store.kept? memory name = Entries.find? name (store.entries m) := by
  rw [Option.mem_def.1 h]
  rfl

/-- A memory that is not there holds nothing. -/
theorem entries_of_size_le (h : store.caches.size ≤ m) : store.entries m = [] := by
  rw [entries, Array.getElem?_eq_none h]
  rfl

theorem size_keep (memory : Option Nat) :
    (store.keep memory name resolved).caches.size = store.caches.size := by
  cases memory with
  | none => rfl
  | some memory => exact Array.size_modify

theorem entries_keep_same (h : memory < store.caches.size) :
    (store.keep (some memory) name resolved).entries memory =
      Entries.insert name resolved (store.entries memory) := by
  rw [keep, entries, entries, Array.getElem?_modify, if_pos rfl, Array.getElem?_eq_getElem h]
  rfl

theorem entries_keep_other {memory : Option Nat} (h : m ∉ memory) :
    (store.keep memory name resolved).entries m = store.entries m := by
  cases memory with
  | none => rfl
  | some memory =>
      rw [keep, entries, entries, Array.getElem?_modify,
        if_neg fun hSame => h (Option.mem_some.2 hSame)]

/-- What a name leads to is added where it was not remembered, so nothing is lost. -/
theorem find?_entries_keep {memory : Option Nat} (hNone : store.kept? memory name = none)
    {found : Resolved} (hFound : Entries.find? key (store.entries m) = some found) :
    Entries.find? key ((store.keep memory name resolved).entries m) = some found := by
  by_cases hMemory : m ∈ memory
  · have hOther : key ≠ name := by
      rintro rfl
      rw [kept?_of_mem hMemory, hFound] at hNone
      cases hNone
    by_cases hThere : m < store.caches.size
    · rw [Option.mem_def.1 hMemory, entries_keep_same hThere, Entries.find?_insert_other hOther,
        hFound]
    · rw [entries_of_size_le (Nat.le_of_not_lt hThere)] at hFound
      cases hFound
  · rw [entries_keep_other hMemory, hFound]

theorem entries_withMemory (store : Store) (m : Nat) :
    store.withMemory.entries m = store.entries m := by
  show ((store.caches.push [])[m]?).getD [] = _
  rw [Array.getElem?_push]
  split
  · rename_i hLast
    exact (entries_of_size_le (Nat.le_of_eq hLast.symm)).symm
  · rfl

theorem size_withMemory (store : Store) :
    store.withMemory.caches.size = store.caches.size + 1 := Array.size_push ..

end Store

/-- Looking a name up in a memory changes nothing. -/
theorem remembered?_apply (memory : Nat) (name : String) (setting : Setting) (store : Store) :
    Run.remembered? memory name setting store = .ok (store.kept? (some memory) name) store := by
  have hKept : (store.caches[memory]?).bind (Entries.find? name) =
      store.kept? (some memory) name := by
    show _ = Entries.find? name (store.caches[memory]?.getD [])
    cases store.caches[memory]? <;> rfl
  rw [← hKept]
  rfl

/-- What is remembered stays; what is not is kept from now on. -/
theorem remember_apply (memory : Nat) (name : String) (resolved : Resolved) (setting : Setting)
    (store : Store) : Run.remember memory name resolved setting store =
      match store.kept? (some memory) name with
      | some earlier => .ok earlier store
      | none => .ok resolved (store.keep (some memory) name resolved) := by
  rw [Run.remember, Run.Preserves.bind_apply, remembered?_apply]
  cases store.kept? (some memory) name <;> rfl

/-! ## What stays apart -/

/-- Values may hold any function, but only libraries with another counter, if one is given, and with
one of these memories, if they have one. -/
def Screen.apart (counter : Option Nat) (others : Nat → Prop) : Screen where
  admits _ _ := True
  serves _ cache other := other ∉ counter ∧ ∀ memory ∈ cache, others memory

/-- What was apart stays apart when more memories are known. -/
theorem Screen.apart_mono {counter : Option Nat} {others more : Nat → Prop} (h : others ≤ more) :
    Screen.apart counter others ≤ Screen.apart counter more :=
  ⟨fun _ _ hBody => hBody, fun _ _ _ hServes =>
    ⟨hServes.1, fun memory hMemory => h memory (hServes.2 memory hMemory)⟩⟩

/-- All names may be looked up in all frames. As a run goes on, more memories are known. -/
def View.apart (counter : Option Nat) : View (Nat → Prop) where
  screen := .apart counter
  knows _ _ := True
  sees _ _ _ := True
  screen_mono := Screen.apart_mono
  knows_mono _ h := h
  sees_mono _ _ h := h

theorem View.covers_apart {counter : Option Nat} {others : Nat → Prop} {frame : FrameId}
    {names : List String} : (View.apart counter).Covers others frame names :=
  ⟨trivial, fun _ _ => trivial⟩

namespace Store

/-- All variables are apart, and so is all that these memories hold. The memories are there. -/
structure Apart (counter : Option Nat) (others : Nat → Prop) (store : Store) : Prop where
  bindings : Store.Respects (.apart counter others) (fun _ _ => False) { store with caches := #[] }
  there : ∀ memory, others memory → memory < store.caches.size
  memories : ∀ memory name resolved, others memory →
    Entries.find? name (store.entries memory) = some resolved →
    (Screen.apart counter others).Passes resolved

/-- No memory has lost anything, and the memories that were there, but for these, and the count are
as they were. The memories that are known now are these, and some that are new. -/
structure Spares (counter : Option Nat) (others more : Nat → Prop) (before after : Store) :
    Prop where
  le : others ≤ more
  size : before.caches.size ≤ after.caches.size
  kept : ∀ memory name resolved, Entries.find? name (before.entries memory) = some resolved →
    Entries.find? name (after.entries memory) = some resolved
  own : ∀ memory < before.caches.size, ¬ others memory →
    ¬ more memory ∧ after.entries memory = before.entries memory
  count : ∀ c ∈ counter, after.counters[c]? = before.counters[c]?

section Sparing

variable {counter : Option Nat} {others more most : Nat → Prop} {before after last : Store}

/-- A change of the frames and the marks alone. -/
theorem Spares.of_frames (hCaches : after.caches = before.caches)
    (hCounters : after.counters = before.counters) :
    before.Spares counter others others after where
  le := le_rfl
  size := Nat.le_of_eq (by rw [hCaches])
  kept _ _ _ hFound := by rwa [entries, hCaches]
  own _ _ hOther := ⟨hOther, by rw [entries, hCaches, entries]⟩
  count _ _ := by rw [hCounters]

theorem Spares.refl (counter : Option Nat) (others : Nat → Prop) (store : Store) :
    store.Spares counter others others store := .of_frames rfl rfl

theorem Spares.trans (h : before.Spares counter others more after)
    (h' : after.Spares counter more most last) : before.Spares counter others most last where
  le := h.le.trans h'.le
  size := Nat.le_trans h.size h'.size
  kept memory name resolved hFound := h'.kept memory name resolved (h.kept _ _ _ hFound)
  own memory hThere hOther := by
    obtain ⟨hMore, hSame⟩ := h.own memory hThere hOther
    obtain ⟨hMost, hSame'⟩ := h'.own memory (Nat.lt_of_lt_of_le hThere h.size) hMore
    exact ⟨hMost, hSame'.trans hSame⟩
  count c hc := (h'.count c hc).trans (h.count c hc)

variable {store : Store}

/-- Other frames and marks, in which all variables are apart. -/
theorem Apart.of_frames (h : store.Apart counter others) {after : Store}
    (hCaches : after.caches = store.caches)
    (hVariables : Store.Respects (.apart counter others) (fun _ _ => False)
      { after with caches := #[] }) : after.Apart counter others where
  bindings := hVariables
  there memory hOther := by rw [hCaches]; exact h.there memory hOther
  memories memory name resolved hOther hFound := by
    rw [entries, hCaches] at hFound
    exact h.memories memory name resolved hOther hFound

/-- A new memory may be known or not. -/
theorem Apart.withMemory (h : store.Apart counter others) :
    store.withMemory.Apart counter others where
  bindings := h.bindings
  there memory hOther := by
    rw [size_withMemory]
    exact Nat.lt_succ_of_lt (h.there memory hOther)
  memories memory name resolved hOther hFound := by
    rw [entries_withMemory] at hFound
    exact h.memories memory name resolved hOther hFound

/-- Nothing else is done, whether the new memory is known or not. -/
theorem Spares.ofMemory (counter : Option Nat) (hLe : others ≤ more)
    (hOwn : ∀ memory < store.caches.size, ¬ others memory → ¬ more memory) :
    store.Spares counter others more store.withMemory where
  le := hLe
  size := by rw [size_withMemory]; exact Nat.le_succ _
  kept _ _ _ hFound := by rwa [entries_withMemory]
  own memory hThere hOther := ⟨hOwn memory hThere hOther, entries_withMemory store memory⟩
  count _ _ := rfl

theorem Spares.withMemory (counter : Option Nat) (others : Nat → Prop) (store : Store) :
    store.Spares counter others others store.withMemory :=
  .ofMemory counter le_rfl fun _ _ hOther => hOther

theorem Spares.withKnown (counter : Option Nat) (others : Nat → Prop) (store : Store) :
    store.Spares counter others (fun memory => others memory ∨ memory = store.caches.size)
      store.withMemory :=
  .ofMemory counter (fun _ => Or.inl) fun _ hThere hOther hMore =>
    hMore.elim hOther (Nat.ne_of_lt hThere)

theorem Apart.withKnown (h : store.Apart counter others) :
    store.withMemory.Apart counter fun memory => others memory ∨ memory = store.caches.size where
  bindings := h.bindings.mono (Screen.apart_mono fun _ => Or.inl)
  there memory hMore := by
    rw [size_withMemory]
    exact hMore.elim (fun hOther => Nat.lt_succ_of_lt (h.there memory hOther))
      fun hSame => hSame ▸ Nat.lt_succ_self _
  memories memory name resolved hMore hFound := by
    rw [entries_withMemory] at hFound
    rcases hMore with hOther | rfl
    · exact (h.memories memory name resolved hOther hFound).mono (Screen.apart_mono fun _ => Or.inl)
    · rw [entries_of_size_le (Nat.le_refl _)] at hFound
      cases hFound

/-- One of the memories holds one more thing that is apart. -/
theorem Apart.keep (h : store.Apart counter others) {memory : Nat} {name : String}
    {resolved : Resolved} (hResolved : (Screen.apart counter others).Passes resolved) :
    (store.keep (some memory) name resolved).Apart counter others where
  bindings := h.bindings
  there other hOther := by rw [size_keep]; exact h.there other hOther
  memories other key found hOther hFound := by
    by_cases hSame : other ∈ some memory
    · obtain rfl := Option.mem_some.1 hSame
      rw [entries_keep_same (h.there _ hOther)] at hFound
      by_cases hKey : key = name
      · rw [hKey, Entries.find?_insert_same] at hFound
        rwa [← Option.some.inj hFound]
      · rw [Entries.find?_insert_other hKey] at hFound
        exact h.memories _ key found hOther hFound
    · rw [entries_keep_other hSame] at hFound
      exact h.memories other key found hOther hFound

theorem Spares.keep {memory : Nat} (hMemory : others memory) {name : String}
    (hNone : store.kept? (some memory) name = none) (resolved : Resolved) :
    store.Spares counter others others (store.keep (some memory) name resolved) where
  le := le_rfl
  size := Nat.le_of_eq (size_keep _).symm
  kept _ _ _ hFound := find?_entries_keep hNone hFound
  own _ _ hOther :=
    ⟨hOther, entries_keep_other fun hSame => hOther (Option.mem_some.1 hSame ▸ hMemory)⟩
  count _ _ := rfl

/-- Which counter the libraries have may be left open. -/
theorem Apart.forget (h : store.Apart counter others) : store.Apart none others :=
  have hLe : Screen.apart counter others ≤ Screen.apart none others :=
    ⟨fun _ _ hBody => hBody, fun _ _ _ hServes => ⟨Option.not_mem_none _, hServes.2⟩⟩
  ⟨h.bindings.mono hLe, h.there, fun memory name resolved hOther hFound =>
    (h.memories memory name resolved hOther hFound).mono hLe⟩

/-- At the start nothing is there but the built-in functions. -/
theorem Apart.initial (counter : Option Nat) (others : Nat → Prop)
    (h : ∀ memory, ¬ others memory) : Store.initial.Apart counter others where
  bindings := Store.Respects.initial
  there memory hOther := absurd hOther (h memory)
  memories memory _ _ hOther _ := absurd hOther (h memory)

end Sparing

/-- The store after a run is apart, with more memories known, and so is the result, if there is one.
The run has spared all else. -/
def EndsApart (counter : Option Nat) (others : Nat → Prop) (before : Store) {α : Type}
    [Renamable α] :
    EStateM.Result Stop Store α → Prop
  | .ok a after => ∃ more, before.Spares counter others more after ∧ after.Apart counter more ∧
      (Screen.apart counter more).Passes a
  | .error _ after => ∃ more, before.Spares counter others more after ∧ after.Apart counter more

/-- What has become of the store when the run is carried out. -/
theorem EndsApart.perform {counter : Option Nat} {others : Nat → Prop} {α : Type} [Renamable α]
    {action : Run α} {setting : Setting} {store : Store}
    (h : store.EndsApart counter others (action setting store)) :
    ∃ more, store.Spares counter others more (action.perform setting store).2 ∧
      (action.perform setting store).2.Apart counter more ∧
      ∀ a, (action.perform setting store).1 = .ok a → (Screen.apart counter more).Passes a := by
  cases hAction : action setting store with
  | ok a after =>
      rw [hAction] at h
      obtain ⟨more, hSpares, hApart, ha⟩ := h
      rw [Run.perform_of_eq_ok hAction]
      exact ⟨more, hSpares, hApart, fun _ hSame => Except.ok.inj hSame ▸ ha⟩
  | error stop after =>
      rw [hAction] at h
      obtain ⟨more, hSpares, hApart⟩ := h
      rw [Run.perform_of_eq_error hAction]
      exact ⟨more, hSpares, hApart, fun _ hSame => by cases hSame⟩

/-- After a step that has spared the rest, what follows ends apart. -/
theorem EndsApart.after {counter : Option Nat} {others more : Nat → Prop} {before middle : Store}
    {α : Type} [Renamable α] {result : EStateM.Result Stop Store α}
    (hResult : middle.EndsApart counter more result)
    (h : before.Spares counter others more middle) : before.EndsApart counter others result := by
  cases result with
  | ok a after =>
      obtain ⟨most, hSpares, hApart, ha⟩ := hResult
      exact ⟨most, h.trans hSpares, hApart, ha⟩
  | error cause after =>
      obtain ⟨most, hSpares, hApart⟩ := hResult
      exact ⟨most, h.trans hSpares, hApart⟩

end Store

/-! ## Runs -/

namespace Run

/-- From stores that are apart, the run ends apart. -/
def StaysApart (counter : Option Nat) (others : Nat → Prop) {α : Type} [Renamable α]
    (action : Run α) : Prop :=
  ∀ (setting : Setting) (store : Store), store.Apart counter others →
    store.EndsApart counter others (action setting store)

namespace StaysApart

variable {counter : Option Nat} {others : Nat → Prop} {α β : Type} [Renamable α] [Renamable β]

theorem pure {a : α} (h : (Screen.apart counter others).Passes a) :
    StaysApart counter others (Pure.pure a : Run α) :=
  fun _ store hStore => ⟨others, .refl counter others store, hStore, h⟩

theorem stop (cause : Stop) : StaysApart counter others (throw cause : Run α) :=
  fun _ store hStore => ⟨others, .refl counter others store, hStore⟩

/-- Steps that stay apart one after another stay apart. -/
theorem bind {action : Run α} {next : α → Run β} (h : StaysApart counter others action)
    (hNext : ∀ more, others ≤ more → ∀ a, (Screen.apart counter more).Passes a →
      StaysApart counter more (next a)) : StaysApart counter others (action >>= next) := by
  intro setting store hStore
  have hFirst := h setting store hStore
  rw [Preserves.bind_apply]
  cases hAction : action setting store with
  | error cause after =>
      rw [hAction] at hFirst
      exact hFirst
  | ok a after =>
      rw [hAction] at hFirst
      obtain ⟨more, hSpares, hApart, ha⟩ := hFirst
      exact (hNext more hSpares.le a ha setting after hApart).after hSpares

/-- A step that changes frames and marks alone. -/
theorem modifyGet {f : Store → α × Store} (h : ∀ store, store.Apart counter others →
      (Screen.apart counter others).Passes (f store).1 ∧ (f store).2.Apart counter others ∧
        (f store).2.caches = store.caches ∧ (f store).2.counters = store.counters) :
    StaysApart counter others (MonadStateOf.modifyGet f : Run α) := by
  intro setting store hStore
  obtain ⟨ha, hApart, hCaches, hCounters⟩ := h store hStore
  exact ⟨others, .of_frames hCaches hCounters, hApart, ha⟩

theorem settle {value : Value} (h : (Screen.apart counter others).Passes value) :
    StaysApart counter others (Run.settle value) :=
  modifyGet fun store hStore => ⟨h.settle store.nextMark,
    hStore.of_frames rfl (hStore.bindings.counts _ store.counters), rfl, rfl⟩

theorem lookup? (frame : FrameId) (name : String) :
    StaysApart counter others (Run.lookup? frame name) := by
  intro setting store hStore
  refine ⟨others, .refl counter others store, hStore, ?_⟩
  exact hStore.bindings.lookupWithin (fun _ => True) (fun _ _ hHidden => hHidden)
    (fun _ _ _ _ _ _ => trivial) frame frame trivial

theorem defineAsIs (frame : FrameId) (name : String) {value : Value}
    (h : (Screen.apart counter others).Passes value) :
    StaysApart counter others (Run.defineAsIs frame name value) :=
  modifyGet fun _ hStore =>
    ⟨rfl, hStore.of_frames rfl (hStore.bindings.define frame name h), rfl, rfl⟩

/-- A new memory is known from then on, so a library may have it. -/
theorem newCache {next : Nat → Run α}
    (hNext : ∀ more, others ≤ more → ∀ memory, more memory →
      StaysApart counter more (next memory)) :
    StaysApart counter others (Run.newCache >>= next) := by
  intro setting store hStore
  exact (hNext (fun memory => others memory ∨ memory = store.caches.size) (fun _ => Or.inl)
    store.caches.size (Or.inr rfl) setting store.withMemory hStore.withKnown).after
      (.withKnown counter others store)

theorem remembered? {memory : Nat} (hMemory : others memory) (name : String) :
    StaysApart counter others (Run.remembered? memory name) := by
  intro setting store hStore
  rw [remembered?_apply]
  refine ⟨others, .refl counter others store, hStore, ?_⟩
  cases hKept : store.kept? (some memory) name with
  | none => exact .none
  | some resolved => exact (hStore.memories memory name resolved hMemory hKept).some

theorem remember {memory : Nat} (hMemory : others memory) {name : String} {resolved : Resolved}
    (h : (Screen.apart counter others).Passes resolved) :
    StaysApart counter others (Run.remember memory name resolved) := by
  intro setting store hStore
  rw [remember_apply]
  cases hKept : store.kept? (some memory) name with
  | none => exact ⟨others, .keep hMemory hKept resolved, hStore.keep h, h⟩
  | some earlier =>
      exact ⟨others, .refl counter others store, hStore,
        hStore.memories memory name earlier hMemory hKept⟩

theorem count {c : Nat} (h : c ∉ counter) : StaysApart counter others (Run.count c) := by
  intro setting store hStore
  refine ⟨others, ⟨le_rfl, Nat.le_refl _, fun _ _ _ hFound => hFound, fun _ _ hOther =>
    ⟨hOther, rfl⟩, fun own hOwn => ?_⟩, hStore.of_frames rfl (hStore.bindings.counts _ _), rfl⟩
  show (store.counters.modify c (· + 1))[own]? = _
  have hOther : c ≠ own := fun hSame => h (hSame ▸ hOwn)
  rw [Array.getElem?_modify, if_neg hOther]

end StaysApart

open StaysApart in
/-- The steps of a run stay apart. -/
theorem staysApart_rules (counter : Option Nat) :
    (View.apart counter).CallRules fun others _ _ action => StaysApart counter others action where
  pure h := StaysApart.pure h
  fail cause := stop (.failure cause)
  bind h hNext := h.bind hNext
  settle h := StaysApart.settle h
  lookup? _ _ := StaysApart.lookup? _ _
  unfinished := stop .unfinished
  passes h := fun setting store hStore => h setting.passes setting store hStore
  define frame name h := (StaysApart.settle h).bind fun _ _ _ hValue =>
    StaysApart.defineAsIs frame name hValue
  defineFunction frame name h := StaysApart.defineAsIs frame name h
  admits := iff_of_true trivial View.covers_apart
  inNewFrame {_ _ _ parent _} _ hNext := StaysApart.bind
    (StaysApart.modifyGet fun _ hStore =>
      ⟨rfl, hStore.of_frames rfl (hStore.bindings.child parent), rfl, rfl⟩)
    fun _ hLe frame _ => hNext _ hLe frame fun _ _ => View.covers_apart
  newCache hNext := StaysApart.newCache fun more hLe memory hMemory =>
    hNext more hLe memory fun _ _ _ hServes =>
      ⟨hServes.1, fun _ hSame => Option.mem_some.1 hSame ▸ hMemory⟩
  remembered? name hServes := StaysApart.remembered? (hServes.2 _ rfl) name
  remember hServes _ h := StaysApart.remember (hServes.2 _ rfl) h
  count hServes := StaysApart.count hServes.1
  locate {_ _ _ root _ _ name _} hServes hNext := by
    intro setting store hStore
    show Store.EndsApart counter _ store
      ((Run.ofResult (Renderer.locate setting.files root name) >>= _) setting store)
    cases Renderer.locate setting.files root name with
    | error cause => exact ⟨_, .refl counter _ store, hStore⟩
    | ok located => exact hNext located (fun _ _ => hServes) setting store hStore
  builtins _ := View.covers_apart

end Run

end Stencil
