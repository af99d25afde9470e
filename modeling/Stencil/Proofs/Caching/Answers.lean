import Stencil.Proofs.Caching.Apart

/-!
# What a name of a library leads to

A name that a library remembers leads where it has led before. Otherwise it leads to what stands in
the files at that moment, and if it leads anywhere the library remembers that, where it has a
memory.

When no global leads to a library with the counter of this one, nothing else happens to what such
libraries remember, and to the count. `Renderer.Answers` tells these cases apart, and says for each
what becomes of the store.

A memory that is not there yet holds nothing, like a new one. So opening a memory for a directory is
no change to what the memories hold.

## Main results

* `Renderer.resolve_apply`: what looking a name up does.
* `Renderer.shows_of_error`, `Renderer.shows_of_cache_none`: a failure is what the files show, and
  so is every answer of a library without a memory.
* `Renderer.exists_answers`: what looking a name up does, and nothing else.
-/

namespace Stencil

namespace Store

/-- The store with a new memory for a directory, if its library has one. -/
def openMemory (store : Store) : Option Nat → Store
  | some _ => store.withMemory
  | none => store

/-- The store in which what a name has led to is counted, if it is a template. -/
def charge (store : Store) (counter : Nat) : Resolved → Store
  | .template _ => { store with counters := store.counters.modify counter (· + 1) }
  | .directory _ => store

end Store

namespace Renderer

/-- The renderer of a directory. It has a memory of its own if the library has one. -/
def below (renderer : Renderer Value) (path : String) (fresh : Nat) : Renderer Value :=
  { renderer with library :=
    { renderer.library with root := path, cache := renderer.library.cache.map fun _ => fresh } }

/-- The answer is what stands in the files: no such name, a directory, or the text of a file, which
is compiled if it is well-formed. -/
def Shows (renderer : Renderer Value) (name : String) (setting : Setting) (store : Store)
    (answer : Except Stop Resolved) : Prop :=
  match locate setting.files renderer.library.root name with
  | .error cause => answer = .error (.failure cause)
  | .ok (.directory path) => answer = .ok (.directory (renderer.below path store.caches.size))
  | .ok (.template text fileName) =>
      match Program.read (normalizeText text.toList) with
      | .error fault => answer = .error (.failure (.malformed fileName fault))
      | .ok program => answer = ((Resolved.template <$> Template.prepare .standard fileName program
          renderer.library.globals (renderer.library.escape.getD (.ofName fileName))).perform
            setting store).1

/-! ## Looking up in the files -/

section Resolving

variable {renderer : Renderer Value} {name : String} {setting : Setting} {before after : Store}
  {resolved : Resolved} {stop : Stop}

theorem enter_directory (services : Services) (renderer : Renderer Value) (path : String)
    (setting : Setting) (store : Store) :
    renderer.enter services (.directory path) setting store =
      .ok (.directory (renderer.below path store.caches.size))
        (store.openMemory renderer.library.cache) := by
  unfold Renderer.enter Renderer.below Store.openMemory
  cases renderer.library.cache <;> rfl

/-- What is looked up in the files is answered as they show it. -/
theorem shows_load (renderer : Renderer Value) (name : String) (setting : Setting)
    (store : Store) : renderer.Shows name setting store
      ((renderer.load .standard name).perform setting store).1 := by
  rw [Shows, Run.perform, ReaderT.run, EStateM.run, load_apply]
  cases locate setting.files renderer.library.root name with
  | error cause => rfl
  | ok located =>
      cases located with
      | directory path => simp only [enter_directory]
      | template text fileName =>
          simp only [enter, Run.perform, ReaderT.run, EStateM.run, map_eq_pure_bind,
            Run.Preserves.bind_apply, Template.compile_eq]
          cases Program.read (normalizeText text.toList) with
          | error fault => rfl
          | ok program =>
              simp only
              cases Template.prepare .standard fileName program renderer.library.globals
                (renderer.library.escape.getD (.ofName fileName)) setting store <;> rfl

/-! ## Remembering -/

/-- What is remembered is the answer. What is not is looked up in the files, and kept unless it is
remembered by then. -/
theorem resolve_apply (services : Services) (renderer : Renderer Value) (name : String)
    (setting : Setting) (before : Store) : renderer.resolve services name setting before =
      match before.kept? renderer.library.cache name with
      | some resolved => .ok resolved before
      | none =>
          match renderer.load services name setting before with
          | .error stop after => .error stop after
          | .ok resolved after =>
              match after.kept? renderer.library.cache name with
              | some earlier => .ok earlier after
              | none => .ok resolved (after.keep renderer.library.cache name resolved) := by
  unfold Renderer.resolve
  cases renderer.library.cache with
  | none =>
      show renderer.load services name setting before =
        match renderer.load services name setting before with
        | .error stop after => .error stop after
        | .ok resolved after => .ok resolved after
      cases renderer.load services name setting before <;> rfl
  | some memory =>
      simp only
      rw [Run.bind_of_eq_ok (remembered?_apply memory name setting before)]
      cases before.kept? (some memory) name with
      | some resolved => rfl
      | none =>
          simp only
          rw [Run.Preserves.bind_apply]
          cases renderer.load services name setting before with
          | error stop after => rfl
          | ok resolved after => exact remember_apply memory name resolved setting after

theorem resolve_of_kept {services : Services}
    (h : before.kept? renderer.library.cache name = some resolved) :
    renderer.resolve services name setting before = .ok resolved before := by
  rw [resolve_apply, h]

/-- What is not remembered, and is not remembered in between, is kept. -/
theorem resolve_of_load {services : Services}
    (h : before.kept? renderer.library.cache name = none)
    (hLoad : renderer.load services name setting before = .ok resolved after)
    (hAfter : after.kept? renderer.library.cache name = none) :
    renderer.resolve services name setting before =
      .ok resolved (after.keep renderer.library.cache name resolved) := by
  rw [resolve_apply, h]
  simp only [hLoad, hAfter]

/-- A failure is what the files show. -/
theorem shows_of_error
    (h : ((renderer.resolve .standard name).perform setting before).1 = .error stop) :
    renderer.Shows name setting before (.error stop) := by
  have hResolve := Run.eq_error_of_perform h
  rw [resolve_apply] at hResolve
  have hShows := shows_load renderer name setting before
  split at hResolve
  · cases hResolve
  · cases hLoad : renderer.load .standard name setting before with
    | error cause middle =>
        rw [hLoad] at hResolve
        rw [Run.perform_of_eq_error hLoad] at hShows
        cases hResolve
        exact hShows
    | ok found middle =>
        rw [hLoad] at hResolve
        simp only at hResolve
        split at hResolve <;> cases hResolve

/-- Without a memory, every answer is what the files show. -/
theorem shows_of_cache_none (h : renderer.library.cache = none) : renderer.Shows name setting before
    ((renderer.resolve .standard name).perform setting before).1 := by
  rw [Renderer.resolve, h]
  exact shows_load renderer name setting before

/-- What a name has led to is remembered. -/
theorem find?_of_resolve {services : Services} {memory : Nat}
    (h : renderer.resolve services name setting before = .ok resolved after)
    (hMemory : memory ∈ renderer.library.cache) (hThere : memory < after.caches.size) :
    Entries.find? name (after.entries memory) = some resolved := by
  rw [resolve_apply] at h
  split at h
  · rename_i hKept
    cases h
    rw [← Store.kept?_of_mem hMemory, hKept]
  · cases hLoad : renderer.load services name setting before with
    | error cause middle => rw [hLoad] at h; cases h
    | ok found middle =>
        rw [hLoad] at h
        simp only at h
        split at h
        · rename_i hKept
          cases h
          rw [← Store.kept?_of_mem hMemory, hKept]
        · cases h
          rw [Store.size_keep] at hThere
          rw [Option.mem_def.1 hMemory, Store.entries_keep_same hThere, Entries.find?_insert_same]

end Resolving

end Renderer

/-- Is it a template? -/
def Resolved.isTemplate : Resolved → Bool
  | template _ => true
  | directory _ => false

/-! ## Memories that are its own -/

/-- The library has this counter. Its globals lead to other libraries only, and if it has a memory,
that is there and is not one of theirs. -/
structure Library.Belongs (library : Library Value) (counter : Nat) (others : Nat → Prop)
    (store : Store) : Prop where
  globals : (Screen.apart (some counter) others).Passes library.globals
  counter : library.counter = counter
  memory : ∀ memory ∈ library.cache, memory < store.caches.size ∧ ¬ others memory

/-- What belongs to a counter does so when others have been at work. -/
theorem Library.Belongs.spared {library : Library Value} {counter : Nat} {others more : Nat → Prop}
    {before after : Store} (h : library.Belongs counter others before)
    (hSpares : before.Spares (some counter) others more after) :
    library.Belongs counter more after where
  counter := h.counter
  globals := h.globals.mono (Screen.apart_mono hSpares.le)
  memory memory hMemory := by
    obtain ⟨hThere, hOther⟩ := h.memory memory hMemory
    exact ⟨Nat.lt_of_lt_of_le hThere hSpares.size, (hSpares.own memory hThere hOther).1⟩

namespace Renderer

/-- What is found is a template, or the renderer of a directory. To find a directory, nothing is
done but that a memory is opened. -/
def Enters (renderer : Renderer Value) (others more : Nat → Prop) (before middle : Store) :
    Resolved → Prop
  | .template _ => True
  | .directory child => more = others ∧ middle = before.openMemory renderer.library.cache ∧
      ∃ path, child = renderer.below path before.caches.size

/-- What looking a name up does: which memories other libraries have from then on, the store, and
the answer. -/
inductive Answers (renderer : Renderer Value) (name : String) (setting : Setting)
    (others : Nat → Prop) (before : Store) : (Nat → Prop) → Store → Except Stop Resolved → Prop
  /-- The library remembers the name. -/
  | remembered {resolved : Resolved} :
      before.kept? renderer.library.cache name = some resolved →
      Answers renderer name setting others before others before (.ok resolved)
  /-- There is no answer. -/
  | failed {stop : Stop} {more : Nat → Prop} {after : Store} :
      before.kept? renderer.library.cache name = none →
      renderer.Shows name setting before (.error stop) →
      before.Spares (some renderer.library.counter) others more after →
      after.Apart (some renderer.library.counter) more →
      Answers renderer name setting others before more after (.error stop)
  /-- Something was found, is counted if it is a template, and is kept. -/
  | found {resolved : Resolved} {more : Nat → Prop} {middle : Store} :
      before.kept? renderer.library.cache name = none →
      renderer.Shows name setting before (.ok resolved) →
      before.Spares (some renderer.library.counter) others more middle →
      middle.Apart (some renderer.library.counter) more →
      renderer.Enters others more before middle resolved →
      Answers renderer name setting others before more
        ((middle.charge renderer.library.counter resolved).keep renderer.library.cache name
          resolved)
        (.ok resolved)

end Renderer

section Answering

variable {renderer : Renderer Value} {name key : String} {setting : Setting}
  {others more : Nat → Prop} {before after store : Store} {found : Resolved}
  {answer : Except Stop Resolved} {counter m : Nat}

@[simp] theorem entries_charge (store : Store) (counter : Nat) (resolved : Resolved) (m : Nat) :
    (store.charge counter resolved).entries m = store.entries m := by
  cases resolved <;> rfl

@[simp] theorem kept?_charge (store : Store) (counter : Nat) (resolved : Resolved)
    (memory : Option Nat) (name : String) :
    (store.charge counter resolved).kept? memory name = store.kept? memory name := by
  cases resolved <;> rfl

@[simp] theorem caches_charge (store : Store) (counter : Nat) (resolved : Resolved) :
    (store.charge counter resolved).caches = store.caches := by
  cases resolved <;> rfl

@[simp] theorem counters_keep (store : Store) (memory : Option Nat) (resolved : Resolved) :
    (store.keep memory name resolved).counters = store.counters := by
  cases memory <;> rfl

theorem Store.entries_openMemory (store : Store) (memory : Option Nat) (m : Nat) :
    (store.openMemory memory).entries m = store.entries m := by
  cases memory with
  | none => rfl
  | some memory => exact entries_withMemory store m

theorem Store.Apart.openMemory {counter : Option Nat} (h : store.Apart counter others)
    (memory : Option Nat) : (store.openMemory memory).Apart counter others := by
  cases memory with
  | none => exact h
  | some memory => exact h.withMemory

theorem Store.Spares.openMemory (counter : Option Nat) (others : Nat → Prop) (store : Store)
    (memory : Option Nat) : store.Spares counter others others (store.openMemory memory) := by
  cases memory with
  | none => exact .refl counter others store
  | some memory => exact .withMemory counter others store

theorem Store.Apart.charge {known : Option Nat} (h : store.Apart known others) (counter : Nat)
    (resolved : Resolved) : (store.charge counter resolved).Apart known others := by
  cases resolved with
  | template content => exact h.of_frames rfl (h.bindings.counts _ _)
  | directory child => exact h

/-- A memory of a library that belongs here may hold anything. -/
theorem Store.Apart.keep_own {known : Option Nat} (h : store.Apart known others)
    {memory : Option Nat} (hOwn : ∀ m ∈ memory, ¬ others m) (name : String) (resolved : Resolved) :
    (store.keep memory name resolved).Apart known others where
  bindings := by
    cases memory <;> exact h.bindings
  there other hOther := by rw [size_keep]; exact h.there other hOther
  memories other key found hOther hFound := by
    rw [entries_keep_other fun hSame => hOwn other hSame hOther] at hFound
    exact h.memories other key found hOther hFound

/-- What others have remembered in between is nothing in a memory that is its own. -/
theorem Store.Spares.kept?_eq (h : before.Spares (some counter) others more after)
    {memory : Option Nat} (hOwn : ∀ m ∈ memory, m < before.caches.size ∧ ¬ others m)
    (name : String) : after.kept? memory name = before.kept? memory name := by
  cases memory with
  | none => rfl
  | some m =>
      obtain ⟨hThere, hOther⟩ := hOwn m rfl
      rw [kept?_of_mem rfl, kept?_of_mem rfl, (h.own m hThere hOther).2]

/-- What is looked up in the files: which memories other libraries have from then on, and a template
is counted. -/
def Renderer.Loads (renderer : Renderer Value) (others : Nat → Prop) (before : Store) :
    EStateM.Result Stop Store Resolved → Prop
  | .ok resolved after => ∃ more middle,
      before.Spares (some renderer.library.counter) others more middle ∧
        middle.Apart (some renderer.library.counter) more ∧
        renderer.Enters others more before middle resolved ∧
        after = middle.charge renderer.library.counter resolved
  | .error _ after => ∃ more, before.Spares (some renderer.library.counter) others more after ∧
      after.Apart (some renderer.library.counter) more

theorem Renderer.loads_load (hBefore : before.Apart (some renderer.library.counter) others)
    (hGlobals : (Screen.apart (some renderer.library.counter) others).Passes
      renderer.library.globals) (name : String) (setting : Setting) :
    renderer.Loads others before (renderer.load .standard name setting before) := by
  rw [load_apply]
  cases locate setting.files renderer.library.root name with
  | error cause => exact ⟨others, .refl _ others before, hBefore⟩
  | ok located =>
      cases located with
      | directory path =>
          simp only [enter_directory]
          exact ⟨others, before.openMemory renderer.library.cache, .openMemory _ others before _,
            hBefore.openMemory _, ⟨rfl, rfl, path, rfl⟩, rfl⟩
      | template text fileName =>
          have rules := Run.staysApart_rules (some renderer.library.counter)
          have hEnds := rules.compile (rules.services callLimit) text fileName hGlobals
            renderer.library.escape setting before hBefore
          simp only [enter]
          rw [Run.Preserves.bind_apply]
          change before.EndsApart _ others (Template.compile .standard _ _ _ _ setting before)
            at hEnds
          cases hCompile : Template.compile .standard text fileName renderer.library.globals
              renderer.library.escape setting before with
          | error stop after =>
              rw [hCompile] at hEnds
              exact hEnds
          | ok content middle =>
              rw [hCompile] at hEnds
              obtain ⟨more, hSpares, hMiddle, -⟩ := hEnds
              exact ⟨more, middle, hSpares, hMiddle, trivial, rfl⟩

/-- What looking a name up does, and nothing else. -/
theorem Renderer.exists_answers (hBefore : before.Apart (some counter) others)
    (hBelongs : renderer.library.Belongs counter others before) (name : String)
    (setting : Setting) : ∃ more, renderer.Answers name setting others before more
      ((renderer.resolve .standard name).perform setting before).2
      ((renderer.resolve .standard name).perform setting before).1 := by
  obtain ⟨hGlobals, rfl, hOwn⟩ := hBelongs
  cases hKept : before.kept? renderer.library.cache name with
  | some resolved =>
      rw [Run.perform_of_eq_ok (resolve_of_kept hKept)]
      exact ⟨others, .remembered hKept⟩
  | none =>
      have hShows := shows_load renderer name setting before
      have hLoads := loads_load hBefore hGlobals name setting
      cases hLoad : renderer.load .standard name setting before with
      | error stop after =>
          rw [Run.perform_of_eq_error hLoad] at hShows
          rw [hLoad] at hLoads
          obtain ⟨more, hSpares, hAfter⟩ := hLoads
          have hResolve : renderer.resolve .standard name setting before = .error stop after := by
            rw [resolve_apply, hKept]
            simp only [hLoad]
          rw [Run.perform_of_eq_error hResolve]
          exact ⟨more, .failed hKept hShows hSpares hAfter⟩
      | ok resolved after =>
          rw [Run.perform_of_eq_ok hLoad] at hShows
          rw [hLoad] at hLoads
          obtain ⟨more, middle, hSpares, hMiddle, hEnters, rfl⟩ := hLoads
          have hStill : (middle.charge renderer.library.counter resolved).kept?
              renderer.library.cache name = none := by
            rw [kept?_charge, hSpares.kept?_eq hOwn, hKept]
          rw [Run.perform_of_eq_ok (resolve_of_load hKept hLoad hStill)]
          exact ⟨more, .found hKept hShows hSpares hMiddle hEnters⟩

/-! ## What becomes of the memories -/

/-- A template is counted once. -/
theorem Store.total_charge (h : counter < store.counters.size) (resolved : Resolved) :
    (store.charge counter resolved).total counter =
      store.total counter + if resolved.isTemplate then 1 else 0 := by
  cases resolved with
  | directory child => rfl
  | template content =>
      show (store.counters.modify counter (· + 1))[counter]?.getD 0 = _
      rw [Store.total, Array.getElem?_modify, if_pos rfl, Array.getElem?_eq_getElem h]
      rfl

theorem Store.size_counters_charge (store : Store) (counter : Nat) (resolved : Resolved) :
    (store.charge counter resolved).counters.size = store.counters.size := by
  cases resolved with
  | directory child => rfl
  | template content => exact Array.size_modify

theorem Store.Spares.total_eq (h : before.Spares (some counter) others more after) :
    after.total counter = before.total counter := by
  rw [total, h.count counter rfl, total]

theorem Store.Spares.hasCounter (h : before.Spares (some counter) others more after)
    (hThere : counter < before.counters.size) : counter < after.counters.size := by
  have hSame := h.count counter rfl
  rw [Array.getElem?_eq_getElem hThere] at hSame
  exact (Array.getElem?_eq_some_iff.1 hSame).1

namespace Renderer.Answers

variable {key : String}

/-- Memories are never taken away. -/
theorem size_le (h : renderer.Answers name setting others before more after answer) :
    before.caches.size ≤ after.caches.size := by
  cases h with
  | remembered _ => exact Nat.le_refl _
  | failed _ _ hSpares _ => exact hSpares.size
  | found _ _ hSpares _ _ => rw [Store.size_keep, caches_charge]; exact hSpares.size

theorem hasCounter (h : renderer.Answers name setting others before more after answer)
    (hThere : renderer.library.counter < before.counters.size) :
    renderer.library.counter < after.counters.size := by
  cases h with
  | remembered _ => exact hThere
  | failed _ _ hSpares _ => exact hSpares.hasCounter hThere
  | found _ _ hSpares _ _ =>
      rw [counters_keep, Store.size_counters_charge]
      exact hSpares.hasCounter hThere

/-- What belongs to the counter does so after the look-up. -/
theorem belongs (h : renderer.Answers name setting others before more after answer)
    {library : Library Value} (hLibrary : library.Belongs renderer.library.counter others before) :
    library.Belongs renderer.library.counter more after := by
  cases h with
  | remembered _ => exact hLibrary
  | failed _ _ hSpares _ => exact hLibrary.spared hSpares
  | found _ _ hSpares _ _ =>
      obtain ⟨hGlobals, hCounter, hMemory⟩ := hLibrary.spared hSpares
      refine ⟨hGlobals, hCounter, fun memory hSome => ?_⟩
      rw [Store.size_keep, caches_charge]
      exact hMemory memory hSome

/-- The other libraries stay apart. -/
theorem apart (h : renderer.Answers name setting others before more after answer)
    (hBefore : before.Apart (some renderer.library.counter) others)
    (hBelongs : renderer.library.Belongs renderer.library.counter others before) :
    after.Apart (some renderer.library.counter) more := by
  cases h with
  | remembered _ => exact hBefore
  | failed _ _ _ hAfter => exact hAfter
  | found _ _ hSpares hMiddle _ =>
      exact (hMiddle.charge _ _).keep_own
        (fun m hMemory => ((hBelongs.spared hSpares).memory m hMemory).2) _ _

/-- What is remembered leads where it has led before, and nothing else happens. -/
theorem eq_of_kept (h : renderer.Answers name setting others before more after answer)
    (hKept : before.kept? renderer.library.cache name = some found) :
    more = others ∧ after = before ∧ answer = .ok found := by
  cases h with
  | remembered hSame =>
      exact ⟨rfl, rfl, congrArg Except.ok (Option.some.inj (hSame.symm.trans hKept))⟩
  | failed hNone _ _ _ => rw [hNone] at hKept; cases hKept
  | found hNone _ _ _ _ => rw [hNone] at hKept; cases hKept

/-- A name that is not remembered leads to what stands in the files. -/
theorem shows_of_kept (h : renderer.Answers name setting others before more after answer)
    (hNone : before.kept? renderer.library.cache name = none) :
    renderer.Shows name setting before answer := by
  cases h with
  | remembered hKept => rw [hNone] at hKept; cases hKept
  | failed _ hShows _ _ => exact hShows
  | found _ hShows _ _ _ => exact hShows

/-- A failure is no change, but to what other libraries remember. -/
theorem spares {stop : Stop}
    (h : renderer.Answers name setting others before more after (.error stop)) :
    before.Spares (some renderer.library.counter) others more after := by
  cases h with
  | failed _ _ hSpares _ => exact hSpares

/-- What was found is remembered, and the memories that are its own hold nothing else that is new.
-/
theorem entries_eq (h : renderer.Answers name setting others before more after (.ok found))
    (hNone : before.kept? renderer.library.cache name = none) (hThere : m < before.caches.size)
    (hOwn : ¬ others m) : after.entries m =
      if m ∈ renderer.library.cache then Entries.insert name found (before.entries m)
      else before.entries m := by
  cases h with
  | remembered hKept => rw [hNone] at hKept; cases hKept
  | @found _ _ middle _ _ hSpares _ _ =>
      have hSame := (hSpares.own m hThere hOwn).2
      by_cases hMemory : m ∈ renderer.library.cache
      · have hStill : m < (middle.charge renderer.library.counter found).caches.size := by
          rw [caches_charge]
          exact Nat.lt_of_lt_of_le hThere hSpares.size
        rw [if_pos hMemory, Option.mem_def.1 hMemory, Store.entries_keep_same hStill,
          entries_charge, hSame]
      · rw [if_neg hMemory, Store.entries_keep_other hMemory, entries_charge, hSame]

/-- What was found is counted if it is a template. -/
theorem total_eq (h : renderer.Answers name setting others before more after (.ok found))
    (hNone : before.kept? renderer.library.cache name = none)
    (hThere : renderer.library.counter < before.counters.size) :
    after.total renderer.library.counter =
      before.total renderer.library.counter + if found.isTemplate then 1 else 0 := by
  cases h with
  | remembered hKept => rw [hNone] at hKept; cases hKept
  | found _ _ hSpares _ _ =>
      rw [Store.total, counters_keep, ← Store.total,
        Store.total_charge (hSpares.hasCounter hThere), hSpares.total_eq]

/-- A directory that was found has a new memory, if it has one. -/
theorem enters {child : Renderer Value}
    (h : renderer.Answers name setting others before more after (.ok (.directory child)))
    (hNone : before.kept? renderer.library.cache name = none) :
    more = others ∧ (∃ path, child = renderer.below path before.caches.size) ∧
      after = (before.openMemory renderer.library.cache).keep renderer.library.cache name
        (.directory child) := by
  cases h with
  | remembered hKept => rw [hNone] at hKept; cases hKept
  | found _ _ _ _ hEnters =>
      obtain ⟨rfl, rfl, hBelow⟩ := hEnters
      exact ⟨rfl, hBelow, rfl⟩

/-- What is remembered in a memory that is its own was remembered before, or it is the answer. -/
theorem of_find? (h : renderer.Answers name setting others before more after answer)
    (hThere : m < before.caches.size) (hOwn : ¬ others m)
    (hFound : Entries.find? key (after.entries m) = some found) :
    Entries.find? key (before.entries m) = some found ∨
      m ∈ renderer.library.cache ∧ key = name ∧ answer = .ok found := by
  cases hKept : before.kept? renderer.library.cache name with
  | some resolved =>
      obtain ⟨-, rfl, -⟩ := h.eq_of_kept hKept
      exact Or.inl hFound
  | none =>
      cases answer with
      | error stop => exact Or.inl ((h.spares.own m hThere hOwn).2 ▸ hFound)
      | ok resolved =>
          rw [h.entries_eq hKept hThere hOwn] at hFound
          split at hFound
          · rename_i hMemory
            by_cases hKey : key = name
            · rw [hKey, Entries.find?_insert_same] at hFound
              exact Or.inr ⟨hMemory, hKey, congrArg Except.ok (Option.some.inj hFound)⟩
            · rw [Entries.find?_insert_other hKey] at hFound
              exact Or.inl hFound
          · exact Or.inl hFound

end Renderer.Answers

end Answering

end Stencil
