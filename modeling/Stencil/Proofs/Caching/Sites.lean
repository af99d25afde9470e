import Mathlib.Algebra.BigOperators.Group.Finset.Basic
import Stencil.Proofs.Caching.Answers

/-!
# Looking names up while files change

A site has files, and renderers that look names up in them: to begin with a renderer and that of its
layout, and later those of the directories that names have led to. Between two look-ups the files
may change in any way. The site keeps a log of what was looked up.

Two things are kept by every act. `Site.Sound` is about any globals: what was looked up is
remembered, so that the first success is the answer from then on. `Site.Accounted` is about globals
that lead to no library with the counter of these renderers: what the renderers remember is what the
log says, and the count is the number of templates that they remember, as long as all of them
remember what they look up.

## Main results

* `Site.Sound.run`, `Site.Accounted.run`: acts, one after another, keep these.
-/

namespace Stencil

/-! ## Sites -/

/-- A name that was looked up: by which renderer, in which files, and what came of it. -/
structure Lookup where
  renderer : Renderer Value
  name : String
  setting : Setting
  before : Store
  after : Store
  answer : Except Stop Resolved

/-- Files and a store, the renderers at hand, and what was looked up so far. -/
structure Site where
  setting : Setting
  store : Store
  renderers : List (Renderer Value)
  log : List Lookup

/-- What can be done on a site. -/
inductive Act where
  /-- Files are written, removed, or changed in any other way. -/
  | change (files : Files)
  /-- One of the renderers at hand looks a name up. -/
  | resolve (place : Nat) (name : String)

/-- The renderer that an answer leads to, if it is one. -/
def reached : Except Stop Resolved → List (Renderer Value)
  | .ok (.directory child) => [child]
  | _ => []

namespace Site

/-- The site after a name was looked up, with this answer and the store after it. The renderer of a
directory is at hand from then on. -/
def record (site : Site) (renderer : Renderer Value) (name : String)
    (answer : Except Stop Resolved) (after : Store) : Site where
  setting := site.setting
  store := after
  renderers := site.renderers ++ reached answer
  log := site.log ++ [⟨renderer, name, site.setting, site.store, after, answer⟩]

/-- The site after an act. -/
def act (site : Site) : Act → Site
  | .change files => { site with setting := { site.setting with files } }
  | .resolve place name =>
      match site.renderers[place]? with
      | none => site
      | some renderer =>
          let (answer, after) := (renderer.resolve .standard name).perform site.setting site.store
          site.record renderer name answer after

/-- The site after acts, one after another. -/
def run (site : Site) (acts : List Act) : Site := acts.foldl act site

theorem act_resolve {site : Site} {place : Nat} {renderer : Renderer Value}
    (h : site.renderers[place]? = some renderer) (name : String) : site.act (.resolve place name) =
      site.record renderer name
        ((renderer.resolve .standard name).perform site.setting site.store).1
        ((renderer.resolve .standard name).perform site.setting site.store).2 := by
  simp only [act, h]

theorem act_resolve_none {site : Site} {place : Nat} (h : site.renderers[place]? = none)
    (name : String) : site.act (.resolve place name) = site := by
  simp only [act, h]

/-- The memories of the renderers, each of them once. -/
def memories (site : Site) : Finset Nat :=
  (site.renderers.filterMap fun renderer => renderer.library.cache).toFinset

end Site

/-- How many templates a memory holds. -/
def Store.templatesIn (store : Store) (memory : Nat) : Nat :=
  (store.entries memory).countP (·.2.isTemplate)

/-- How many templates the renderers remember. -/
def Site.templates (site : Site) : Nat := ∑ memory ∈ site.memories, site.store.templatesIn memory

/-! ## What is said about a look-up -/

namespace Lookup

/-- The same name, in the same memory. -/
def SameMemory (earlier later : Lookup) : Prop :=
  earlier.name = later.name ∧ ∃ memory, earlier.renderer.library.cache = some memory ∧
    later.renderer.library.cache = some memory

/-- The answer is what stands in the files at that moment. -/
def Shows (lookup : Lookup) : Prop :=
  lookup.renderer.Shows lookup.name lookup.setting lookup.before lookup.answer

/-- The first success is the answer from then on. -/
def Fixed (lookup : Lookup) (past : List Lookup) : Prop :=
  ∀ earlier ∈ past, earlier.SameMemory lookup → ∀ resolved, earlier.answer = .ok resolved →
    lookup.answer = .ok resolved

/-- There was no success so far, whatever failed. -/
def Fresh (lookup : Lookup) (past : List Lookup) : Prop :=
  ∀ earlier ∈ past, earlier.SameMemory lookup → ∀ resolved, earlier.answer ≠ .ok resolved

/-- How many templates were compiled if nothing was remembered. -/
def compiled (lookup : Lookup) : Nat :=
  match lookup.answer with
  | .ok (.template _) => 1
  | _ => 0

end Lookup

/-- What holds of each look-up in a log and those before it holds when one more is in the log. -/
theorem forall_look_ups_append {P : Lookup → List Lookup → Prop} {log : List Lookup} {last : Lookup}
    (h : ∀ past lookup later, log = past ++ lookup :: later → P lookup past) (hLast : P last log) :
    ∀ past lookup later, log ++ [last] = past ++ lookup :: later → P lookup past := by
  intro past lookup later hLog
  rcases List.eq_nil_or_concat later with rfl | ⟨before, next, rfl⟩
  · obtain ⟨rfl, hSame⟩ := List.append_inj' hLog rfl
    obtain rfl := (List.singleton_inj.1 hSame).symm
    exact hLast
  · rw [List.concat_eq_append, ← List.cons_append, ← List.append_assoc] at hLog
    exact h past lookup before (List.append_inj' hLog rfl).1

namespace Site

/-! ## Whatever the globals are -/

/-- The store and the renderers know these memories, what was looked up is remembered, and so the
first success is the answer from then on. Every failure is what the files show, and without a memory
every answer is. -/
structure Sound (site : Site) (others : Nat → Prop) : Prop where
  store : site.store.Apart none others
  renderers : ∀ renderer ∈ site.renderers, (Screen.apart none others).Passes renderer
  kept : ∀ earlier ∈ site.log, ∀ resolved, earlier.answer = .ok resolved →
    ∀ memory ∈ earlier.renderer.library.cache,
      Entries.find? earlier.name (site.store.entries memory) = some resolved
  fixed : ∀ past lookup later, site.log = past ++ lookup :: later → lookup.Fixed past
  failed : ∀ lookup ∈ site.log, ∀ stop, lookup.answer = .error stop → lookup.Shows
  unremembered : ∀ lookup ∈ site.log, lookup.renderer.library.cache = none → lookup.Shows

section Soundness

variable {site : Site} {others : Nat → Prop} {renderer : Renderer Value}

/-- What was looked up in a memory is the answer. -/
theorem Sound.fixed_answer (h : site.Sound others) {name : String} {after : Store} :
    Lookup.Fixed ⟨renderer, name, site.setting, site.store, after,
      ((renderer.resolve .standard name).perform site.setting site.store).1⟩ site.log := by
  rintro earlier hEarlier ⟨rfl, memory, hMemory, hHere⟩ resolved hAnswer
  have hKept : site.store.kept? renderer.library.cache earlier.name = some resolved := by
    rw [Store.kept?_of_mem hHere]
    exact h.kept earlier hEarlier resolved hAnswer memory hMemory
  exact congrArg Prod.fst (Run.perform_of_eq_ok (Renderer.resolve_of_kept hKept))

/-- The renderer that a name leads to is known. -/
theorem passes_of_reached {screen : Screen} {answer : Except Stop Resolved}
    (h : ∀ resolved, answer = .ok resolved → screen.Passes resolved) {child : Renderer Value}
    (hChild : child ∈ Stencil.reached answer) : screen.Passes child := by
  match answer, hChild with
  | .ok (.directory _), hChild =>
      rw [List.mem_singleton.1 hChild]
      exact Resolved.directory.inj (h _ rfl)

/-- Looking a name up keeps the site sound. -/
theorem Sound.resolve (h : site.Sound others) (hMem : renderer ∈ site.renderers) (name : String) :
    ∃ more, (site.record renderer name
      ((renderer.resolve .standard name).perform site.setting site.store).1
      ((renderer.resolve .standard name).perform site.setting site.store).2).Sound more := by
  have rules := Run.staysApart_rules none
  have hRenderer := h.renderers renderer hMem
  have hEnds : site.store.EndsApart none others
      (renderer.resolve .standard name site.setting site.store) :=
    rules.resolve (rules.services callLimit) hRenderer name site.setting site.store h.store
  obtain ⟨more, hSpares, hAfter, hPasses⟩ := hEnds.perform
  refine ⟨more, hAfter, List.forall_mem_append.2 ⟨fun other hOther =>
    (h.renderers other hOther).mono (Screen.apart_mono hSpares.le),
    fun child hChild => passes_of_reached hPasses hChild⟩, ?_,
    forall_look_ups_append h.fixed h.fixed_answer, List.forall_mem_append.2 ⟨h.failed, ?_⟩,
    List.forall_mem_append.2 ⟨h.unremembered, ?_⟩⟩
  · refine List.forall_mem_append.2 ⟨fun earlier hEarlier resolved hAnswer memory hMemory =>
      hSpares.kept _ _ _ (h.kept earlier hEarlier resolved hAnswer memory hMemory), ?_⟩
    refine List.forall_mem_singleton.2 fun resolved hAnswer memory hMemory => ?_
    have hThere := h.store.there memory (hRenderer.renderer.1.2 memory hMemory)
    exact Renderer.find?_of_resolve (Run.eq_ok_of_perform hAnswer) hMemory
      (Nat.lt_of_lt_of_le hThere hSpares.size)
  · refine List.forall_mem_singleton.2 fun stop hStop => ?_
    have hShows := Renderer.shows_of_error hStop
    rwa [← hStop] at hShows
  · exact List.forall_mem_singleton.2 fun hCache => Renderer.shows_of_cache_none hCache

theorem Sound.act (h : site.Sound others) (act : Act) : ∃ more, (site.act act).Sound more := by
  cases act with
  | change files => exact ⟨others, { h with }⟩
  | resolve place name =>
      cases hPlace : site.renderers[place]? with
      | none => exact ⟨others, by rwa [act_resolve_none hPlace]⟩
      | some renderer =>
          rw [act_resolve hPlace]
          exact h.resolve (List.mem_of_getElem? hPlace) name

/-- Acts, one after another, keep the site sound. -/
theorem Sound.run (h : site.Sound others) (acts : List Act) :
    ∃ more, (site.run acts).Sound more := by
  induction acts generalizing site others with
  | nil => exact ⟨others, h⟩
  | cons first rest ih =>
      obtain ⟨_, hFirst⟩ := h.act first
      exact ih hFirst

end Soundness

/-! ## Where no global counts with the same counter -/

/-- The libraries of the site, and what its log says of their memories and of the count. -/
structure Accounted (site : Site) (counter : Nat) (others : Nat → Prop) : Prop where
  store : site.store.Apart (some counter) others
  hasCounter : counter < site.store.counters.size
  renderers : ∀ renderer ∈ site.renderers, renderer.library.Belongs counter others site.store
  /-- What is remembered was looked up. -/
  sound : ∀ renderer ∈ site.renderers, ∀ memory ∈ renderer.library.cache, ∀ name resolved,
    Entries.find? name (site.store.entries memory) = some resolved →
    ∃ earlier ∈ site.log, earlier.renderer.library.cache = some memory ∧ earlier.name = name ∧
      earlier.answer = .ok resolved
  reached : ∀ earlier ∈ site.log, ∀ child ∈ reached earlier.answer, child ∈ site.renderers
  /-- As long as there was no success, the files show the answer. -/
  fresh : ∀ past lookup later, site.log = past ++ lookup :: later → lookup.Fresh past → lookup.Shows
  size : ∀ lookup ∈ site.log, lookup.before.caches.size ≤ lookup.after.caches.size ∧
    lookup.after.caches.size ≤ site.store.caches.size
  /-- A failure changes nothing. -/
  failed : ∀ lookup ∈ site.log, ∀ stop, lookup.answer = .error stop →
    lookup.after.total counter = lookup.before.total counter ∧ ∀ memory ∈ site.memories,
      lookup.after.entries memory = lookup.before.entries memory
  /-- Without a memory, every template counts. -/
  unremembered : ∀ lookup ∈ site.log, lookup.renderer.library.cache = none →
    lookup.after.total counter = lookup.before.total counter + lookup.compiled
  balanced : (∀ renderer ∈ site.renderers, renderer.library.cache.isSome) →
    site.store.total counter = site.templates

section Recording

variable {site : Site} {counter : Nat} {others more : Nat → Prop} {renderer child : Renderer Value}
  {name : String} {answer : Except Stop Resolved} {after : Store} {memory : Nat}

theorem mem_memories : memory ∈ site.memories ↔
    ∃ renderer ∈ site.renderers, memory ∈ renderer.library.cache := by
  simp only [memories, List.mem_toFinset, List.mem_filterMap, Option.mem_def]

/-- The memories of the site are there, and are its own. -/
theorem Accounted.own (h : site.Accounted counter others) (hMemory : memory ∈ site.memories) :
    memory < site.store.caches.size ∧ ¬ others memory := by
  obtain ⟨renderer, hMem, hCache⟩ := mem_memories.1 hMemory
  exact (h.renderers renderer hMem).memory memory hCache

/-- A renderer that a remembered name leads to is at hand. -/
theorem Accounted.reached_of_kept (h : site.Accounted counter others)
    (hMem : renderer ∈ site.renderers) {resolved : Resolved}
    (hKept : site.store.kept? renderer.library.cache name = some resolved)
    (hChild : child ∈ Stencil.reached (.ok resolved)) : child ∈ site.renderers := by
  obtain ⟨memory, hMemory, hFound⟩ := Option.bind_eq_some_iff.1 hKept
  obtain ⟨earlier, hEarlier, -, -, hAnswer⟩ := h.sound renderer hMem memory hMemory _ _ hFound
  exact h.reached earlier hEarlier child (hAnswer ▸ hChild)

/-- A renderer that an answer leads to is at hand already, or it is one for a directory. Its memory
is new, if it has one, and holds nothing. -/
theorem Accounted.of_reached (h : site.Accounted renderer.library.counter others)
    (hMem : renderer ∈ site.renderers)
    (hAnswers : renderer.Answers name site.setting others site.store more after answer)
    (hChild : child ∈ Stencil.reached answer) : child ∈ site.renderers ∨
      child.library.Belongs renderer.library.counter more after ∧
      (∃ path, child = renderer.below path site.store.caches.size) ∧
      ∀ memory ∈ child.library.cache,
        memory = site.store.caches.size ∧ after.entries memory = [] := by
  cases hKept : site.store.kept? renderer.library.cache name with
  | some resolved =>
      obtain ⟨-, -, rfl⟩ := hAnswers.eq_of_kept hKept
      exact Or.inl (h.reached_of_kept hMem hKept hChild)
  | none =>
      match answer, hAnswers, hChild with
      | .ok (.directory _), hAnswers, hChild =>
          obtain rfl := (List.mem_singleton.1 hChild).symm
          obtain ⟨rfl, ⟨path, rfl⟩, rfl⟩ := hAnswers.enters hKept
          have hOwn := h.renderers renderer hMem
          have hMemory (memory : Nat) (hMemory : memory ∈ (renderer.below path
              site.store.caches.size).library.cache) :
              renderer.library.cache.isSome ∧ memory = site.store.caches.size := by
            obtain ⟨own, hSome, rfl⟩ := Option.map_eq_some_iff.1 (Option.mem_def.1 hMemory)
            exact ⟨by rw [hSome]; rfl, rfl⟩
          refine Or.inr ⟨⟨hOwn.globals, rfl, fun memory hCache => ?_⟩, ⟨path, rfl⟩,
            fun memory hCache => ?_⟩
          · obtain ⟨hSome, rfl⟩ := hMemory memory hCache
            refine ⟨?_, fun hOther => Nat.lt_irrefl _ (h.store.there _ hOther)⟩
            obtain ⟨own, hCache⟩ := Option.isSome_iff_exists.1 hSome
            rw [Store.size_keep, hCache, Store.openMemory, Store.size_withMemory]
            exact Nat.lt_succ_self _
          · obtain ⟨-, rfl⟩ := hMemory memory hCache
            refine ⟨rfl, ?_⟩
            rw [Store.entries_keep_other fun hSame =>
              Nat.lt_irrefl _ (hOwn.memory _ hSame).1, Store.entries_openMemory,
              Store.entries_of_size_le (Nat.le_refl _)]

theorem Accounted.belongs (h : site.Accounted renderer.library.counter others)
    (hMem : renderer ∈ site.renderers)
    (hAnswers : renderer.Answers name site.setting others site.store more after answer) :
    ∀ other ∈ site.renderers ++ Stencil.reached answer,
      other.library.Belongs renderer.library.counter more after := by
  have hOld (other : Renderer Value) (hOther : other ∈ site.renderers) :
      other.library.Belongs renderer.library.counter more after :=
    hAnswers.belongs (h.renderers other hOther)
  refine List.forall_mem_append.2 ⟨hOld, fun child hChild => ?_⟩
  exact (h.of_reached hMem hAnswers hChild).elim (hOld child) fun hNew => hNew.1

theorem Accounted.recorded_sound (h : site.Accounted renderer.library.counter others)
    (hMem : renderer ∈ site.renderers)
    (hAnswers : renderer.Answers name site.setting others site.store more after answer)
    {other : Renderer Value} (hOther : other ∈ site.renderers ++ Stencil.reached answer)
    (hMemory : memory ∈ other.library.cache) {key : String} {resolved : Resolved}
    (hFound : Entries.find? key (after.entries memory) = some resolved) :
    ∃ earlier ∈ (site.record renderer name answer after).log,
      earlier.renderer.library.cache = some memory ∧ earlier.name = key ∧
        earlier.answer = .ok resolved := by
  have hKnown : other ∈ site.renderers := by
    rcases List.mem_append.1 hOther with hOther | hChild
    · exact hOther
    · refine (h.of_reached hMem hAnswers hChild).resolve_right fun ⟨_, _, hEmpty⟩ => ?_
      rw [(hEmpty memory hMemory).2] at hFound
      cases hFound
  obtain ⟨hThere, hOwn⟩ := (h.renderers other hKnown).memory memory hMemory
  rcases hAnswers.of_find? hThere hOwn hFound with hBefore | ⟨hHere, rfl, rfl⟩
  · obtain ⟨earlier, hEarlier, hSame⟩ := h.sound other hKnown memory hMemory _ _ hBefore
    exact ⟨earlier, List.mem_append_left _ hEarlier, hSame⟩
  · exact ⟨_, List.mem_append_right _ (List.mem_singleton_self _), hHere, rfl, rfl⟩

/-- As long as there was no success, the files show the answer. -/
theorem Accounted.fresh_answer (h : site.Accounted renderer.library.counter others)
    (hMem : renderer ∈ site.renderers)
    (hAnswers : renderer.Answers name site.setting others site.store more after answer)
    (hFresh : Lookup.Fresh ⟨renderer, name, site.setting, site.store, after, answer⟩ site.log) :
    Lookup.Shows ⟨renderer, name, site.setting, site.store, after, answer⟩ := by
  refine hAnswers.shows_of_kept ?_
  cases hKept : site.store.kept? renderer.library.cache name with
  | none => rfl
  | some resolved =>
      obtain ⟨memory, hMemory, hFound⟩ := Option.bind_eq_some_iff.1 hKept
      obtain ⟨earlier, hEarlier, hCache, hName, hAnswer⟩ :=
        h.sound renderer hMem memory hMemory _ _ hFound
      exact absurd hAnswer (hFresh earlier hEarlier ⟨hName, memory, hCache, hMemory⟩ resolved)

/-- A memory that the site has after a look-up is one that it had, or was not there before. -/
theorem Accounted.of_mem_memories (h : site.Accounted renderer.library.counter others)
    (hMem : renderer ∈ site.renderers)
    (hAnswers : renderer.Answers name site.setting others site.store more after answer)
    (hMemory : memory ∈ (site.record renderer name answer after).memories) :
    memory ∈ site.memories ∨ site.store.caches.size ≤ memory := by
  obtain ⟨other, hOther, hCache⟩ := mem_memories.1 hMemory
  rcases List.mem_append.1 hOther with hOther | hChild
  · exact Or.inl (mem_memories.2 ⟨other, hOther, hCache⟩)
  · refine (h.of_reached hMem hAnswers hChild).imp
      (fun hOther => mem_memories.2 ⟨other, hOther, hCache⟩) fun ⟨_, _, hNew⟩ => ?_
    exact Nat.le_of_eq (hNew memory hCache).1.symm

/-- What failed before changed nothing in the memories that there are now. -/
theorem Accounted.recorded_failed (h : site.Accounted renderer.library.counter others)
    (hMem : renderer ∈ site.renderers)
    (hAnswers : renderer.Answers name site.setting others site.store more after answer) :
    ∀ lookup ∈ (site.record renderer name answer after).log, ∀ stop, lookup.answer = .error stop →
      lookup.after.total renderer.library.counter =
        lookup.before.total renderer.library.counter ∧
      ∀ memory ∈ (site.record renderer name answer after).memories,
        lookup.after.entries memory = lookup.before.entries memory := by
  refine List.forall_mem_append.2 ⟨fun lookup hLookup stop hStop => ?_,
    List.forall_mem_singleton.2 fun stop hStop => ?_⟩
  · obtain ⟨hTotal, hEntries⟩ := h.failed lookup hLookup stop hStop
    obtain ⟨hSize, hNow⟩ := h.size lookup hLookup
    refine ⟨hTotal, fun memory hMemory => ?_⟩
    rcases h.of_mem_memories hMem hAnswers hMemory with hOld | hNew
    · exact hEntries memory hOld
    · rw [Store.entries_of_size_le (hNow.trans hNew),
        Store.entries_of_size_le (hSize.trans (hNow.trans hNew))]
  · obtain rfl : answer = .error stop := hStop
    refine ⟨hAnswers.spares.total_eq, fun memory hMemory => ?_⟩
    have hOld : memory ∈ site.memories := by
      obtain ⟨other, hOther, hCache⟩ := mem_memories.1 hMemory
      exact mem_memories.2 ⟨other, (List.mem_append.1 hOther).resolve_right (List.not_mem_nil),
        hCache⟩
    obtain ⟨hThere, hOwn⟩ := h.own hOld
    exact (hAnswers.spares.own memory hThere hOwn).2

/-- Without a memory, a template is counted once. -/
theorem Accounted.total_compiled (h : site.Accounted renderer.library.counter others)
    (hAnswers : renderer.Answers name site.setting others site.store more after answer)
    (hCache : renderer.library.cache = none) : after.total renderer.library.counter =
      site.store.total renderer.library.counter +
        Lookup.compiled ⟨renderer, name, site.setting, site.store, after, answer⟩ := by
  have hNone : site.store.kept? renderer.library.cache name = none := by
    rw [hCache]
    rfl
  match answer, hAnswers with
  | .error stop, hAnswers => exact hAnswers.spares.total_eq
  | .ok (.template content), hAnswers => exact hAnswers.total_eq hNone h.hasCounter
  | .ok (.directory child), hAnswers => exact hAnswers.total_eq hNone h.hasCounter

/-! ### The balance -/

/-- A new memory holds no template, so only those that there were before count. -/
theorem Accounted.templates_record (h : site.Accounted renderer.library.counter others)
    (hMem : renderer ∈ site.renderers)
    (hAnswers : renderer.Answers name site.setting others site.store more after answer) :
    (site.record renderer name answer after).templates =
      ∑ memory ∈ site.memories, after.templatesIn memory := by
  refine (Finset.sum_subset (fun memory hMemory => ?_) fun memory hMemory hNew => ?_).symm
  · obtain ⟨other, hOther, hCache⟩ := mem_memories.1 hMemory
    exact mem_memories.2 ⟨other, List.mem_append_left _ hOther, hCache⟩
  · obtain ⟨other, hOther, hCache⟩ := mem_memories.1 hMemory
    have hUnknown : other ∉ site.renderers := fun hOld =>
      hNew (mem_memories.2 ⟨other, hOld, hCache⟩)
    have hChild := (List.mem_append.1 hOther).resolve_left hUnknown
    obtain ⟨-, -, hEmpty⟩ := (h.of_reached hMem hAnswers hChild).resolve_left hUnknown
    show after.templatesIn memory = 0
    rw [Store.templatesIn, (hEmpty memory hCache).2, List.countP_nil]

theorem insert_of_find?_none {α : Type} {entries : Entries α}
    (h : Entries.find? name entries = none) (value : α) :
    Entries.insert name value entries = entries ++ [(name, value)] := by
  refine Entries.insert_of_notMem (fun hMem => ?_) value
  induction entries with
  | nil => cases hMem
  | cons entry rest ih =>
      rw [Entries.find?] at h
      split at h
      · cases h
      · rename_i hOther
        rcases List.mem_cons.1 hMem with hSame | hRest
        · exact hOther hSame.symm
        · exact ih h hRest

/-- All memories together hold one more template, if what was found is one. -/
theorem Accounted.sum_found (h : site.Accounted renderer.library.counter others)
    (hMem : renderer ∈ site.renderers) {found : Resolved}
    (hAnswers : renderer.Answers name site.setting others site.store more after (.ok found))
    (hNone : site.store.kept? renderer.library.cache name = none)
    (hCache : memory ∈ renderer.library.cache) :
    ∑ m ∈ site.memories, after.templatesIn m =
      site.templates + if found.isTemplate then 1 else 0 := by
  have hMemory : memory ∈ site.memories := mem_memories.2 ⟨renderer, hMem, hCache⟩
  have hEntries (m : Nat) (hm : m ∈ site.memories) :=
    hAnswers.entries_eq hNone (h.own hm).1 (h.own hm).2
  have hRest : ∑ m ∈ site.memories.erase memory, after.templatesIn m =
      ∑ m ∈ site.memories.erase memory, site.store.templatesIn m := by
    refine Finset.sum_congr rfl fun m hm => ?_
    have hOther : m ∉ renderer.library.cache := fun hSame =>
      Finset.ne_of_mem_erase hm (Option.mem_unique hSame hCache)
    rw [Store.templatesIn, hEntries m (Finset.mem_of_mem_erase hm), if_neg hOther,
      Store.templatesIn]
  have hHere : after.templatesIn memory =
      site.store.templatesIn memory + if found.isTemplate then 1 else 0 := by
    rw [Store.kept?_of_mem hCache] at hNone
    rw [Store.templatesIn, hEntries memory hMemory, if_pos hCache, insert_of_find?_none hNone,
      List.countP_append, List.countP_singleton, Store.templatesIn]
  rw [templates, ← Finset.add_sum_erase _ _ hMemory, ← Finset.add_sum_erase _ _ hMemory, hRest,
    hHere]
  omega

theorem Accounted.balance (h : site.Accounted renderer.library.counter others)
    (hMem : renderer ∈ site.renderers)
    (hAnswers : renderer.Answers name site.setting others site.store more after answer)
    (hCaches : ∀ other ∈ site.renderers, other.library.cache.isSome) :
    after.total renderer.library.counter = (site.record renderer name answer after).templates := by
  have hBalanced := h.balanced hCaches
  rw [h.templates_record hMem hAnswers]
  cases hKept : site.store.kept? renderer.library.cache name with
  | some resolved =>
      obtain ⟨-, rfl, -⟩ := hAnswers.eq_of_kept hKept
      exact hBalanced
  | none =>
      cases answer with
      | error stop =>
          rw [hAnswers.spares.total_eq, hBalanced]
          refine Finset.sum_congr rfl fun memory hMemory => ?_
          rw [Store.templatesIn, Store.templatesIn,
            (hAnswers.spares.own memory (h.own hMemory).1 (h.own hMemory).2).2]
      | ok found =>
          obtain ⟨memory, hCache⟩ := Option.isSome_iff_exists.1 (hCaches renderer hMem)
          rw [hAnswers.total_eq hKept h.hasCounter, hBalanced,
            h.sum_found hMem hAnswers hKept hCache]

/-! ### Acts -/

/-- Looking a name up keeps the accounts. -/
theorem Accounted.record (h : site.Accounted renderer.library.counter others)
    (hMem : renderer ∈ site.renderers)
    (hAnswers : renderer.Answers name site.setting others site.store more after answer) :
    (site.record renderer name answer after).Accounted renderer.library.counter more where
  store := hAnswers.apart h.store (h.renderers renderer hMem)
  hasCounter := hAnswers.hasCounter h.hasCounter
  renderers := h.belongs hMem hAnswers
  sound _ hOther _ hMemory _ _ hFound := h.recorded_sound hMem hAnswers hOther hMemory hFound
  reached := List.forall_mem_append.2 ⟨fun earlier hEarlier child hChild =>
    List.mem_append_left _ (h.reached earlier hEarlier child hChild),
    List.forall_mem_singleton.2 fun _ hChild => List.mem_append_right _ hChild⟩
  fresh := forall_look_ups_append h.fresh (h.fresh_answer hMem hAnswers)
  size := List.forall_mem_append.2 ⟨fun lookup hLookup =>
    (h.size lookup hLookup).imp_right fun hNow => hNow.trans hAnswers.size_le,
    List.forall_mem_singleton.2 ⟨hAnswers.size_le, Nat.le_refl _⟩⟩
  failed := h.recorded_failed hMem hAnswers
  unremembered := List.forall_mem_append.2 ⟨h.unremembered,
    List.forall_mem_singleton.2 fun hCache => h.total_compiled hAnswers hCache⟩
  balanced hCaches := h.balance hMem hAnswers fun other hOther =>
    hCaches other (List.mem_append_left _ hOther)

theorem Accounted.act (h : site.Accounted counter others) (act : Act) :
    ∃ more, (site.act act).Accounted counter more := by
  cases act with
  | change files => exact ⟨others, { h with }⟩
  | resolve place name =>
      cases hPlace : site.renderers[place]? with
      | none => exact ⟨others, by rwa [act_resolve_none hPlace]⟩
      | some renderer =>
          have hMem := List.mem_of_getElem? hPlace
          have hOwn := h.renderers renderer hMem
          obtain ⟨more, hAnswers⟩ := Renderer.exists_answers h.store hOwn name site.setting
          obtain rfl := hOwn.counter
          rw [act_resolve hPlace]
          exact ⟨more, h.record hMem hAnswers⟩

/-- Acts, one after another, keep the accounts. -/
theorem Accounted.run (h : site.Accounted counter others) (acts : List Act) :
    ∃ more, (site.run acts).Accounted counter more := by
  induction acts generalizing site others with
  | nil => exact ⟨others, h⟩
  | cons first rest ih =>
      obtain ⟨_, hFirst⟩ := h.act first
      exact ih hFirst

end Recording

end Site

end Stencil
