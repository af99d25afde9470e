import Stencil.Proofs.Caching.Sites

/-!
# Memories and counts of libraries

A renderer is set up once: for a directory, with a memory or without one, with globals, a filter, a
layout. Then names are looked up, by the renderer, by that of its layout, and by those of the
directories that names lead to, while files come and go. With a memory the first success is the
answer from then on, and a failure is what the files show at that moment. Without a memory every
answer is what the files show.

Whatever the globals are, this holds. The count is another matter. A global may be a renderer, and
the defaults of a template may look names up in it while the template is compiled. If that renderer
came from the one that is set up, it has the same counter, so the templates that it compiles count
as well, be they remembered or not. If no global leads to such a renderer, a failure leaves no
trace, the count is the number of templates that all the renderers remember together, and without a
memory it goes up by one with every template.

The layout keeps the memory that the renderer had when the layout was chosen.

## Main results

* `fresh_setUp`: a renderer can be set up in any way, and remembers nothing then.
* `lookups_are_accounted_for`: what names lead to, and what is counted.
* `layouts_remember_and_clones_count`: without a memory the layout still remembers, and a global
  that came from the renderer counts with it.
-/

namespace Stencil

/-! ## Setting up -/

/-- One more thing that is said about a renderer. -/
inductive Setup where
  | cache (enabled : Bool)
  | configure (configuration : Configuration Value)

namespace Setup

/-- The renderer with one more thing said. -/
def apply (renderer : Renderer Value) : Setup → Run (Renderer Value)
  | cache enabled => renderer.withCache enabled
  | configure configuration => configuration.apply renderer

/-- A global is as the screen says. -/
def Passes (screen : Screen) : Setup → Prop
  | configure (.global _ value) => screen.Passes value
  | _ => True

end Setup

/-- A renderer for a directory, about which these things are said, one after another. -/
def Renderer.setUp (root : String) (setups : List Setup) : Run (Renderer Value) := do
  let renderer ← Renderer.new root
  setups.foldlM Setup.apply renderer

/-- The renderer has a memory, and so has that of its layout. -/
def Renderer.Caches (renderer : Renderer Value) : Prop :=
  renderer.library.cache.isSome ∧ ∀ layout ∈ renderer.layout, layout.library.cache.isSome

/-- The globals of the renderer and those of its layout are as the screen says. -/
def Renderer.GlobalsPass (screen : Screen) (renderer : Renderer Value) : Prop :=
  screen.Passes renderer.library.globals ∧
    ∀ layout ∈ renderer.layout, screen.Passes layout.library.globals

/-- A site at the start, with the renderer and that of its layout. -/
def Site.opened (renderer : Renderer Value) (setting : Setting) (store : Store) : Site where
  setting := setting
  store := store
  renderers := renderer :: (renderer.layout.map Renderer.ofLayout).toList
  log := []

/-- What holds of the renderer and of that of its layout holds of all renderers at the start. -/
theorem Site.forall_opened {renderer : Renderer Value} {setting : Setting} {store : Store}
    {P : Renderer Value → Prop} (hOwn : P renderer)
    (hLayout : ∀ layout ∈ renderer.layout, P (.ofLayout layout)) :
    ∀ other ∈ (Site.opened renderer setting store).renderers, P other := by
  intro other hOther
  rcases List.mem_cons.1 hOther with rfl | hMem
  · exact hOwn
  · rw [Option.mem_toList] at hMem
    obtain ⟨layout, hHere, rfl⟩ := Option.map_eq_some_iff.1 hMem
    exact hLayout layout hHere

/-- The values that are there at the start, or are given to a renderer then, lead to libraries that
are there, and to none with a counter that is made later. -/
abbrev Store.elsewhere (start : Store) : Screen :=
  .apart (some start.counters.size) (· < start.caches.size)

/-- The library has a counter that was not there at the start, and a memory that was not either, and
holds nothing. -/
structure Library.Blank (library : Library Value) (start store : Store) : Prop where
  counter : library.counter = start.counters.size
  memory : ∀ memory ∈ library.cache, start.caches.size ≤ memory ∧ memory < store.caches.size ∧
    store.entries memory = []

/-- Nothing was looked up by the renderer so far, nor by any other since the start. -/
structure Renderer.Fresh (renderer : Renderer Value) (start store : Store) : Prop where
  size : start.caches.size ≤ store.caches.size
  elsewhere : store.Apart (some start.counters.size) (· < start.caches.size)
  known : store.Apart none (· < store.caches.size)
  hasCounter : start.counters.size < store.counters.size
  total : store.total start.counters.size = 0
  own : renderer.library.Blank start store
  layout : ∀ layout ∈ renderer.layout, layout.library.Blank start store

/-! ### Fresh renderers -/

section SettingUp

variable {renderer : Renderer Value} {start store : Store}

theorem Library.Blank.withMemory {library : Library Value} (h : library.Blank start store) :
    library.Blank start store.withMemory where
  counter := h.counter
  memory m hMemory := by
    obtain ⟨hLater, hThere, hEmpty⟩ := h.memory m hMemory
    rw [Store.size_withMemory, Store.entries_withMemory]
    exact ⟨hLater, Nat.lt_succ_of_lt hThere, hEmpty⟩

/-- A library with a new memory remembers nothing. -/
theorem Library.blank_withMemory {library : Library Value}
    (hCounter : library.counter = start.counters.size)
    (hSize : start.caches.size ≤ store.caches.size) :
    Library.Blank { library with cache := some store.caches.size } start store.withMemory where
  counter := hCounter
  memory m hMemory := by
    obtain rfl := Option.mem_some.1 hMemory
    rw [Store.size_withMemory, Store.entries_withMemory]
    exact ⟨hSize, Nat.lt_succ_self _, Store.entries_of_size_le (Nat.le_refl _)⟩

/-- A new memory is known when all are. -/
theorem Store.Apart.withAll {counter : Option Nat}
    (h : store.Apart counter (· < store.caches.size)) :
    store.withMemory.Apart counter (· < store.withMemory.caches.size) := by
  have hSame : (fun memory => memory < store.caches.size ∨ memory = store.caches.size) =
      (· < store.withMemory.caches.size) := by
    funext memory
    rw [size_withMemory]
    exact propext Nat.lt_succ_iff_lt_or_eq.symm
  exact hSame ▸ h.withKnown

/-- One memory more. -/
theorem Renderer.Fresh.withMemory (h : renderer.Fresh start store) :
    renderer.Fresh start store.withMemory where
  size := by rw [Store.size_withMemory]; exact Nat.le_succ_of_le h.size
  elsewhere := h.elsewhere.withMemory
  known := h.known.withAll
  hasCounter := h.hasCounter
  total := h.total
  own := h.own.withMemory
  layout layout hMem := (h.layout layout hMem).withMemory

/-- Whatever is said about a fresh renderer, it stays fresh, and its globals are those that were
said. -/
theorem Renderer.Fresh.apply (h : renderer.Fresh start store) (setup : Setup) (setting : Setting) :
    ∃ next after, setup.apply renderer setting store = .ok next after ∧ next.Fresh start after ∧
      ∀ screen : Screen, setup.Passes screen → renderer.GlobalsPass screen →
        next.GlobalsPass screen := by
  cases setup with
  | cache enabled =>
      cases enabled with
      | true =>
          exact ⟨_, store.withMemory, rfl,
            { h.withMemory with own := Library.blank_withMemory h.own.counter h.size },
            fun _ _ hGlobals => hGlobals⟩
      | false =>
          exact ⟨_, store, rfl, { h with own := ⟨h.own.counter, nofun⟩ },
            fun _ _ hGlobals => hGlobals⟩
  | configure configuration =>
      cases configuration with
      | layout name =>
          refine ⟨_, store, rfl, { h with layout := fun layout hMem => ?_ },
            fun screen _ hGlobals => ⟨hGlobals.1, fun layout hMem => ?_⟩⟩
          · obtain rfl := Option.mem_some.1 hMem
            exact h.own
          · obtain rfl := Option.mem_some.1 hMem
            exact hGlobals.1
      | escape filter =>
          exact ⟨_, store, rfl, { h with own := ⟨h.own.counter, h.own.memory⟩ },
            fun _ _ hGlobals => hGlobals⟩
      | «global» name value =>
          refine ⟨_, { store with nextMark := (value.settle store.nextMark).2 }, rfl, ?_,
            fun screen hValue hGlobals => ⟨hGlobals.1.insert name (hValue.settle _), hGlobals.2⟩⟩
          exact
            { size := h.size
              elsewhere := h.elsewhere.of_frames rfl (h.elsewhere.bindings.counts _ _)
              known := h.known.of_frames rfl (h.known.bindings.counts _ _)
              hasCounter := h.hasCounter
              total := h.total
              own := ⟨h.own.counter, h.own.memory⟩
              layout := fun layout hMem =>
                ⟨(h.layout layout hMem).counter, (h.layout layout hMem).memory⟩ }
      | exposeAs name =>
          exact ⟨_, store, rfl, { h with own := ⟨h.own.counter, h.own.memory⟩ },
            fun _ _ hGlobals => hGlobals⟩

/-- However much is said about a fresh renderer, it stays fresh. -/
theorem Renderer.Fresh.applyAll (h : renderer.Fresh start store) (setups : List Setup)
    (setting : Setting) :
    ∃ last after, setups.foldlM Setup.apply renderer setting store = .ok last after ∧
      last.Fresh start after ∧ ∀ screen : Screen, (∀ setup ∈ setups, setup.Passes screen) →
        renderer.GlobalsPass screen → last.GlobalsPass screen := by
  induction setups generalizing renderer store with
  | nil => exact ⟨renderer, store, rfl, h, fun _ _ hGlobals => hGlobals⟩
  | cons setup rest ih =>
      obtain ⟨next, middle, hApply, hNext, hSaid⟩ := h.apply setup setting
      obtain ⟨last, after, hRest, hLast, hGlobals⟩ := ih hNext
      refine ⟨last, after, ?_, hLast, fun screen hSetups hOwn => ?_⟩
      · rw [List.foldlM_cons, Run.bind_of_eq_ok hApply, hRest]
      · obtain ⟨hSetup, hSetups⟩ := List.forall_mem_cons.1 hSetups
        exact hGlobals screen hSetups (hSaid screen hSetup hOwn)

theorem fresh_new (root : String) (setting : Setting)
    (h : start.Apart (some start.counters.size) (· < start.caches.size)) :
    ∃ renderer after, Renderer.new root setting start = .ok renderer after ∧
      renderer.Fresh start after ∧ ∀ screen : Screen, renderer.GlobalsPass screen := by
  have hZero : (start.counters.push 0)[start.counters.size]? = some 0 := Array.getElem?_push_size
  have hBlank := Library.blank_withMemory
    (rfl : (⟨root, [], none, none, none, start.counters.size⟩ : Library Value).counter = _)
    (Nat.le_refl start.caches.size)
  refine ⟨⟨⟨root, [], none, some start.caches.size, none, start.counters.size⟩, none⟩,
    { start.withMemory with counters := start.counters.push 0 }, rfl, ?_, fun _ => ⟨.nil, nofun⟩⟩
  exact
    { size := by
        show _ ≤ start.withMemory.caches.size
        rw [Store.size_withMemory]
        exact Nat.le_succ _
      elsewhere := h.withMemory.of_frames rfl (h.withMemory.bindings.counts _ _)
      known := h.forget.withAll.of_frames rfl (h.forget.withAll.bindings.counts _ _)
      hasCounter := by
        show _ < (start.counters.push 0).size
        rw [Array.size_push]
        exact Nat.lt_succ_self _
      total := by
        show (start.counters.push 0)[start.counters.size]?.getD 0 = 0
        rw [hZero]
        rfl
      own := ⟨hBlank.counter, hBlank.memory⟩
      layout := nofun }

/-- A renderer can be set up in any way, and remembers nothing then. -/
theorem fresh_setUp (root : String) (setups : List Setup) (setting : Setting)
    (h : start.Apart (some start.counters.size) (· < start.caches.size)) :
    ∃ renderer after, Renderer.setUp root setups setting start = .ok renderer after ∧
      renderer.Fresh start after ∧ ∀ screen : Screen, (∀ setup ∈ setups, setup.Passes screen) →
        renderer.GlobalsPass screen := by
  obtain ⟨first, middle, hNew, hFresh, hNone⟩ := fresh_new root setting h
  obtain ⟨last, after, hRest, hLast, hGlobals⟩ := hFresh.applyAll setups setting
  refine ⟨last, after, ?_, hLast, fun screen hSetups => hGlobals screen hSetups (hNone screen)⟩
  rw [Renderer.setUp, Run.bind_of_eq_ok hNew, hRest]

/-- At the start the site is sound, if all memories in the globals are there. -/
theorem Renderer.Fresh.sound (h : renderer.Fresh start store)
    (hGlobals : renderer.GlobalsPass (.apart none (· < store.caches.size))) (setting : Setting) :
    (Site.opened renderer setting store).Sound (· < store.caches.size) where
  store := h.known
  renderers := by
    refine Site.forall_opened (Renderer.passes_iff.2 ⟨?_, passes_entries_iff.1 hGlobals.1, ?_⟩)
      fun layout hMem => Renderer.passes_iff.2
        ⟨?_, passes_entries_iff.1 (hGlobals.2 layout hMem), trivial⟩
    · exact ⟨Option.not_mem_none _, fun memory hMemory => (h.own.memory memory hMemory).2.1⟩
    · cases hLayout : renderer.layout with
      | none => trivial
      | some layout =>
          exact ⟨⟨Option.not_mem_none _, fun memory hMemory =>
            ((h.layout layout hLayout).memory memory hMemory).2.1⟩,
            passes_entries_iff.1 (hGlobals.2 layout hLayout)⟩
    · exact ⟨Option.not_mem_none _, fun memory hMemory =>
        ((h.layout layout hMem).memory memory hMemory).2.1⟩
  kept := List.forall_mem_nil _
  fixed past _ _ hLog := by cases past <;> cases hLog
  failed := List.forall_mem_nil _
  unremembered := List.forall_mem_nil _

/-- At the start the accounts are empty. -/
theorem Renderer.Fresh.accounted (h : renderer.Fresh start store)
    (hGlobals : renderer.GlobalsPass start.elsewhere) (setting : Setting) :
    (Site.opened renderer setting store).Accounted start.counters.size (· < start.caches.size) := by
  have hBlank : ∀ other ∈ (Site.opened renderer setting store).renderers,
      other.library.Blank start store ∧ start.elsewhere.Passes other.library.globals :=
    Site.forall_opened ⟨h.own, hGlobals.1⟩
      fun layout hMem => ⟨h.layout layout hMem, hGlobals.2 layout hMem⟩
  exact
    { store := h.elsewhere
      hasCounter := h.hasCounter
      renderers := fun other hOther =>
        ⟨(hBlank other hOther).2, (hBlank other hOther).1.counter, fun memory hMemory =>
          have hNew := (hBlank other hOther).1.memory memory hMemory
          ⟨hNew.2.1, Nat.not_lt.2 hNew.1⟩⟩
      sound := fun other hOther memory hMemory name resolved hFound => by
        rw [Site.opened, ((hBlank other hOther).1.memory memory hMemory).2.2] at hFound
        cases hFound
      reached := List.forall_mem_nil _
      fresh := fun past _ _ hLog => by cases past <;> cases hLog
      size := List.forall_mem_nil _
      failed := List.forall_mem_nil _
      unremembered := List.forall_mem_nil _
      balanced := fun _ => by
        refine h.total.trans (Finset.sum_eq_zero fun memory hMemory => ?_).symm
        obtain ⟨other, hOther, hCache⟩ := Site.mem_memories.1 hMemory
        rw [Store.templatesIn, Site.opened, ((hBlank other hOther).1.memory memory hCache).2.2]
        rfl }

end SettingUp

/-! ## What is looked up -/

section Lookups

variable {site : Site} {counter : Nat} {others : Nat → Prop}

/-- Where all renderers have memories, those of directories have them as well. -/
theorem Site.Accounted.caches_act (h : site.Accounted counter others)
    (hCaches : ∀ renderer ∈ site.renderers, renderer.library.cache.isSome) (act : Act) :
    ∀ renderer ∈ (site.act act).renderers, renderer.library.cache.isSome := by
  cases act with
  | change files => exact hCaches
  | resolve place name =>
      cases hPlace : site.renderers[place]? with
      | none => rwa [Site.act_resolve_none hPlace]
      | some renderer =>
          have hMem := List.mem_of_getElem? hPlace
          have hOwn := h.renderers renderer hMem
          obtain ⟨more, hAnswers⟩ := Renderer.exists_answers h.store hOwn name site.setting
          obtain rfl := hOwn.counter
          rw [Site.act_resolve hPlace]
          refine List.forall_mem_append.2 ⟨hCaches, fun child hChild => ?_⟩
          rcases h.of_reached hMem hAnswers hChild with hOld | ⟨-, ⟨path, rfl⟩, -⟩
          · exact hCaches child hOld
          · rw [Renderer.below, Option.isSome_map]
            exact hCaches renderer hMem

theorem Site.Accounted.caches_run (h : site.Accounted counter others)
    (hCaches : ∀ renderer ∈ site.renderers, renderer.library.cache.isSome) (acts : List Act) :
    ∀ renderer ∈ (site.run acts).renderers, renderer.library.cache.isSome := by
  induction acts generalizing site others with
  | nil => exact hCaches
  | cons first rest ih =>
      obtain ⟨_, hFirst⟩ := h.act first
      exact ih hFirst (h.caches_act hCaches first)

end Lookups

/-- What names lead to, and what is counted, in whatever order names are looked up and files change.

In a memory the first success is the answer from then on. A failure is what the files show at that
moment, and so is every answer without a memory. For that, libraries in the globals may be any, as
long as their memories are there.

When no global leads to a library with the counter of the renderer, the files show the answer until
the first success. A failure changes no memory of these renderers, nor their count. Without a memory
each template counts once. If the renderer and that of its layout have memories, the count is the
number of templates in all of them. -/
theorem lookups_are_accounted_for {root : String} {setups : List Setup} {setting : Setting}
    {start store : Store} (hStart : start.Apart (some start.counters.size) (· < start.caches.size))
    {renderer : Renderer Value}
    (hSetUp : (Renderer.setUp root setups).perform setting start = (.ok renderer, store))
    (hThere : ∀ setup ∈ setups, setup.Passes (.apart none (· < store.caches.size)))
    (acts : List Act) :
    let site := (Site.opened renderer setting store).run acts
    let counter := renderer.library.counter
    (∀ past lookup later, site.log = past ++ lookup :: later → lookup.Fixed past) ∧
    (∀ lookup ∈ site.log, ∀ stop, lookup.answer = .error stop → lookup.Shows) ∧
    (∀ lookup ∈ site.log, lookup.renderer.library.cache = none → lookup.Shows) ∧
    ((∀ setup ∈ setups, setup.Passes start.elsewhere) →
      (∀ past lookup later, site.log = past ++ lookup :: later → lookup.Fresh past →
        lookup.Shows) ∧
      (∀ lookup ∈ site.log, ∀ stop, lookup.answer = .error stop →
        lookup.after.total counter = lookup.before.total counter ∧
        ∀ memory ∈ site.memories,
          lookup.after.entries memory = lookup.before.entries memory) ∧
      (∀ lookup ∈ site.log, lookup.renderer.library.cache = none →
        lookup.after.total counter = lookup.before.total counter + lookup.compiled) ∧
      (renderer.Caches →
        (renderer.compilations.perform site.setting site.store).1 = .ok site.templates)) := by
  intro site counter
  obtain ⟨first, after, hFirst, hFresh, hGlobals⟩ := fresh_setUp root setups setting hStart
  obtain ⟨rfl, rfl⟩ : first = renderer ∧ after = store := by
    rw [Run.perform_of_eq_ok hFirst] at hSetUp
    cases hSetUp
    exact ⟨rfl, rfl⟩
  obtain ⟨_, hSound⟩ := (hFresh.sound (hGlobals _ hThere) setting).run acts
  refine ⟨hSound.fixed, hSound.failed, hSound.unremembered, fun hElsewhere => ?_⟩
  have hStarted := hFresh.accounted (hGlobals _ hElsewhere) setting
  obtain ⟨_, hSite⟩ := hStarted.run acts
  have hCounter : counter = start.counters.size := hFresh.own.counter
  refine ⟨hSite.fresh, ?_, ?_, fun hCaches => ?_⟩
  · rw [hCounter]
    exact hSite.failed
  · rw [hCounter]
    exact hSite.unremembered
  · have hOpened : ∀ other ∈ (Site.opened first setting after).renderers,
        other.library.cache.isSome := Site.forall_opened hCaches.1 hCaches.2
    rw [← hSite.balanced (hStarted.caches_run hOpened acts), ← hCounter]
    rfl

/-! ### Pages on a shelf -/

namespace Shelf

/-- One page, and one with a default that looks the other one up. -/
def files : Files := ⟨[["pages"]],
  [(["pages", "home.txt"], "hi\n".toUTF8),
    (["pages", "outer.txt"], "$def with (x=pages.home)\n".toUTF8)], []⟩

/-- A directory with no file. -/
def noFiles : Files := ⟨[["pages"]], [], []⟩

def program : Program := ⟨[], [.text "hi\n"]⟩

theorem read_home : Program.read (normalizeText "hi\n".toList) = .ok program := by
  have hDocument : Document.read (normalizeText "hi\n".toList) =
      .ok ⟨none, [.line ⟨1, [.text ['h', 'i', '\n']]⟩]⟩ := by with_unfolding_all rfl
  have hBody : compileSuite .outside .nothing [] [.line ⟨1, [.text ['h', 'i', '\n']]⟩] =
      .ok program.body := by
    simp only [compileSuite, OpenBlock.close, compileLine, compilePieces]
    rfl
  have hProgram (sections) : Program.ofDocument ⟨none, sections⟩ =
      (fun body => ⟨[], body⟩) <$> compileSuite .outside .nothing [] sections := rfl
  rw [Program.read_eq, hDocument]
  exact (hProgram _).trans (by rw [hBody]; rfl)

theorem locate_home :
    Renderer.locate files "/pages" "home" = .ok (.template "hi\n" "home.txt") := by
  with_unfolding_all rfl

/-- The template of the page, compiled with its globals in this frame. -/
def leaf (frame : FrameId) : Template Value :=
  ⟨"home.txt", program, [], .ofName "home.txt", frame⟩

/-- The page is found by any renderer of the directory, and is counted. -/
theorem load_home (services : Services) {renderer : Renderer Value}
    (hRoot : renderer.library.root = "/pages") (hEscape : renderer.library.escape = none)
    {passes : Nat} {store compiled : Store} {frame : FrameId}
    (hPrepare : Template.prepare services "home.txt" program renderer.library.globals
      (.ofName "home.txt") ⟨files, passes⟩ store = .ok (leaf frame) compiled) :
    renderer.load services "home" ⟨files, passes⟩ store = .ok (.template (leaf frame))
      (compiled.charge renderer.library.counter (.template (leaf frame))) := by
  rw [Renderer.load_of_locate (hRoot ▸ locate_home) store, Renderer.enter, Template.compile_eq,
    read_home, hEscape]
  exact (Run.bind_of_eq_ok hPrepare).trans rfl

/-! #### A page that is gone -/

/-- A renderer that was there before. -/
def parts : Value := .renderer ⟨⟨"/parts", [], none, some 0, none, 0⟩, none⟩ none

def start : Store := { Store.initial.withMemory with counters := #[0] }

theorem apart_start :
    start.Apart (some start.counters.size) (· < start.caches.size) := by
  have hInitial := Store.Apart.initial (some 1) (· < Store.initial.caches.size)
    (fun memory => Nat.not_lt_zero memory)
  exact hInitial.withAll.of_frames rfl (hInitial.withAll.bindings.counts _ _)

/-- The renderer has a memory of its own, since that of its layout was chosen before. -/
def setups : List Setup :=
  [.configure (.layout "base"), .cache true, .configure (.global "parts" parts)]

theorem passes_setups {counter : Option Nat} {others : Nat → Prop} (hCounter : 0 ∉ counter)
    (hMemory : others 0) : ∀ setup ∈ setups, setup.Passes (.apart counter others) := by
  have hParts : (Screen.apart counter others).Passes parts := Value.passes_iff.2
    ⟨⟨hCounter, fun memory hSome => Option.mem_some.1 hSome ▸ hMemory⟩, trivial, trivial⟩
  simp only [setups, List.forall_mem_cons]
  exact ⟨trivial, trivial, hParts, List.forall_mem_nil _⟩

/-- The file is gone when its name is looked up again, and when the library of the layout looks it
up. -/
def acts : List Act :=
  [.resolve 0 "home", .change noFiles, .resolve 0 "home", .resolve 1 "home"]

def base : Library Value := ⟨"/pages", [], none, some 1, none, 1⟩

def renderer : Renderer Value :=
  ⟨⟨"/pages", [("parts", (parts.settle start.nextMark).1)], none, some 2, none, 1⟩,
    some ⟨"base", base⟩⟩

def opened : Store where
  frames := start.frames
  nextMark := (parts.settle start.nextMark).2
  caches := #[[], [], []]
  counters := #[0, 0]

theorem setUp_renderer : (Renderer.setUp "/pages" setups).perform ⟨files, 0⟩ start =
    (.ok renderer, opened) := rfl

/-- The store when the template was compiled. -/
def compiled : Store :=
  ((Template.prepare .standard "home.txt" program renderer.library.globals
    (.ofName "home.txt")).perform ⟨files, 0⟩ opened).2

theorem prepare_home : Template.prepare .standard "home.txt" program renderer.library.globals
    (.ofName "home.txt") ⟨files, 0⟩ opened = .ok (leaf 1) compiled := rfl

/-- The store when the template was looked up. -/
def served : Store :=
  { compiled with caches := #[[], [], [("home", .template (leaf 1))]], counters := #[0, 1] }

theorem resolve_home :
    renderer.resolve .standard "home" ⟨files, 0⟩ opened = .ok (.template (leaf 1)) served :=
  Renderer.resolve_of_load rfl (load_home .standard rfl rfl prepare_home) rfl

/-- The site when all is done. -/
def closed : Site where
  setting := ⟨noFiles, 0⟩
  store := served
  renderers := [renderer, ⟨base, none⟩]
  log := [⟨renderer, "home", ⟨files, 0⟩, opened, served, .ok (.template (leaf 1))⟩,
    ⟨renderer, "home", ⟨noFiles, 0⟩, served, served, .ok (.template (leaf 1))⟩,
    ⟨⟨base, none⟩, "home", ⟨noFiles, 0⟩, served, served,
      .error (.failure (.lookup (.notFound "home" "/pages")))⟩]

theorem run_acts : (Site.opened renderer ⟨files, 0⟩ opened).run acts = closed := by
  have hFirst : (Site.opened renderer ⟨files, 0⟩ opened).act (.resolve 0 "home") =
      (Site.opened renderer ⟨files, 0⟩ opened).record renderer "home" (.ok (.template (leaf 1)))
        served := by
    rw [Site.act_resolve rfl, Site.opened, Run.perform_of_eq_ok resolve_home]
  show ((Site.opened renderer ⟨files, 0⟩ opened).act (.resolve 0 "home")).run acts.tail = _
  rw [hFirst]
  with_unfolding_all rfl

end Shelf

/-- The page is the same when the file is gone, and it counts once. -/
theorem shelf_serves_what_it_had :
    (∃ first second, Shelf.closed.log[0]? = some first ∧ Shelf.closed.log[1]? = some second ∧
      second.setting.files = Shelf.noFiles ∧ second.answer = first.answer) ∧
    (Shelf.renderer.compilations.perform Shelf.closed.setting Shelf.closed.store).1 = .ok 1 := by
  have hClosed := lookups_are_accounted_for Shelf.apart_start Shelf.setUp_renderer
    (Shelf.passes_setups (Option.not_mem_none 0) (by decide)) Shelf.acts
  rw [Shelf.run_acts] at hClosed
  obtain ⟨hFixed, -, -, hElsewhere⟩ := hClosed
  obtain ⟨-, -, -, hCount⟩ := hElsewhere (Shelf.passes_setups (by decide) Nat.zero_lt_one)
  refine ⟨⟨_, _, rfl, rfl, rfl, ?_⟩, ?_⟩
  · exact hFixed [_] _ [_] rfl _ (List.mem_singleton_self _) ⟨rfl, 2, rfl, rfl⟩ _ rfl
  · exact (hCount ⟨rfl, by rintro _ ⟨⟩; rfl⟩).trans (by with_unfolding_all rfl)

/-! #### A memory that stays, and a count that is shared -/

namespace Shelf

/-- The layout is chosen before the memory is given up. -/
def layoutFirst : List Setup := [.configure (.layout "base"), .cache false]

/-- The renderer without its memory. -/
def clone : Renderer Value := ⟨⟨"/pages", [], none, none, none, 0⟩, none⟩

/-- The clone is one of the globals. -/
def cloned : List Setup := [.configure (.global "pages" (.renderer clone none))]

/-- Without globals, a renderer of the directory finds the page and counts it. -/
theorem load_leaf (services : Services) (renderer : Renderer Value)
    (hRoot : renderer.library.root = "/pages") (hEscape : renderer.library.escape = none)
    (hGlobals : renderer.library.globals = []) (passes : Nat) (store : Store) :
    ∃ frame after, renderer.load services "home" ⟨files, passes⟩ store =
        .ok (.template (leaf frame)) after ∧ after.caches = store.caches ∧
      after.counters = store.counters.modify renderer.library.counter (· + 1) := by
  obtain ⟨frame, compiled, hPrepare, hCaches, hCounters⟩ : ∃ frame compiled,
      Template.prepare services "home.txt" program [] (.ofName "home.txt") ⟨files, passes⟩ store =
          .ok (leaf frame) compiled ∧
        compiled.caches = store.caches ∧ compiled.counters = store.counters :=
    ⟨_, _, rfl, rfl, rfl⟩
  refine ⟨frame, _, load_home services hRoot hEscape (hGlobals ▸ hPrepare), ?_, ?_⟩
  · rw [caches_charge, hCaches]
  · exact congrArg (Array.modify · _ _) hCounters

/-- The library of the layout, which has kept its memory. -/
def wrapper : Renderer Value := ⟨⟨"/pages", [], none, some 0, none, 0⟩, none⟩

def forgetful : Renderer Value :=
  ⟨⟨"/pages", [], none, none, none, 0⟩, some ⟨"base", wrapper.library⟩⟩

/-- A store with one memory and one counter. -/
def fresh : Store := { Store.initial with caches := #[[]], counters := #[0] }

/-- The library of the layout finds the page when the file is gone. -/
theorem exists_stale (passes : Nat) : ∃ lookup ∈ ((Site.opened forgetful ⟨files, passes⟩ fresh).run
    [.resolve 1 "home", .change noFiles, .resolve 1 "home"]).log, ¬ lookup.Shows := by
  obtain ⟨frame, middle, hLoad, hCaches, -⟩ :=
    load_leaf .standard wrapper rfl rfl rfl passes fresh
  have hMiddle : middle.kept? (some 0) "home" = none := by
    rw [Store.kept?_of_mem rfl, Store.entries, hCaches]
    rfl
  have hResolve := Renderer.resolve_of_load rfl hLoad hMiddle
  generalize hAfter : middle.keep wrapper.library.cache "home" (.template (leaf frame)) = after
    at hResolve
  have hKept : after.kept? wrapper.library.cache "home" = some (.template (leaf frame)) := by
    refine Renderer.find?_of_resolve hResolve rfl ?_
    rw [← hAfter, Store.size_keep, hCaches]
    exact Nat.zero_lt_one
  have hAgain : wrapper.resolve .standard "home" ⟨noFiles, passes⟩ after =
      .ok (.template (leaf frame)) after := Renderer.resolve_of_kept hKept
  refine ⟨⟨wrapper, "home", ⟨noFiles, passes⟩, after, after, .ok (.template (leaf frame))⟩,
    ?_, fun hShows => ?_⟩
  · rw [Site.run, List.foldl_cons, Site.act_resolve (rfl : _ = some wrapper)]
    simp only [Site.opened, Run.perform_of_eq_ok hResolve, List.foldl_cons, List.foldl_nil]
    rw [Site.act_resolve (rfl : _ = some wrapper)]
    simp only [Site.act, Site.record, Run.perform_of_eq_ok hAgain]
    exact List.mem_append_right _ (List.mem_singleton_self _)
  · have hGone : Renderer.locate noFiles "/pages" "home" =
        .error (.lookup (.notFound "home" "/pages")) := by with_unfolding_all rfl
    rw [Lookup.Shows, Renderer.Shows] at hShows
    simp only [wrapper, hGone] at hShows
    cases hShows

def outerProgram : Program := ⟨[⟨"x", some (.attribute (.name "pages") "home")⟩], []⟩

/-- Does the reader give the one parameter of the template? -/
def isOuter : Except SyntaxFault (List Parameter) → Bool
  | .ok [⟨"x", some (.attribute (.name "pages") "home")⟩] => true
  | _ => false

theorem eq_of_isOuter {result : Except SyntaxFault (List Parameter)} (h : isOuter result = true) :
    result = .ok outerProgram.parameters := by
  unfold isOuter at h
  split at h
  · rfl
  · cases h

theorem read_outer :
    Program.read (normalizeText "$def with (x=pages.home)\n".toList) = .ok outerProgram := by
  have hDocument : Document.read (normalizeText "$def with (x=pages.home)\n".toList) =
      .ok ⟨some "(x=pages.home)".toList, []⟩ := by with_unfolding_all rfl
  exact Program.read_of_parameters hDocument (eq_of_isOuter (by decide +kernel))

theorem locate_outer : Renderer.locate files "/pages" "outer" =
    .ok (.template "$def with (x=pages.home)\n" "outer.txt") := by
  with_unfolding_all rfl

/-- The page is compiled for the default, by the clone that has no memory. -/
theorem access_clone (mark : Mark) (passes : Nat) (store : Store) : ∃ value after,
    Services.standard.access (.renderer clone mark) "home" ⟨files, passes⟩ store = .ok value after ∧
      after.caches = store.caches ∧ after.counters = store.counters.modify 0 (· + 1) := by
  obtain ⟨inner, hServices⟩ := exists_servicesOver_eq callLimit
  obtain ⟨loader, hAccess, -⟩ := exists_assemble_apply inner ⟨files, passes⟩
  obtain ⟨frame, after, hLoad, hCaches, hCounters⟩ :=
    load_leaf loader clone rfl rfl rfl passes store
  have hResolve := Renderer.resolve_of_load rfl hLoad rfl
  refine ⟨.page clone (leaf frame) none, after, ?_, hCaches, hCounters⟩
  rw [Services.standard, hServices, hAccess]
  exact (Run.bind_of_eq_ok hResolve).trans rfl

/-- The renderer that has its clone as a global. -/
def reflexive : Renderer Value :=
  ⟨⟨"/pages", [("pages", .renderer clone (some Store.initial.nextMark))], none, some 0, none, 0⟩,
    none⟩

/-- The store after it was set up. -/
def reflected : Store := { fresh with nextMark := Store.initial.nextMark + 1 }

/-- The store with a frame for the globals, and the clone defined in it. -/
def entered : Store :=
  ((do
    let frame ← Run.openFrame Store.builtinFrame
    Run.defineAll frame reflexive.library.globals).perform ⟨files, 0⟩ reflected).2

theorem prepare_outer (passes : Nat) : ∃ template after,
    Template.prepare .standard "outer.txt" outerProgram reflexive.library.globals
        (.ofName "outer.txt") ⟨files, passes⟩ reflected = .ok template after ∧
      after.caches = reflected.caches ∧ after.counters = #[1] := by
  obtain ⟨value, after, hAccess, hCaches, hCounters⟩ :=
    access_clone (some Store.initial.nextMark) passes entered
  have hDefault : Expr.evaluate .standard ⟨1, [], .ofName "outer.txt"⟩ .empty
      (.attribute (.name "pages") "home") ⟨files, passes⟩ entered =
        Run.settle value ⟨files, passes⟩ after := by
    have hName : Expr.evaluate .standard ⟨1, [], .ofName "outer.txt"⟩ .empty (.name "pages")
        ⟨files, passes⟩ entered =
          .ok (.renderer clone (some Store.initial.nextMark)) entered := by
      rw [Expr.evaluate]
      rfl
    rw [Expr.evaluate, Run.bind_of_eq_ok hName, Run.bind_of_eq_ok hAccess]
  refine ⟨⟨"outer.txt", outerProgram, [some (value.settle after.nextMark).1],
    .ofName "outer.txt", 1⟩, { after with nextMark := (value.settle after.nextMark).2 }, ?_,
    hCaches, hCounters⟩
  show (evaluateDefaults .standard ⟨1, [], .ofName "outer.txt"⟩ .empty outerProgram.parameters >>=
    fun defaults => pure (⟨"outer.txt", outerProgram, defaults, .ofName "outer.txt", 1⟩ :
      Template Value)) ⟨files, passes⟩ entered = _
  have hDefaults : evaluateDefaults .standard ⟨1, [], .ofName "outer.txt"⟩ .empty
      outerProgram.parameters ⟨files, passes⟩ entered =
        .ok [some (value.settle after.nextMark).1]
          { after with nextMark := (value.settle after.nextMark).2 } := by
    rw [outerProgram, evaluateDefaults, Option.mapM_some, map_eq_pure_bind, bind_assoc,
      Run.bind_of_eq_ok hDefault]
    rfl
  rw [Run.bind_of_eq_ok hDefaults]
  rfl

/-- One template is remembered, and two were compiled. -/
theorem resolve_outer (passes : Nat) : ∃ template after,
    reflexive.resolve .standard "outer" ⟨files, passes⟩ reflected = .ok (.template template) after ∧
      after.caches = #[[("outer", .template template)]] ∧ after.counters = #[2] := by
  obtain ⟨template, compiled, hPrepare, hCaches, hCounters⟩ := prepare_outer passes
  have hLoad : reflexive.load .standard "outer" ⟨files, passes⟩ reflected =
      .ok (.template template) (compiled.charge 0 (.template template)) := by
    rw [Renderer.load_of_locate locate_outer _, Renderer.enter, Template.compile_eq, read_outer]
    exact (Run.bind_of_eq_ok hPrepare).trans rfl
  refine ⟨template, _, Renderer.resolve_of_load rfl hLoad ?_, ?_, ?_⟩
  · have hMemory : 0 ∈ reflexive.library.cache := rfl
    rw [kept?_charge, Store.kept?_of_mem hMemory, Store.entries, hCaches]
    rfl
  · show compiled.caches.modify 0 _ = _
    rw [hCaches]
    rfl
  · show compiled.counters.modify 0 _ = _
    rw [hCounters]
    rfl

end Shelf

/-- Without a memory, a renderer still serves a layout that is gone, when the layout was chosen
while there was a memory. And with a memory more is counted than is remembered, when a global of the
renderer is its own clone without one. -/
theorem layouts_remember_and_clones_count :
    (∃ renderer store, (Renderer.setUp "/pages" Shelf.layoutFirst).perform
        ⟨Shelf.files, Setting.mostPasses⟩ .initial = (.ok renderer, store) ∧
      renderer.library.cache = none ∧
      ∃ lookup ∈ ((Site.opened renderer ⟨Shelf.files, Setting.mostPasses⟩ store).run
        [.resolve 1 "home", .change Shelf.noFiles, .resolve 1 "home"]).log, ¬ lookup.Shows) ∧
    ∃ renderer store, (Renderer.setUp "/pages" Shelf.cloned).perform
        ⟨Shelf.files, Setting.mostPasses⟩ .initial = (.ok renderer, store) ∧
      renderer.Caches ∧
      let site := (Site.opened renderer ⟨Shelf.files, Setting.mostPasses⟩ store).run
        [.resolve 0 "outer"]
      (renderer.compilations.perform site.setting site.store).1 = .ok 2 ∧ site.templates = 1 := by
  refine ⟨⟨Shelf.forgetful, Shelf.fresh, rfl, rfl, Shelf.exists_stale _⟩,
    Shelf.reflexive, Shelf.reflected, rfl, ⟨rfl, nofun⟩, ?_⟩
  obtain ⟨template, after, hResolve, hCaches, hCounters⟩ := Shelf.resolve_outer Setting.mostPasses
  have hRun : (Site.opened Shelf.reflexive ⟨Shelf.files, Setting.mostPasses⟩ Shelf.reflected).run
      [.resolve 0 "outer"] = (Site.opened Shelf.reflexive ⟨Shelf.files, Setting.mostPasses⟩
        Shelf.reflected).record Shelf.reflexive "outer" (.ok (.template template)) after := by
    rw [Site.run, List.foldl_cons, List.foldl_nil,
      Site.act_resolve (rfl : _ = some Shelf.reflexive), Site.opened, Run.perform_of_eq_ok hResolve]
  rw [hRun]
  refine ⟨?_, ?_⟩
  · show Except.ok (after.counters[0]?.getD 0) = _
    rw [hCounters]
    rfl
  · show ∑ memory ∈ {0}, after.templatesIn memory = 1
    rw [Finset.sum_singleton, Store.templatesIn, Store.entries, hCaches]
    rfl

end Stencil
