import Mathlib.Data.List.Basic
import Mathlib.Order.CompleteBooleanAlgebra
import Mathlib.Order.CompletePartialOrder
import Stencil.Proofs.Alike.Calls
import Stencil.Proofs.Keeping
import Stencil.Proofs.Roots.Paths
import Stencil.Proofs.Screens.Calls
import Stencil.Proofs.Screens.Stores
import Stencil.Publishing

/-!
# Runs that stay below a root

Files agree below a root when the file system answers every question about paths below the root in
the same way: whether a directory is there, whether a file is there, what its text is, and which
files go on from a path that a name has been joined to. A name is looked up by asking such questions
alone, so files that agree below a root give the same answer, and what the name leads to lies below
the root.

A run stays below a root when, from a store whose libraries all have directories below the root, it
does the same whatever files there are elsewhere, and leaves such a store again. The steps of a run
stay below the root, since the only step that asks for files is the one that looks up a name, so
calls and attributes of values whose libraries have directories below the root do, too.

## Main results

* `Renderer.locate_of_agreeBelow`: what a name leads to depends on nothing outside the root.
* `Renderer.below_of_locate_eq_ok`: a directory that a name leads to lies below the root.
* `Files.agreeBelow_put`: a file that is written elsewhere changes nothing below the root.
* `Run.staysBelow_rules`: the steps of a run stay below the root.
-/

namespace Stencil

/-! ## Files that agree below a root -/

/-- The file system answers questions about what is below the root in the same way. -/
structure Files.AgreeBelow (root : String) (files other : Files) : Prop where
  isDirectory : ∀ path, Path.Below root path → other.isDirectory path = files.isDirectory path
  isFile : ∀ path, Path.Below root path → other.isFile path = files.isFile path
  readText : ∀ path, Path.Below root path → other.readText path = files.readText path
  withExtension : ∀ directory name, Path.Below root directory → checkName name = .ok () →
    other.withExtension (Path.join directory name) = files.withExtension (Path.join directory name)

namespace Renderer

/-- The directories that names lead to. -/
theorem eq_join_of_locate_eq_ok {files : Files} {root name path : String}
    (h : locate files root name = .ok (.directory path)) :
    checkName name = .ok () ∧ files.isDirectory path = true ∧ path = Path.join root name := by
  unfold locate at h
  cases hName : checkName name with
  | error cause => simp [hName, bind, Except.bind] at h
  | ok _ =>
      simp only [hName, bind_ok] at h
      split at h
      · rename_i hDirectory
        obtain rfl : Path.join root name = path := Located.directory.inj (Except.ok.inj h)
        exact ⟨rfl, hDirectory, rfl⟩
      · split at h
        · cases h
        · rename_i file _
          cases hText : files.readText file with
          | error cause => simp [hText, bind, Except.bind] at h
          | ok text => simp [hText] at h

/-- A directory that a name leads to lies below the root. -/
theorem below_of_locate_eq_ok {files : Files} {root name path : String}
    (h : locate files root name = .ok (.directory path)) : Path.Below root path := by
  obtain ⟨hName, -, rfl⟩ := eq_join_of_locate_eq_ok h
  exact Path.below_join root hName

/-- What a name leads to depends on nothing that is not below the root. -/
theorem locate_of_agreeBelow {files other : Files} (hFiles : files.Proper) {root : String}
    (hAgree : files.AgreeBelow root other) {directory : String}
    (hBelow : Path.Below root directory) (name : String) :
    locate other directory name = locate files directory name := by
  unfold locate
  cases hName : checkName name with
  | error cause => rfl
  | ok _ =>
      have hJoin := hBelow.trans (Path.below_join directory hName)
      have hFind : other.find? (Path.join directory name) =
          files.find? (Path.join directory name) := by
        unfold Files.find?
        rw [hAgree.withExtension directory name hBelow hName, hAgree.isFile _ hJoin]
      simp only [hAgree.isDirectory _ hJoin, hFind]
      cases hFound : files.find? (Path.join directory name) with
      | none => rfl
      | some file =>
          have hFile := hBelow.trans (Files.below_of_find?_eq_some hFiles hName hFound)
          simp only [hAgree.readText file hFile]

end Renderer

/-! ## Files that are written elsewhere -/

namespace Files

/-- Goes from a location along a step. -/
def placeAfter (location : Location) : Path.Component → Location
  | .root => []
  | .here => location
  | .parent => location.dropLast
  | .name text => location ++ [text]

/-- A path that leads anywhere leads along its steps. -/
theorem walk_eq_some {files : Files} {segments : List String} {location found : Location}
    (h : files.walk location segments = some found) :
    found = (Path.stepsOf segments).foldl placeAfter location := by
  induction segments generalizing location with
  | nil => exact (Option.some.inj h).symm
  | cons segment rest ih =>
      rw [walk] at h
      obtain ⟨-, h⟩ := Option.ite_none_right_eq_some.1 h
      rw [Path.stepsOf, List.filterMap_cons]
      unfold Path.Component.ofSegment?
      split at h
      · rename_i hIdle
        rw [if_pos hIdle]
        exact ih h
      · rename_i hIdle
        rw [if_neg hIdle]
        split at h
        · rename_i hParent
          rw [if_pos hParent]
          exact ih h
        · rename_i hParent
          rw [if_neg hParent]
          exact ih h

theorem locate?_eq_some {files : Files} {path : String} {location : Location}
    (h : files.locate? path = some location) :
    location = (Path.steps path).foldl placeAfter files.workingDirectory := by
  unfold locate? at h
  obtain ⟨-, h⟩ := Option.ite_none_left_eq_some.1 h
  rw [Path.steps_eq]
  split at h
  · rename_i hAbsolute
    rw [if_pos hAbsolute]
    exact walk_eq_some h
  · rename_i hRelative
    rw [if_neg hRelative]
    exact walk_eq_some h

/-- Names lead further down. -/
theorem isPrefix_foldl_placeAfter {steps : List Path.Component}
    (h : ∀ c ∈ steps, ∃ name, c = .name name) (location : Location) :
    location <+: steps.foldl placeAfter location := by
  induction steps generalizing location with
  | nil => exact List.prefix_refl _
  | cons step rest ih =>
      obtain ⟨⟨name, rfl⟩, hRest⟩ := List.forall_mem_cons.1 h
      exact (List.prefix_append location [name]).trans (ih hRest _)

/-- The location of the root, whether or not there is anything. -/
def rootOf (files : Files) (root : String) : Location :=
  (Path.steps root).foldl placeAfter files.workingDirectory

/-- A path below a root leads to a location below that of the root. -/
theorem isPrefix_of_below {files : Files} {root path : String} (hBelow : Path.Below root path)
    {location : Location} (h : files.locate? path = some location) :
    files.rootOf root <+: location := by
  obtain ⟨rest, hRest, hNames⟩ := hBelow
  rw [locate?_eq_some h, hRest, List.foldl_append]
  exact isPrefix_foldl_placeAfter hNames _

section Put

variable {files : Files} {root : String} {place : Location}

theorem descend_put (files : Files) (place : Location) (bytes : ByteArray) (path : String)
    (segments : List String) :
    (files.put place bytes).descend path segments = files.descend path segments := by
  induction segments generalizing path with
  | nil => rfl
  | cons segment rest ih =>
      rw [descend, descend, ih, locate?_put]
      rfl

theorem fileNames_put {directory : Location} (h : place.dropLast ≠ directory) (bytes : ByteArray) :
    (files.put place bytes).fileNames directory = files.fileNames directory := by
  unfold fileNames put
  rw [List.filterMap_cons_none (by simp [h]), List.filterMap_filter]
  refine List.filterMap_congr fun entry _ => ?_
  by_cases hSame : entry.1 = place
  · simp [hSame, h]
  · simp [hSame]

/-- A file that is written elsewhere changes nothing below the root. -/
theorem agreeBelow_put (hElsewhere : ¬ files.rootOf root <+: place) (bytes : ByteArray) :
    files.AgreeBelow root (files.put place bytes) := by
  have hRead {path : String} (hBelow : Path.Below root path) :
      (files.put place bytes).read? path = files.read? path := by
    unfold read?
    rw [locate?_put]
    cases hLocation : files.locate? path with
    | none => rfl
    | some location =>
        refine bytes?_put_other files (fun hSame => hElsewhere ?_) bytes
        exact hSame ▸ isPrefix_of_below hBelow hLocation
  refine ⟨fun path _ => ?_, fun path hBelow => ?_, fun path hBelow => ?_,
    fun directory name hBelow hName => ?_⟩
  · unfold isDirectory
    rw [locate?_put]
    rfl
  · rw [isFile, isFile, hRead hBelow]
  · rw [readText, readText, hRead hBelow]
  · rw [withExtension_eq, withExtension_eq]
    have hAbove : (files.put place bytes).above? (Path.join directory name) =
        files.above? (Path.join directory name) := by
      unfold above?
      rw [descend_put, descend_put]
    rw [hAbove]
    cases hDirectory : files.above? (Path.join directory name) with
    | none => rfl
    | some above =>
        simp only [locate?_put]
        cases hLocation : files.locate? above with
        | none => rfl
        | some location =>
            have hBelow := hBelow.trans (below_of_above?_eq_some hName hDirectory)
            have hOther : place.dropLast ≠ location := fun hSame => hElsewhere
              ((hSame ▸ isPrefix_of_below hBelow hLocation).trans (List.dropLast_prefix place))
            simp only [fileNames_put hOther]

end Put

end Files

/-! ## Runs -/

/-- Values may hold any function, but only libraries of directories below the root. -/
def Screen.rooted (root : String) : Screen where
  admits _ _ := True
  serves directory _ _ := Path.Below root directory

/-- All libraries that the store holds have directories below the root, and the names that are
remembered lead down. -/
abbrev Store.Rooted (root : String) (store : Store) : Prop :=
  store.Respects (.rooted root) fun _ _ => False

/-- All names may be looked up in all frames. -/
def View.rooted (root : String) : View Unit where
  screen _ := .rooted root
  knows _ _ := True
  sees _ _ _ := True
  screen_mono _ := le_rfl
  knows_mono _ h := h
  sees_mono _ _ h := h

theorem View.covers_rooted {root : String} {w : Unit} {frame : FrameId} {names : List String} :
    (View.rooted root).Covers w frame names :=
  ⟨trivial, fun _ _ => trivial⟩

namespace Run

/-- The run does not depend on files that are not below the root, and what comes out of it has
libraries of directories below the root alone. -/
def StaysBelow (root : String) {α : Type} [Renamable α] (action : Run α) : Prop :=
  ∀ (setting : Setting) (other : Files) (store : Store), setting.files.Proper →
    setting.files.AgreeBelow root other → store.Rooted root →
    action { setting with files := other } store = action setting store ∧
      match action setting store with
      | .ok a after => (Screen.rooted root).Passes a ∧ after.Rooted root
      | .error _ after => after.Rooted root

namespace StaysBelow

variable {root : String} {α β : Type} [Renamable α] [Renamable β]

/-- A step that does not ask for files. -/
theorem of_store {action : Run α} (hFiles : ∀ setting other store,
      action { setting with files := other } store = action setting store)
    (h : ∀ setting store, store.Rooted root → match action setting store with
      | .ok a after => (Screen.rooted root).Passes a ∧ after.Rooted root
      | .error _ after => after.Rooted root) : StaysBelow root action :=
  fun setting other store _ _ hStore => ⟨hFiles setting other store, h setting store hStore⟩

theorem pure {a : α} (h : (Screen.rooted root).Passes a) : StaysBelow root (Pure.pure a : Run α) :=
  of_store (fun _ _ _ => rfl) fun _ _ hStore => ⟨h, hStore⟩

theorem stop (cause : Stop) : StaysBelow root (throw cause : Run α) :=
  of_store (fun _ _ _ => rfl) fun _ _ hStore => hStore

theorem bind {action : Run α} {next : α → Run β} (h : StaysBelow root action)
    (hNext : ∀ a, (Screen.rooted root).Passes a → StaysBelow root (next a)) :
    StaysBelow root (action >>= next) := by
  intro setting other store hFiles hAgree hStore
  obtain ⟨hSame, hAfter⟩ := h setting other store hFiles hAgree hStore
  rw [Preserves.bind_apply, Preserves.bind_apply, hSame]
  cases hRun : action setting store with
  | error cause after => exact ⟨rfl, by simpa [hRun] using hAfter⟩
  | ok a after =>
      rw [hRun] at hAfter
      exact hNext a hAfter.1 setting other after hFiles hAgree hAfter.2

/-- A step that gives what it finds in the store. -/
theorem get {f : Store → α}
    (h : ∀ store, store.Rooted root → (Screen.rooted root).Passes (f store)) :
    StaysBelow root (do return f (← MonadState.get) : Run α) :=
  of_store (fun _ _ _ => rfl) fun _ store hStore => ⟨h store hStore, hStore⟩

/-- A step that changes the store. -/
theorem modifyGet {f : Store → α × Store}
    (h : ∀ store, store.Rooted root →
      (Screen.rooted root).Passes (f store).1 ∧ (f store).2.Rooted root) :
    StaysBelow root (MonadStateOf.modifyGet f : Run α) :=
  of_store (fun _ _ _ => rfl) fun _ store hStore => h store hStore

theorem settle {value : Value} (h : (Screen.rooted root).Passes value) :
    StaysBelow root (Run.settle value) :=
  modifyGet fun store hStore => ⟨h.settle store.nextMark, hStore.counts _ store.counters⟩

theorem remembered? (cache : Nat) (name : String) : StaysBelow root (Run.remembered? cache name) :=
  get fun _ hStore => hStore.remembered cache name

theorem locate {directory : String} (hBelow : Path.Below root directory) (name : String)
    {next : Located → Run α}
    (hNext : ∀ located, (∀ path, located = .directory path → Path.Below root path) →
      StaysBelow root (next located)) :
    StaysBelow root (MonadReader.read >>= fun setting =>
      Run.ofResult (Renderer.locate setting.files directory name) >>= next) := by
  intro setting other store hFiles hAgree hStore
  show (Run.ofResult (Renderer.locate other directory name) >>= next)
    { setting with files := other }
      store = (Run.ofResult (Renderer.locate setting.files directory name) >>= next) setting store ∧
    match (Run.ofResult (Renderer.locate setting.files directory name) >>= next) setting store with
    | .ok a after => (Screen.rooted root).Passes a ∧ after.Rooted root
    | .error _ after => after.Rooted root
  rw [Renderer.locate_of_agreeBelow hFiles hAgree hBelow name]
  cases hLocated : Renderer.locate setting.files directory name with
  | error cause => exact ⟨rfl, hStore⟩
  | ok located =>
      refine hNext located (fun path hPath => ?_) setting other store hFiles hAgree hStore
      subst hPath
      exact hBelow.trans (Renderer.below_of_locate_eq_ok hLocated)

end StaysBelow

open StaysBelow in
/-- The steps of a run stay below the root. -/
theorem staysBelow_rules (root : String) :
    (View.rooted root).CallRules fun _ _ _ action => StaysBelow root action where
  pure h := StaysBelow.pure h
  fail cause := stop (.failure cause)
  bind h hNext := h.bind fun a ha => hNext () le_rfl a ha
  settle h := StaysBelow.settle h
  lookup? {_ frame name} _ _ := get fun _ hStore =>
    hStore.lookupWithin (fun _ => True) (fun _ _ hHidden => hHidden)
      (fun _ _ _ _ _ _ => trivial) frame frame trivial
  unfinished := stop .unfinished
  passes h := fun setting other store hFiles hAgree hStore =>
    h setting.passes setting other store hFiles hAgree hStore
  define frame name h := (StaysBelow.settle h).bind fun _ hValue =>
    modifyGet fun _ hStore => ⟨rfl, hStore.define frame name hValue⟩
  defineFunction frame name h := modifyGet fun _ hStore => ⟨rfl, hStore.define frame name h⟩
  admits := iff_of_true trivial View.covers_rooted
  inNewFrame {_ _ _ parent _} _ hNext := StaysBelow.bind
    (modifyGet fun _ hStore => ⟨rfl, hStore.child parent⟩)
    fun frame _ => hNext () le_rfl frame fun _ _ => View.covers_rooted
  newCache hNext := StaysBelow.bind (modifyGet fun _ hStore => ⟨rfl, hStore.newCache⟩)
    fun memory _ => hNext () le_rfl memory fun _ _ _ hServes => hServes
  remembered? {_ _ cache _} name _ := StaysBelow.remembered? cache name
  remember {_ _ cache _ name resolved} _ hName h := by
    refine (StaysBelow.remembered? cache name).bind fun found hFound => ?_
    cases found with
    | some earlier => exact StaysBelow.pure hFound.of_some
    | none =>
        have hStored : StaysBelow root (modify fun store =>
            { store with caches := store.caches.modify cache (Entries.insert name resolved) } :
              Run Unit) :=
          modifyGet fun _ hStore => ⟨rfl, hStore.remember cache hName h⟩
        exact hStored.bind fun _ _ => StaysBelow.pure h
  count _ := modifyGet fun store hStore => ⟨rfl, hStore.counts store.nextMark _⟩
  locate {_ _ _ _ _ _ name _} hServes hNext :=
    StaysBelow.locate hServes name fun located hLocated =>
    hNext located hLocated
  builtins _ := View.covers_rooted

end Run

end Stencil
