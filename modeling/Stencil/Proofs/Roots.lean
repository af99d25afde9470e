import Stencil.Proofs.Caching
import Stencil.Proofs.Roots.Runs

/-!
# No name leaves the root

A host makes a renderer for a root directory, sets it up, and comes to renderers for other
directories by resolving names, one after another; between that it resolves other names and renders
pages, and the files may change at any time. All along, the renderers at hand are for directories
below the root, and so is every library that is remembered or handed to a template.

What a name leads to then depends on no file that is not below the root, whether the host resolves
it, or a template asks for it as an attribute or an index of a renderer. Names that are empty,
absolute, or go up anywhere are refused without a look at the files.

## Main results

* `checkName_of_leadsAway`: names that lead away are refused.
* `Hosted.rooted`: the renderers at hand are for directories below the root.
* `names_stay_below_root`: no name leaves the root.
* `render_put_elsewhere`: a file that is written elsewhere changes no page.
-/

namespace Stencil

/-! ## Names that are refused -/

/-- The name is empty, starts at the root of the file system, or leads to a directory above. -/
def Path.LeadsAway (name : String) : Prop :=
  name = "" ∨ Path.isAbsolute name = true ∨ Path.Component.parent ∈ Path.components name

/-- Why a name that leads away is not valid. -/
def LookupCause.invalidName (name : String) : LookupCause :=
  if name = "" then .emptyName
  else if Path.isAbsolute name then .absoluteName name
  else .parentName name

namespace Path

theorem head?_components_of_isAbsolute {name : String} (h : isAbsolute name = true) :
    ∃ rest, components name = .root :: rest := by
  obtain ⟨rest, hRest⟩ := segments_of_isAbsolute h
  refine ⟨(locate.later rest).map Prod.fst, ?_⟩
  rw [components, locate, hRest]
  simp [h]

theorem root_notMem_components {name : String} (h : isAbsolute name = false) :
    Component.root ∉ components name := by
  intro hRoot
  have hStep : Component.root ∈ steps name := List.mem_filter.2 ⟨hRoot, by decide⟩
  rw [steps_eq, h] at hStep
  obtain ⟨segment, -, hSegment⟩ := List.mem_filterMap.1 hStep
  unfold Component.ofSegment? at hSegment
  split at hSegment
  · cases hSegment
  · split at hSegment <;> cases hSegment

end Path

/-- Names that lead away are refused. -/
theorem checkName_of_leadsAway {name : String} (h : Path.LeadsAway name) :
    checkName name = .error (.lookup (.invalidName name)) := by
  unfold checkName LookupCause.invalidName
  by_cases hEmpty : name = ""
  · rw [if_pos hEmpty, if_pos hEmpty]
  · rw [if_neg hEmpty, if_neg hEmpty]
    cases hAbsolute : Path.isAbsolute name with
    | true =>
        obtain ⟨rest, hRest⟩ := Path.head?_components_of_isAbsolute hAbsolute
        rw [hRest]
        rfl
    | false =>
        have hParent : Path.Component.parent ∈ Path.components name := by
          obtain h | h | h := h
          · exact absurd h hEmpty
          · rw [hAbsolute] at h
            cases h
          · exact h
        cases hFound : (Path.components name).findSome? (·.refusal? name) with
        | none => cases List.findSome?_eq_none_iff.1 hFound _ hParent
        | some cause =>
            obtain ⟨c, hc, hCause⟩ := List.exists_of_findSome?_eq_some hFound
            cases c with
            | root => exact absurd hc (Path.root_notMem_components hAbsolute)
            | parent =>
                obtain rfl : LookupCause.parentName name = cause := Option.some.inj hCause
                rfl
            | here => cases hCause
            | name text => cases hCause

/-- Names that do not lead away are not refused. -/
theorem checkName_of_not_leadsAway {name : String} (h : ¬ Path.LeadsAway name) :
    checkName name = .ok () := by
  obtain ⟨hEmpty, h⟩ := not_or.1 h
  obtain ⟨hAbsolute, hParent⟩ := not_or.1 h
  refine checkName_eq_ok_iff.2 ⟨hEmpty, fun c hc => ⟨?_, ?_⟩⟩
  · rintro rfl
    exact Path.root_notMem_components (Bool.eq_false_iff.2 hAbsolute) hc
  · rintro rfl
    exact hParent hc

/-! ## Renderers at hand -/

/-- A global that is set up holds no library of a directory elsewhere. -/
def Setup.Rooted (root : String) : Setup → Prop
  | configure (.global _ value) => value.Respects (.rooted root)
  | _ => True

/-- A host that starts with a renderer for the root can have these renderers at hand, and this
store. Each step is taken with the files that are there then. -/
inductive Hosted (root : String) : List (Renderer Value) → Store → Prop
  /-- A renderer is made for the root. -/
  | new {renderer : Renderer Value} (setting : Setting) (hFiles : setting.files.Proper)
      {store : Store} (h : (Renderer.new root).perform setting .initial = (.ok renderer, store)) :
      Hosted root [renderer] store
  /-- One more thing is said about a renderer. -/
  | setUp {renderers : List (Renderer Value)} {store : Store} (before : Hosted root renderers store)
      {renderer changed : Renderer Value} (hRenderer : renderer ∈ renderers) {setup : Setup}
      (hSetup : setup.Rooted root) {setting : Setting} (hFiles : setting.files.Proper)
      {after : Store} (h : (setup.apply renderer).perform setting store = (.ok changed, after)) :
      Hosted root (changed :: renderers) after
  /-- A name leads to the renderer of a directory. -/
  | child {renderers : List (Renderer Value)} {store : Store} (before : Hosted root renderers store)
      {renderer child : Renderer Value} (hRenderer : renderer ∈ renderers) {setting : Setting}
      (hFiles : setting.files.Proper) {name : String} {after : Store}
      (h : (renderer.resolve .standard name).perform setting store =
        (.ok (.directory child), after)) :
      Hosted root (child :: renderers) after
  /-- A name leads to a template, or nowhere. -/
  | resolve {renderers : List (Renderer Value)} {store : Store}
      (before : Hosted root renderers store) {renderer : Renderer Value}
      (hRenderer : renderer ∈ renderers) {setting : Setting} (hFiles : setting.files.Proper)
      (name : String) :
      Hosted root renderers ((renderer.resolve .standard name).perform setting store).2
  /-- A page is rendered. The parameters hold no library of a directory elsewhere. -/
  | render {renderers : List (Renderer Value)} {store : Store}
      (before : Hosted root renderers store) {renderer : Renderer Value}
      (hRenderer : renderer ∈ renderers) {setting : Setting} (hFiles : setting.files.Proper)
      (name : String) {parameters : List (String × Value)}
      (hParameters : entriesRespect (.rooted root) parameters) :
      Hosted root renderers ((renderer.render name parameters).perform setting store).2

namespace Run.StaysBelow

variable {root : String} {α : Type} [Renamable α] {action : Run α} {setting : Setting}
  {store : Store}

/-- What comes out of a run that stays below the root. -/
theorem outcome (h : StaysBelow root action) (hFiles : setting.files.Proper)
    (hStore : store.Rooted root) :
    (∀ a, (action.perform setting store).1 = .ok a → (Screen.rooted root).Passes a) ∧
      (action.perform setting store).2.Rooted root := by
  have hAfter := (h setting setting.files store hFiles
    ⟨fun _ _ => rfl, fun _ _ => rfl, fun _ _ => rfl, fun _ _ _ _ => rfl⟩ hStore).2
  unfold perform ReaderT.run EStateM.run
  cases hRun : action setting store with
  | error cause after =>
      rw [hRun] at hAfter
      exact ⟨nofun, hAfter⟩
  | ok a after =>
      rw [hRun] at hAfter
      exact ⟨fun b hb => Except.ok.inj hb ▸ hAfter.1, hAfter.2⟩

/-- Files elsewhere do not matter. -/
theorem perform_eq (h : StaysBelow root action) (setting : Setting)
    (hFiles : setting.files.Proper) (hStore : store.Rooted root) {other : Files}
    (hAgree : setting.files.AgreeBelow root other) :
    action.perform { setting with files := other } store = action.perform setting store := by
  unfold perform ReaderT.run EStateM.run
  rw [(h setting other store hFiles hAgree hStore).1]

end Run.StaysBelow

section Reading

variable {root : String} {renderer : Renderer Value}

open Run

theorem obeyed_within (root : String) (calls : Option Nat) (loads : Nat) :
    (View.rooted root).Obeyed (fun _ _ _ action => StaysBelow root action)
      (Services.within calls loads) :=
  (staysBelow_rules root).within calls loads

theorem staysBelow_new (root : String) : StaysBelow root (Renderer.new root) :=
  (staysBelow_rules root).newRenderer (w := ())
    (fun _ _ => StaysBelow.modifyGet fun store hStore => ⟨rfl, hStore.counts store.nextMark _⟩)
    fun _ _ _ _ => Path.Below.refl root

theorem staysBelow_resolve (h : (Screen.rooted root).Passes renderer) (name : String) :
    StaysBelow root (renderer.resolve .standard name) :=
  (staysBelow_rules root).resolve (w := ()) ((staysBelow_rules root).services callLimit) h name

theorem staysBelow_render (h : (Screen.rooted root).Passes renderer) (name : String)
    {parameters : List (String × Value)} (hParameters : entriesRespect (.rooted root) parameters) :
    StaysBelow root (renderer.render name parameters) :=
  (staysBelow_rules root).render (w := ()) h name (passes_entries_iff.2 hParameters)

/-- A renderer about which one more thing is said is for a directory below the root as before. -/
theorem staysBelow_setUp (h : (Screen.rooted root).Passes renderer) {setup : Setup}
    (hSetup : setup.Rooted root) : StaysBelow root (setup.apply renderer) := by
  have rules := staysBelow_rules root
  cases setup with
  | cache enabled =>
      exact rules.withCache (w := ()) h (fun _ _ _ _ => (Renderer.passes_iff.1 h).1) enabled
  | configure configuration =>
      refine rules.configure (w := ()) h fun name value hGlobal => ?_
      subst hGlobal
      exact Value.passes_iff.2 hSetup

end Reading

namespace Hosted

variable {renderers : List (Renderer Value)} {store : Store}

/-- The renderers at hand are for directories below the root, and so are the libraries that the
store holds. -/
theorem rooted (h : Hosted root renderers store) :
    (∀ renderer ∈ renderers, (Screen.rooted root).Passes renderer) ∧ store.Rooted root := by
  induction h with
  | @new renderer setting hFiles store h =>
      obtain ⟨hResult, hAfter⟩ := (staysBelow_new root).outcome hFiles Store.Respects.initial
      rw [h] at hResult hAfter
      exact ⟨List.forall_mem_singleton.2 (hResult _ rfl), hAfter⟩
  | @setUp renderers store _ renderer changed hRenderer setup hSetup setting hFiles after h ih =>
      obtain ⟨hResult, hAfter⟩ :=
        (staysBelow_setUp (ih.1 renderer hRenderer) hSetup).outcome hFiles ih.2
      rw [h] at hResult hAfter
      exact ⟨List.forall_mem_cons.2 ⟨hResult _ rfl, ih.1⟩, hAfter⟩
  | @child renderers store _ renderer child hRenderer setting hFiles name after h ih =>
      obtain ⟨hResult, hAfter⟩ :=
        (staysBelow_resolve (ih.1 renderer hRenderer) name).outcome hFiles ih.2
      rw [h] at hResult hAfter
      have hChild := Resolved.directory.inj (hResult _ rfl)
      exact ⟨List.forall_mem_cons.2 ⟨hChild, ih.1⟩, hAfter⟩
  | @resolve renderers store _ renderer hRenderer setting hFiles name ih =>
      exact ⟨ih.1,
        ((staysBelow_resolve (ih.1 renderer hRenderer) name).outcome hFiles ih.2).2⟩
  | @render renderers store _ renderer hRenderer setting hFiles name parameters hParameters ih =>
      exact ⟨ih.1,
        ((staysBelow_render (ih.1 renderer hRenderer) name hParameters).outcome hFiles ih.2).2⟩

end Hosted

/-! ## Refusals -/

section Refusals

variable {root name : String} {renderer : Renderer Value} {store : Store}

/-- A name that leads away is not remembered. -/
theorem Store.Respects.remembered_of_leadsAway (h : store.Rooted root) (hName : Path.LeadsAway name)
    (cache : Nat) : (store.caches[cache]?).bind (Entries.find? name) = none := by
  cases hEntries : store.caches[cache]? with
  | none => rfl
  | some entries =>
      cases hFound : Entries.find? name entries with
      | none => simp [hFound]
      | some resolved =>
          have hOk := (h.memories cache entries name resolved hEntries hFound).1
          rw [checkName_of_leadsAway hName] at hOk
          cases hOk

/-- A name that leads away is not valid, whatever files there are. -/
theorem resolve_of_leadsAway (h : store.Rooted root) (hName : Path.LeadsAway name)
    (services : Services) (renderer : Renderer Value) (setting : Setting) :
    renderer.resolve services name setting store =
      .error (.failure (.lookup (.invalidName name))) store := by
  have hLoad : renderer.load services name = Run.fail (.lookup (.invalidName name)) :=
    renderer.load_of_refused services (checkName_of_leadsAway hName)
  unfold Renderer.resolve
  cases renderer.library.cache with
  | none =>
      simp only [hLoad]
      rfl
  | some cache =>
      have hRemembered : Run.remembered? cache name setting store = .ok none store :=
        congrArg (EStateM.Result.ok · store) (h.remembered_of_leadsAway hName cache)
      simp only [Run.Preserves.bind_apply, hRemembered, hLoad]
      rfl

/-- Neither is it as an attribute of a renderer. -/
theorem access_of_leadsAway (h : store.Rooted root) (hName : Path.LeadsAway name)
    (inner : Option Services) (services : Services) (renderer : Renderer Value) (mark : Mark)
    (setting : Setting) :
    (assemble inner services).access (.renderer renderer mark) name setting store =
      .error (.failure (.lookup (.invalidName name))) store := by
  show accessWith services (.renderer renderer mark) name setting store = _
  simp only [accessWith, Run.Preserves.bind_apply, resolve_of_leadsAway h hName]

end Refusals

/-! ## Main result -/

/-- No name leaves the root.

The renderers that a host comes to are for directories below the root. With such a renderer and the
libraries of such a store, a name that leads away is not valid, for the host and for a template; any
other name is looked for below the root only. What resolving names, rendering pages and executing
code come to depends on no file that is not below the root, and all libraries in it are for
directories below the root again. -/
theorem names_stay_below_root (root : String) :
    (∀ renderers store, Hosted root renderers store →
      store.Rooted root ∧ ∀ renderer ∈ renderers, (Screen.rooted root).Passes renderer) ∧
    (∀ renderer, (Screen.rooted root).Passes renderer →
      Path.Below root renderer.library.root ∧
      (∀ name, Path.LeadsAway name → ∀ store, store.Rooted root →
        ∀ setting services inner mark keyMark,
          (renderer.resolve services name).perform setting store =
            (.error (.failure (.lookup (.invalidName name))), store) ∧
          ((assemble inner services).access (.renderer renderer mark) name).perform setting
            store = (.error (.failure (.lookup (.invalidName name))), store) ∧
          ((assemble inner services).item (.renderer renderer mark)
            (.string name keyMark)).perform setting store =
              (.error (.failure (.lookup (.invalidName name))), store)) ∧
      (∀ name, ¬ Path.LeadsAway name →
        Path.Below root (Path.join renderer.library.root name) ∧
        ∀ files : Files, files.Proper → ∀ file,
          files.find? (Path.join renderer.library.root name) = some file → Path.Below root file) ∧
      (∀ name calls loads, Run.StaysBelow root (renderer.resolve (.within calls loads) name)) ∧
      (∀ name parameters, entriesRespect (.rooted root) parameters →
        Run.StaysBelow root (renderer.render name parameters))) ∧
    (∀ calls loads scene out, (Screen.rooted root).Passes out →
      (∀ expr : Expr, Run.StaysBelow root (expr.evaluate (.within calls loads) scene out)) ∧
      ∀ body, Run.StaysBelow root (executeAll (.within calls loads) scene out body)) := by
  have rules := Run.staysBelow_rules root
  refine ⟨fun renderers store h => h.rooted.symm, fun renderer hRenderer => ?_,
    fun calls loads scene out hOut => ?_⟩
  · have hRoot : Path.Below root renderer.library.root := hRenderer.renderer.1
    refine ⟨hRoot, fun name hName store hStore setting services inner mark keyMark => ?_,
      fun name hName => ?_, fun name calls loads => ?_, fun name parameters => ?_⟩
    · have hAccess := access_of_leadsAway hStore hName inner services renderer mark setting
      refine ⟨?_, ?_, ?_⟩
      · unfold Run.perform ReaderT.run EStateM.run
        rw [resolve_of_leadsAway hStore hName]
      · unfold Run.perform ReaderT.run EStateM.run
        rw [hAccess]
      · have hItem : (assemble inner services).item (.renderer renderer mark)
            (.string name keyMark) = (assemble inner services).access
              (.renderer renderer mark) name := by
          rw [Services.item_eq]
          rfl
        unfold Run.perform ReaderT.run EStateM.run
        rw [hItem, hAccess]
    · have hValid := checkName_of_not_leadsAway hName
      exact ⟨hRoot.trans (Path.below_join _ hValid), fun files hFiles file hFile =>
        hRoot.trans (Files.below_of_find?_eq_some hFiles hValid hFile)⟩
    · exact rules.resolve (w := ()) (obeyed_within root calls loads) hRenderer name
    · exact staysBelow_render hRenderer name
  · have hServices := obeyed_within root calls loads
    exact ⟨fun expr => rules.evaluate (w := ()) hServices expr View.covers_rooted hOut,
      fun body => rules.executeAll (w := ()) hServices body View.covers_rooted hOut⟩

namespace Premises

/-- A page in a directory, and a file beside that. -/
def files : Files where
  directories := [["site"]]
  contents := [(["site", "page.html"], "hello\n".toUTF8), (["secret.html"], "word\n".toUTF8)]
  workingDirectory := []

theorem proper_files : files.Proper := by
  simp [Files.Proper, Files.IsName, files]

/-- Something else stands in the file beside the directory. -/
def changed : Files := files.put ["secret.html"] "other\n".toUTF8

theorem agreeBelow_changed : files.AgreeBelow "site" changed :=
  Files.agreeBelow_put (by decide) _

/-- A renderer for the directory. -/
def renderer : Renderer Value := ⟨⟨"site", [], none, some 0, none, 0⟩, none⟩

def store : Store := { Store.initial with caches := #[[]], counters := #[0] }

theorem hosted : Hosted "site" [renderer] store :=
  .new ⟨files, 0⟩ proper_files rfl

end Premises

open Premises in
/-- A file beside the root cannot be named, and the page is what it is whatever stands there. -/
theorem secret_beside_root :
    (renderer.resolve .standard "../secret").perform ⟨files, 0⟩ store =
        (.error (.failure (.lookup (.parentName "../secret"))), store) ∧
      (renderer.render "page" []).perform ⟨changed, 0⟩ store =
        (renderer.render "page" []).perform ⟨files, 0⟩ store := by
  obtain ⟨hHosted, hLooked, -⟩ := names_stay_below_root "site"
  obtain ⟨hStore, hRenderers⟩ := hHosted _ _ hosted
  obtain ⟨-, hRefused, -, -, hRendered⟩ := hLooked _ (hRenderers _ (List.mem_singleton_self _))
  refine ⟨?_, ?_⟩
  · exact (hRefused "../secret" (Or.inr (Or.inr (by decide))) store hStore ⟨files, 0⟩ .standard none
      none none).1
  · exact (hRendered "page" [] trivial).perform_eq ⟨files, 0⟩ proper_files hStore
      agreeBelow_changed

/-- A file that is written elsewhere changes no page. -/
theorem render_put_elsewhere {root : String} {renderers : List (Renderer Value)} {store : Store}
    (h : Hosted root renderers store) {renderer : Renderer Value} (hRenderer : renderer ∈ renderers)
    {setting : Setting} (hFiles : setting.files.Proper) {place : Location}
    (hElsewhere : ¬ setting.files.rootOf root <+: place) (bytes : ByteArray) (name : String)
    {parameters : List (String × Value)} (hParameters : entriesRespect (.rooted root) parameters) :
    (renderer.render name parameters).perform
        { setting with files := setting.files.put place bytes } store =
      (renderer.render name parameters).perform setting store :=
  (staysBelow_render (h.rooted.1 renderer hRenderer) name hParameters).perform_eq setting hFiles
    h.rooted.2
    (Files.agreeBelow_put hElsewhere bytes)

end Stencil
