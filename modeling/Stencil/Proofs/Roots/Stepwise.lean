import Stencil.Proofs.Roots.Runs

/-!
# Names that are followed in steps

A page in a directory can be looked up under one name, or the directory first and the rest of the
name in the library of that directory. Both ways ask the files about the same path, so they lead to
the same directory, to a template from the same file, or both nowhere.

A template is compiled under the name of its file as it is seen from the directory of its library,
and that differs: `users/list.html` from above, `list.html` from below. The filter follows from the
end of that name, which is the end of the path either way, and nothing else that a page renders
depends on it. A backslash in a path is seen as a slash and may hide that end, so paths with
backslashes are left out here.

All this is about what the files say. A memory gives its first answer again, and one that a renderer
shares with the renderer of its layout may hold what that one has compiled.

## Main results

* `Path.join_join`: a path that is put together in two steps.
* `Path.fileName?_relativeTo`: what a path ends with is seen from every directory above it.
* `Files.find?_eq_some`: the file that a path stands for.
* `Renderer.accords_load`: a lookup in one step comes to the same as one in two.
* `Renderer.accords_render`: so does rendering.
-/

namespace Stencil

namespace Path

/-! ## Joining in two steps -/

/-- What stands before a name that is joined to a path. -/
def stem (base : String) : String :=
  if base.toList.getLast? = some '/' then base else base ++ "/"

theorem join_eq {base path : String} (hBase : base ≠ "") (h : isAbsolute path = false) :
    join base path = stem base ++ path := by
  unfold join stem
  rw [if_neg (by simp [h, hBase])]
  split <;> rfl

theorem stem_append (text : String) {path : String} (h : path ≠ "") :
    stem (text ++ path) = text ++ stem path := by
  have hPath : path.toList ≠ [] := fun hNil => h (String.toList_eq_nil_iff.1 hNil)
  have hLast : (text ++ path).toList.getLast? = path.toList.getLast? := by
    rw [String.toList_append, List.getLast?_append_of_ne_nil _ hPath]
  unfold stem
  rw [hLast]
  split
  · rfl
  · rw [String.append_assoc]

/-- A path that is put together in two steps. -/
theorem join_join (root : String) {directory name : String} (hDirectory : directory ≠ "")
    (hRelative : isAbsolute directory = false) (hName : isAbsolute name = false) :
    join root (join directory name) = join (join root directory) name := by
  obtain ⟨-, -, -, hBoth⟩ := segments_join directory hName
  rw [hRelative] at hBoth
  by_cases hRoot : root = ""
  · subst hRoot
    rw [join_empty, join_empty]
  · have hAbove : stem root ++ directory ≠ "" := fun h =>
      hDirectory (String.append_eq_empty_iff.1 h).2
    rw [join_eq hRoot hBoth, join_eq hRoot hRelative, join_eq hDirectory hName,
      join_eq hAbove hName, stem_append _ hDirectory, String.append_assoc]

/-- A name is valid when none of its steps leads away. -/
theorem checkName_eq_ok_iff_steps {name : String} :
    checkName name = .ok () ↔ name ≠ "" ∧ ∀ c ∈ steps name, c ≠ .root ∧ c ≠ .parent := by
  rw [checkName_eq_ok_iff]
  refine and_congr_right fun _ => ⟨fun h c hc => h c (List.mem_filter.1 hc).1, fun h c hc => ?_⟩
  by_cases hHere : c = .here
  · subst hHere
    exact ⟨nofun, nofun⟩
  · exact h c (List.mem_filter.2 ⟨hc, bne_iff_ne.2 hHere⟩)

/-- Two valid names, one after the other, are a valid name. -/
theorem checkName_join {directory name : String} (hDirectory : checkName directory = .ok ())
    (hName : checkName name = .ok ()) : checkName (join directory name) = .ok () := by
  have hRelative := (steps_of_checkName hName).1
  obtain ⟨hEmpty, hAbove⟩ := checkName_eq_ok_iff_steps.1 hDirectory
  obtain ⟨hEmpty', hBelow⟩ := checkName_eq_ok_iff_steps.1 hName
  refine checkName_eq_ok_iff_steps.2 ⟨?_, ?_⟩
  · rw [join_eq hEmpty hRelative]
    exact fun h => hEmpty' (String.append_eq_empty_iff.1 h).2
  · rw [steps_join directory hRelative]
    exact List.forall_mem_append.2 ⟨hAbove, hBelow⟩

/-! ## What a directory above sees of a path -/

/-- Behind each component of segments come the components of the segments that are kept with it. -/
theorem drop_components_cons (start : Option Component) {others : List String}
    (h : ∀ (i : Nat) (entry : Component × List String), (locate.later others)[i]? = some entry →
      ((locate.later others).map Prod.fst).drop (i + 1) = stepsOf entry.2 ∧ entry.2 <:+ others)
    {i : Nat} {entry : Component × List String}
    (hEntry : ((start.map (·, others)).toList ++ locate.later others)[i]? = some entry) :
    (((start.map (·, others)).toList ++ locate.later others).map Prod.fst).drop (i + 1) =
      stepsOf entry.2 ∧ entry.2 <:+ others := by
  cases start with
  | none => exact h i entry hEntry
  | some c =>
      cases i with
      | zero =>
          obtain rfl : (c, others) = entry := Option.some.inj hEntry
          exact ⟨map_fst_later others, List.suffix_refl others⟩
      | succ i => exact h i entry hEntry

theorem drop_later (segments : List String) :
    ∀ (i : Nat) (entry : Component × List String), (locate.later segments)[i]? = some entry →
      ((locate.later segments).map Prod.fst).drop (i + 1) = stepsOf entry.2 ∧
        entry.2 <:+ segments := by
  induction segments with
  | nil => exact nofun
  | cons segment rest ih =>
      intro i entry hEntry
      obtain ⟨hDrop, hSuffix⟩ := drop_components_cons (Component.ofSegment? segment) ih hEntry
      exact ⟨hDrop, hSuffix.trans (List.suffix_cons segment rest)⟩

/-- Behind a component of a path come the components of the segments that are kept with it. -/
theorem drop_components {path : String} {i : Nat} {entry : Component × List String}
    (h : (locate path)[i]? = some entry) :
    (components path).drop (i + 1) = stepsOf entry.2 ∧ entry.2 <:+ segments path := by
  obtain ⟨first, rest, hSegments⟩ := List.exists_cons_of_ne_nil (segments_ne_nil path)
  rw [components]
  unfold locate at h ⊢
  rw [hSegments] at h ⊢
  obtain ⟨hDrop, hSuffix⟩ := drop_components_cons _ (drop_later rest) h
  exact ⟨hDrop, hSuffix.trans (List.suffix_cons first rest)⟩

/-- The pieces of a text with slashes between them are the text. -/
theorem intercalate_segmentsOf (text : List Char) : ['/'].intercalate (segmentsOf text) = text := by
  induction text with
  | nil => rfl
  | cons c rest ih =>
      by_cases hc : c = '/'
      · subst hc
        obtain ⟨first, others, hRest⟩ := List.exists_cons_of_ne_nil (segmentsOf_ne_nil rest)
        rw [segmentsOf_cons_slash, hRest, List.intercalate_cons_cons, ← hRest, ih]
        rfl
      · obtain ⟨first, others, hRest, hCons⟩ := segmentsOf_cons hc rest
        rw [hRest] at ih
        rw [hCons, ← ih]
        cases others with
        | nil => simp
        | cons second others => simp [List.intercalate_cons_cons]

/-- Pieces without slashes are what the text with slashes between them is cut into. -/
theorem segmentsOf_intercalate {pieces : List (List Char)} (hNil : pieces ≠ [])
    (h : ∀ piece ∈ pieces, '/' ∉ piece) : segmentsOf (['/'].intercalate pieces) = pieces := by
  induction pieces with
  | nil => exact absurd rfl hNil
  | cons first others ih =>
      obtain ⟨hFirst, hOthers⟩ := List.forall_mem_cons.1 h
      cases others with
      | nil => rw [List.intercalate_singleton, segmentsOf_of_notMem hFirst]
      | cons second others =>
          rw [List.intercalate_cons_cons, List.append_assoc, List.singleton_append,
            segmentsOf_append_slash, segmentsOf_of_notMem hFirst, ih (List.cons_ne_nil _ _) hOthers]
          rfl

theorem intercalate_suffix {pieces others : List (List Char)} (h : pieces <:+ others) :
    ['/'].intercalate pieces <:+ ['/'].intercalate others := by
  induction others with
  | nil => exact List.suffix_nil.1 h ▸ List.suffix_refl _
  | cons first rest ih =>
      obtain rfl | hRest := List.suffix_cons_iff.1 h
      · exact List.suffix_refl _
      · refine (ih hRest).trans ?_
        cases rest with
        | nil => exact List.nil_suffix
        | cons second rest =>
            rw [List.intercalate_cons_cons]
            exact List.suffix_append _ _

/-- Segments from one that means something on are the components of the text they make. -/
theorem components_intercalate {kept : List String}
    (hClean : ∀ segment ∈ kept, '/' ∉ segment.toList)
    (hFirst : ∀ first ∈ kept.head?, first ≠ "" ∧ first ≠ ".") :
    components ("/".intercalate kept) = stepsOf kept := by
  cases kept with
  | nil => decide
  | cons first rest =>
      obtain ⟨hEmpty, hHere⟩ := hFirst first rfl
      have hPieces : segments ("/".intercalate (first :: rest)) = first :: rest := by
        have hClean' : ∀ piece ∈ (first :: rest).map String.toList, '/' ∉ piece := by
          simpa using hClean
        rw [segments, String.toList_intercalate]
        show (segmentsOf (['/'].intercalate _)).map String.ofList = _
        rw [segmentsOf_intercalate (by simp) hClean', List.map_map]
        simp
      have hRelative : isAbsolute ("/".intercalate (first :: rest)) = false := by
        cases hAbsolute : isAbsolute ("/".intercalate (first :: rest)) with
        | false => rfl
        | true =>
            obtain ⟨others, hOthers⟩ := segments_of_isAbsolute hAbsolute
            rw [hPieces] at hOthers
            exact absurd (List.cons.inj hOthers).1 hEmpty
      rw [components, locate, hPieces]
      simp only [hRelative, Bool.false_eq_true, if_false, if_neg hHere, List.map_append,
        map_fst_later, stepsOf, List.filterMap_cons]
      cases Component.ofSegment? first <;> rfl

/-- Segments that mean nothing can be left out. -/
theorem stepsOf_dropWhile (segments : List String) :
    stepsOf (segments.dropWhile fun segment => segment = "" ∨ segment = ".") =
      stepsOf segments := by
  induction segments with
  | nil => rfl
  | cons segment rest ih =>
      rw [List.dropWhile_cons]
      split
      · rename_i hIdle
        rw [ih, stepsOf, stepsOf, List.filterMap_cons, Component.ofSegment?,
          if_pos (of_decide_eq_true hIdle)]
      · rfl

/-- From a directory above, segments of a path are seen; from elsewhere, all of it. -/
theorem relativeTo_cases (base path : String) :
    (relativeTo base path = path ∧
      (components base <+: components path → components base = [])) ∨
    ∃ kept, relativeTo base path = "/".intercalate kept ∧ kept <:+ segments path ∧
      (∀ first ∈ kept.head?, first ≠ "" ∧ first ≠ ".") ∧
      components base <+: components path ∧
      stepsOf kept = (components path).drop (components base).length := by
  unfold relativeTo
  simp only [List.isPrefixOf_iff_prefix]
  by_cases hAbove : components base <+: components path
  · rw [if_pos hAbove]
    cases hNil : components base with
    | nil =>
        refine Or.inl ⟨?_, fun _ => rfl⟩
        split <;> rfl
    | cons first others =>
        rw [hNil] at hAbove
        have hLength : others.length < (locate path).length := by
          have h := hAbove.length_le
          rw [components, List.length_map, List.length_cons] at h
          omega
        obtain ⟨entry, hEntry⟩ : ∃ entry, (locate path)[others.length]? = some entry :=
          ⟨_, List.getElem?_eq_getElem hLength⟩
        obtain ⟨hDrop, hSuffix⟩ := drop_components hEntry
        refine Or.inr ⟨entry.2.dropWhile fun segment => segment = "" ∨ segment = ".", ?_,
          (List.dropWhile_suffix _).trans hSuffix, fun segment hSegment => ?_, hAbove, ?_⟩
        · rw [List.length_cons, Nat.add_sub_cancel, hEntry]
          rfl
        · have hHead := List.head?_dropWhile_not
            (fun segment : String => segment = "" ∨ segment = ".") entry.2
          rw [hSegment] at hHead
          exact not_or.1 (of_decide_eq_false hHead)
        · rw [stepsOf_dropWhile, ← hDrop]
          rfl
  · rw [if_neg hAbove]
    exact Or.inl ⟨rfl, fun h => absurd h hAbove⟩

/-- What is seen of a path is its end. -/
theorem relativeTo_suffix (base path : String) :
    (relativeTo base path).toList <:+ path.toList := by
  obtain ⟨hSame, -⟩ | ⟨kept, hKept, hSuffix, -, -, -⟩ := relativeTo_cases base path
  · exact hSame.symm ▸ List.suffix_refl _
  · rw [hKept, String.toList_intercalate, ← intercalate_segmentsOf path.toList]
    have hPieces : (segments path).map String.toList = segmentsOf path.toList := by
      simp [segments, Function.comp_def]
    rw [← hPieces]
    exact intercalate_suffix (hSuffix.map _)

/-- The components that are seen from a directory above are those after its own. -/
theorem components_relativeTo {base path : String} (h : components base <+: components path) :
    components (relativeTo base path) = (components path).drop (components base).length := by
  obtain ⟨hSame, hNil⟩ | ⟨kept, hKept, hSuffix, hFirst, -, hSteps⟩ := relativeTo_cases base path
  · rw [hSame, hNil h]
    rfl
  · rw [hKept, ← hSteps]
    exact components_intercalate
      (fun segment hSegment => slash_notMem_segments (hSuffix.subset hSegment)) hFirst

/-- What a path ends with is seen from every other directory. -/
theorem fileName?_relativeTo {base path : String} (h : components path ≠ components base) :
    fileName? (relativeTo base path) = fileName? path := by
  by_cases hAbove : components base <+: components path
  · have hLast : (components (relativeTo base path)).getLast? = (components path).getLast? := by
      have hShort : (components base).length < (components path).length :=
        lt_of_le_of_ne hAbove.length_le fun hLength => h (hAbove.eq_of_length hLength).symm
      rw [components_relativeTo hAbove, List.getLast?_drop, if_neg (by omega)]
    unfold fileName?
    rw [hLast]
  · obtain ⟨hSame, -⟩ | ⟨-, -, -, -, hPrefix, -⟩ := relativeTo_cases base path
    · rw [hSame]
    · exact absurd hPrefix hAbove

example : (relativeTo "site" "site/users/list.html",
    relativeTo "site/users" "site/users/list.html") =
    ("users/list.html", "list.html") := by
  decide +kernel

/-- The extension follows from what a name ends with. -/
theorem extension?_congr {path other : String} (h : fileName? path = fileName? other) :
    extension? path = extension? other := by
  unfold extension?
  rw [h]

end Path

/-! ## Files in a directory -/

namespace Files

variable {files : Files} {root name found : String}

/-- The file that is found for a name lies further down than the directory it is looked up in. -/
theorem length_steps_of_find?_eq_some (hFiles : files.Proper) (hName : checkName name = .ok ())
    (hRoot : files.isDirectory root = true)
    (hFile : files.isDirectory (Path.join root name) = false)
    (h : files.find? (Path.join root name) = some found) :
    (Path.steps root).length < (Path.steps found).length := by
  unfold find? at h
  split at h
  · rename_i first others hFound
    obtain rfl : first = found := Option.some.inj h
    obtain ⟨directory, text, hDirectory, hSteps⟩ := steps_of_mem_withExtension hFiles
      (hFound ▸ List.mem_cons_self .. : first ∈ files.withExtension (Path.join root name))
    obtain ⟨rest, hRest, -⟩ := below_of_above?_eq_some hName hDirectory
    rw [hSteps, hRest, List.length_append, List.length_append, List.length_singleton]
    omega
  · obtain ⟨hIsFile, hFound⟩ := Option.ite_none_right_eq_some.1 h
    obtain rfl : Path.join root name = found := Option.some.inj hFound
    rw [Path.steps_join root (Path.steps_of_checkName hName).1, List.length_append]
    by_contra hShort
    -- The name would lead to the directory itself.
    have hNil : Path.steps name = [] := List.length_eq_zero_iff.1 (by omega)
    have hSteps : Path.steps (Path.join root name) = Path.steps root := by
      rw [Path.steps_join root (Path.steps_of_checkName hName).1, hNil, List.append_nil]
    obtain ⟨location, hLocation, hHere⟩ := (Option.any_eq_true _ _).1 hRoot
    obtain ⟨bytes, hBytes⟩ := Option.isSome_iff_exists.1 hIsFile
    obtain ⟨place, hPlace, -⟩ := Option.bind_eq_some_iff.1 hBytes
    have hSame : place = location := by
      rw [locate?_eq_some hPlace, locate?_eq_some hLocation, hSteps]
    rw [isDirectory, hPlace, Option.any_some, hSame, hHere] at hFile
    cases hFile

/-- The names in a directory that go on from a path with a dot, without those of backups. -/
def namesAfter (files : Files) (path : String) (directory : Location) : List String :=
  (files.fileNames directory).filter fun name =>
    ((Path.segments path).getLast?.getD "" ++ ".").toList.isPrefixOf name.toList &&
      name.toList.getLast? != some '~'

/-- The first of the sorted names is the least one. -/
theorem le_of_mergeSort_eq_cons {names rest : List String} {first : String}
    (h : names.mergeSort (fun a b => a ≤ b) = first :: rest) :
    first ∈ names ∧ ∀ other ∈ names, first ≤ other := by
  have transitive (a b c : String) (hab : decide (a ≤ b) = true) (hbc : decide (b ≤ c) = true) :
      decide (a ≤ c) = true :=
    decide_eq_true (String.le_trans (of_decide_eq_true hab) (of_decide_eq_true hbc))
  have total (a b : String) : (decide (a ≤ b) || decide (b ≤ a)) = true := by
    rcases String.le_total a b with hab | hba
    · simp [hab]
    · simp [hba]
  have hSorted := List.pairwise_mergeSort transitive total names
  rw [h, List.pairwise_cons] at hSorted
  refine ⟨List.mem_mergeSort.1 (h ▸ List.mem_cons_self), fun other hOther => ?_⟩
  have hMem : other ∈ first :: rest := h ▸ List.mem_mergeSort.2 hOther
  obtain rfl | hRest := List.mem_cons.1 hMem
  · exact String.le_refl _
  · exact of_decide_eq_true (hSorted.1 other hRest)

/-- The file that a path stands for has the least of the names that go on from the path, or, when
there are none, is the file of just that path. -/
theorem find?_eq_some {path : String} (h : files.find? path = some found) :
    (∃ directory location name, files.above? path = some directory ∧
      files.locate? directory = some location ∧ name ∈ files.namesAfter path location ∧
      (∀ other ∈ files.namesAfter path location, name ≤ other) ∧
      found = if directory = "." then name else Path.join directory name) ∨
    files.withExtension path = [] ∧ files.isFile path = true ∧ found = path := by
  unfold find? at h
  split at h
  · rename_i first others hFound
    obtain rfl : first = found := Option.some.inj h
    rw [withExtension_eq] at hFound
    split at hFound
    · cases hFound
    · rename_i directory hDirectory
      split at hFound
      · cases hFound
      · rename_i location hLocation
        obtain ⟨name, rest, hSorted, hName, -⟩ := List.map_eq_cons_iff.1 hFound
        obtain ⟨hMem, hLeast⟩ := le_of_mergeSort_eq_cons hSorted
        exact Or.inl ⟨directory, location, name, hDirectory, hLocation, hMem, hLeast, hName.symm⟩
  · rename_i hNone
    obtain ⟨hIsFile, hFound⟩ := Option.ite_none_right_eq_some.1 h
    exact Or.inr ⟨hNone, hIsFile, (Option.some.inj hFound).symm⟩

end Files

/-! ## Runs that come to the same -/

namespace Run

variable {α β : Type} {setting : Setting} {R : α → α → Prop} {S : β → β → Prop}

/-- With these files and from any store, both runs end in the same store, and with results that are
related, or both stop. -/
def Accords (setting : Setting) (R : α → α → Prop) (action other : Run α) : Prop :=
  ∀ store, match action setting store, other setting store with
    | .ok a after, .ok b after' => R a b ∧ after' = after
    | .error _ after, .error _ after' => after' = after
    | _, _ => False

namespace Accords

theorem refl (action : Run α) : Accords setting Eq action action := by
  intro store
  cases action setting store with
  | ok a after => exact ⟨rfl, rfl⟩
  | error cause after => rfl

theorem pure {a b : α} (h : R a b) : Accords setting R (Pure.pure a) (Pure.pure b) :=
  fun _ => ⟨h, rfl⟩

theorem stop (cause cause' : Stop) : Accords setting R (throw cause) (throw cause' : Run α) :=
  fun _ => rfl

theorem bind {action other : Run α} {next next' : α → Run β} (h : Accords setting R action other)
    (hNext : ∀ a b, R a b → Accords setting S (next a) (next' b)) :
    Accords setting S (action >>= next) (other >>= next') := by
  intro store
  have hFirst := h store
  rw [Preserves.bind_apply, Preserves.bind_apply]
  cases hAction : action setting store with
  | error cause after =>
      cases hOther : other setting store with
      | error cause' after' => rwa [hAction, hOther] at hFirst
      | ok b after' =>
          rw [hAction, hOther] at hFirst
          exact absurd hFirst id
  | ok a after =>
      cases hOther : other setting store with
      | error cause' after' =>
          rw [hAction, hOther] at hFirst
          exact absurd hFirst id
      | ok b after' =>
          rw [hAction, hOther] at hFirst
          obtain ⟨hResults, rfl⟩ := hFirst
          exact hNext a b hResults after'

/-- The files are asked for what is done next. -/
theorem read {next next' : Setting → Run α} (h : Accords setting R (next setting) (next' setting)) :
    Accords setting R (MonadReader.read >>= next) (MonadReader.read >>= next') :=
  h

end Accords

end Run

/-! ## Templates under another name -/

namespace Template

/-- The templates differ at most in their names. -/
def SameButName (leaf other : Template Value) : Prop :=
  other = { leaf with name := other.name }

/-- Under two names to which the same filter applies, a text is compiled to the same template. -/
theorem accords_compile (services : Services) (setting : Setting) (text : String)
    {name name' : String}
    (hFilter : Escape.ofName name' = Escape.ofName name) (globals : List (String × Value))
    (escape : Option Escape) :
    Run.Accords setting SameButName (compile services text name globals escape)
      (compile services text name' globals escape) := by
  rw [compile_eq, compile_eq, hFilter]
  cases Program.read (normalizeText text.toList) with
  | error fault => exact .stop _ _
  | ok program =>
      refine (Run.Accords.refl _).bind fun frame _ hFrame => ?_
      obtain rfl := hFrame
      refine (Run.Accords.refl _).bind fun _ _ _ => ?_
      refine (Run.Accords.refl _).bind fun defaults _ hDefaults => ?_
      obtain rfl := hDefaults
      exact .pure rfl

end Template

/-- The name of the function that is called stands in messages alone. -/
theorem toOption_bindNamed (function other : String) (parameters : List Parameter)
    (bound : Entries Value) (named : List (String × Value)) :
    (bindNamed other parameters bound named).toOption =
      (bindNamed function parameters bound named).toOption := by
  induction named generalizing bound with
  | nil => rfl
  | cons entry rest ih =>
      obtain ⟨name, value⟩ := entry
      simp only [bindNamed]
      split
      · rfl
      · split
        · rfl
        · exact ih _

theorem toOption_bindParameters (function other : String) (parameters : List Parameter)
    (defaults : List (Option Value)) (arguments : Arguments) :
    (bindParameters other parameters defaults arguments).toOption =
      (bindParameters function parameters defaults arguments).toOption := by
  rw [bindParameters_eq, bindParameters_eq]
  split
  · rfl
  · have hNamed := toOption_bindNamed function other parameters
      (Entries.ofPairs ((parameters.map Parameter.name).zip arguments.positional)) arguments.named
    have hBind (named : Except Fault (Entries Value))
        (rest : Entries Value → Except Fault (List (String × Value))) :
        (named >>= rest).toOption = named.toOption.bind fun bound => (rest bound).toOption := by
      cases named <;> rfl
    rw [hBind, hBind, hNamed]
    congr 1
    funext bound
    unfold bindRest
    split <;> rfl

/-- Evaluations that have the same result, if any, accord. -/
theorem Run.Accords.ofEvaluation {α : Type} {setting : Setting} {result other : Except Fault α}
    (h : other.toOption = result.toOption) :
    Accords setting Eq (Run.ofEvaluation result) (Run.ofEvaluation other) := by
  cases result with
  | error fault =>
      cases other with
      | error fault' => exact .stop _ _
      | ok a => cases h
  | ok a =>
      cases other with
      | error fault => cases h
      | ok b =>
          obtain rfl : b = a := Option.some.inj h
          exact .pure rfl

/-- What a template renders does not depend on its name. -/
theorem Template.accords_run (inner : Option Services) (setting : Setting)
    {leaf other : Template Value}
    (h : leaf.SameButName other) (extras : List (String × Value)) (arguments : Arguments) :
    Run.Accords setting Eq (leaf.run inner extras arguments)
      (other.run inner extras arguments) := by
  rw [h]
  cases inner with
  | none => exact .refl _
  | some services =>
      have hBound := toOption_bindParameters leaf.name other.name leaf.program.parameters
        leaf.defaults arguments
      refine (Run.Accords.ofEvaluation hBound).bind fun bound _ hSame => ?_
      obtain rfl := hSame
      exact .refl _

/-! ## Lookups in one step and in two -/

namespace Renderer

/-- The renderer of a directory, with a memory of its own, or none. -/
def inDirectory (renderer : Renderer Value) (path : String) (cache : Option Nat) : Renderer Value :=
  { renderer with library := { renderer.library with root := path, cache } }

/-- The name that a file is compiled under, as it is seen from the directory of a library. -/
def title (root file : String) : String :=
  (Path.relativeTo root file).map fun c => if c = '\\' then '/' else c

theorem title_eq {root file : String} (h : '\\' ∉ file.toList) :
    title root file = Path.relativeTo root file := by
  have hSeen : '\\' ∉ (Path.relativeTo root file).toList :=
    fun hMem => h ((Path.relativeTo_suffix root file).subset hMem)
  rw [title, ← String.toList_inj, String.toList_map]
  refine (List.map_congr_left fun c hc => if_neg ?_).trans (List.map_id _)
  rintro rfl
  exact hSeen hc

/-- The same filter applies to a file below two directories, from whichever of them it is seen. -/
theorem ofName_title {root other file : String} (h : '\\' ∉ file.toList)
    (hRoot : (Path.steps root).length < (Path.steps file).length)
    (hOther : (Path.steps other).length < (Path.steps file).length) :
    Escape.ofName (title other file) = Escape.ofName (title root file) := by
  have hSeen (base : String) (hBase : (Path.steps base).length < (Path.steps file).length) :
      Path.fileName? (title base file) = Path.fileName? file := by
    rw [title_eq h]
    refine Path.fileName?_relativeTo fun hSame => ?_
    rw [Path.steps, Path.steps, hSame] at hBase
    exact lt_irrefl _ hBase
  unfold Escape.ofName
  rw [Path.extension?_congr ((hSeen other hOther).trans (hSeen root hRoot).symm)]

/-- What lookups in two libraries lead to: the same directory, the same file with the same filter,
or nothing. -/
inductive Meet (files : Files) (root other : String) :
    Except Failure Located → Except Failure Located → Prop
  | nowhere (cause cause' : Failure) : Meet files root other (.error cause) (.error cause')
  | directory (path : String) :
      Meet files root other (.ok (.directory path)) (.ok (.directory path))
  | template {file text : String} (hText : files.readText file = .ok text)
      (hFilter : Escape.ofName (title other file) = Escape.ofName (title root file)) :
      Meet files root other (.ok (.template text (title root file)))
        (.ok (.template text (title other file)))

/-- A name in a directory is looked up at once, or in the library of the directory. -/
theorem meet_locate {files : Files} (hFiles : files.Proper) {root directory name : String}
    (hValid : checkName directory = .ok ())
    (hDirectory : files.isDirectory (Path.join root directory) = true)
    (hName : checkName name = .ok ())
    (hPlain : ∀ file, files.find? (Path.join (Path.join root directory) name) = some file →
      '\\' ∉ file.toList) :
    Meet files root (Path.join root directory) (locate files root (Path.join directory name))
      (locate files (Path.join root directory) name) := by
  have hRelative := (Path.steps_of_checkName hValid).1
  have hPath := Path.join_join root (checkName_eq_ok_iff.1 hValid).1 hRelative
    (Path.steps_of_checkName hName).1
  unfold locate
  simp only [Path.checkName_join hValid hName, hName, bind_ok, hPath]
  cases hHere : files.isDirectory (Path.join (Path.join root directory) name) with
  | true => exact .directory _
  | false =>
      simp only [Bool.false_eq_true, if_false]
      cases hFound : files.find? (Path.join (Path.join root directory) name) with
      | none => exact .nowhere _ _
      | some file =>
          have hChild := Files.length_steps_of_find?_eq_some hFiles hName hDirectory hHere hFound
          have hRoot : (Path.steps root).length < (Path.steps file).length := by
            rw [Path.steps_join root hRelative, List.length_append] at hChild
            omega
          simp only
          cases hText : files.readText file with
          | error cause => exact .nowhere _ _
          | ok text =>
              exact .template hText (ofName_title (hPlain file hFound) hRoot hChild)

/-- What is found under both names is the same but for the name of a template. -/
inductive SameFound : Resolved → Resolved → Prop
  | directory (renderer : Renderer Value) : SameFound (.directory renderer) (.directory renderer)
  | template {leaf other : Template Value} (h : leaf.SameButName other) :
      SameFound (.template leaf) (.template other)

/-- The renderer of a directory is that of the library for another directory. -/
theorem eq_inDirectory_of_load {services : Services} {renderer child : Renderer Value}
    {name : String} {setting : Setting} {before after : Store}
    (h : renderer.load services name setting before = .ok (.directory child) after) :
    locate setting.files renderer.library.root name = .ok (.directory child.library.root) ∧
      ∃ cache, cache.isSome = renderer.library.cache.isSome ∧
        child = renderer.inDirectory child.library.root cache := by
  rw [load_eq] at h
  change (Run.ofResult (locate setting.files renderer.library.root name) >>=
    renderer.enter services) setting before = _ at h
  cases hLocated : locate setting.files renderer.library.root name with
  | error cause =>
      rw [hLocated] at h
      cases h
  | ok located =>
      rw [hLocated, Run.ofResult, pure_bind] at h
      cases located with
      | directory path =>
          cases hCache : renderer.library.cache with
          | none =>
              simp only [enter, hCache, Option.mapM_none, pure_bind] at h
              obtain rfl := Resolved.directory.inj (EStateM.Result.ok.inj h).1
              exact ⟨rfl, none, rfl, rfl⟩
          | some memory =>
              simp only [enter, hCache, Option.mapM_some] at h
              obtain rfl := Resolved.directory.inj (EStateM.Result.ok.inj h).1
              exact ⟨rfl, some before.caches.size, rfl, rfl⟩
      | template text fileName =>
          simp only [enter, Run.Preserves.bind_apply] at h
          split at h
          · split at h
            · cases h
            · cases h
          · cases h

/-- The directory of a directory has a memory of its own, or none, from wherever it is entered. -/
theorem enter_inDirectory (services : Services) {renderer : Renderer Value} {cache : Option Nat}
    (h : cache.isSome = renderer.library.cache.isSome) (root path : String) :
    (renderer.inDirectory root cache).enter services (.directory path) =
      renderer.enter services (.directory path) := by
  cases hMemory : renderer.library.cache with
  | none =>
      obtain rfl : cache = none := by simpa [hMemory] using h
      simp only [enter, inDirectory, hMemory, Option.mapM_none, pure_bind]
  | some memory =>
      obtain ⟨memory', rfl⟩ : ∃ memory', cache = some memory' := by
        rwa [hMemory, Option.isSome_some, Option.isSome_iff_exists] at h
      simp only [enter, inDirectory, hMemory, Option.mapM_some]

variable {renderer child : Renderer Value} {directory name : String} {setting : Setting}
  {before after : Store}

/-- A lookup in a directory comes to the same as one through the directory. -/
theorem accords_load {services : Services} (hFiles : setting.files.Proper)
    (hDirectory : renderer.load services directory setting before = .ok (.directory child) after)
    (hName : checkName name = .ok ())
    (hPlain : ∀ file, setting.files.find? (Path.join child.library.root name) = some file →
      '\\' ∉ file.toList) :
    Run.Accords setting SameFound (renderer.load services (Path.join directory name))
      (child.load services name) := by
  obtain ⟨hLocated, cache, hCache, hChild⟩ := eq_inDirectory_of_load hDirectory
  obtain ⟨hValid, hThere, hRoot⟩ := eq_join_of_locate_eq_ok hLocated
  rw [hRoot] at hThere hPlain hChild
  subst hChild
  rw [load_eq, load_eq]
  refine .read ?_
  have hMeet := meet_locate hFiles hValid hThere hName hPlain
  change Run.Accords setting SameFound
    (Run.ofResult (locate setting.files renderer.library.root (Path.join directory name)) >>= _)
    (Run.ofResult (locate setting.files (Path.join renderer.library.root directory) name) >>= _)
  generalize locate setting.files renderer.library.root (Path.join directory name) =
    found at hMeet ⊢
  generalize locate setting.files (Path.join renderer.library.root directory) name =
    found' at hMeet ⊢
  cases hMeet with
  | nowhere cause cause' => exact .stop _ _
  | directory path =>
      change Run.Accords setting SameFound (renderer.enter services (.directory path))
        ((renderer.inDirectory (Path.join renderer.library.root directory) cache).enter services
          (.directory path))
      rw [enter_inDirectory services hCache]
      exact (Run.Accords.refl _).bind fun memory _ hSame => hSame ▸ .pure (.directory _)
  | template hText hFilter =>
      refine (Template.accords_compile services setting _ hFilter _ _).bind fun leaf other hLeaf =>
        ?_
      exact (Run.Accords.refl _).bind fun _ _ _ => .pure (.template hLeaf)

/-- Whatever template is found, it is rendered the same, from above and in the directory. -/
theorem accords_invoke (hExposed : renderer.library.exposedAs = none)
    (path : String) (cache : Option Nat) (inner : Option Services) (services : Services)
    {leaf other : Template Value} (hLeaf : leaf.SameButName other) (arguments : Arguments) :
    Run.Accords setting Eq (renderer.invoke inner services leaf arguments)
      ((renderer.inDirectory path cache).invoke inner services other arguments) := by
  have hNone : renderer.exposed = [] := by
    rw [exposed, hExposed]
  have hNone' : (renderer.inDirectory path cache).exposed = [] := by
    simp only [exposed, inDirectory, hExposed]
  unfold invoke
  rw [hNone, hNone']
  refine (Template.accords_run inner setting hLeaf [] arguments).bind fun content _ hSame => ?_
  obtain rfl := hSame
  exact .refl _

/-- A page in a directory is rendered the same under one name, and as a page of the directory. -/
theorem accords_render (hFiles : setting.files.Proper) (hMemory : renderer.library.cache = none)
    (hExposed : renderer.library.exposedAs = none)
    (hDirectory : renderer.resolve .standard directory setting before =
      .ok (.directory child) after)
    (hName : checkName name = .ok ())
    (hPlain : ∀ file, setting.files.find? (Path.join child.library.root name) = some file →
      '\\' ∉ file.toList) (parameters : List (String × Value)) :
    Run.Accords setting Eq (renderer.render (Path.join directory name) parameters)
      (child.render name parameters) := by
  rw [resolve, hMemory] at hDirectory
  have hLoad := accords_load hFiles hDirectory hName hPlain
  obtain ⟨-, cache, hCache, hChild⟩ := eq_inDirectory_of_load hDirectory
  obtain rfl : cache = none := by simpa [hMemory] using hCache
  have hTemplate : Run.Accords setting Template.SameButName
      (renderer.template .standard (Path.join directory name)) (child.template .standard name) := by
    have hMemory' : child.library.cache = none := by rw [hChild]; rfl
    unfold template resolve
    rw [hMemory, hMemory']
    refine hLoad.bind fun found found' hFound => ?_
    cases hFound with
    | directory renderer => exact .stop _ _
    | template hLeaf => exact .pure hLeaf
  refine hTemplate.bind fun leaf other hLeaf => ?_
  rw [hChild]
  exact accords_invoke hExposed _ none _ _ hLeaf _

end Renderer

end Stencil
