import Stencil.Library

/-!
# Paths below a root

The steps of a path are its components without those that stand for the directory itself: `./a` and
`a` lead to the same place. A path lies below another one when its steps are those of the other path
and, after them, names alone, so that nothing in it leads up again.

A name of a library that is not refused leads down: joined to any path it lies below that path. So
does the file that is found for it, as long as the files have proper names.

## Main results

* `Path.steps_join`: the steps of a path that is put together.
* `Path.below_join`: a name that is not refused leads below the path it is joined to.
* `Files.below_of_find?_eq_some`: the file that is found for such a name lies below that path.
-/

namespace Stencil

namespace Path

/-! ## Segments -/

theorem segmentsOf_ne_nil (text : List Char) : segmentsOf text ≠ [] := by
  cases text with
  | nil => simp [segmentsOf]
  | cons c rest =>
      unfold segmentsOf
      split
      · simp
      · split <;> simp

theorem segmentsOf_cons_slash (rest : List Char) :
    segmentsOf ('/' :: rest) = [] :: segmentsOf rest := by
  rw [segmentsOf]
  cases h : segmentsOf rest with
  | nil => exact absurd h (segmentsOf_ne_nil rest)
  | cons first others => rfl

theorem segmentsOf_cons {c : Char} (h : c ≠ '/') (rest : List Char) :
    ∃ first others, segmentsOf rest = first :: others ∧
      segmentsOf (c :: rest) = (c :: first) :: others := by
  cases hRest : segmentsOf rest with
  | nil => exact absurd hRest (segmentsOf_ne_nil rest)
  | cons first others => exact ⟨first, others, rfl, by simp [segmentsOf, hRest, h]⟩

/-- A slash keeps the segments on its two sides apart. -/
theorem segmentsOf_append_slash (text rest : List Char) :
    segmentsOf (text ++ '/' :: rest) = segmentsOf text ++ segmentsOf rest := by
  induction text with
  | nil => rw [List.nil_append, segmentsOf_cons_slash]; rfl
  | cons c text ih =>
      by_cases hc : c = '/'
      · subst hc
        rw [List.cons_append, segmentsOf_cons_slash, segmentsOf_cons_slash, ih, List.cons_append]
      · obtain ⟨first, others, hText, hCons⟩ := segmentsOf_cons hc text
        obtain ⟨first', others', hBoth, hCons'⟩ := segmentsOf_cons hc (text ++ '/' :: rest)
        rw [ih, hText, List.cons_append, List.cons.injEq] at hBoth
        rw [List.cons_append, hCons', hCons, ← hBoth.1, ← hBoth.2, List.cons_append]

theorem segmentsOf_of_notMem {text : List Char} (h : '/' ∉ text) : segmentsOf text = [text] := by
  induction text with
  | nil => rfl
  | cons c rest ih =>
      obtain ⟨hc, hRest⟩ := List.ne_and_not_mem_of_not_mem_cons h
      obtain ⟨first, others, hText, hCons⟩ := segmentsOf_cons (Ne.symm hc) rest
      rw [ih hRest, List.cons.injEq] at hText
      rw [hCons, ← hText.1, ← hText.2]

/-- A segment holds no slash. -/
theorem slash_notMem_segmentsOf (text : List Char) :
    ∀ segment ∈ segmentsOf text, '/' ∉ segment := by
  induction text with
  | nil => simp [segmentsOf]
  | cons c rest ih =>
      by_cases hc : c = '/'
      · subst hc
        rw [segmentsOf_cons_slash]
        exact List.forall_mem_cons.2 ⟨List.not_mem_nil, ih⟩
      · obtain ⟨first, others, hText, hCons⟩ := segmentsOf_cons hc rest
        rw [hText] at ih
        obtain ⟨hFirst, hOthers⟩ := List.forall_mem_cons.1 ih
        rw [hCons]
        exact List.forall_mem_cons.2 ⟨by simp [hFirst, Ne.symm hc], hOthers⟩

theorem slash_notMem_segments {path segment : String} (h : segment ∈ segments path) :
    '/' ∉ segment.toList := by
  obtain ⟨text, hText, rfl⟩ := List.mem_map.1 h
  rw [String.toList_ofList]
  exact slash_notMem_segmentsOf _ text hText

theorem segments_ne_nil (path : String) : segments path ≠ [] :=
  fun h => segmentsOf_ne_nil _ (List.map_eq_nil_iff.1 h)

theorem segments_of_notMem {segment : String} (h : '/' ∉ segment.toList) :
    segments segment = [segment] := by
  rw [segments, segmentsOf_of_notMem h, List.map_singleton, String.ofList_toList]

theorem isAbsolute_eq_false_of_notMem {segment : String} (h : '/' ∉ segment.toList) :
    isAbsolute segment = false := by
  unfold isAbsolute
  cases hText : segment.toList with
  | nil => rfl
  | cons c rest =>
      rw [hText] at h
      simpa using Ne.symm (List.ne_and_not_mem_of_not_mem_cons h).1

/-- The segments of an absolute path start with an empty one. -/
theorem segments_of_isAbsolute {path : String} (h : isAbsolute path = true) :
    ∃ rest, segments path = "" :: rest := by
  unfold isAbsolute at h
  cases hText : path.toList with
  | nil => simp [hText] at h
  | cons c rest =>
      obtain rfl : c = '/' := by simpa [hText] using h
      exact ⟨(segmentsOf rest).map String.ofList, by
        rw [segments, hText, segmentsOf_cons_slash]; rfl⟩

/-! ## Steps -/

/-- The components of a path that lead anywhere. -/
def steps (path : String) : List Component := (components path).filter (· != .here)

/-- The path leads through the other one, and from there on by names alone. -/
def Below (root path : String) : Prop :=
  ∃ rest, steps path = steps root ++ rest ∧ ∀ c ∈ rest, ∃ name, c = .name name

/-- The steps of segments. -/
def stepsOf (segments : List String) : List Component :=
  segments.filterMap Component.ofSegment?

theorem ofSegment?_ne_here (segment : String) : Component.ofSegment? segment ≠ some .here := by
  unfold Component.ofSegment?
  split
  · simp
  · split <;> simp

theorem map_fst_later (segments : List String) :
    (locate.later segments).map Prod.fst = stepsOf segments := by
  induction segments with
  | nil => rfl
  | cons segment rest ih =>
      rw [locate.later, List.map_append, ih, stepsOf, stepsOf, List.filterMap_cons]
      cases Component.ofSegment? segment <;> rfl

theorem filter_stepsOf (segments : List String) :
    (stepsOf segments).filter (· != .here) = stepsOf segments := by
  refine List.filter_eq_self.2 fun c hc => ?_
  obtain ⟨segment, -, hSegment⟩ := List.mem_filterMap.1 hc
  rw [bne_iff_ne]
  rintro rfl
  exact ofSegment?_ne_here segment hSegment

/-- The steps of a path are those of its segments, after the root if the path is absolute. -/
theorem steps_eq (path : String) :
    steps path = (if isAbsolute path then [.root] else []) ++ stepsOf (segments path) := by
  obtain ⟨first, rest, hSegments⟩ := List.exists_cons_of_ne_nil (segments_ne_nil path)
  have hComponents : components path =
      (((if isAbsolute path then some .root
        else if first = "." then some .here
        else Component.ofSegment? first : Option Component).map (·, rest)).toList ++
          locate.later rest).map Prod.fst := by
    rw [components, locate, hSegments]
  have hFirst : stepsOf (first :: rest) =
      (Component.ofSegment? first).toList ++ stepsOf rest := by
    rw [stepsOf, List.filterMap_cons]
    cases Component.ofSegment? first <;> rfl
  rw [steps, hComponents, List.map_append, map_fst_later, List.filter_append, filter_stepsOf,
    hSegments, hFirst, ← List.append_assoc]
  congr 1
  cases hAbsolute : isAbsolute path with
  | true =>
      obtain ⟨others, hOthers⟩ := segments_of_isAbsolute hAbsolute
      obtain rfl : first = "" := by
        rw [hSegments] at hOthers
        exact (List.cons.inj hOthers).1
      rfl
  | false =>
      by_cases hHere : first = "."
      · subst hHere
        rfl
      · simp only [Bool.false_eq_true, if_false, if_neg hHere]
        cases hStep : Component.ofSegment? first with
        | none => rfl
        | some c =>
            have hc : c ≠ .here := fun h => ofSegment?_ne_here first (h ▸ hStep)
            simp [hc]

theorem stepsOf_append (segments others : List String) :
    stepsOf (segments ++ others) = stepsOf segments ++ stepsOf others :=
  List.filterMap_append

/-! ## Joining -/

/-- The segments of a relative path stand after segments with the steps of the path it is joined
to. -/
theorem segments_join (base : String) {path : String} (h : isAbsolute path = false) :
    ∃ front, segments (join base path) = front ++ segments path ∧
      stepsOf front = stepsOf (segments base) ∧
      isAbsolute (join base path) = isAbsolute base := by
  unfold join
  by_cases hBase : base = ""
  · subst hBase
    rw [if_pos (Or.inr rfl)]
    exact ⟨[], rfl, rfl, h⟩
  · rw [if_neg (by simp [h, hBase])]
    have hText : base.toList ≠ [] := fun hNil => hBase (String.toList_eq_nil_iff.1 hNil)
    have hHead (rest : List Char) : (base.toList ++ rest).head? = base.toList.head? := by
      cases hCases : base.toList with
      | nil => exact absurd hCases hText
      | cons c rest => rfl
    split
    · rename_i hLast
      -- The slash at the end of the base is followed by an empty segment, which means nothing.
      obtain ⟨front, hFront⟩ : ∃ front, base.toList = front ++ ['/'] :=
        List.getLast?_eq_some_iff.1 hLast
      refine ⟨(segmentsOf front).map String.ofList, ?_, ?_, ?_⟩
      · rw [segments, segments, String.toList_append, hFront, List.append_assoc,
          List.singleton_append, segmentsOf_append_slash, List.map_append]
      · rw [segments, hFront, segmentsOf_append_slash, List.map_append, stepsOf_append]
        simp [stepsOf, segmentsOf, Component.ofSegment?]
      · rw [isAbsolute, String.toList_append, hHead]
        rfl
    · refine ⟨segments base, ?_, rfl, ?_⟩
      · rw [segments, segments, segments, String.toList_append, String.toList_append,
          List.append_assoc]
        show (segmentsOf (base.toList ++ '/' :: path.toList)).map _ = _
        rw [segmentsOf_append_slash, List.map_append]
      · rw [isAbsolute, String.toList_append, String.toList_append, List.append_assoc, hHead]
        rfl

/-- The steps of a path that is put together. -/
theorem steps_join (base : String) {path : String} (h : isAbsolute path = false) :
    steps (join base path) = steps base ++ steps path := by
  obtain ⟨front, hSegments, hFront, hAbsolute⟩ := segments_join base h
  rw [steps_eq, steps_eq, steps_eq, hSegments, hAbsolute, stepsOf_append, hFront, h,
    List.append_assoc]
  rfl

/-! ## Names that lead down -/

/-- A name that is not refused is relative, and its steps are names. -/
theorem steps_of_checkName {name : String} (h : checkName name = .ok ()) :
    isAbsolute name = false ∧ ∀ segment ∈ segments name, ∀ c,
      Component.ofSegment? segment = some c → ∃ text, c = .name text := by
  obtain ⟨-, hComponents⟩ := checkName_eq_ok_iff.1 h
  have hSteps : ∀ c ∈ steps name, c ≠ .root ∧ c ≠ .parent := fun c hc =>
    hComponents c (List.mem_filter.1 hc).1
  rw [steps_eq] at hSteps
  obtain ⟨hRoot, hNames⟩ := List.forall_mem_append.1 hSteps
  refine ⟨?_, fun segment hSegment c hc => ?_⟩
  · cases hAbsolute : isAbsolute name with
    | false => rfl
    | true =>
        rw [hAbsolute] at hRoot
        exact absurd rfl (hRoot .root (List.mem_singleton.2 rfl)).1
  · have hMem : c ∈ stepsOf (segments name) := List.mem_filterMap.2 ⟨segment, hSegment, hc⟩
    cases c with
    | root => exact absurd rfl (hNames _ hMem).1
    | here => exact absurd hc (ofSegment?_ne_here segment)
    | parent => exact absurd rfl (hNames _ hMem).2
    | name text => exact ⟨text, rfl⟩

theorem Below.refl (root : String) : Below root root :=
  ⟨[], (List.append_nil _).symm, fun _ h => by cases h⟩

theorem Below.trans {root middle path : String} (h : Below root middle) (h' : Below middle path) :
    Below root path := by
  obtain ⟨first, hFirst, hNames⟩ := h
  obtain ⟨rest, hRest, hNames'⟩ := h'
  exact ⟨first ++ rest, by rw [hRest, hFirst, List.append_assoc],
    List.forall_mem_append.2 ⟨hNames, hNames'⟩⟩

/-- A name that is not refused leads below the path it is joined to. -/
theorem below_join (root : String) {name : String} (h : checkName name = .ok ()) :
    Below root (join root name) := by
  obtain ⟨hRelative, hNames⟩ := steps_of_checkName h
  refine ⟨steps name, steps_join root hRelative, fun c hc => ?_⟩
  rw [steps_eq, hRelative] at hc
  obtain ⟨segment, hSegment, hStep⟩ := List.mem_filterMap.1 hc
  exact hNames segment hSegment c hStep

end Path

/-! ## Files that are found -/

namespace Files

/-- The name of a file: not empty, not one of the two directories that have no name of their own,
and without a slash. -/
def IsName (name : String) : Prop :=
  name ≠ "" ∧ name ≠ "." ∧ name ≠ ".." ∧ '/' ∉ name.toList

/-- All files have proper names. -/
def Proper (files : Files) : Prop :=
  ∀ entry ∈ files.contents, ∀ name ∈ entry.1.getLast?, IsName name

theorem ofSegment?_of_isName {name : String} (h : IsName name) :
    Path.Component.ofSegment? name = some (.name name) := by
  obtain ⟨hEmpty, hHere, hParent, -⟩ := h
  simp [Path.Component.ofSegment?, hEmpty, hHere, hParent]

/-- The path that is written down on the way has the steps of the segments. -/
theorem steps_descend (files : Files) (segments : List String) (path : String)
    (hSegments : ∀ segment ∈ segments, '/' ∉ segment.toList) :
    ∀ directory, files.descend path segments = some directory →
      Path.steps directory = Path.steps path ++ Path.stepsOf segments := by
  induction segments generalizing path with
  | nil =>
      intro directory h
      obtain rfl : path = directory := Option.some.inj h
      exact (List.append_nil _).symm
  | cons segment rest ih =>
      intro directory h
      obtain ⟨hSegment, hRest⟩ := List.forall_mem_cons.1 hSegments
      have hRelative := Path.isAbsolute_eq_false_of_notMem hSegment
      have hStep : Path.steps segment = Path.stepsOf [segment] := by
        rw [Path.steps_eq, hRelative, Path.segments_of_notMem hSegment]
        rfl
      have hNext : Path.steps (if path = "." then segment else Path.join path segment) =
          Path.steps path ++ Path.stepsOf [segment] := by
        split
        · rename_i hHere
          subst hHere
          exact hStep
        · rw [Path.steps_join path hRelative, hStep]
      rw [descend] at h
      obtain ⟨-, hRest'⟩ := Option.ite_none_right_eq_some.1 h
      rw [ih _ hRest directory hRest', hNext, List.append_assoc, ← Path.stepsOf_append]
      rfl

/-- The directory of a path, as it is written down on the way there. -/
def above? (files : Files) (path : String) : Option String :=
  if Path.isAbsolute path then files.descend "/" (Path.segments path).dropLast.tail
  else files.descend "." (Path.segments path).dropLast

/-- The files whose names go on from a path are looked for in the directory of the path. -/
theorem withExtension_eq (files : Files) (path : String) :
    files.withExtension path =
      match files.above? path with
      | none => []
      | some directory =>
          match files.locate? directory with
          | none => []
          | some location =>
              (((files.fileNames location).filter fun name =>
                (((Path.segments path).getLast?.getD "" ++ ".").toList.isPrefixOf name.toList &&
                  name.toList.getLast? != some '~')).mergeSort fun a b => a ≤ b).map fun name =>
                if directory = "." then name else Path.join directory name := by
  unfold withExtension above?
  cases Path.isAbsolute path <;> rfl

theorem steps_of_above?_eq_some {files : Files} {path directory : String}
    (h : files.above? path = some directory) :
    Path.steps directory = (if Path.isAbsolute path then [.root] else []) ++
      Path.stepsOf (Path.segments path).dropLast := by
  have hClean : ∀ segment ∈ (Path.segments path).dropLast, '/' ∉ segment.toList :=
    fun segment hSegment => Path.slash_notMem_segments (List.dropLast_subset _ hSegment)
  unfold above? at h
  cases hAbsolute : Path.isAbsolute path with
  | false =>
      rw [hAbsolute] at h
      exact steps_descend files _ "." hClean directory h
  | true =>
      rw [hAbsolute] at h
      obtain ⟨rest, hRest⟩ := Path.segments_of_isAbsolute hAbsolute
      have hTail : ∀ segment ∈ (Path.segments path).dropLast.tail, '/' ∉ segment.toList :=
        fun segment hSegment => hClean segment (List.mem_of_mem_tail hSegment)
      rw [steps_descend files _ "/" hTail directory h, hRest]
      -- The empty segment before the first slash means nothing.
      cases rest <;> rfl

/-- The directory in which files are looked for lies below the directory of the library. -/
theorem below_of_above?_eq_some {files : Files} {root name directory : String}
    (hName : checkName name = .ok ()) (h : files.above? (Path.join root name) = some directory) :
    Path.Below root directory := by
  obtain ⟨hRelative, hNames⟩ := Path.steps_of_checkName hName
  obtain ⟨front, hSegments, hFront, hAbsolute⟩ := Path.segments_join root hRelative
  refine ⟨Path.stepsOf (Path.segments name).dropLast, ?_, fun c hc => ?_⟩
  · rw [steps_of_above?_eq_some h, hSegments,
      List.dropLast_append_of_ne_nil (Path.segments_ne_nil name), Path.stepsOf_append, hFront,
      hAbsolute, Path.steps_eq root, List.append_assoc]
  · obtain ⟨segment, hSegment, hStep⟩ := List.mem_filterMap.1 hc
    exact hNames segment (List.dropLast_subset _ hSegment) c hStep

/-- A file whose name goes on from a path lies in the directory of the path. -/
theorem steps_of_mem_withExtension {files : Files} (hFiles : files.Proper) {path found : String}
    (h : found ∈ files.withExtension path) :
    ∃ directory name, files.above? path = some directory ∧
      Path.steps found = Path.steps directory ++ [.name name] := by
  rw [withExtension_eq] at h
  cases hDirectory : files.above? path with
  | none => simp [hDirectory] at h
  | some directory =>
      simp only [hDirectory] at h
      cases hLocation : files.locate? directory with
      | none => simp [hLocation] at h
      | some location =>
          simp only [hLocation] at h
          obtain ⟨name, hName, rfl⟩ := List.mem_map.1 h
          have hName := (List.mem_filter.1 (List.mem_mergeSort.1 hName)).1
          obtain ⟨entry, hEntry, hLast⟩ := List.mem_filterMap.1 hName
          have hProper : IsName name :=
            hFiles entry hEntry name (Option.ite_none_right_eq_some.1 hLast).2
          have hSlash := hProper.2.2.2
          have hRelative := Path.isAbsolute_eq_false_of_notMem hSlash
          have hStep : Path.steps name = [.name name] := by
            rw [Path.steps_eq, hRelative, Path.segments_of_notMem hSlash, Path.stepsOf,
              List.filterMap_cons, ofSegment?_of_isName hProper]
            rfl
          refine ⟨directory, name, rfl, ?_⟩
          split
          · rename_i hHere
            subst hHere
            exact hStep
          · rw [Path.steps_join directory hRelative, hStep]

/-- The file that is found for a name that is not refused lies below the directory that the name is
looked up in. -/
theorem below_of_find?_eq_some {files : Files} (hFiles : files.Proper) {root name found : String}
    (hName : checkName name = .ok ()) (h : files.find? (Path.join root name) = some found) :
    Path.Below root found := by
  unfold find? at h
  split at h
  · rename_i first others hFound
    obtain rfl : first = found := Option.some.inj h
    obtain ⟨directory, text, hDirectory, hSteps⟩ := steps_of_mem_withExtension hFiles
      (hFound ▸ List.mem_cons_self .. : first ∈ files.withExtension (Path.join root name))
    exact (below_of_above?_eq_some hName hDirectory).trans
      ⟨[.name text], hSteps, fun c hc => ⟨text, List.mem_singleton.1 hc⟩⟩
  · obtain ⟨-, hFound⟩ := Option.ite_none_right_eq_some.1 h
    obtain rfl : Path.join root name = found := Option.some.inj hFound
    exact Path.below_join root hName

end Files

end Stencil
