import Mathlib.Data.List.Nodup
import Stencil.Proofs.Folding
import Stencil.Proofs.Renaming.Functions

/-!
# What a call binds

Each parameter of a function gets its value from one of three sources: the argument at its place,
the argument of its name, or its default. A call fits when no argument is left over and no parameter
goes without. When it does not fit, the fault tells the first thing that is wrong, in a fixed order:
too many places, then the first name that cannot be taken, then the parameters that are left.

What a call should do is said here without a run through the arguments: which value a parameter
`Receives`, when a call `Fits`, and what it `Refuses`. Names of parameters are different from one
another, and so are those of named arguments; the readers of headers and of calls see to it.

## Main results

* `bindNamed_fitting`, `bindNamed_offending`: named arguments are added up to the first that cannot
  be taken.
* `arguments_bind_exactly`: when arguments are bound, to which values, and else with which fault.
-/

namespace Stencil

/-! ## Entries with different names -/

namespace Entries

variable {α : Type} {entries : Entries α} {name : String}

theorem find?_append (first second : Entries α) (name : String) :
    find? name (first ++ second) = (find? name first).or (find? name second) := by
  rw [find?_eq_lookup, find?_eq_lookup, find?_eq_lookup, List.lookup_append]

theorem find?_eq_none_iff : find? name entries = none ↔ name ∉ keys entries := by
  induction entries with
  | nil => simp [find?, keys]
  | cons entry rest ih =>
      rw [find?, keys, List.map_cons, List.mem_cons, not_or]
      by_cases hName : entry.1 = name
      · simp [hName]
      · rw [if_neg hName, ih]
        exact ⟨fun h => ⟨Ne.symm hName, h⟩, And.right⟩

theorem find?_eq_some_iff {value : α} (hNames : (keys entries).Nodup) :
    find? name entries = some value ↔ (name, value) ∈ entries := by
  induction entries with
  | nil => simp [find?]
  | cons entry rest ih =>
      obtain ⟨key, first⟩ := entry
      rw [keys, List.map_cons, List.nodup_cons] at hNames
      rw [find?, List.mem_cons, Prod.mk.injEq]
      by_cases hName : key = name
      · subst hName
        have hOther : (key, value) ∉ rest := fun hMem =>
          hNames.1 (List.mem_map.2 ⟨_, hMem, rfl⟩)
        rw [if_pos rfl, Option.some_inj, or_iff_left hOther]
        exact ⟨fun h => ⟨rfl, h.symm⟩, fun h => h.2.symm⟩
      · have hFirst : ¬ (name = key ∧ value = first) := fun h => hName h.1.symm
        rw [if_neg hName, ih hNames.2, or_iff_right hFirst]

theorem insertAll_of_nodup {done : Entries α} (h : (keys (done ++ entries)).Nodup) :
    insertAll done entries = done ++ entries := by
  induction entries generalizing done with
  | nil =>
      rw [List.append_nil]
      rfl
  | cons entry rest ih =>
      have hSplit : done ++ entry :: rest = (done ++ [entry]) ++ rest := by simp
      have hNew : entry.1 ∉ keys done := by
        rw [keys, List.map_append, List.map_cons, List.nodup_append] at h
        intro hMem
        exact h.2.2 entry.1 hMem entry.1 (List.mem_cons_self ..) rfl
      show insertAll (done.insert entry.1 entry.2) rest = _
      rw [insert_of_notMem hNew, hSplit]
      exact ih (hSplit ▸ h)

/-- Among different names, a name finds the value at its own place. -/
theorem find?_zip {names : List String} (hNames : names.Nodup) {place : Nat}
    (hName : names[place]? = some name) (values : List α) :
    find? name (names.zip values) = values[place]? := by
  induction names generalizing place values with
  | nil => cases hName
  | cons first rest ih =>
      rw [List.nodup_cons] at hNames
      cases values with
      | nil => rfl
      | cons value others =>
          rw [List.zip_cons_cons, find?]
          cases place with
          | zero =>
              cases hName
              rw [if_pos rfl]
              rfl
          | succ place =>
              have hRest : rest[place]? = some name := hName
              have hOther : first ≠ name := fun h => hNames.1 (h ▸ List.mem_of_getElem? hRest)
              rw [if_neg hOther, ih hNames.2 hRest]
              rfl

end Entries

/-! ## What a call should do -/

section Calls

variable (function : String) (parameters : List Parameter) (defaults : List (Option Value))
  (arguments : Arguments)

/-- The value that the parameter at a place receives: the argument at its place, or else the one of
its name, or else its default. -/
inductive Receives (place : Nat) (parameter : Parameter) : Value → Prop
  | positional {value : Value} (given : arguments.positional[place]? = some value) :
      Receives place parameter value
  | named {value : Value} (left : arguments.positional.length ≤ place)
      (given : (parameter.name, value) ∈ arguments.named) : Receives place parameter value
  | default {value : Value} (left : arguments.positional.length ≤ place)
      (missing : parameter.name ∉ arguments.named.keys)
      (given : defaults[place]? = some (some value)) : Receives place parameter value

/-- The name is that of a parameter which no positional argument fills. -/
def Takes (name : String) : Prop :=
  ∃ place parameter, parameters[place]? = some parameter ∧
    arguments.positional.length ≤ place ∧ parameter.name = name

/-- No argument fills the parameter at this place, and it has no default. -/
def isUnfilled (entry : Parameter × Nat) : Bool :=
  arguments.positional.length ≤ entry.2 && !arguments.named.keys.contains entry.1.name &&
    (defaults[entry.2]?).join.isNone

/-- The parameters that are left without a value, in their order. -/
def unfilled : List String :=
  (parameters.zipIdx.filter (isUnfilled defaults arguments)).map fun entry => entry.1.name

/-- No argument is left over, and no parameter goes without. -/
structure Fits : Prop where
  places : arguments.positional.length ≤ parameters.length
  names : ∀ name ∈ arguments.named.keys, Takes parameters arguments name
  rest : ∀ place parameter, parameters[place]? = some parameter →
    arguments.positional.length ≤ place → parameter.name ∉ arguments.named.keys →
    ∃ value, defaults[place]? = some (some value)

/-- The names that are bound are the parameters, each with the value that it receives. -/
structure Binds (bound : List (String × Value)) : Prop where
  names : bound.map Prod.fst = parameters.map Parameter.name
  values : ∀ place parameter value, parameters[place]? = some parameter →
    (bound[place]? = some (parameter.name, value) ↔
      Receives defaults arguments place parameter value)

/-- Why the arguments of a call are refused. Each cause supposes that none of those before it is
given. -/
inductive Refuses : ArityCause → Prop
  | tooMany (more : parameters.length < arguments.positional.length) :
      Refuses (.tooMany function parameters.length arguments.positional.length)
  | unexpected {before after : Entries Value} {name : String} {value : Value}
      (places : arguments.positional.length ≤ parameters.length)
      (split : arguments.named = before ++ (name, value) :: after)
      (first : ∀ earlier ∈ before.keys, Takes parameters arguments earlier)
      (unknown : name ∉ parameters.map Parameter.name) : Refuses (.unexpectedName function name)
  | repeated {before after : Entries Value} {name : String} {value : Value}
      (places : arguments.positional.length ≤ parameters.length)
      (split : arguments.named = before ++ (name, value) :: after)
      (first : ∀ earlier ∈ before.keys, Takes parameters arguments earlier)
      (filled : name ∈ (parameters.map Parameter.name).take arguments.positional.length) :
      Refuses (.repeated function name)
  | missing (places : arguments.positional.length ≤ parameters.length)
      (names : ∀ name ∈ arguments.named.keys, Takes parameters arguments name)
      (without : unfilled parameters defaults arguments ≠ []) :
      Refuses (.missing function (unfilled parameters defaults arguments))

end Calls

/-! ## Positional and named arguments -/

/-- What the positional arguments are bound to. -/
def placed (parameters : List Parameter) (arguments : Arguments) : Entries Value :=
  (parameters.map Parameter.name).zip arguments.positional

theorem keys_zip {α : Type} (names : List String) (values : List α) :
    Entries.keys (names.zip values) = names.take values.length := by
  induction names generalizing values with
  | nil => rw [List.take_nil]; rfl
  | cons name rest ih =>
      cases values with
      | nil => rfl
      | cons value others => exact congrArg (name :: ·) (ih others)

section Named

variable {function : String} {parameters : List Parameter} {defaults : List (Option Value)}
  {arguments : Arguments} {name : String} {value : Value} {before after : Entries Value}
  (hNames : (parameters.map Parameter.name).Nodup)

theorem keys_placed : (placed parameters arguments).keys =
    (parameters.map Parameter.name).take arguments.positional.length :=
  keys_zip _ _

include hNames in
theorem ofPairs_placed :
    Entries.ofPairs (placed parameters arguments) = placed parameters arguments := by
  rw [Entries.ofPairs_eq, Entries.insertAll_of_nodup, List.nil_append]
  rw [List.nil_append, keys_placed]
  exact hNames.sublist (List.take_sublist _ _)

/-- The parameters that no positional argument fills are those behind the ones that are. -/
theorem takes_iff : Takes parameters arguments name ↔
    name ∈ (parameters.map Parameter.name).drop arguments.positional.length := by
  rw [List.mem_iff_getElem?]
  constructor
  · rintro ⟨place, parameter, hParameter, hPlace, rfl⟩
    refine ⟨place - arguments.positional.length, ?_⟩
    rw [List.getElem?_drop, Nat.add_sub_cancel' hPlace, List.getElem?_map, hParameter]
    rfl
  · rintro ⟨place, hName⟩
    rw [List.getElem?_drop, List.getElem?_map, Option.map_eq_some_iff] at hName
    obtain ⟨parameter, hParameter, hName⟩ := hName
    exact ⟨_, parameter, hParameter, Nat.le_add_right _ _, hName⟩

theorem mem_names_of_takes (h : Takes parameters arguments name) :
    name ∈ parameters.map Parameter.name :=
  List.mem_of_mem_drop (takes_iff.1 h)

include hNames in
theorem notMem_placed_of_takes (h : Takes parameters arguments name) :
    name ∉ (placed parameters arguments).keys := by
  rw [keys_placed]
  intro hMem
  exact List.disjoint_take_drop hNames (Nat.le_refl _) hMem (takes_iff.1 h)

theorem unknown_or_filled (h : ¬ Takes parameters arguments name) :
    name ∉ parameters.map Parameter.name ∨ name ∈ (placed parameters arguments).keys := by
  by_cases hMem : name ∈ parameters.map Parameter.name
  · rw [← List.take_append_drop arguments.positional.length (parameters.map Parameter.name),
      List.mem_append] at hMem
    exact .inr (keys_placed ▸ hMem.resolve_right (mt takes_iff.2 h))
  · exact .inl hMem

theorem all_ne_iff : parameters.all (·.name != name) = true ↔
    name ∉ parameters.map Parameter.name := by
  simp only [List.all_eq_true, bne_iff_ne, List.mem_map, not_exists, not_and]

theorem has_iff {bound : Entries Value} : Entries.has name bound = true ↔ name ∈ bound.keys := by
  rw [Entries.has, Option.isSome_iff_ne_none, ne_eq, Entries.find?_eq_none_iff, not_not]

include hNames in
/-- Named arguments that can be taken are added, one after another. The induction is on those that
are left, with the ones that are added already in `done`. -/
theorem bindNamed_append (hTakes : ∀ earlier ∈ before.keys, Takes parameters arguments earlier)
    {done : Entries Value} (hDistinct : (Entries.keys (done ++ before)).Nodup) :
    bindNamed function parameters (placed parameters arguments ++ done) (before ++ after) =
      bindNamed function parameters (placed parameters arguments ++ (done ++ before)) after := by
  induction before generalizing done with
  | nil => rw [List.nil_append, List.append_nil]
  | cons entry rest ih =>
      obtain ⟨name, value⟩ := entry
      obtain ⟨hTaken, hRest⟩ := List.forall_mem_cons.1 hTakes
      have hSplit : done ++ (name, value) :: rest = (done ++ [(name, value)]) ++ rest := by simp
      have hDone : name ∉ done.keys := by
        rw [Entries.keys, List.map_append, List.map_cons, List.nodup_append] at hDistinct
        intro hMem
        exact hDistinct.2.2 name hMem name (List.mem_cons_self ..) rfl
      have hNew : name ∉ Entries.keys (placed parameters arguments ++ done) := by
        rw [Entries.keys, List.map_append, List.mem_append, not_or]
        exact ⟨notMem_placed_of_takes hNames hTaken, hDone⟩
      have hKnown := mt all_ne_iff.1 (not_not_intro (mem_names_of_takes hTaken))
      rw [List.cons_append, bindNamed, if_neg hKnown, if_neg (mt has_iff.1 hNew),
        Entries.insert_of_notMem hNew, List.append_assoc, hSplit]
      exact ih hRest (hSplit ▸ hDistinct)

include hNames in
/-- Where all can be taken, all are added. -/
theorem bindNamed_fitting (hNamed : arguments.named.keys.Nodup)
    (hTakes : ∀ name ∈ arguments.named.keys, Takes parameters arguments name) :
    bindNamed function parameters (placed parameters arguments) arguments.named =
      .ok (placed parameters arguments ++ arguments.named) := by
  have hAll : bindNamed function parameters (placed parameters arguments ++ [])
      (arguments.named ++ []) =
        bindNamed function parameters (placed parameters arguments ++ ([] ++ arguments.named)) [] :=
    bindNamed_append hNames hTakes hNamed
  rwa [List.append_nil, List.append_nil, List.nil_append, bindNamed] at hAll

section Offending

variable (hNamed : arguments.named.keys.Nodup)
  (hSplit : arguments.named = before ++ (name, value) :: after)
  (hFirst : ∀ earlier ∈ before.keys, Takes parameters arguments earlier)

include hNames hNamed hSplit hFirst in
/-- The first that cannot be taken decides. -/
theorem bindNamed_offending :
    bindNamed function parameters (placed parameters arguments) arguments.named =
      bindNamed function parameters (placed parameters arguments ++ before)
        ((name, value) :: after) := by
  rw [hSplit, Entries.keys, List.map_append, List.nodup_append] at hNamed
  have hBefore : bindNamed function parameters (placed parameters arguments ++ [])
      (before ++ (name, value) :: after) =
        bindNamed function parameters (placed parameters arguments ++ ([] ++ before))
          ((name, value) :: after) := bindNamed_append hNames hFirst hNamed.1
  rwa [List.append_nil, List.nil_append, ← hSplit] at hBefore

include hNames hNamed hSplit hFirst in
theorem bindNamed_unexpected (hUnknown : name ∉ parameters.map Parameter.name) :
    bindNamed function parameters (placed parameters arguments) arguments.named =
      .error (.arity (.unexpectedName function name)) := by
  rw [bindNamed_offending hNames hNamed hSplit hFirst, bindNamed, if_pos (all_ne_iff.2 hUnknown)]

include hNames hNamed hSplit hFirst in
theorem bindNamed_repeated (hFilled : name ∈ (placed parameters arguments).keys) :
    bindNamed function parameters (placed parameters arguments) arguments.named =
      .error (.arity (.repeated function name)) := by
  have hKnown : name ∈ parameters.map Parameter.name := by
    rw [keys_placed] at hFilled
    exact List.mem_of_mem_take hFilled
  have hBound : name ∈ Entries.keys (placed parameters arguments ++ before) := by
    rw [Entries.keys, List.map_append]
    exact List.mem_append_left _ hFilled
  rw [bindNamed_offending hNames hNamed hSplit hFirst, bindNamed,
    if_neg (mt all_ne_iff.1 (not_not_intro hKnown)), if_pos (has_iff.2 hBound)]

end Offending

/-- Either all named arguments can be taken, or there is a first that cannot. -/
theorem exists_first_offending {named : Entries Value}
    (h : ¬ ∀ name ∈ named.keys, Takes parameters arguments name) :
    ∃ before name value after, named = before ++ (name, value) :: after ∧
      (∀ earlier ∈ Entries.keys before, Takes parameters arguments earlier) ∧
      ¬ Takes parameters arguments name := by
  induction named with
  | nil => exact absurd (fun name hMem => absurd hMem List.not_mem_nil) h
  | cons entry rest ih =>
      obtain ⟨name, value⟩ := entry
      by_cases hTaken : Takes parameters arguments name
      · have hRest : ¬ ∀ name ∈ Entries.keys rest, Takes parameters arguments name :=
          fun hRest => h (List.forall_mem_cons.2 ⟨hTaken, hRest⟩)
        obtain ⟨before, other, found, after, rfl, hBefore, hOther⟩ := ih hRest
        exact ⟨(name, value) :: before, other, found, after, rfl,
          List.forall_mem_cons.2 ⟨hTaken, hBefore⟩, hOther⟩
      · exact ⟨[], name, value, rest, rfl, fun _ hMem => absurd hMem List.not_mem_nil, hTaken⟩

/-! ## The values of parameters -/

include hNames in
/-- What is bound for a parameter, or else its default, is what it receives. -/
theorem received_iff (hNamed : arguments.named.keys.Nodup) {place : Nat} {parameter : Parameter}
    (hParameter : parameters[place]? = some parameter) :
    (Entries.find? parameter.name (placed parameters arguments ++ arguments.named)).or
        (defaults[place]?).join = some value ↔
      Receives defaults arguments place parameter value := by
  have hName : (parameters.map Parameter.name)[place]? = some parameter.name := by
    rw [List.getElem?_map, hParameter]
    rfl
  rw [Entries.find?_append, placed, Entries.find?_zip hNames hName]
  cases hGiven : arguments.positional[place]? with
  | some given =>
      have hBelow := (List.getElem?_eq_some_iff.1 hGiven).1
      constructor
      · intro h
        cases h
        exact .positional hGiven
      · intro h
        cases h with
        | positional found => rw [← found, hGiven]; rfl
        | named left => omega
        | default left => omega
  | none =>
      have hLeft := List.getElem?_eq_none_iff.1 hGiven
      rw [Option.none_or]
      cases hFound : Entries.find? parameter.name arguments.named with
      | some found =>
          have hMem := (Entries.find?_eq_some_iff hNamed).1 hFound
          constructor
          · intro h
            cases h
            exact .named hLeft hMem
          · intro h
            cases h with
            | positional given => rw [hGiven] at given; cases given
            | named _ given =>
                rw [← (Entries.find?_eq_some_iff hNamed).2 given, hFound]
                rfl
            | default _ missing =>
                exact absurd (List.mem_map_of_mem (f := Prod.fst) hMem) missing
      | none =>
          have hMissing := Entries.find?_eq_none_iff.1 hFound
          rw [Option.none_or, Option.join_eq_some_iff]
          constructor
          · exact fun h => .default hLeft hMissing h
          · intro h
            cases h with
            | positional given => rw [hGiven] at given; cases given
            | named _ given => exact absurd (List.mem_map_of_mem (f := Prod.fst) given) hMissing
            | default _ _ given => exact given

theorem eq_map_of_allBound {values : List (String × Option Value)} {bound : List (String × Value)}
    (h : allBound values = some bound) :
    values = bound.map fun entry => (entry.1, some entry.2) := by
  induction values generalizing bound with
  | nil =>
      cases h
      rfl
  | cons entry rest ih =>
      obtain ⟨name, value⟩ := entry
      cases value with
      | none => cases h
      | some value =>
          rw [allBound, Option.map_eq_some_iff] at h
          obtain ⟨others, hOthers, rfl⟩ := h
          rw [ih hOthers]
          rfl

theorem allBound_eq_none_iff {values : List (String × Option Value)} :
    allBound values = none ↔ (values.filterMap fun (name, value) =>
      if value.isNone then some name else none) ≠ [] := by
  induction values with
  | nil => exact iff_of_false nofun fun h => h rfl
  | cons entry rest ih =>
      obtain ⟨name, value⟩ := entry
      cases value with
      | none => exact iff_of_true rfl (List.cons_ne_nil _ _)
      | some value =>
          rw [allBound, Option.map_eq_none_iff, ih]
          rfl

theorem getElem?_withDefaults (defaults : List (Option Value)) (bound : Entries Value)
    {place : Nat} {parameter : Parameter} (hParameter : parameters[place]? = some parameter) :
    (withDefaults bound parameters defaults)[place]? = some (parameter.name,
      (Entries.find? parameter.name bound).or (defaults[place]?).join) := by
  rw [withDefaults, List.getElem?_map, List.getElem?_zipIdx, hParameter, Nat.zero_add]
  rfl

include hNames in
theorem binds_of_allBound (hNamed : arguments.named.keys.Nodup) {bound : List (String × Value)}
    (h : allBound (withDefaults (placed parameters arguments ++ arguments.named) parameters
      defaults) = some bound) : Binds parameters defaults arguments bound := by
  refine ⟨(keys_allBound h).trans (keys_withDefaults _ _ _), ?_⟩
  intro place parameter value hParameter
  have hPlace := getElem?_withDefaults defaults
    (placed parameters arguments ++ arguments.named) hParameter
  rw [eq_map_of_allBound h, List.getElem?_map, Option.map_eq_some_iff] at hPlace
  obtain ⟨⟨name, given⟩, hEntry, hValue⟩ := hPlace
  rw [Prod.mk.injEq] at hValue
  obtain ⟨rfl, hGiven⟩ := hValue
  rw [← received_iff hNames hNamed hParameter, ← hGiven, hEntry, Option.some_inj, Option.some_inj,
    Prod.mk.injEq, and_iff_right rfl]

theorem isUnfilled_iff {parameter : Parameter} {place : Nat} :
    isUnfilled defaults arguments (parameter, place) = true ↔
      arguments.positional.length ≤ place ∧ parameter.name ∉ arguments.named.keys ∧
        (defaults[place]?).join = none := by
  simp [isUnfilled, and_assoc]

include hNames in
/-- A parameter has no value where it is unfilled. -/
theorem value_eq_none_iff {place : Nat} {parameter : Parameter}
    (hParameter : parameters[place]? = some parameter) :
    (Entries.find? parameter.name (placed parameters arguments ++ arguments.named)).or
        (defaults[place]?).join = none ↔
      isUnfilled defaults arguments (parameter, place) = true := by
  have hName : (parameters.map Parameter.name)[place]? = some parameter.name := by
    rw [List.getElem?_map, hParameter]
    rfl
  rw [Entries.find?_append, placed, Entries.find?_zip hNames hName, Option.or_eq_none_iff,
    Option.or_eq_none_iff, List.getElem?_eq_none_iff, Entries.find?_eq_none_iff, and_assoc,
    isUnfilled_iff]

include hNames in
theorem filterMap_withDefaults :
    ((withDefaults (placed parameters arguments ++ arguments.named) parameters
      defaults).filterMap fun (name, value) => if value.isNone then some name else none) =
      unfilled parameters defaults arguments := by
  rw [withDefaults, List.filterMap_map, unfilled, ← List.filterMap_eq_map, List.filterMap_filter]
  refine List.filterMap_congr fun entry hEntry => ?_
  have hParameter := List.mem_zipIdx_iff_getElem?.1 hEntry
  have hNone : _ ↔ isUnfilled defaults arguments entry = true :=
    value_eq_none_iff hNames hParameter
  simp only [Function.comp_apply, Option.isNone_iff_eq_none, hNone]

/-- No parameter is unfilled when each that is left has a default. -/
theorem unfilled_eq_nil_iff : unfilled parameters defaults arguments = [] ↔
    ∀ place parameter, parameters[place]? = some parameter →
      arguments.positional.length ≤ place → parameter.name ∉ arguments.named.keys →
      ∃ value, defaults[place]? = some (some value) := by
  rw [unfilled, List.map_eq_nil_iff, List.filter_eq_nil_iff]
  constructor
  · intro h place parameter hParameter hPlace hMissing
    have hHas := h (parameter, place) (List.mem_zipIdx_iff_getElem?.2 hParameter)
    rw [isUnfilled_iff] at hHas
    have hDefault : (defaults[place]?).join ≠ none := fun hNone =>
      hHas ⟨hPlace, hMissing, hNone⟩
    obtain ⟨value, hValue⟩ := Option.ne_none_iff_exists'.1 hDefault
    exact ⟨value, Option.join_eq_some_iff.1 hValue⟩
  · rintro h ⟨parameter, place⟩ hEntry hLacks
    obtain ⟨hPlace, hMissing, hNone⟩ := isUnfilled_iff.1 hLacks
    obtain ⟨value, hValue⟩ :=
      h place parameter (List.mem_zipIdx_iff_getElem?.1 hEntry) hPlace hMissing
    rw [hValue] at hNone
    cases hNone

/-! ## Whole calls -/

include hNames in
/-- With all arguments taken, only parameters without a value are left to decide. -/
theorem bindParameters_of_takes (hPlaces : arguments.positional.length ≤ parameters.length)
    (hNamed : arguments.named.keys.Nodup)
    (hTakes : ∀ name ∈ arguments.named.keys, Takes parameters arguments name) :
    bindParameters function parameters defaults arguments = bindRest function parameters defaults
      (placed parameters arguments ++ arguments.named) := by
  rw [bindParameters_eq, if_neg (Nat.not_lt.2 hPlaces), ← placed, ofPairs_placed hNames,
    bindNamed_fitting hNames hNamed hTakes]
  rfl

include hNames in
theorem bindParameters_of_error (hPlaces : arguments.positional.length ≤ parameters.length)
    {fault : Fault} (h : bindNamed function parameters (placed parameters arguments)
      arguments.named = .error fault) :
    bindParameters function parameters defaults arguments = .error fault := by
  rw [bindParameters_eq, if_neg (Nat.not_lt.2 hPlaces), ← placed, ofPairs_placed hNames, h]
  rfl

variable (function) in
include hNames in
theorem exists_bound_of_fits (hNamed : arguments.named.keys.Nodup)
    (h : Fits parameters defaults arguments) :
    ∃ bound, bindParameters function parameters defaults arguments = .ok bound ∧
      Binds parameters defaults arguments bound := by
  rw [bindParameters_of_takes hNames h.places hNamed h.names, bindRest]
  cases hBound : allBound (withDefaults (placed parameters arguments ++ arguments.named) parameters
      defaults) with
  | some bound => exact ⟨bound, rfl, binds_of_allBound hNames hNamed hBound⟩
  | none =>
      rw [allBound_eq_none_iff, filterMap_withDefaults hNames] at hBound
      exact absurd (unfilled_eq_nil_iff.2 h.rest) hBound

include hNames in
theorem bindParameters_of_refuses (hNamed : arguments.named.keys.Nodup) {cause : ArityCause}
    (h : Refuses function parameters defaults arguments cause) :
    bindParameters function parameters defaults arguments = .error (.arity cause) := by
  cases h with
  | tooMany more => rw [bindParameters_eq, if_pos more]
  | unexpected places split first unknown =>
      exact bindParameters_of_error hNames places
        (bindNamed_unexpected hNames hNamed split first unknown)
  | repeated places split first filled =>
      exact bindParameters_of_error hNames places
        (bindNamed_repeated hNames hNamed split first (keys_placed ▸ filled))
  | missing places names without =>
      rw [← filterMap_withDefaults hNames] at without
      rw [bindParameters_of_takes hNames places hNamed names, bindRest,
        allBound_eq_none_iff.2 without, filterMap_withDefaults hNames]

variable (function parameters defaults arguments) in
/-- A call fits, or there is a cause to refuse it. -/
theorem fits_or_refuses : Fits parameters defaults arguments ∨
    ∃ cause, Refuses function parameters defaults arguments cause := by
  by_cases hPlaces : arguments.positional.length ≤ parameters.length
  · by_cases hTakes : ∀ name ∈ arguments.named.keys, Takes parameters arguments name
    · by_cases hFilled : unfilled parameters defaults arguments = []
      · exact .inl ⟨hPlaces, hTakes, unfilled_eq_nil_iff.1 hFilled⟩
      · exact .inr ⟨_, .missing hPlaces hTakes hFilled⟩
    · obtain ⟨before, name, value, after, hSplit, hFirst, hOffends⟩ := exists_first_offending hTakes
      rcases unknown_or_filled hOffends with hUnknown | hFilled
      · exact .inr ⟨_, .unexpected hPlaces hSplit hFirst hUnknown⟩
      · exact .inr ⟨_, .repeated hPlaces hSplit hFirst (keys_placed ▸ hFilled)⟩
  · exact .inr ⟨_, .tooMany (Nat.lt_of_not_le hPlaces)⟩

end Named

/-- Arguments are bound exactly when the call fits, each parameter to the value that it receives;
and else the fault is the first cause to refuse them. -/
theorem arguments_bind_exactly (function : String) {parameters : List Parameter}
    {defaults : List (Option Value)} {arguments : Arguments}
    (hNames : (parameters.map Parameter.name).Nodup) (hNamed : arguments.named.keys.Nodup) :
    ((∃ bound, bindParameters function parameters defaults arguments = .ok bound) ↔
      Fits parameters defaults arguments) ∧
    (∀ bound, bindParameters function parameters defaults arguments = .ok bound →
      Binds parameters defaults arguments bound) ∧
    ∀ fault, bindParameters function parameters defaults arguments = .error fault ↔
      ∃ cause, fault = .arity cause ∧ Refuses function parameters defaults arguments cause := by
  rcases fits_or_refuses function parameters defaults arguments with hFits | ⟨cause, hRefuses⟩
  · obtain ⟨bound, hBound, hBinds⟩ := exists_bound_of_fits function hNames hNamed hFits
    refine ⟨iff_of_true ⟨bound, hBound⟩ hFits, ?_, ?_⟩
    · intro other hOther
      rw [hBound] at hOther
      cases hOther
      exact hBinds
    · intro fault
      rw [hBound]
      refine iff_of_false nofun ?_
      rintro ⟨cause, -, hRefuses⟩
      rw [bindParameters_of_refuses hNames hNamed hRefuses] at hBound
      cases hBound
  · have hError := bindParameters_of_refuses hNames hNamed hRefuses
    have hNot : ¬ ∃ bound, bindParameters function parameters defaults arguments = .ok bound := by
      rintro ⟨bound, hBound⟩
      rw [hError] at hBound
      cases hBound
    refine ⟨iff_of_false hNot fun hFits => ?_, fun bound hBound => absurd ⟨bound, hBound⟩ hNot, ?_⟩
    · obtain ⟨bound, hBound, -⟩ := exists_bound_of_fits function hNames hNamed hFits
      exact hNot ⟨bound, hBound⟩
    · intro fault
      constructor
      · intro hFault
        rw [hError] at hFault
        cases hFault
        exact ⟨cause, rfl, hRefuses⟩
      · rintro ⟨other, rfl, hOther⟩
        exact bindParameters_of_refuses hNames hNamed hOther

/-- A call of `f(a, b, c=9)` as `f(1, b=2)`: one parameter for each source of values. -/
theorem binds_three_sources :
    let parameters : List Parameter := [⟨"a", none⟩, ⟨"b", none⟩, ⟨"c", some (.literal (.int 9))⟩]
    let defaults : List (Option Value) := [none, none, some (.int 9)]
    let arguments : Arguments := ⟨[.int 1], [("b", .int 2)]⟩
    (parameters.map Parameter.name).Nodup ∧ arguments.named.keys.Nodup ∧
      Binds parameters defaults arguments [("a", .int 1), ("b", .int 2), ("c", .int 9)] := by
  intro parameters defaults arguments
  have hNames : (parameters.map Parameter.name).Nodup := by decide
  have hNamed : arguments.named.keys.Nodup := by decide
  have hBound : bindParameters "f" parameters defaults arguments =
      .ok [("a", .int 1), ("b", .int 2), ("c", .int 9)] := by
    rw [bindParameters_eq, Entries.ofPairs_eq]
    rfl
  exact ⟨hNames, hNamed, (arguments_bind_exactly "f" hNames hNamed).2.1 _ hBound⟩

end Stencil
