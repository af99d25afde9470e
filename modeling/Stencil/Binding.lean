import Stencil.Value

/-!
# Binding arguments to parameters

A call gives some arguments by their places and others by their names. A parameter takes the
argument at its place, the argument of its name, or its default, and it must take exactly one. Too
many positional arguments are refused first, then the first named argument that no parameter can
take, and last the parameters that are left without a value, all of them together.
-/

namespace Stencil

/-- Adds the named arguments to the parameters that have a value already. -/
def bindNamed (function : String) (parameters : List Parameter) (bound : Entries Value) :
    List (String × Value) → Except Fault (Entries Value)
  | [] => .ok bound
  | (name, value) :: rest =>
      if parameters.all (·.name != name) then
        .error (.arity (.unexpectedName function name))
      else if Entries.has name bound then .error (.arity (.repeated function name))
      else bindNamed function parameters (bound.insert name value) rest

/-- The value of each parameter: the one that is bound, or the default. -/
def withDefaults (bound : Entries Value) (parameters : List Parameter)
    (defaults : List (Option Value)) : List (String × Option Value) :=
  (parameters.zipIdx).map fun (parameter, place) =>
    (parameter.name, (Entries.find? parameter.name bound).or (defaults[place]?).join)

/-- The values of parameters, if each has one. -/
def allBound : List (String × Option Value) → Option (List (String × Value))
  | [] => some []
  | (name, some value) :: rest => (allBound rest).map ((name, value) :: ·)
  | (_, none) :: _ => none

/-- Binds arguments to the parameters of a function. -/
def bindParameters (function : String) (parameters : List Parameter)
    (defaults : List (Option Value)) (arguments : Arguments) :
    Except Fault (List (String × Value)) := do
  if parameters.length < arguments.positional.length then
    throw (.arity (.tooMany function parameters.length arguments.positional.length))
  let placed := Entries.ofPairs ((parameters.map Parameter.name).zip arguments.positional)
  let bound ← bindNamed function parameters placed arguments.named
  let values := withDefaults bound parameters defaults
  match allBound values with
  | some values => return values
  | none =>
      let missing := values.filterMap fun (name, value) =>
        if value.isNone then some name else none
      throw (.arity (.missing function missing))

theorem keys_allBound {values : List (String × Option Value)} {bound : List (String × Value)}
    (h : allBound values = some bound) : bound.map Prod.fst = values.map Prod.fst := by
  induction values generalizing bound with
  | nil => simp [allBound] at h; simp [← h]
  | cons entry rest ih =>
      obtain ⟨name, value⟩ := entry
      cases value with
      | none => simp [allBound] at h
      | some value =>
          simp only [allBound, Option.map_eq_some_iff] at h
          obtain ⟨others, hOthers, rfl⟩ := h
          simp [ih hOthers]

theorem keys_withDefaults (bound : Entries Value) (parameters : List Parameter)
    (defaults : List (Option Value)) :
    (withDefaults bound parameters defaults).map Prod.fst = parameters.map Parameter.name := by
  have hNames : parameters.map Parameter.name =
      (parameters.zipIdx.map Prod.fst).map Parameter.name := by
    rw [List.zipIdx_map_fst]
  rw [hNames, withDefaults, List.map_map, List.map_map]
  rfl

end Stencil
