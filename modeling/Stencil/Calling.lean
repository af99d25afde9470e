import Stencil.Format.Brace
import Stencil.Library

/-!
# Calls inside calls

What the evaluator leaves to others: calling a value, and asking a value for an attribute. Both may
lead to more evaluation. A call runs the body of a function or a template; an attribute of a library
may have to be compiled first, and its defaults evaluated.

At most one hundred calls of functions and templates may be inside one another, so the services form
a tower: those on a level evaluate bodies with the services on the level below, and on the lowest
level a call is refused. Built-in functions and methods do not count. A built-in function may call a
function for each item, on the same level, with the item as the only argument; with one argument no
built-in function calls anything, so the tower needs no more height for that.

Nothing counts how many templates are compiled inside one another. When a library is among its own
globals, by way of a memory that two libraries share, a template may look itself up while it is
compiled, and so on without an end. How far this is followed is part of the setting, and a run that
needs more breaks off. The services on a level form a tower of their own for that: those on top of
it compile with the services below them, and on the lowest floor there are none that could be asked.

## Main results

* `apply_ofList_singleton`: a built-in function with one argument calls nothing.
* `services_zero_call_template`: on the lowest level every template is refused.
-/

namespace Stencil

/-- The most calls that may be inside one another. -/
def callLimit : Nat := 100

/-- Services that break off when they are asked, since templates are compiled too deep inside one
another. -/
def Services.spent : Services where
  access _ _ := Run.fault (.broken .nesting)
  call _ _ := Run.fault (.broken .nesting)

/-- The attribute of a value. That of a library is what the name leads to. -/
def accessWith (loader : Services) (value : Value) (name : String) : Run Value :=
  match value with
  | .renderer content _ => do
      match ← content.resolve loader name with
      | .template leaf => return .page content leaf none
      | .directory child => return .renderer child none
  | value => Run.ofEvaluation (value.access name)

/-- Calls a value. How a built-in function calls others, and how attributes are found, is given. -/
def callWith (inner : Option Services) (access : Value → String → Run Value)
    (callback : Value → Value → Run Value) (loader : Services) (value : Value)
    (arguments : Arguments) : Run Value :=
  match value with
  | .builtin name _ => Builtin.apply callback name arguments
  | .method (.string text _) "format" _ => Format.brace access text.toList arguments
  | .method receiver name _ => Run.ofEvaluation (callMethod receiver name arguments)
  | .function closure _ => closure.run inner arguments
  | .template content _ => Value.ofRendering <$> content.run inner [] arguments
  | .page content leaf _ => Value.ofRendering <$> content.invoke inner loader leaf arguments
  | value => Run.fault (.notCallable value.typeName)

/-- Calls a value for an item, inside a built-in function. A built-in function that is called in
this way has one argument and calls nothing. -/
def callForItem (inner : Option Services) (access : Value → String → Run Value)
    (loader : Services) (value item : Value) : Run Value :=
  callWith inner access (fun function _ => Run.fault (.notCallable function.typeName)) loader value
    (.ofList [item])

/-- The services on a level, from those on the level below and those for compiling. -/
def assemble (inner : Option Services) (loader : Services) : Services :=
  let access := accessWith loader
  { access, call := callWith inner access (callForItem inner access loader) loader }

/-- The services on a level, with so many templates that may be compiled inside one another. What is
below them is put together when it is asked for. -/
def servicesAbove (inner : Option Services) : Nat → Services
  | 0 => assemble inner .spent
  | loads + 1 =>
      { access := fun value name =>
          (assemble inner (servicesAbove inner loads)).access value name
        call := fun value arguments =>
          (assemble inner (servicesAbove inner loads)).call value arguments }

theorem servicesAbove_succ (inner : Option Services) (loads : Nat) :
    servicesAbove inner (loads + 1) = assemble inner (servicesAbove inner loads) := rfl

/-- The services on a level. The setting says how many templates may be compiled inside one
another. -/
def servicesOver (inner : Option Services) : Services where
  access value name := do (servicesAbove inner (← read).passes).access value name
  call value arguments := do (servicesAbove inner (← read).passes).call value arguments

/-- The services that allow so many calls inside one another. -/
def services : Nat → Services
  | 0 => servicesOver none
  | calls + 1 => servicesOver (some (services calls))

/-- Whatever the setting says, the services on a level are put together from those inside calls, and
from some for compiling. -/
theorem exists_assemble_apply (inner : Option Services) (setting : Setting) : ∃ loader,
    (∀ value name, (servicesOver inner).access value name setting =
      (assemble inner loader).access value name setting) ∧
    ∀ value arguments, (servicesOver inner).call value arguments setting =
      (assemble inner loader).call value arguments setting := by
  have hAbove (loads : Nat) : ∃ loader, servicesAbove inner loads = assemble inner loader := by
    cases loads with
    | zero => exact ⟨.spent, rfl⟩
    | succ loads => exact ⟨_, servicesAbove_succ inner loads⟩
  obtain ⟨loader, hLoader⟩ := hAbove setting.passes
  have hOver : (∀ value name, (servicesOver inner).access value name setting =
        (servicesAbove inner setting.passes).access value name setting) ∧
      ∀ value arguments, (servicesOver inner).call value arguments setting =
        (servicesAbove inner setting.passes).call value arguments setting :=
    ⟨fun _ _ => rfl, fun _ _ => rfl⟩
  exact ⟨loader, hLoader ▸ hOver⟩

theorem exists_servicesOver_eq (calls : Nat) : ∃ inner, services calls = servicesOver inner := by
  cases calls with
  | zero => exact ⟨none, rfl⟩
  | succ calls => exact ⟨some (services calls), rfl⟩

/-- The services at the start of a run. -/
def Services.standard : Services := services callLimit

/-- The services inside a call at the start of a run. -/
def Services.inner : Option Services := some (services (callLimit - 1))

/-! ## Properties of a level -/

section Levels

variable {holds : Services → Prop} (hSpent : holds .spent)
include hSpent

/-- What is put together has a property when what it is put together from has it. So the services on
a level have it, when those below do. -/
theorem servicesAbove_of_assemble {inner : Option Services}
    (hAssemble : ∀ loader, holds loader → holds (assemble inner loader)) (loads : Nat) :
    holds (servicesAbove inner loads) := by
  induction loads with
  | zero => exact hAssemble .spent hSpent
  | succ loads ih => exact hAssemble _ ih

/-- The services on every level have a property that services have when those inside their calls and
those for compiling have it, and that does not depend on what the setting says. -/
theorem services_of_assemble
    (hAssemble : ∀ (inner : Option Services) (loader : Services),
      (∀ services, inner = some services → holds services) → holds loader →
      holds (assemble inner loader))
    (hOver : ∀ inner : Option Services,
      (∀ loads, holds (servicesAbove inner loads)) → holds (servicesOver inner)) (calls : Nat) :
    holds (services calls) := by
  have hLevel (inner : Option Services) (hInner : ∀ services, inner = some services →
      holds services) : holds (servicesOver inner) :=
    hOver inner (servicesAbove_of_assemble hSpent fun loader => hAssemble inner loader hInner)
  induction calls with
  | zero => exact hLevel none fun _ hNone => by cases hNone
  | succ calls ih => exact hLevel _ fun _ hServices => Option.some.inj hServices ▸ ih

end Levels

/-- A built-in function with one argument calls nothing. -/
theorem apply_ofList_singleton (call other : Value → Value → Run Value) (name : String)
    (item : Value) :
    Builtin.apply call name (.ofList [item]) = Builtin.apply other name (.ofList [item]) := by
  unfold Builtin.apply
  split
  · rfl
  · have hKey : Builtin.keyOf (Entries.find? "key" (Arguments.ofList [item]).named) = none := rfl
    simp only [Builtin.sorted, Arguments.take, hKey, Builtin.rankItems_none call other]
  · have hKey : Builtin.keyOf (Entries.find? "key" (Arguments.ofList [item]).named) = none := rfl
    simp only [Builtin.extreme, Arguments.take, hKey, Builtin.bestItem_none call other]
  · have hKey : Builtin.keyOf (Entries.find? "key" (Arguments.ofList [item]).named) = none := rfl
    simp only [Builtin.extreme, Arguments.take, hKey, Builtin.bestItem_none call other]
  · rfl

/-- On the lowest level every template is refused. -/
theorem services_zero_call_template (content : Template Value) (mark : Mark)
    (arguments : Arguments) :
    (services 0).call (.template content mark) arguments = Run.fault (.value .callDepth) := by
  funext setting
  obtain ⟨loader, -, hCall⟩ := exists_assemble_apply none setting
  exact (hCall _ _).trans rfl

end Stencil
