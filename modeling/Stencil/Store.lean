import Stencil.Builtin
import Stencil.Files

/-!
# The store of a run, and runs

What lasts from one step of a run to the next: the frames, the number that the next new value gets
as its mark, what names have led to so far, and how many templates were compiled. A `Run` reads the
files and changes the store; it ends with a result or stops. It keeps what was stored before it
stopped.

A run stops with a failure, or unfinished: loops that test a condition make at most the number of
passes that the setting allows. As many templates may be compiled inside one another.

## Main results

* `run_settle_of_isSettled`: a value that has its mark is stored as it is.
-/

namespace Stencil

/-- What a name of a library leads to. -/
inductive Resolved where
  | template (content : Template Value)
  | directory (renderer : Renderer Value)

/-- What lasts during a run. -/
structure Store where
  frames : Frames Value
  /-- The mark of the next new value. -/
  nextMark : Nat
  /-- The memories of what names led to. -/
  caches : Array (Entries Resolved)
  /-- How many templates the libraries that share a counter have compiled. -/
  counters : Array Nat

namespace Store

/-- The frame of the built-in functions. -/
def builtinFrame : FrameId := 0

/-- The store at the start: a frame that holds the built-in functions. -/
def initial : Store where
  frames := .root (Builtin.names.zipIdx.map fun (name, mark) =>
    (name, Value.builtin name (some mark)))
  nextMark := Builtin.names.length
  caches := #[]
  counters := #[]

end Store

/-- Why a run stops without a result. -/
inductive Stop where
  | failure (cause : Failure)
  /-- A loop needs more passes than are allowed. -/
  | unfinished
  deriving DecidableEq, Repr

/-- The wording of the reason for a stop. -/
def Stop.message : Stop → String
  | failure cause => cause.message
  | unfinished => "a loop makes too many passes"

/-- What does not change during a run. -/
structure Setting where
  files : Files
  /-- The most passes of a loop that tests a condition, and the most templates that are compiled
  inside one another. -/
  passes : Nat

/-- The most passes when nothing is said about them. No run gets there. -/
def Setting.mostPasses : Nat := 0x4000000000000000

/-- A step that reads the files and changes the store. -/
abbrev Run := ReaderT Setting (EStateM Stop Store)

namespace Run

/-- Carries a run out: its result, or why it stopped, and what was stored. -/
def perform {α : Type} (action : Run α) (setting : Setting) (store : Store) :
    Except Stop α × Store :=
  match (action.run setting).run store with
  | .ok result store => (.ok result, store)
  | .error cause store => (.error cause, store)

/-- Stops with a failure. -/
def fail {α : Type} (cause : Failure) : Run α := throw (.failure cause)

/-- Stops with a fault of evaluation. -/
def fault {α : Type} (cause : Fault) : Run α := fail (.evaluation cause)

/-- The result of an evaluation that needs no store. -/
def ofEvaluation {α : Type} : Except Fault α → Run α
  | .ok value => pure value
  | .error cause => fault cause

/-- The result of a computation that needs no store. -/
def ofResult {α : Type} : Except Failure α → Run α
  | .ok value => pure value
  | .error cause => fail cause

instance : MonadLift (Except Fault) Run := ⟨ofEvaluation⟩

instance : MonadLift (Except Failure) Run := ⟨ofResult⟩

/-- The files. -/
def files : Run Files := do return (← read).files

/-! ## Values and frames -/

/-- Gives the value and the values inside it their marks. -/
def settle (value : Value) : Run Value :=
  modifyGet fun store =>
    let (value, next) := value.settle store.nextMark
    (value, { store with nextMark := next })

/-- A value that has its mark is stored as it is. -/
theorem run_settle_of_isSettled {value : Value} (h : value.isSettled = true) (setting : Setting)
    (store : Store) : settle value setting store = .ok value store := by
  show EStateM.Result.ok (value.settle store.nextMark).1
    { store with nextMark := (value.settle store.nextMark).2 } = _
  rw [Value.settle_of_isSettled h]

/-- Opens a frame inside another one. -/
def openFrame (parent : FrameId) : Run FrameId :=
  modifyGet fun store =>
    (store.frames.next, { store with frames := store.frames.child parent })

/-- Defines a variable whose value is a new one whenever it is looked up, if it has no mark. -/
def defineAsIs (frame : FrameId) (name : String) (value : Value) : Run Unit :=
  modify fun store => { store with frames := store.frames.define frame name value }

/-- Defines a variable. -/
def define (frame : FrameId) (name : String) (value : Value) : Run Unit := do
  let value ← settle value
  defineAsIs frame name value

/-- Defines variables one after another. -/
def defineAll (frame : FrameId) : List (String × Value) → Run Unit
  | [] => pure ()
  | (name, value) :: rest => do
      define frame name value
      defineAll frame rest

/-- The value of a variable. -/
def lookup? (frame : FrameId) (name : String) : Run (Option Value) := do
  return (← get).frames.lookup? frame name

/-! ## Libraries -/

/-- A memory that holds nothing yet. -/
def newCache : Run Nat :=
  modifyGet fun store => (store.caches.size, { store with caches := store.caches.push [] })

/-- A count that starts at zero. -/
def newCounter : Run Nat :=
  modifyGet fun store => (store.counters.size, { store with counters := store.counters.push 0 })

/-- What a name led to before. -/
def remembered? (cache : Nat) (name : String) : Run (Option Resolved) := do
  return ((← get).caches[cache]?).bind (Entries.find? name)

/-- Remembers what a name leads to. What was remembered before stays. -/
def remember (cache : Nat) (name : String) (resolved : Resolved) : Run Resolved := do
  match ← remembered? cache name with
  | some earlier => return earlier
  | none =>
      modify fun store =>
        { store with caches := store.caches.modify cache (Entries.insert name resolved) }
      return resolved

/-- Counts a template that was compiled. -/
def count (counter : Nat) : Run Unit :=
  modify fun store => { store with counters := store.counters.modify counter (· + 1) }

/-- How many templates were counted. -/
def counted (counter : Nat) : Run Nat := do
  return ((← get).counters[counter]?).getD 0

end Run

end Stencil
