import Stencil.Mark

/-!
# Loops

A loop over items knows how many passes it makes and which pass it is in. While a template runs, the
loops that are open are a stack, the innermost one first; the body of a loop can ask for the
position of the innermost one, and from there for the positions of those around it.

## Main results

* `exit_enter`, `exit_advance`: a loop that is left gives back the loops around it.
-/

namespace Stencil

/-- Where a loop is: the number of its pass, the first one being pass one, and how many passes it
makes. Before the first pass the number is zero. -/
structure Position where
  index : Nat
  length : Nat
  deriving DecidableEq, Repr

namespace Position

/-- Is this the first pass? -/
def first (p : Position) : Bool := p.index == 1

/-- Is this the last pass? -/
def last (p : Position) : Bool := p.index == p.length

/-- Is the number of the pass even? -/
def even (p : Position) : Bool := p.index % 2 == 0

/-- Is the number of the pass odd? -/
def odd (p : Position) : Bool := p.index % 2 == 1

/-- The name of the number's parity. -/
def parity (p : Position) : String := if p.even then "even" else "odd"

/-- The number of the pass, counted from zero. -/
def fromZero (p : Position) : Int := p.index - 1

/-- How many passes are left, this one included. -/
def remaining (p : Position) : Int := p.length - p.index + 1

/-- How many passes are left after this one. -/
def remainingAfter (p : Position) : Int := p.length - p.index

/-- The text of a position. -/
def text (p : Position) : String :=
  "<loop " ++ toString p.index ++ "/" ++ toString p.length ++ ">"

end Position

/-- The open loops, the innermost one first. -/
abbrev Loops := List Position

namespace Loops

/-- Opens a loop of so many passes. -/
def enter (length : Nat) (loops : Loops) : Loops := ⟨0, length⟩ :: loops

/-- Begins the next pass of the innermost loop. -/
def advance : Loops → Loops
  | [] => []
  | p :: rest => { p with index := p.index + 1 } :: rest

/-- Closes the innermost loop. -/
def exit (loops : Loops) : Loops := loops.tail

@[simp] theorem exit_enter (length : Nat) (loops : Loops) : exit (enter length loops) = loops := rfl

@[simp] theorem exit_advance (loops : Loops) : exit (advance loops) = exit loops := by
  cases loops <;> rfl

end Loops

/-- A position that is held as a value. -/
structure LoopLevel where
  position : Position
  mark : Mark
  deriving DecidableEq, Repr

end Stencil
