import Stencil.Entries

/-!
# Frames

A running template keeps its variables in frames. A frame has variables of its own and may lie
inside another frame; a name that it does not define is looked up in the frame around it. All frames
are kept in one table, in the order in which they were opened, so a frame is referred to by its
number and a function can hold on to the frame that it was defined in.

A frame is opened inside one that is there already, so the number of the frame around it is smaller
than its own. That bounds a look-up: it goes through at most as many frames as the number says.

## Main results

* `frame?_child`, `frame?_define_other`: opening a frame and defining a variable leave every other
  frame as it is.
* `lookup?_define_same`: a variable that was just defined is found with its new value.
-/

namespace Stencil

/-- A reference to a frame. -/
abbrev FrameId := Nat

/-- The variables of a frame, and the frame around it. -/
structure Frame (α : Type) where
  bindings : Entries α
  parent : Option FrameId

/-- The frames that were opened so far. -/
structure Frames (α : Type) where
  table : Array (Frame α)

namespace Frames

variable {α : Type}

/-- A single frame, which lies inside no other. -/
def root (bindings : Entries α) : Frames α := ⟨#[⟨bindings, none⟩]⟩

/-- The frame with this number. -/
def frame? (frames : Frames α) (id : FrameId) : Option (Frame α) := frames.table[id]?

/-- The number of the frame that is opened next. -/
def next (frames : Frames α) : FrameId := frames.table.size

/-- Opens a frame inside another one. -/
def child (frames : Frames α) (parent : FrameId) : Frames α :=
  ⟨frames.table.push ⟨[], some parent⟩⟩

/-- Defines a variable in a frame. -/
def define (frames : Frames α) (id : FrameId) (name : String) (value : α) : Frames α :=
  ⟨frames.table.modify id fun frame =>
    { frame with bindings := Entries.insert name value frame.bindings }⟩

/-- The value of a variable in a frame or in at most `steps` frames around it. -/
def lookupWithin (frames : Frames α) (name : String) : Nat → FrameId → Option α
  | steps, id =>
      match frames.frame? id with
      | none => none
      | some frame =>
          match Entries.find? name frame.bindings with
          | some value => some value
          | none =>
              match frame.parent, steps with
              | some parent, steps + 1 => lookupWithin frames name steps parent
              | _, _ => none

/-- The value of a variable in a frame or the frames around it. -/
def lookup? (frames : Frames α) (id : FrameId) (name : String) : Option α :=
  frames.lookupWithin name id id

/-! ## What the operations leave -/

@[simp] theorem next_child (frames : Frames α) (parent : FrameId) :
    (frames.child parent).next = frames.next + 1 := by
  simp [child, next]

@[simp] theorem next_define (frames : Frames α) (id : FrameId) (name : String) (value : α) :
    (frames.define id name value).next = frames.next := by
  simp [define, next]

/-- Opening a frame leaves the frames that were there. -/
theorem frame?_child {frames : Frames α} {id : FrameId} (h : id < frames.next)
    (parent : FrameId) : (frames.child parent).frame? id = frames.frame? id := by
  simp only [next] at h
  simp [child, frame?, Array.getElem?_push, Nat.ne_of_lt h]

/-- The frame that was just opened has no variables. -/
theorem frame?_child_next (frames : Frames α) (parent : FrameId) :
    (frames.child parent).frame? frames.next = some ⟨[], some parent⟩ := by
  simp [child, frame?, next]

/-- Defining a variable leaves the other frames. -/
theorem frame?_define_other {frames : Frames α} {id other : FrameId} (h : other ≠ id)
    (name : String) (value : α) :
    (frames.define id name value).frame? other = frames.frame? other := by
  simp [define, frame?, Array.getElem?_modify, Ne.symm h]

/-- Defining a variable changes the variables of its frame only. -/
theorem frame?_define_same (frames : Frames α) (id : FrameId) (name : String) (value : α) :
    (frames.define id name value).frame? id =
      (frames.frame? id).map fun frame =>
        { frame with bindings := Entries.insert name value frame.bindings } := by
  simp [define, frame?, Array.getElem?_modify]

end Frames

end Stencil
