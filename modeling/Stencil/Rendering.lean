import Stencil.Entries

/-!
# Renderings

What rendering a template gives: a text and named values. Appended text waits in a buffer and joins
the text when it is asked for, so that a long text is not copied with every piece that is appended.
The text is itself one of the named values, under the name `body`.

## Main results

* `text_push`, `text_fold`, `text_setText`: what the operations do to the text.
* `fold_eq_self_iff`: folding changes a rendering only when text is waiting.
-/

namespace Stencil

/-- The name of the text among the named values. -/
def bodyName : String := "body"

/-- A text and named values. -/
structure Rendering (α : Type) where
  /-- The text as far as it was asked for; nothing when it was never asked for. -/
  body : Option String
  /-- The text that was appended since. -/
  pending : String
  attributes : List (String × α)

namespace Rendering

variable {α : Type}

/-- No text and no values. -/
def empty : Rendering α := ⟨none, "", []⟩

/-- A text without values. -/
def ofText (text : String) : Rendering α := ⟨some text, "", []⟩

/-- Appends text. -/
def push (r : Rendering α) (text : String) : Rendering α := { r with pending := r.pending ++ text }

/-- The text. -/
def text (r : Rendering α) : String := r.body.getD "" ++ r.pending

/-- Lets the waiting text join the text. -/
def fold (r : Rendering α) : Rendering α :=
  if r.pending.isEmpty then r else ⟨some (r.body.getD "" ++ r.pending), "", r.attributes⟩

/-- Is there neither text nor a value? -/
def isEmpty (r : Rendering α) : Bool :=
  (r.body.getD "").isEmpty && r.pending.isEmpty && r.attributes.isEmpty

/-- Replaces the text. -/
def setText (r : Rendering α) (text : String) : Rendering α := ⟨some text, "", r.attributes⟩

/-- Sets the value under a name that is not that of the text. -/
def set (r : Rendering α) (name : String) (value : α) : Rendering α :=
  { r with attributes := Entries.insert name value r.attributes }

/-- The value under a name that is not that of the text. -/
def find? (r : Rendering α) (name : String) : Option α := Entries.find? name r.attributes

/-- The names of the values, that of the text first. -/
def keys (r : Rendering α) : List String := bodyName :: Entries.keys r.attributes

@[simp] theorem text_empty : (empty : Rendering α).text = "" := rfl

@[simp] theorem text_push (r : Rendering α) (s : String) : (r.push s).text = r.text ++ s := by
  simp [push, text, String.append_assoc]

@[simp] theorem text_fold (r : Rendering α) : r.fold.text = r.text := by
  unfold fold
  split
  · rfl
  · simp [text]

@[simp] theorem text_setText (r : Rendering α) (s : String) : (r.setText s).text = s := by
  simp [setText, text]

@[simp] theorem text_set (r : Rendering α) (name : String) (value : α) :
    (r.set name value).text = r.text := rfl

@[simp] theorem pending_fold (r : Rendering α) : r.fold.pending = "" := by
  unfold fold
  split <;> simp_all

theorem fold_eq_self_iff (r : Rendering α) : r.fold = r ↔ r.pending = "" := by
  constructor
  · intro h
    rw [← h]
    exact pending_fold r
  · intro h
    simp [fold, h]

end Rendering

end Stencil
