import Stencil.Proofs.Renaming

/-!
# Renamings that agree

Two values are told to be alike by renaming each to one and the same value. When the two renamings
are changed where they do not agree, values that were renamed to one value are still renamed to it:
all numbers in them are numbers on which the renamings agree.

## Main results

* `Value.rename_of_agree`: values that are renamed to one value keep it.
-/

namespace Stencil

/-- Where `f` and `g` agree, `f'` and `g'` are the same as they are. -/
structure Renaming.Keep (f g f' g' : Renaming) : Prop where
  frame : ∀ body i j, f.frame body i = g.frame body j →
    f'.frame body i = f.frame body i ∧ g'.frame body j = g.frame body j
  mark : ∀ m n, f.mark m = g.mark n → f'.mark m = f.mark m ∧ g'.mark n = g.mark n
  data : ∀ m n, f.data m = g.data n → f'.data m = f.data m ∧ g'.data n = g.data n
  memory : ∀ library other layout, f.memory library layout = g.memory other layout →
    f'.memory library layout = f.memory library layout ∧
      g'.memory other layout = g.memory other layout

variable {f g f' g' : Renaming}

/-- Marks that are renamed to one mark keep it. -/
theorem mark_of_agree {a b a' b' : Nat → Nat}
    (h : ∀ m n, a m = b n → a' m = a m ∧ b' n = b n) {m n : Mark} (hMark : m.map a = n.map b) :
    m.map a' = m.map a ∧ n.map b' = n.map b := by
  cases m with
  | none =>
      obtain rfl : n = none := by simpa using hMark.symm
      exact ⟨rfl, rfl⟩
  | some m =>
      cases n with
      | none => simp at hMark
      | some n =>
          have hMark := h m n (by simpa using hMark)
          simp only [Option.map_some, hMark, and_self]

theorem LoopLevel.rename_of_agree (h : Renaming.Keep f g f' g') {level other : LoopLevel}
    (hLevel : level.rename f = other.rename g) :
    level.rename f' = level.rename f ∧ other.rename g' = other.rename g := by
  have hMark := mark_of_agree h.mark (congrArg LoopLevel.mark hLevel)
  exact ⟨by rw [LoopLevel.rename, hMark.1]; rfl, by rw [LoopLevel.rename, hMark.2]; rfl⟩

theorem levels_of_agree (h : Renaming.Keep f g f' g') {levels others : List LoopLevel}
    (hLevels : levels.map (LoopLevel.rename f) = others.map (LoopLevel.rename g)) :
    levels.map (LoopLevel.rename f') = levels.map (LoopLevel.rename f) ∧
      others.map (LoopLevel.rename g') = others.map (LoopLevel.rename g) := by
  induction levels generalizing others with
  | nil => cases others <;> simp_all
  | cons level rest ih =>
      cases others with
      | nil => simp at hLevels
      | cons other others =>
          simp only [List.map_cons, List.cons.injEq] at hLevels ⊢
          have hHead := LoopLevel.rename_of_agree h hLevels.1
          have hRest := ih hLevels.2
          exact ⟨⟨hHead.1, hRest.1⟩, hHead.2, hRest.2⟩

theorem Closure.rename_of_agree (h : Renaming.Keep f g f' g') {closure other : Closure Value}
    (hDefaults : closure.defaults.map (Option.map (Value.rename f')) =
        closure.defaults.map (Option.map (Value.rename f)) ∧
      other.defaults.map (Option.map (Value.rename g')) =
        other.defaults.map (Option.map (Value.rename g)))
    (hClosure : closure.rename f = other.rename g) :
    closure.rename f' = closure.rename f ∧ other.rename g' = other.rename g := by
  have hBody : closure.body = other.body := congrArg (fun c => c.body) hClosure
  have hFrame : f.frame closure.body closure.frame = g.frame closure.body other.frame :=
    (congrArg (fun c => c.frame) hClosure).trans (by rw [hBody]; rfl)
  have hFrame := h.frame _ _ _ hFrame
  rw [Closure.rename, Closure.rename, Closure.rename, Closure.rename, hDefaults.1, hDefaults.2,
    hFrame.1, ← hBody, hFrame.2]
  exact ⟨rfl, rfl⟩

theorem Template.rename_of_agree (h : Renaming.Keep f g f' g') {template other : Template Value}
    (hDefaults : template.defaults.map (Option.map (Value.rename f')) =
        template.defaults.map (Option.map (Value.rename f)) ∧
      other.defaults.map (Option.map (Value.rename g')) =
        other.defaults.map (Option.map (Value.rename g)))
    (hTemplate : template.rename f = other.rename g) :
    template.rename f' = template.rename f ∧ other.rename g' = other.rename g := by
  have hProgram : template.program = other.program := congrArg (fun t => t.program) hTemplate
  have hFrame : f.frame template.program.body template.frame =
      g.frame template.program.body other.frame :=
    (congrArg (fun t => t.frame) hTemplate).trans (by rw [hProgram]; rfl)
  have hFrame := h.frame _ _ _ hFrame
  rw [Template.rename, Template.rename, Template.rename, Template.rename, hDefaults.1,
    hDefaults.2, hFrame.1, ← hProgram, hFrame.2]
  exact ⟨rfl, rfl⟩

/-- A library keeps its renamed memory with its renamed globals. -/
theorem Library.rename_of_agree (h : Renaming.Keep f g f' g') {library other : Library Value}
    {layout : Option (Layout Value)}
    (hGlobals : Entries.rename f' library.globals = Entries.rename f library.globals ∧
      Entries.rename g' other.globals = Entries.rename g other.globals)
    (hLibrary : library.rename f layout = other.rename g layout) :
    library.rename f' layout = library.rename f layout ∧
      other.rename g' layout = other.rename g layout := by
  have hMemory := h.memory _ _ layout (congrArg Library.cache hLibrary)
  simp only [Library.rename, hGlobals, renameWith]
  exact ⟨by rw [hMemory.1], by rw [hMemory.2]⟩

theorem Renderer.rename_of_agree (h : Renaming.Keep f g f' g') {renderer other : Renderer Value}
    (hGlobals : Entries.rename f' renderer.library.globals =
        Entries.rename f renderer.library.globals ∧
      Entries.rename g' other.library.globals = Entries.rename g other.library.globals)
    (hLayout : renderer.layout.map (Layout.rename f') = renderer.layout.map (Layout.rename f) ∧
      other.layout.map (Layout.rename g') = other.layout.map (Layout.rename g))
    (hRenderer : renderer.rename f = other.rename g) :
    renderer.rename f' = renderer.rename f ∧ other.rename g' = other.rename g := by
  have hBetween : renderer.layout.map (Layout.rename f) = other.layout.map (Layout.rename g) :=
    congrArg (fun r => r.layout) hRenderer
  have hLibrary : renderer.library.rename f (renderer.layout.map (Layout.rename f)) =
      other.library.rename g (renderer.layout.map (Layout.rename f)) :=
    (congrArg (fun r => r.library) hRenderer).trans (by rw [hBetween]; rfl)
  have hLibrary := Library.rename_of_agree h hGlobals hLibrary
  simp only [Renderer.rename, hLayout]
  exact ⟨by rw [hLibrary.1], by rw [← hBetween, hLibrary.2]⟩

namespace Value

mutual

/-- Values that are renamed to one value keep it when the renamings stay as they are where they
agree. -/
theorem rename_of_agree (h : Renaming.Keep f g f' g') : ∀ value twin : Value,
    value.rename f = twin.rename g →
    value.rename f' = value.rename f ∧ twin.rename g' = twin.rename g
  | none, twin, hValue => by
      rw [of_rename_none hValue.symm]
      exact ⟨rfl, rfl⟩
  | bool b, twin, hValue => by
      rw [of_rename_bool hValue.symm]
      exact ⟨rfl, rfl⟩
  | int i, twin, hValue => by
      rw [of_rename_int hValue.symm]
      exact ⟨rfl, rfl⟩
  | float x, twin, hValue => by
      rw [of_rename_float hValue.symm]
      exact ⟨rfl, rfl⟩
  | string text mark, twin, hValue => by
      obtain ⟨m, rfl, hMark⟩ := of_rename_string hValue.symm
      have hMark := mark_of_agree h.data hMark.symm
      simp only [rename_string, hMark, and_self]
  | list ⟨items⟩ mark, twin, hValue => by
      obtain ⟨⟨others⟩, m, rfl, hItems, hMark⟩ :=
        of_rename_list (hValue.symm.trans (rename_list ..))
      have hMark := mark_of_agree h.data hMark.symm
      have hItems := items_of_agree h items others (by simpa using hItems.symm)
      simp only [rename_list, List.map_toArray, hItems, hMark, and_self]
  | dict entries mark, twin, hValue => by
      obtain ⟨others, m, rfl, hEntries, hMark⟩ :=
        of_rename_dict (hValue.symm.trans (rename_dict ..))
      have hMark := mark_of_agree h.data hMark.symm
      have hEntries := entries_of_agree h entries others hEntries.symm
      simp only [rename_dict, hEntries, hMark, and_self]
  | rendering ⟨body, pending, attributes⟩ mark, twin, hValue => by
      obtain ⟨⟨body', pending', others⟩, m, rfl, hContent, hMark⟩ :=
        of_rename_rendering (hValue.symm.trans (rename_rendering ..))
      have hMark := mark_of_agree h.data hMark.symm
      have hEntries := entries_of_agree h attributes others
        (congrArg Rendering.attributes hContent).symm
      simp only [rename_rendering, Rendering.rename, hEntries, hMark, and_self]
  | builtin name mark, twin, hValue => by
      obtain ⟨m, rfl, hMark⟩ := of_rename_builtin hValue.symm
      have hMark := mark_of_agree h.mark hMark.symm
      simp only [rename_builtin, hMark, and_self]
  | method receiver name mark, twin, hValue => by
      obtain ⟨own, m, rfl, hReceiver, hMark⟩ := of_rename_method hValue.symm
      have hMark := mark_of_agree h.mark hMark.symm
      have hReceiver := rename_of_agree h receiver own hReceiver.symm
      simp only [rename_method, hReceiver, hMark, and_self]
  | function ⟨kind, name, parameters, body, frame, defaults, escape⟩ mark, twin, hValue => by
      obtain ⟨own, m, rfl, hClosure, hMark⟩ :=
        of_rename_function (hValue.symm.trans (rename_function ..))
      have hMark := mark_of_agree h.mark hMark.symm
      have hDefaults := defaults_of_agree h defaults own.defaults
        (congrArg (fun c => c.defaults) hClosure).symm
      have hClosure := Closure.rename_of_agree h hDefaults hClosure.symm
      simp only [rename_function, hClosure, hMark, and_self]
  | template ⟨name, program, defaults, escape, frame⟩ mark, twin, hValue => by
      obtain ⟨own, m, rfl, hContent, hMark⟩ :=
        of_rename_template (hValue.symm.trans (rename_template ..))
      have hMark := mark_of_agree h.mark hMark.symm
      have hDefaults := defaults_of_agree h defaults own.defaults
        (congrArg (fun t => t.defaults) hContent).symm
      have hContent := Template.rename_of_agree h hDefaults hContent.symm
      simp only [rename_template, hContent, hMark, and_self]
  | renderer ⟨⟨root, globals, escape, cache, exposedAs, counter⟩, layout⟩ mark, twin, hValue => by
      obtain ⟨own, m, rfl, hContent, hMark⟩ :=
        of_rename_renderer (hValue.symm.trans (rename_renderer ..))
      have hMark := mark_of_agree h.mark hMark.symm
      have hLayout := layout_of_agree h layout own.layout
        (congrArg (fun r => r.layout) hContent).symm
      have hGlobals := entries_of_agree h globals own.library.globals
        (congrArg (fun r => r.library.globals) hContent).symm
      have hContent := Renderer.rename_of_agree h hGlobals hLayout hContent.symm
      simp only [rename_renderer, hContent, hMark, and_self]
  | page ⟨⟨root, globals, escape, cache, exposedAs, counter⟩, layout⟩
      ⟨name, program, defaults, escape', frame⟩ mark, twin, hValue => by
      obtain ⟨own, leaf, m, rfl, hContent, hLeaf, hMark⟩ :=
        of_rename_page (hValue.symm.trans (rename_page ..))
      have hMark := mark_of_agree h.mark hMark.symm
      have hLayout := layout_of_agree h layout own.layout
        (congrArg (fun r => r.layout) hContent).symm
      have hGlobals := entries_of_agree h globals own.library.globals
        (congrArg (fun r => r.library.globals) hContent).symm
      have hDefaults := defaults_of_agree h defaults leaf.defaults
        (congrArg (fun t => t.defaults) hLeaf).symm
      have hContent := Renderer.rename_of_agree h hGlobals hLayout hContent.symm
      have hLeaf := Template.rename_of_agree h hDefaults hLeaf.symm
      simp only [rename_page, hContent, hLeaf, hMark, and_self]
  | loop level outer, twin, hValue => by
      obtain ⟨own, others, rfl, hLevel, hOuter⟩ := of_rename_loop hValue.symm
      have hLevel := LoopLevel.rename_of_agree h hLevel.symm
      have hOuter := levels_of_agree h hOuter.symm
      simp only [rename_loop, hLevel, hOuter, and_self]

theorem items_of_agree (h : Renaming.Keep f g f' g') : ∀ items twins : List Value,
    items.map (rename f) = twins.map (rename g) →
    items.map (rename f') = items.map (rename f) ∧ twins.map (rename g') = twins.map (rename g)
  | [], twins, hItems => by
      have hTwins : twins = [] := by simpa using hItems.symm
      rw [hTwins]
      exact ⟨rfl, rfl⟩
  | item :: rest, [], hItems => by simp at hItems
  | item :: rest, twin :: twins, hItems => by
      simp only [List.map_cons, List.cons.injEq] at hItems ⊢
      have hHead := rename_of_agree h item twin hItems.1
      have hRest := items_of_agree h rest twins hItems.2
      exact ⟨⟨hHead.1, hRest.1⟩, hHead.2, hRest.2⟩

theorem entries_of_agree (h : Renaming.Keep f g f' g') : ∀ entries twins : List (String × Value),
    Entries.rename f entries = Entries.rename g twins →
    Entries.rename f' entries = Entries.rename f entries ∧
      Entries.rename g' twins = Entries.rename g twins
  | [], twins, hEntries => by
      have hTwins : twins = [] := by simpa [Entries.rename] using hEntries.symm
      rw [hTwins]
      exact ⟨rfl, rfl⟩
  | (name, value) :: rest, [], hEntries => by simp [Entries.rename] at hEntries
  | (name, value) :: rest, (name', twin) :: twins, hEntries => by
      simp only [Entries.rename, List.map_cons, List.cons.injEq, Prod.mk.injEq] at hEntries
      have hHead := rename_of_agree h value twin hEntries.1.2
      have hRest := entries_of_agree h rest twins hEntries.2
      simp only [Entries.rename, List.map_cons, hHead] at hRest ⊢
      exact ⟨by rw [hRest.1], by rw [hRest.2]⟩

theorem defaults_of_agree (h : Renaming.Keep f g f' g') : ∀ defaults twins : List (Option Value),
    defaults.map (Option.map (rename f)) = twins.map (Option.map (rename g)) →
    defaults.map (Option.map (rename f')) = defaults.map (Option.map (rename f)) ∧
      twins.map (Option.map (rename g')) = twins.map (Option.map (rename g))
  | [], twins, hDefaults => by
      have hTwins : twins = [] := by simpa using hDefaults.symm
      rw [hTwins]
      exact ⟨rfl, rfl⟩
  | value :: rest, [], hDefaults => by simp at hDefaults
  | Option.none :: rest, twin :: twins, hDefaults => by
      simp only [List.map_cons, List.cons.injEq] at hDefaults ⊢
      obtain rfl : twin = Option.none := by simpa using hDefaults.1.symm
      have hRest := defaults_of_agree h rest twins hDefaults.2
      exact ⟨⟨rfl, hRest.1⟩, rfl, hRest.2⟩
  | some value :: rest, Option.none :: twins, hDefaults => by simp at hDefaults
  | some value :: rest, some twin :: twins, hDefaults => by
      simp only [List.map_cons, List.cons.injEq, Option.map_some, Option.some.injEq]
        at hDefaults ⊢
      have hHead := rename_of_agree h value twin hDefaults.1
      have hRest := defaults_of_agree h rest twins hDefaults.2
      exact ⟨⟨hHead.1, hRest.1⟩, hHead.2, hRest.2⟩

theorem layout_of_agree (h : Renaming.Keep f g f' g') : ∀ layout twin : Option (Layout Value),
    layout.map (Layout.rename f) = twin.map (Layout.rename g) →
    layout.map (Layout.rename f') = layout.map (Layout.rename f) ∧
      twin.map (Layout.rename g') = twin.map (Layout.rename g)
  | Option.none, twin, hLayout => by
      have hTwin : twin = Option.none := by simpa using hLayout.symm
      rw [hTwin]
      exact ⟨rfl, rfl⟩
  | some layout, Option.none, hLayout => by simp at hLayout
  | some ⟨name, ⟨root, globals, escape, cache, exposedAs, counter⟩⟩, some twin, hLayout => by
      simp only [Option.map_some, Option.some.injEq] at hLayout ⊢
      have hGlobals := entries_of_agree h globals twin.library.globals
        (congrArg (fun l => l.library.globals) hLayout)
      have hLibrary := Library.rename_of_agree h hGlobals (congrArg Layout.library hLayout)
      simp only [Layout.rename, hLibrary, and_self]

end

end Value

end Stencil
