import Stencil.Proofs.Renaming

/-!
# Values without their numbers

The bare form of a value has one number in place of all: it shows the content of the value, the code
of functions and the globals of libraries, and neither which frames there are nor which values are
one.

## Main results

* `Value.bare_rename`: other numbers do not show in the bare form.
-/

namespace Stencil

/-- The renaming that forgets all numbers. -/
def Renaming.forget : Renaming := ⟨fun _ _ => 0, fun _ => 0, fun _ => 0, fun _ _ => none⟩

/-- The value without its numbers. -/
def Value.bare (value : Value) : Value := value.rename .forget

variable (ρ : Renaming)

theorem LoopLevel.forget_rename (level : LoopLevel) :
    (level.rename ρ).rename .forget = level.rename .forget := by
  obtain ⟨position, mark⟩ := level
  cases mark <;> rfl

theorem forget_mark (f : Nat → Nat) (mark : Mark) :
    (mark.map f).map (fun _ => 0) = mark.map fun _ => 0 := by
  cases mark <;> rfl

namespace Value

mutual

theorem forget_rename : ∀ value : Value, (value.rename ρ).rename .forget = value.rename .forget
  | none => rfl
  | bool _ => rfl
  | int _ => rfl
  | float _ => rfl
  | string text mark => congrArg (string text) (forget_mark ρ.data mark)
  | list ⟨items⟩ mark => by
      rw [rename, rename, rename, forget_renameItems items]
      exact congrArg (list _) (forget_mark ρ.data mark)
  | dict entries mark => by
      rw [rename, rename, rename, forget_renameEntries entries]
      exact congrArg (dict _) (forget_mark ρ.data mark)
  | rendering ⟨body, pending, attributes⟩ mark => by
      rw [rename, rename, rename, forget_renameEntries attributes]
      exact congrArg (rendering _) (forget_mark ρ.data mark)
  | builtin name mark => congrArg (builtin name) (forget_mark ρ.mark mark)
  | method receiver name mark => by
      rw [rename, rename, rename, forget_rename receiver]
      exact congrArg (method _ name) (forget_mark ρ.mark mark)
  | function ⟨kind, name, parameters, body, frame, defaults, escape⟩ mark => by
      rw [rename, rename, rename, forget_renameDefaults defaults]
      exact congrArg (function _) (forget_mark ρ.mark mark)
  | template ⟨name, program, defaults, escape, frame⟩ mark => by
      rw [rename, rename, rename, forget_renameDefaults defaults]
      exact congrArg (template _) (forget_mark ρ.mark mark)
  | renderer ⟨⟨root, globals, escape, cache, exposedAs, counter⟩, layout⟩ mark => by
      rw [rename, Library.renameWith, rename, rename, forget_renameEntries globals,
        forget_renameLayout layout]
      exact congrArg (renderer _) (forget_mark ρ.mark mark)
  | page ⟨⟨root, globals, escape, cache, exposedAs, counter⟩, layout⟩
      ⟨name, program, defaults, escape', frame⟩ mark => by
      rw [rename, Library.renameWith, rename, rename, forget_renameEntries globals,
        forget_renameLayout layout, forget_renameDefaults defaults]
      exact congrArg (page _ _) (forget_mark ρ.mark mark)
  | loop level outer => by
      have hOuter : (outer.map (LoopLevel.rename ρ)).map (LoopLevel.rename .forget) =
          outer.map (LoopLevel.rename .forget) := by
        rw [List.map_map]
        exact List.map_congr_left fun level _ => LoopLevel.forget_rename ρ level
      rw [rename, rename, rename, hOuter, LoopLevel.forget_rename]

theorem forget_renameItems : ∀ items : List Value,
    renameItems .forget (renameItems ρ items) = renameItems .forget items
  | [] => rfl
  | item :: rest => by
      rw [renameItems, renameItems, renameItems, forget_rename item, forget_renameItems rest]

theorem forget_renameEntries : ∀ entries : List (String × Value),
    renameEntries .forget (renameEntries ρ entries) = renameEntries .forget entries
  | [] => rfl
  | (name, value) :: rest => by
      rw [renameEntries, renameEntries, renameEntries, forget_rename value,
        forget_renameEntries rest]

theorem forget_renameDefaults : ∀ defaults : List (Option Value),
    renameDefaults .forget (renameDefaults ρ defaults) = renameDefaults .forget defaults
  | [] => rfl
  | Option.none :: rest => by
      rw [renameDefaults, renameDefaults, renameDefaults, forget_renameDefaults rest]
  | some value :: rest => by
      rw [renameDefaults, renameDefaults, renameDefaults, forget_rename value,
        forget_renameDefaults rest]

theorem forget_renameLayout : ∀ layout : Option (Layout Value),
    renameLayout .forget (renameLayout ρ layout) = renameLayout .forget layout
  | Option.none => rfl
  | some ⟨name, ⟨root, globals, escape, cache, exposedAs, counter⟩⟩ => by
      rw [renameLayout, Library.renameWith, renameLayout, renameLayout,
        forget_renameEntries globals]
      rfl

end

/-- Other numbers do not show in the bare form. -/
@[simp] theorem bare_rename (value : Value) : (value.rename ρ).bare = value.bare :=
  forget_rename ρ value

end Value

end Stencil
