import Stencil.Proofs.Renaming

/-!
# Marks for renamed values

`Value.settle` numbers what has no number yet, in an order that follows from the value alone. How
many numbers it takes does not depend on the numbers that are there already. So two values that
differ in their numbers only take equally many, and when their new numbers are renamed in the same
way, they still differ in their numbers only.

## Main results

* `settle_snd`: settling takes as many numbers as the value has places without one.
* `rename_settle`: values that are renamed to one value still are when they are settled.
-/

namespace Stencil.Value

/-- How many of the levels take a number. -/
def unsettledLevels : List LoopLevel → Nat
  | [] => 0
  | level :: rest =>
      match level.mark with
      | some _ => 0
      | Option.none => 1 + unsettledLevels rest

mutual

/-- How many numbers `settle` takes. -/
def unsettled : Value → Nat
  | string _ .none => 1
  | list ⟨items⟩ .none => 1 + unsettledItems items
  | dict entries .none => 1 + unsettledEntries entries
  | rendering ⟨_, _, attributes⟩ .none => 1 + unsettledEntries attributes
  | builtin _ .none => 1
  | method receiver _ .none => 1 + receiver.unsettled
  | function _ .none => 1
  | template _ .none => 1
  | renderer _ .none => 1
  | page _ _ .none => 1
  | loop level outer => unsettledLevels (level :: outer)
  | _ => 0

/-- How many numbers the items take. -/
def unsettledItems : List Value → Nat
  | [] => 0
  | item :: rest => item.unsettled + unsettledItems rest

/-- How many numbers the entries take. -/
def unsettledEntries : List (String × Value) → Nat
  | [] => 0
  | (_, value) :: rest => value.unsettled + unsettledEntries rest

end

/-! ## Items and entries without what is done -/

theorem settleItems_done (next : Nat) (done items : List Value) :
    settleItems next done items =
      (done.reverse ++ (settleItems next [] items).1, (settleItems next [] items).2) := by
  induction items generalizing next done with
  | nil => simp [settleItems]
  | cons item rest ih =>
      simp only [settleItems]
      rw [ih _ ((item.settle next).1 :: done), ih _ [(item.settle next).1]]
      simp

theorem settleEntries_done (next : Nat) (done entries : List (String × Value)) :
    settleEntries next done entries =
      (done.reverse ++ (settleEntries next [] entries).1, (settleEntries next [] entries).2) := by
  induction entries generalizing next done with
  | nil => simp [settleEntries]
  | cons entry rest ih =>
      obtain ⟨name, value⟩ := entry
      simp only [settleEntries]
      rw [ih _ ((name, (value.settle next).1) :: done), ih _ [(name, (value.settle next).1)]]
      simp

theorem settleItems_cons (next : Nat) (item : Value) (rest : List Value) :
    settleItems next [] (item :: rest) =
      ((item.settle next).1 :: (settleItems (item.settle next).2 [] rest).1,
        (settleItems (item.settle next).2 [] rest).2) := by
  simp only [settleItems]
  rw [settleItems_done]
  simp

theorem settleEntries_cons (next : Nat) (name : String) (value : Value)
    (rest : List (String × Value)) :
    settleEntries next [] ((name, value) :: rest) =
      ((name, (value.settle next).1) :: (settleEntries (value.settle next).2 [] rest).1,
        (settleEntries (value.settle next).2 [] rest).2) := by
  simp only [settleEntries]
  rw [settleEntries_done]
  simp

/-- Whether the items are settled already makes no difference. -/
theorem settle_list (next : Nat) (items : List Value) :
    (list ⟨items⟩ Option.none).settle next =
      (list ⟨(settleItems (next + 1) [] items).1⟩ (some next),
        (settleItems (next + 1) [] items).2) := by
  rw [settle]
  split
  · rename_i h
    have hItems : ∀ item ∈ items, item.isSettled = true := by simpa using h
    rw [settleItems_of_isSettled hItems]
    simp
  · rfl

/-! ## How many numbers are taken -/

theorem settleLevels_snd (next : Nat) (levels : List LoopLevel) :
    (settleLevels next levels).2 = next + unsettledLevels levels := by
  induction levels generalizing next with
  | nil => rfl
  | cons level rest ih =>
      rw [settleLevels, unsettledLevels]
      cases level.mark with
      | none => simp only [ih]; omega
      | some n => rfl

theorem settle_loop_snd (next : Nat) (level : LoopLevel) (outer : List LoopLevel) :
    ((loop level outer).settle next).2 = (settleLevels next (level :: outer)).2 := by
  rw [settle]
  split <;> simp_all

mutual

/-- Settling takes as many numbers as the value has places without one. -/
theorem settle_snd (next : Nat) : ∀ value : Value,
    (value.settle next).2 = next + value.unsettled
  | none => rfl
  | bool _ => rfl
  | int _ => rfl
  | float _ => rfl
  | string _ mark => by cases mark <;> rfl
  | list ⟨items⟩ Option.none => by
      rw [settle_list, settleItems_snd, unsettled]
      omega
  | list _ (some _) => rfl
  | dict entries Option.none => by
      have hEntries := settleEntries_snd (next + 1) entries
      simp only [settle, unsettled, hEntries]
      omega
  | dict _ (some _) => rfl
  | rendering ⟨_, _, attributes⟩ Option.none => by
      have hEntries := settleEntries_snd (next + 1) attributes
      simp only [settle, unsettled, hEntries]
      omega
  | rendering _ (some _) => by simp [settle, unsettled]
  | builtin _ mark => by cases mark <;> rfl
  | method receiver _ Option.none => by
      have hReceiver := settle_snd (next + 1) receiver
      simp only [settle, unsettled, hReceiver]
      omega
  | method _ _ (some _) => rfl
  | function _ mark => by cases mark <;> rfl
  | template _ mark => by cases mark <;> rfl
  | renderer _ mark => by cases mark <;> rfl
  | page _ _ mark => by cases mark <;> rfl
  | loop level outer => by
      rw [settle_loop_snd, settleLevels_snd]
      rfl

theorem settleItems_snd (next : Nat) : ∀ items : List Value,
    (settleItems next [] items).2 = next + unsettledItems items
  | [] => rfl
  | item :: rest => by
      rw [settleItems_cons, settleItems_snd _ rest, settle_snd next item, unsettledItems]
      omega

theorem settleEntries_snd (next : Nat) : ∀ entries : List (String × Value),
    (settleEntries next [] entries).2 = next + unsettledEntries entries
  | [] => rfl
  | (name, value) :: rest => by
      rw [settleEntries_cons, settleEntries_snd _ rest, settle_snd next value, unsettledEntries]
      omega

end

theorem le_settle_snd (next : Nat) (value : Value) : next ≤ (value.settle next).2 := by
  rw [settle_snd]
  omega

/-! ## Renamed values -/

/-- The new numbers from `next` on are renamed by `f` as those from `other` on are by `g`. -/
structure SameFrom (f g : Renaming) (next other count : Nat) : Prop where
  mark : ∀ i < count, f.mark (next + i) = g.mark (other + i)
  data : ∀ i < count, f.data (next + i) = g.data (other + i)

variable {f g : Renaming} {next other : Nat}

theorem SameFrom.head (h : SameFrom f g next other 1) :
    f.mark next = g.mark other ∧ f.data next = g.data other :=
  ⟨h.mark 0 (by omega), h.data 0 (by omega)⟩

theorem SameFrom.first {m n : Nat} (h : SameFrom f g next other (m + n)) :
    SameFrom f g next other m :=
  ⟨fun i hi => h.mark i (by omega), fun i hi => h.data i (by omega)⟩

theorem SameFrom.rest {m n : Nat} (h : SameFrom f g next other (m + n)) :
    SameFrom f g (next + m) (other + m) n :=
  ⟨fun i hi => by simpa [Nat.add_assoc] using h.mark (m + i) (by omega),
    fun i hi => by simpa [Nat.add_assoc] using h.data (m + i) (by omega)⟩

theorem unsettledLevels_rename (ρ : Renaming) (levels : List LoopLevel) :
    unsettledLevels (levels.map (LoopLevel.rename ρ)) = unsettledLevels levels := by
  induction levels with
  | nil => rfl
  | cons level rest ih =>
      rw [List.map_cons, unsettledLevels, unsettledLevels, LoopLevel.rename_mark]
      cases level.mark <;> simp [ih]

mutual

/-- Renaming takes no number away. -/
theorem unsettled_rename (ρ : Renaming) : ∀ value : Value,
    (value.rename ρ).unsettled = value.unsettled
  | none => rfl
  | bool _ => rfl
  | int _ => rfl
  | float _ => rfl
  | string _ mark => by cases mark <;> rfl
  | list ⟨items⟩ mark => by
      rw [rename]
      cases mark with
      | none => simp only [Option.map_none, unsettled, unsettledItems_rename ρ items]
      | some n => rfl
  | dict entries mark => by
      rw [rename]
      cases mark with
      | none => simp only [Option.map_none, unsettled, unsettledEntries_rename ρ entries]
      | some n => rfl
  | rendering ⟨_, _, attributes⟩ mark => by
      rw [rename]
      cases mark with
      | none => simp only [Option.map_none, unsettled, unsettledEntries_rename ρ attributes]
      | some n => simp [unsettled]
  | builtin _ mark => by cases mark <;> rfl
  | method receiver _ mark => by
      rw [rename]
      cases mark with
      | none => simp only [Option.map_none, unsettled, unsettled_rename ρ receiver]
      | some n => rfl
  | function closure mark => by
      rw [rename_function]
      cases mark <;> rfl
  | template content mark => by
      rw [rename_template]
      cases mark <;> rfl
  | renderer content mark => by
      rw [rename_renderer]
      cases mark <;> rfl
  | page content leaf mark => by
      rw [rename_page]
      cases mark <;> rfl
  | loop level outer => unsettledLevels_rename ρ (level :: outer)

theorem unsettledItems_rename (ρ : Renaming) : ∀ items : List Value,
    unsettledItems (renameItems ρ items) = unsettledItems items
  | [] => rfl
  | item :: rest => by
      rw [renameItems, unsettledItems, unsettledItems, unsettled_rename ρ item,
        unsettledItems_rename ρ rest]

theorem unsettledEntries_rename (ρ : Renaming) : ∀ entries : List (String × Value),
    unsettledEntries (renameEntries ρ entries) = unsettledEntries entries
  | [] => rfl
  | (_, value) :: rest => by
      rw [renameEntries, unsettledEntries, unsettledEntries, unsettled_rename ρ value,
        unsettledEntries_rename ρ rest]

end

theorem unsettled_eq {value twin : Value} (h : value.rename f = twin.rename g) :
    twin.unsettled = value.unsettled := by
  rw [← unsettled_rename g twin, ← h, unsettled_rename]

theorem rename_settleLevels {levels others : List LoopLevel}
    (h : levels.map (LoopLevel.rename f) = others.map (LoopLevel.rename g))
    (hSame : SameFrom f g next other (unsettledLevels levels)) :
    (settleLevels next levels).1.map (LoopLevel.rename f) =
      (settleLevels other others).1.map (LoopLevel.rename g) := by
  induction levels generalizing others next other with
  | nil => cases others <;> simp_all [settleLevels]
  | cons level rest ih =>
      cases others with
      | nil => simp at h
      | cons head others =>
          simp only [List.map_cons, List.cons.injEq, LoopLevel.rename, LoopLevel.mk.injEq] at h
          obtain ⟨⟨hPosition, hMark⟩, hRest⟩ := h
          rw [unsettledLevels] at hSame
          rw [settleLevels, settleLevels]
          cases hl : level.mark with
          | none =>
              have ho : head.mark = Option.none := by simpa [hl] using hMark.symm
              simp only [hl] at hSame
              simp [ho, LoopLevel.rename, hPosition, hSame.first.head.1, ih hRest hSame.rest]
          | some n =>
              obtain ⟨m, ho⟩ : ∃ m, head.mark = some m := by
                cases ho : head.mark <;> simp_all
              simp [ho, hl] at hMark ⊢
              exact ⟨by simp [LoopLevel.rename, hPosition, hl, ho, hMark], hRest⟩

theorem settle_loop (next : Nat) (level : LoopLevel) (outer : List LoopLevel) :
    ∃ inner others, (settleLevels next (level :: outer)).1 = inner :: others ∧
      ((loop level outer).settle next).1 = loop inner others := by
  rw [settle, settleLevels]
  cases level.mark with
  | none => exact ⟨_, _, rfl, rfl⟩
  | some n => exact ⟨_, _, rfl, rfl⟩

@[simp] theorem isSettled_rename (ρ : Renaming) (value : Value) :
    (value.rename ρ).isSettled = value.isSettled := by
  cases value <;> simp [isSettled, mark?, LoopLevel.rename]

/-- Values that have their numbers are not changed. -/
theorem rename_settle_of_isSettled {value twin : Value} (h : value.rename f = twin.rename g)
    (hSettled : value.isSettled = true) (next other : Nat) :
    (value.settle next).1.rename f = (twin.settle other).1.rename g := by
  have hTwin : twin.isSettled = true := by
    rw [← isSettled_rename g, ← h, isSettled_rename, hSettled]
  rw [settle_of_isSettled hSettled, settle_of_isSettled hTwin, h]

mutual

/-- Values that are renamed to one value still are when they are settled, if their new numbers are
renamed to the same ones. -/
theorem rename_settle (next other : Nat) : ∀ value twin : Value,
    value.rename f = twin.rename g → SameFrom f g next other value.unsettled →
    (value.settle next).1.rename f = (twin.settle other).1.rename g
  | none, _, h, _ => rename_settle_of_isSettled h rfl next other
  | bool _, _, h, _ => rename_settle_of_isSettled h rfl next other
  | int _, _, h, _ => rename_settle_of_isSettled h rfl next other
  | float _, _, h, _ => rename_settle_of_isSettled h rfl next other
  | string _ (some _), _, h, _ => rename_settle_of_isSettled h rfl next other
  | list _ (some _), _, h, _ => rename_settle_of_isSettled h rfl next other
  | dict _ (some _), _, h, _ => rename_settle_of_isSettled h rfl next other
  | rendering _ (some _), _, h, _ => rename_settle_of_isSettled h rfl next other
  | builtin _ (some _), _, h, _ => rename_settle_of_isSettled h rfl next other
  | method _ _ (some _), _, h, _ => rename_settle_of_isSettled h rfl next other
  | function _ (some _), _, h, _ => rename_settle_of_isSettled h rfl next other
  | template _ (some _), _, h, _ => rename_settle_of_isSettled h rfl next other
  | renderer _ (some _), _, h, _ => rename_settle_of_isSettled h rfl next other
  | page _ _ (some _), _, h, _ => rename_settle_of_isSettled h rfl next other
  | string _ Option.none, twin, h, hSame => by
      obtain ⟨m, rfl, hMark⟩ := of_rename_string h.symm
      obtain rfl : m = Option.none := by simpa using hMark
      simp [settle, (SameFrom.head hSame).2]
  | list ⟨items⟩ Option.none, twin, h, hSame => by
      obtain ⟨⟨others⟩, m, rfl, hItems, hMark⟩ := of_rename_list (h.symm.trans (rename_list ..))
      obtain rfl : m = Option.none := by simpa using hMark
      have hItems : items.map (rename f) = others.map (rename g) := by simpa using hItems.symm
      have hRest := rename_settleItems (next + 1) (other + 1) items others hItems hSame.rest
      rw [settle_list, settle_list]
      simp [hRest, hSame.first.head.2]
  | dict entries Option.none, twin, h, hSame => by
      obtain ⟨others, m, rfl, hEntries, hMark⟩ := of_rename_dict (h.symm.trans (rename_dict ..))
      obtain rfl : m = Option.none := by simpa using hMark
      have hRest := rename_settleEntries (next + 1) (other + 1) entries others hEntries.symm
        hSame.rest
      simp [settle, hRest, hSame.first.head.2]
  | rendering ⟨body, pending, attributes⟩ Option.none, twin, h, hSame => by
      obtain ⟨⟨body', pending', others⟩, m, rfl, hContent, hMark⟩ :=
        of_rename_rendering (h.symm.trans (rename_rendering ..))
      obtain rfl : m = Option.none := by simpa using hMark
      simp only [Rendering.rename, Rendering.mk.injEq] at hContent
      obtain ⟨rfl, rfl, hEntries⟩ := hContent
      have hRest := rename_settleEntries (next + 1) (other + 1) attributes others hEntries.symm
        hSame.rest
      simp [settle, Rendering.rename, hRest, hSame.first.head.2]
  | builtin _ Option.none, twin, h, hSame => by
      obtain ⟨m, rfl, hMark⟩ := of_rename_builtin h.symm
      obtain rfl : m = Option.none := by simpa using hMark
      simp [settle, (SameFrom.head hSame).1]
  | method receiver name Option.none, twin, h, hSame => by
      obtain ⟨own, m, rfl, hReceiver, hMark⟩ := of_rename_method h.symm
      obtain rfl : m = Option.none := by simpa using hMark
      have hRest := rename_settle (next + 1) (other + 1) receiver own hReceiver.symm hSame.rest
      simp [settle, hRest, hSame.first.head.1]
  | function _ Option.none, twin, h, hSame => by
      obtain ⟨own, m, rfl, hClosure, hMark⟩ :=
        of_rename_function (h.symm.trans (rename_function ..))
      obtain rfl : m = Option.none := by simpa using hMark
      simp [settle, hClosure, (SameFrom.head hSame).1]
  | template _ Option.none, twin, h, hSame => by
      obtain ⟨own, m, rfl, hContent, hMark⟩ :=
        of_rename_template (h.symm.trans (rename_template ..))
      obtain rfl : m = Option.none := by simpa using hMark
      simp [settle, hContent, (SameFrom.head hSame).1]
  | renderer _ Option.none, twin, h, hSame => by
      obtain ⟨own, m, rfl, hContent, hMark⟩ :=
        of_rename_renderer (h.symm.trans (rename_renderer ..))
      obtain rfl : m = Option.none := by simpa using hMark
      simp [settle, hContent, (SameFrom.head hSame).1]
  | page _ _ Option.none, twin, h, hSame => by
      obtain ⟨own, leaf, m, rfl, hContent, hLeaf, hMark⟩ :=
        of_rename_page (h.symm.trans (rename_page ..))
      obtain rfl : m = Option.none := by simpa using hMark
      simp [settle, hContent, hLeaf, (SameFrom.head hSame).1]
  | loop level outer, twin, h, hSame => by
      obtain ⟨own, others, rfl, hLevel, hOuter⟩ := of_rename_loop h.symm
      have hLevels : (level :: outer).map (LoopLevel.rename f) =
          (own :: others).map (LoopLevel.rename g) := by simp [hLevel, hOuter]
      have hSettled := rename_settleLevels hLevels hSame
      obtain ⟨inner, rest, hFound, hLoop⟩ := settle_loop next level outer
      obtain ⟨inner', rest', hFound', hLoop'⟩ := settle_loop other own others
      rw [hFound, hFound', List.map_cons, List.map_cons, List.cons.injEq] at hSettled
      rw [hLoop, hLoop', rename_loop, rename_loop, hSettled.1, hSettled.2]

theorem rename_settleItems (next other : Nat) : ∀ items twins : List Value,
    items.map (rename f) = twins.map (rename g) → SameFrom f g next other (unsettledItems items) →
    (settleItems next [] items).1.map (rename f) = (settleItems other [] twins).1.map (rename g)
  | [], twins, h, _ => by
      have hTwins : twins = [] := by simpa using h.symm
      rw [hTwins]
      rfl
  | item :: rest, [], h, _ => by simp at h
  | item :: rest, twin :: twins, h, hSame => by
      simp only [List.map_cons, List.cons.injEq] at h
      rw [unsettledItems] at hSame
      have hItem := rename_settle next other item twin h.1 hSame.first
      have hRest := rename_settleItems _ _ rest twins h.2 hSame.rest
      rw [settleItems_cons, settleItems_cons, settle_snd, settle_snd, unsettled_eq h.1]
      simp only [List.map_cons, hItem, hRest]

theorem rename_settleEntries (next other : Nat) : ∀ entries twins : List (String × Value),
    Entries.rename f entries = Entries.rename g twins →
    SameFrom f g next other (unsettledEntries entries) →
    Entries.rename f (settleEntries next [] entries).1 =
      Entries.rename g (settleEntries other [] twins).1
  | [], twins, h, _ => by
      have hTwins : twins = [] := by simpa [Entries.rename] using h.symm
      rw [hTwins]
      rfl
  | (name, value) :: rest, [], h, _ => by simp [Entries.rename] at h
  | (name, value) :: rest, (name', twin) :: twins, h, hSame => by
      simp only [Entries.rename, List.map_cons, List.cons.injEq, Prod.mk.injEq] at h
      obtain ⟨⟨rfl, hValue⟩, hTwins⟩ := h
      rw [unsettledEntries] at hSame
      have hHead := rename_settle next other value twin hValue hSame.first
      have hRest := rename_settleEntries _ _ rest twins hTwins hSame.rest
      rw [settleEntries_cons, settleEntries_cons, settle_snd, settle_snd, unsettled_eq hValue]
      simp only [Entries.rename, List.map_cons] at hRest ⊢
      rw [hHead, hRest]

end

end Stencil.Value
