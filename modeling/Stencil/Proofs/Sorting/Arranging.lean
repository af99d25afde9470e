import Mathlib.Data.List.Basic
import Stencil.Sorting

/-!
# Arranging values

What it means that sorting is stable. A test that always answers, and that orders all values up to
ties, leaves one list to be the sorted one: of two values that are tied, the one that came first
comes first. `SameTies` says that two lists have the same values with the same order among those
that are tied with each other, for each of them. It is an equivalence that appending keeps, and a
block of values may pass another block when it goes before all of it. `Arranges` adds that no value
goes before an earlier one.

Each of the ways of sorting is shown to arrange the values, so the property is stated once for all.

## Main results

* `SameTies.swap`: a block may pass another one that it goes before.
* `SameTies.perm`: the values are the same.
* `Arranges.append`: arranged lists follow each other when the first goes before the second.
-/

namespace Stencil.Sorting

/-! ## Tests that order all values -/

/-- A test that orders all values up to ties: it never holds both ways round, and what goes before
nothing earlier goes before nothing that is earlier still. -/
structure IsWeakOrder {α : Type} (lt : α → α → Bool) : Prop where
  asymm {x y : α} : lt x y = true → lt y x = false
  trans {x y z : α} : lt y x = false → lt z y = false → lt z x = false

/-- The test that always has this answer. -/
abbrev answers {ε α : Type} (lt : α → α → Bool) : Less ε α := fun x y => .ok (lt x y)

/-- May `x` stand to the left of `y`? -/
abbrev MayPrecede {α : Type} (lt : α → α → Bool) (x y : α) : Prop := lt y x = false

/-- Goes neither value before the other one? -/
def tied {α : Type} (lt : α → α → Bool) (x y : α) : Bool := !lt x y && !lt y x

section WeakOrder

variable {α : Type} {lt : α → α → Bool} (hlt : IsWeakOrder lt) {x y z : α}

theorem tied_iff : tied lt x y = true ↔ lt x y = false ∧ lt y x = false := by
  simp [tied]

include hlt

theorem IsWeakOrder.irrefl (x : α) : lt x x = false := by
  by_contra h
  rw [Bool.not_eq_false] at h
  rw [hlt.asymm h] at h
  cases h

theorem IsWeakOrder.lt_of_lt_of_le (hLess : lt x y = true) (hLe : MayPrecede lt y z) :
    lt x z = true := by
  by_contra h
  rw [Bool.not_eq_true] at h
  have hBack := hlt.trans hLe h
  rw [hBack] at hLess
  cases hLess

theorem IsWeakOrder.lt_of_le_of_lt (hLe : MayPrecede lt x y) (hLess : lt y z = true) :
    lt x z = true := by
  by_contra h
  rw [Bool.not_eq_true] at h
  have hBack := hlt.trans h hLe
  rw [hBack] at hLess
  cases hLess

theorem IsWeakOrder.tied_self (x : α) : tied lt x x = true :=
  tied_iff.2 ⟨hlt.irrefl x, hlt.irrefl x⟩

/-- Values that are tied with the same one are tied. -/
theorem IsWeakOrder.not_lt_of_tied (hx : tied lt z x = true) (hy : tied lt z y = true) :
    lt x y = false :=
  hlt.trans (tied_iff.1 hy).1 (tied_iff.1 hx).2

end WeakOrder

/-! ## The order turned round -/

/-- The test that asks the other way round. -/
abbrev converse {β α : Type} (lt : α → α → β) : α → α → β := fun x y => lt y x

theorem IsWeakOrder.converse {α : Type} {lt : α → α → Bool} (hlt : IsWeakOrder lt) :
    IsWeakOrder (converse lt) where
  asymm h := hlt.asymm h
  trans h h' := hlt.trans h' h

theorem tied_converse {α : Type} (lt : α → α → Bool) (x y : α) :
    tied (converse lt) x y = tied lt x y := Bool.and_comm ..

/-! ## Lists with the same ties -/

/-- The same values, those that are tied with each other in the same order. -/
def SameTies {α : Type} (lt : α → α → Bool) (xs ys : List α) : Prop :=
  ∀ a, xs.filter (tied lt a) = ys.filter (tied lt a)

namespace SameTies

variable {α : Type} {lt : α → α → Bool} {xs ys zs us vs : List α}

theorem refl (xs : List α) : SameTies lt xs xs := fun _ => rfl

theorem symm (h : SameTies lt xs ys) : SameTies lt ys xs := fun a => (h a).symm

theorem trans (h : SameTies lt xs ys) (h' : SameTies lt ys zs) : SameTies lt xs zs :=
  fun a => (h a).trans (h' a)

theorem append (h : SameTies lt xs ys) (h' : SameTies lt us vs) :
    SameTies lt (xs ++ us) (ys ++ vs) := by
  intro a
  rw [List.filter_append, List.filter_append, h a, h' a]

theorem cons (x : α) (h : SameTies lt xs ys) : SameTies lt (x :: xs) (x :: ys) :=
  (refl [x]).append h

theorem reverse (h : SameTies lt xs ys) : SameTies lt xs.reverse ys.reverse := by
  intro a
  rw [List.filter_reverse, List.filter_reverse, h a]

theorem of_converse (h : SameTies (converse lt) xs ys) : SameTies lt xs ys := by
  intro a
  have hTied : tied (converse lt) a = tied lt a := funext fun x => tied_converse lt a x
  rw [← hTied]
  exact h a

variable (hlt : IsWeakOrder lt)

include hlt

/-- A block of values may pass another block when each of them goes before all values there. -/
theorem swap (h : ∀ y ∈ ys, ∀ x ∈ xs, lt y x = true) : SameTies lt (xs ++ ys) (ys ++ xs) := by
  intro a
  have hOne : xs.filter (tied lt a) = [] ∨ ys.filter (tied lt a) = [] := by
    by_contra hBoth
    rw [not_or, List.filter_eq_nil_iff, List.filter_eq_nil_iff] at hBoth
    push Not at hBoth
    obtain ⟨⟨x, hx, hxa⟩, ⟨y, hy, hya⟩⟩ := hBoth
    have hLess := h y hy x hx
    rw [hlt.not_lt_of_tied hya hxa] at hLess
    cases hLess
  rw [List.filter_append, List.filter_append]
  rcases hOne with hNone | hNone <;> simp [hNone]

/-- A value may pass a block that it goes before, wherever the two stand. -/
theorem pass (us xs vs : List α) {y : α} (h : ∀ x ∈ xs, lt y x = true) :
    SameTies lt (us ++ xs ++ y :: vs) (us ++ y :: (xs ++ vs)) := by
  have hSwap : SameTies lt (xs ++ [y]) ([y] ++ xs) :=
    swap hlt fun z hz => by
      rw [List.mem_singleton.1 hz]
      exact h
  have hBefore : SameTies lt us us := refl us
  have hAll := hBefore.append (hSwap.append (refl vs))
  simpa using hAll

/-- The values are the same. -/
theorem perm (h : SameTies lt xs ys) : xs.Perm ys := by
  classical
  rw [List.perm_iff_count]
  intro a
  have hSelf := hlt.tied_self a
  rw [← List.count_filter (p := tied lt a) (l := xs) hSelf,
    ← List.count_filter (p := tied lt a) (l := ys) hSelf, h a]

end SameTies

/-! ## Arranged lists -/

/-- The values in order, and those that are tied as they came. -/
structure Arranges {α : Type} (lt : α → α → Bool) (values arranged : List α) : Prop where
  ties : SameTies lt values arranged
  ordered : arranged.Pairwise (MayPrecede lt)

namespace Arranges

variable {α : Type} {lt : α → α → Bool} {xs ys us vs : List α}

theorem of_ordered (h : xs.Pairwise (MayPrecede lt)) : Arranges lt xs xs := ⟨.refl xs, h⟩

theorem of_sameTies (h : Arranges lt xs ys) (hSame : SameTies lt us xs) : Arranges lt us ys :=
  ⟨hSame.trans h.ties, h.ordered⟩

/-- What is arranged in the order turned round is arranged when it is read backward. -/
theorem of_converse (h : Arranges (converse lt) xs ys) : Arranges lt xs.reverse ys.reverse :=
  ⟨h.ties.of_converse.reverse, List.pairwise_reverse.2 h.ordered⟩

variable (hlt : IsWeakOrder lt)

include hlt

theorem mem_iff (h : Arranges lt xs ys) {x : α} : x ∈ ys ↔ x ∈ xs :=
  (h.ties.perm hlt).mem_iff.symm

theorem length_eq (h : Arranges lt xs ys) : ys.length = xs.length :=
  (h.ties.perm hlt).length_eq.symm

/-- Arranged lists follow each other when no value of the second goes before one of the first. -/
theorem append (h : Arranges lt xs us) (h' : Arranges lt ys vs)
    (hBetween : ∀ x ∈ xs, ∀ y ∈ ys, MayPrecede lt x y) : Arranges lt (xs ++ ys) (us ++ vs) := by
  constructor
  · exact h.ties.append h'.ties
  · refine List.pairwise_append.2 ⟨h.ordered, h'.ordered, ?_⟩
    intro x hx y hy
    exact hBetween x ((h.mem_iff hlt).1 hx) y ((h'.mem_iff hlt).1 hy)

end Arranges

/-! ## Computations that have a result -/

/-- The computation has a result with this property. -/
def Gives {ε β : Type} (outcome : Except ε β) (property : β → Prop) : Prop :=
  ∃ result, outcome = .ok result ∧ property result

namespace Gives

variable {ε β γ : Type} {outcome : Except ε β} {property wider : β → Prop}

theorem ok {result : β} (h : property result) :
    Gives (.ok result : Except ε β) property := ⟨result, rfl, h⟩

theorem bind {next : β → Except ε γ} {goal : γ → Prop} (h : Gives outcome property)
    (hNext : ∀ result, property result → Gives (next result) goal) :
    Gives (outcome >>= next) goal := by
  obtain ⟨result, rfl, hResult⟩ := h
  exact hNext result hResult

theorem map {f : β → γ} {goal : γ → Prop} (h : Gives outcome property)
    (hMap : ∀ result, property result → goal (f result)) : Gives (f <$> outcome) goal := by
  obtain ⟨result, rfl, hResult⟩ := h
  exact ⟨f result, rfl, hMap result hResult⟩

theorem mono (h : Gives outcome property) (hWider : ∀ result, property result → wider result) :
    Gives outcome wider := by
  obtain ⟨result, rfl, hResult⟩ := h
  exact ⟨result, rfl, hWider result hResult⟩

end Gives

end Stencil.Sorting
