import Mathlib.Order.Basic
import Stencil.Proofs.Identity
import Stencil.Proofs.Renaming.Agreement
import Stencil.Proofs.Renaming.Sorting

/-!
# Values that are alike

Two runs number their frames and marks differently. A `Pairing` tells which numbers of the right run
stand for which numbers of the left one. It gives two renamings into common numbers, and what the
left run has is alike what the right one has when both are renamed to the same.

Frames and marks are added to a pairing while the runs go on, and what is alike stays alike. Each
mark of the right run has a mark of its own on the left. A frame on the left may stand for several
frames on the right, if it is sealed: nothing is defined in it any more.

An exact pairing keeps apart all texts and lists that are different values. Under one that is not
exact they are alike as soon as their contents are, and only code that does not ask for identity is
alike itself.

## Main results

* `Pairing.Extends.keep`: what the renamings agree on stays as it is when a pairing is extended.
* `Alike.mono`: what is alike stays alike.
-/

namespace Stencil

/-! ## Pairings -/

/-- A renaming that tells objects apart, and data too if that is asked for. -/
structure Renaming.Tells (exact : Bool) (ρ : Renaming) : Prop where
  mark : Function.Injective ρ.mark
  data : exact = true → ρ.data = ρ.mark

/-- Which numbers of the right run stand for which numbers of the left one. -/
structure Pairing where
  /-- What does not change, on both sides. -/
  setting : Setting
  /-- Are texts and lists told from others with the same content? -/
  exact : Bool
  /-- The frame on the left that a frame on the right stands for. -/
  frame : FrameId → Option FrameId
  /-- The mark on the left that a mark on the right stands for. -/
  mark : Nat → Option Nat
  /-- The frames on the left in which nothing is defined any more. -/
  isSealed : FrameId → Prop
  /-- May a library with this layout use the memory on the left, and none on the right? -/
  memory : Nat → Library Value → Option (Layout Value) → Prop
  /-- May these frames ever be paired? -/
  mayFrame : FrameId → FrameId → Prop
  /-- May these marks ever be paired? -/
  mayMark : Nat → Nat → Prop
  mark_inj : ∀ m n k, mark m = some k → mark n = some k → m = n
  frame_inj : ∀ i j k, frame j = some i → frame k = some i → isSealed i ∨ j = k
  paired : ∀ i, isSealed i → ∃ j, frame j = some i
  frame_may : ∀ i j, frame j = some i → mayFrame i j
  mark_may : ∀ m n, mark n = some m → mayMark m n

namespace Pairing

/-- Can the pairing follow code of which is known whether it asks for identity? -/
def Follows (p : Pairing) (testsIdentity : Bool) : Prop := p.exact = true ∨ testsIdentity = false

instance (p : Pairing) (testsIdentity : Bool) : Decidable (p.Follows testsIdentity) :=
  inferInstanceAs (Decidable (_ ∨ _))

theorem follows_or {p : Pairing} {a b : Bool} :
    p.Follows (a || b) ↔ p.Follows a ∧ p.Follows b := by
  cases a <;> cases b <;> simp [Follows]

/-- Can the pairing follow this code? -/
abbrev Permits (p : Pairing) (body : List Instr) : Prop :=
  p.Follows (Instr.anyTestsIdentity body)

/-- The common number of a mark on the right. The marks that stand for nothing get odd numbers. -/
def rightMark (p : Pairing) (n : Nat) : Nat :=
  match p.mark n with
  | some m => 2 * m
  | none => 2 * n + 1

open Classical in
/-- The common numbers of what the left run has. -/
noncomputable def left (p : Pairing) : Renaming where
  frame body i := if p.Permits body then i + 2 else 0
  mark m := 2 * m
  data m := if p.exact then 2 * m else 0
  memory library layout :=
    match library.cache with
    | none => none
    | some c =>
        if p.memory c { library with cache := none, counter := 0 } layout then none
        else some (c + 1)

/-- The common numbers of what the right run has. -/
def right (p : Pairing) : Renaming where
  frame body j :=
    if p.Permits body then
      match p.frame j with
      | some i => i + 2
      | none => 1
    else 1
  mark := p.rightMark
  data n := if p.exact then p.rightMark n else 0
  memory library _ := library.cache.map fun _ => 0

theorem left_tells (p : Pairing) : p.left.Tells p.exact where
  mark m n h := by
    have h : 2 * m = 2 * n := h
    omega
  data h := by
    funext m
    show (if p.exact then 2 * m else 0) = 2 * m
    rw [if_pos h]

theorem rightMark_injective (p : Pairing) : Function.Injective p.rightMark := by
  intro m n h
  unfold rightMark at h
  cases hm : p.mark m with
  | none => cases hn : p.mark n <;> simp only [hm, hn] at h <;> omega
  | some k =>
      cases hn : p.mark n with
      | none => simp only [hm, hn] at h; omega
      | some l =>
          simp only [hm, hn] at h
          obtain rfl : k = l := by omega
          exact p.mark_inj m n k hm hn

theorem right_tells (p : Pairing) : p.right.Tells p.exact where
  mark := p.rightMark_injective
  data h := by
    funext n
    show (if p.exact then p.rightMark n else 0) = p.rightMark n
    rw [if_pos h]

theorem rightMark_eq_iff (p : Pairing) (m n : Nat) : 2 * m = p.rightMark n ↔ p.mark n = some m := by
  unfold rightMark
  constructor
  · intro h
    split at h
    · rename_i k hk
      rw [hk, show m = k by omega]
    · omega
  · intro h
    rw [h]

theorem frame_eq_iff (p : Pairing) (body : List Instr) (i j : FrameId) :
    p.left.frame body i = p.right.frame body j ↔ p.Permits body ∧ p.frame j = some i := by
  by_cases hBody : p.Permits body
  · simp only [left, right, hBody, if_true, true_and]
    cases p.frame j with
    | none => simp
    | some k => simp [eq_comm]
  · simp [left, right, hBody]

/-! ## Pairings that grow -/

/-- The second pairing has the frames and marks of the first one. -/
structure Extends (p q : Pairing) : Prop where
  setting : q.setting = p.setting
  exact : q.exact = p.exact
  frame : ∀ i j, p.frame j = some i → q.frame j = some i
  mark : ∀ m n, p.mark n = some m → q.mark n = some m
  isSealed : ∀ i, p.isSealed i → q.isSealed i
  memory : ∀ c library layout, p.memory c library layout → q.memory c library layout

/-- The second pairing has the frames and marks of the first one, and seals none of the frames. The
same frames and marks may be paired later. -/
structure Grows (p q : Pairing) : Prop extends Extends p q where
  stays : ∀ i j, p.frame j = some i → q.isSealed i → p.isSealed i
  mayFrame : q.mayFrame = p.mayFrame
  mayMark : q.mayMark = p.mayMark

theorem Extends.refl (p : Pairing) : Extends p p :=
  ⟨rfl, rfl, fun _ _ h => h, fun _ _ h => h, fun _ h => h, fun _ _ _ h => h⟩

theorem Extends.trans {p q r : Pairing} (h : Extends p q) (h' : Extends q r) : Extends p r :=
  ⟨h'.setting.trans h.setting, h'.exact.trans h.exact,
    fun i j hFrame => h'.frame i j (h.frame i j hFrame),
    fun m n hMark => h'.mark m n (h.mark m n hMark),
    fun i hSealed => h'.isSealed i (h.isSealed i hSealed),
    fun c library layout hMemory => h'.memory c library layout (h.memory c library layout hMemory)⟩

instance : Preorder Pairing where
  le := Grows
  le_refl p := ⟨.refl p, fun _ _ _ h => h, rfl, rfl⟩
  le_trans _ _ _ h h' :=
    ⟨h.toExtends.trans h'.toExtends, fun i j hFrame hSealed =>
      h.stays i j hFrame (h'.stays i j (h.frame i j hFrame) hSealed),
      h'.mayFrame.trans h.mayFrame, h'.mayMark.trans h.mayMark⟩

theorem Follows.mono {p q : Pairing} (h : Extends p q) {testsIdentity : Bool}
    (hFollows : p.Follows testsIdentity) : q.Follows testsIdentity := by
  unfold Follows
  rwa [h.exact]

/-- What the renamings agree on stays as it is when a pairing is extended. -/
theorem Extends.keep {p q : Pairing} (h : Extends p q) :
    Renaming.Keep p.left p.right q.left q.right where
  frame body i j hFrame := by
    obtain ⟨hBody, hPair⟩ := (p.frame_eq_iff body i j).1 hFrame
    have hBody' := hBody.mono h
    have hPair' := h.frame i j hPair
    simp only [left, right, if_pos hBody, if_pos hBody', hPair, hPair', and_self]
  mark m n hMark := by
    have hPair := (p.rightMark_eq_iff m n).1 hMark
    have hPair' := h.mark m n hPair
    exact ⟨rfl, by simp only [right, rightMark, hPair, hPair']⟩
  data m n hData := by
    simp only [left, right] at hData ⊢
    rw [h.exact]
    cases hExact : p.exact with
    | false => exact ⟨rfl, rfl⟩
    | true =>
        rw [hExact, if_pos rfl, if_pos rfl] at hData
        have hPair := (p.rightMark_eq_iff m n).1 hData
        have hPair' := h.mark m n hPair
        simp only [rightMark, hPair, hPair', and_self]
  memory library other layout hMemory := by
    refine ⟨?_, rfl⟩
    simp only [left, right] at hMemory ⊢
    cases hCache : library.cache with
    | none => rfl
    | some c =>
        simp only [hCache] at hMemory ⊢
        by_cases hUse : p.memory c { library with cache := none, counter := 0 } layout
        · rw [if_pos hUse, if_pos (h.memory c _ _ hUse)]
        · rw [if_neg hUse] at hMemory
          cases hOther : other.cache <;> simp [hOther] at hMemory

end Pairing

/-! ## What is alike -/

/-- Things that have frames and marks in them. -/
class Renamable (α : Type) where
  rename : Renaming → α → α
  /-- What is renamed to one thing keeps it when the renamings stay as they are where they agree. -/
  of_agree : ∀ {f g f' g' : Renaming}, Renaming.Keep f g f' g' → ∀ a b : α,
    rename f a = rename g b → rename f' a = rename f a ∧ rename g' b = rename g b

namespace Renamable

variable {α β : Type}

/-- Things that refer to no frames and have no marks. -/
@[reducible] def plain (α : Type) : Renamable α := ⟨fun _ a => a, fun _ _ _ _ => ⟨rfl, rfl⟩⟩

instance : Renamable Unit := plain Unit

instance : Renamable Bool := plain Bool

instance : Renamable String := plain String

instance : Renamable (List Char) := plain (List Char)

instance : Renamable Nat := plain Nat

instance : Renamable Ordering := plain Ordering

instance : Renamable Value := ⟨fun ρ => Value.rename ρ, fun h => Value.rename_of_agree h⟩

instance [Renamable α] : Renamable (Option α) where
  rename ρ := Option.map (rename ρ)
  of_agree h a b hab := by
    cases a with
    | none =>
        obtain rfl : b = none := by simpa using hab.symm
        exact ⟨rfl, rfl⟩
    | some a =>
        cases b with
        | none => simp at hab
        | some b =>
            have hab := of_agree h a b (by simpa using hab)
            simp only [Option.map_some, hab, and_self]

instance [Renamable α] [Renamable β] : Renamable (α × β) where
  rename ρ pair := (rename ρ pair.1, rename ρ pair.2)
  of_agree h a b hab := by
    have hFirst := of_agree h a.1 b.1 (congrArg Prod.fst hab)
    have hSecond := of_agree h a.2 b.2 (congrArg Prod.snd hab)
    simp only [hFirst, hSecond, and_self]

instance [Renamable α] : Renamable (List α) where
  rename ρ := List.map (rename ρ)
  of_agree {f g f' g'} h a b hab := by
    induction a generalizing b with
    | nil =>
        obtain rfl : b = [] := by simpa using hab.symm
        exact ⟨rfl, rfl⟩
    | cons a rest ih =>
        cases b with
        | nil => simp at hab
        | cons b others =>
            simp only [List.map_cons, List.cons.injEq] at hab ⊢
            have hHead := of_agree h a b hab.1
            have hRest := ih others hab.2
            exact ⟨⟨hHead.1, hRest.1⟩, hHead.2, hRest.2⟩

instance : Renamable (Rendering Value) where
  rename ρ := Rendering.rename ρ
  of_agree h a b hab := by
    have hEntries := of_agree h a.attributes b.attributes (congrArg Rendering.attributes hab)
    exact ⟨congrArg (fun entries => { a with attributes := entries }) hEntries.1,
      congrArg (fun entries => { b with attributes := entries }) hEntries.2⟩

instance {ε : Type} [Renamable α] : Renamable (Except ε α) where
  rename ρ := Except.map (rename ρ)
  of_agree h a b hab := by
    cases a with
    | error cause =>
        cases b with
        | error other => exact ⟨rfl, rfl⟩
        | ok b => cases hab
    | ok a =>
        cases b with
        | error cause => cases hab
        | ok b =>
            have hab := of_agree h a b (Except.ok.inj hab)
            exact ⟨congrArg Except.ok hab.1, congrArg Except.ok hab.2⟩

instance : Renamable Arguments where
  rename ρ := Arguments.rename ρ
  of_agree h a b hab := by
    have hPositional := of_agree h a.positional b.positional (congrArg Arguments.positional hab)
    have hNamed := of_agree h a.named b.named (congrArg Arguments.named hab)
    exact ⟨Arguments.mk.injEq .. ▸ ⟨hPositional.1, hNamed.1⟩,
      Arguments.mk.injEq .. ▸ ⟨hPositional.2, hNamed.2⟩⟩

end Renamable

/-- The left thing is alike the right one. -/
def Alike {α : Type} [Renamable α] (p : Pairing) (a b : α) : Prop :=
  Renamable.rename p.left a = Renamable.rename p.right b

/-- What is alike under a pairing is alike under one that extends it. -/
theorem Alike.extend {α : Type} [Renamable α] {p q : Pairing} {a b : α} (h : Alike p a b)
    (hExtends : p.Extends q) : Alike q a b := by
  have hKeep := Renamable.of_agree hExtends.keep a b h
  exact hKeep.1.trans (Eq.trans h hKeep.2.symm)

/-- What is alike stays alike. -/
theorem Alike.mono {α : Type} [Renamable α] {p q : Pairing} {a b : α} (h : Alike p a b)
    (hLe : p ≤ q) : Alike q a b := h.extend hLe.toExtends

namespace Alike

variable {α β γ : Type} [Renamable α] [Renamable β] {p : Pairing}

/-- A function that does not see the numbers gives what is alike. -/
theorem apply {f : α → β}
    (hf : ∀ ρ : Renaming, ρ.Tells p.exact → ∀ x, f (Renamable.rename ρ x) =
      Renamable.rename ρ (f x))
    {a b : α} (h : Alike p a b) : Alike p (f a) (f b) := by
  unfold Alike at h ⊢
  rw [← hf p.left p.left_tells, ← hf p.right p.right_tells, h]

/-- A function that does not depend on the numbers gives the same. -/
theorem same {f : α → γ} (hf : ∀ ρ x, f (Renamable.rename ρ x) = f x) {a b : α}
    (h : Alike p a b) : f a = f b := by
  rw [← hf p.left a, ← hf p.right b, h]

theorem pair {a b : α} {c d : β} (h : Alike p a b) (h' : Alike p c d) : Alike p (a, c) (b, d) :=
  Prod.ext h h'

theorem fst {x y : α × β} (h : Alike p x y) : Alike p x.1 y.1 := (Prod.ext_iff.1 h).1

theorem snd {x y : α × β} (h : Alike p x y) : Alike p x.2 y.2 := (Prod.ext_iff.1 h).2

theorem some {a b : α} (h : Alike p a b) : Alike p (some a) (some b) := congrArg Option.some h

theorem none : Alike p (none : Option α) Option.none := rfl

theorem nil : Alike p ([] : List α) [] := rfl

theorem cons {a b : α} {rest others : List α} (h : Alike p a b) (hRest : Alike p rest others) :
    Alike p (a :: rest) (b :: others) :=
  (congrArg₂ List.cons h hRest : _ :: _ = _ :: _)

end Alike

end Stencil
