/-!
# Marks

Two texts or lists with the same content may still be different values: the language can ask whether
two expressions give the very same one. A value therefore carries a mark, the number it was given
when it was made. A value that has no number yet is the same as no other.
-/

namespace Stencil

/-- The number of a value, once it has one. -/
abbrev Mark := Option Nat

/-- Do two marks belong to the same value? -/
def Mark.same : Mark → Mark → Bool
  | some m, some n => m == n
  | _, _ => false

theorem Mark.same_eq_true_iff {a b : Mark} :
    Mark.same a b = true ↔ ∃ n, a = some n ∧ b = some n := by
  cases a <;> cases b <;> simp [Mark.same]
  exact ⟨fun h => h.symm, fun h => h.symm⟩

end Stencil
