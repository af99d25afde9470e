import Stencil.Proofs.Writing.Reading

/-!
# Written expressions are read back

An expression that is written with no more brackets than the levels of binding ask for is read as
the same expression: the scanner cuts the text where the words end, and each reader takes the words
of its operands and stops.

## Main results

* `Expr.read_write`: reading undoes writing.
-/

namespace Stencil

open Reader

namespace Expr

/-- Reading a written expression gives back the expression. -/
theorem read_write {expr : Expr} (h : expr.IsWritable) : Expr.read expr.write = .ok expr := by
  rw [Expr.read, Reader.run_eq_ok (strictTokens_write h)]
  exact readTuple_write h

/-- A call with a name for an argument, whose value is a tuple of one text. -/
def sampleCall : Expr :=
  .call (.name "f") [.name "y"] [("key", .tuple [.literal (.string "it's")])]

/-- A power with signs around it. -/
def samplePower : Expr :=
  .unary .negative (.binary .power (.name "x") (.unary .negative (.literal (.int 2))))

/-- A choice between a comparison and a product with a sum in it. -/
def sampleChoice : Expr :=
  .conditional (.unary .not (.name "a"))
    (.compare samplePower [(.notIn, .slice sampleCall (some (.literal (.int 1))) none none)])
    (.binary .multiply (.binary .add (.name "b") (.literal .none)) (.name "c"))

theorem isIdentifier_letter {label : String} (h : label ∈ ["a", "b", "c", "f", "x", "y", "key"]) :
    IsIdentifier label := by
  have hAll : ∀ label ∈ ["a", "b", "c", "f", "x", "y", "key"],
      label.toList.head?.any Text.startsName = true ∧
        label.toList.tail.all Text.continuesName = true ∧
          isKeyword label.toList = false := by decide
  obtain ⟨hStart, hRest, hPlain⟩ := hAll label h
  refine ⟨?_, hPlain⟩
  cases hText : label.toList with
  | nil =>
      rw [hText] at hStart
      cases hStart
  | cons c rest =>
      rw [hText] at hStart hRest
      exact ⟨c, rest, rfl, hStart, List.all_eq_true.1 hRest⟩

theorem sampleChoice_isWritable : sampleChoice.IsWritable := by
  have hName {label : String} (h : label ∈ ["a", "b", "c", "f", "x", "y", "key"]) :
      (Expr.name label).IsWritable := .name (isIdentifier_letter h)
  have hInt {value : Int64} (h : 0 ≤ value.toInt) : (Expr.literal (.int value)).IsWritable :=
    .literal h
  have hPower : samplePower.IsWritable :=
    .unary (.binary (hName (by decide)) (.unary (hInt (by decide))))
  have hTuple : (Expr.tuple [.literal (.string "it's")]).IsWritable :=
    .tuple (List.forall_mem_singleton.2 (.literal trivial))
  have hCall : sampleCall.IsWritable :=
    .call (hName (by decide)) (List.forall_mem_singleton.2 (hName (by decide)))
      (List.forall_mem_singleton.2 hTuple)
      (List.forall_mem_singleton.2 (isIdentifier_letter (by decide))) (by decide)
  have hSlice : (Expr.slice sampleCall (some (.literal (.int 1))) none none).IsWritable :=
    .slice hCall (fun bound hBound => by cases hBound; exact hInt (by decide)) (by simp) (by simp)
  exact .conditional (.unary (hName (by decide)))
    (.compare hPower (List.forall_mem_singleton.2 hSlice) (List.cons_ne_nil _ _))
    (.binary (.binary (hName (by decide)) (.literal trivial)) (hName (by decide)))

/-- The sample is written with the brackets that the sum and the tuple need. -/
theorem read_write_sampleChoice :
    sampleChoice.write =
      "-x ** -2 not in f(y, key=(\"it's\",))[1:] if not a else (b + None) * c".toList ∧
    Expr.read sampleChoice.write = .ok sampleChoice :=
  ⟨by decide +kernel, read_write sampleChoice_isWritable⟩

end Expr

end Stencil
