import Stencil.Proofs.Alike.Stores

/-!
# Evaluation that is alike

An expression that is evaluated twice, in scenes that belong together, gives what is alike, or stops
for the same reason. Calls and attributes are done by the services, which are assumed to keep to
this. An expression that asks for identity is followed by exact pairings only.

## Main results

* `alike_evaluate`: an expression gives what is alike.
* `alike_evaluateDefaults`: so do the defaults of parameters.
-/

namespace Stencil

variable {I : Invariant} {p q : Pairing}

/-! ## Operations on values -/

namespace Alike

variable {a b c d : Value}

theorem truthy (h : Alike p a b) : a.truthy = b.truthy := h.same Value.truthy_rename

theorem text (h : Alike p a b) : a.text = b.text := h.same Value.text_rename

theorem isNone (h : Alike p a b) : a.isNone = b.isNone := h.same Value.isNone_rename

theorem typeName (h : Alike p a b) : a.typeName = b.typeName := h.same Value.typeName_rename

theorem items (h : Alike p a b) : Alike p a.items b.items :=
  h.apply fun ρ _ => Value.items_rename ρ

theorem index (h : Alike p a b) (hKey : Alike p c d) : Alike p (a.index c) (b.index d) :=
  (h.pair hKey).apply (f := fun x => x.1.index x.2) fun ρ _ x => Value.index_rename ρ x.1 x.2

theorem unary (op : UnaryOp) (h : Alike p a b) : Alike p (op.apply a) (op.apply b) :=
  h.apply fun ρ _ => UnaryOp.apply_rename ρ op

theorem binary (op : BinaryOp) (h : Alike p a b) (h' : Alike p c d) :
    Alike p (op.apply a c) (op.apply b d) :=
  (h.pair h').apply (f := fun x => op.apply x.1 x.2) fun ρ _ x => BinaryOp.apply_rename ρ op x.1 x.2

theorem compare (op : CompareOp) (hOp : p.Follows op.isIdentity) (h : Alike p a b)
    (h' : Alike p c d) : Alike p (op.apply a c) (op.apply b d) := by
  refine (h.pair h').apply (f := fun x => op.apply x.1 x.2) fun ρ hρ x => ?_
  have hData : ρ.data = ρ.mark ∨ (op ≠ .same ∧ op ≠ .notSame) := by
    cases hOp with
    | inl hExact => exact Or.inl (hρ.data hExact)
    | inr hIdentity => exact Or.inr (by cases op <;> simp_all [CompareOp.isIdentity])
  have hApply := CompareOp.apply_rename hρ.mark op hData x.1 x.2
  show op.apply (x.1.rename ρ) (x.2.rename ρ) = Except.map (fun b => b) (op.apply x.1 x.2)
  rw [hApply]
  cases op.apply x.1 x.2 <;> rfl

theorem ofList {values twins : List Value} (h : Alike p values twins) :
    Alike p (Value.ofList values) (Value.ofList twins) :=
  h.apply fun ρ _ values => (Value.rename_ofList ρ values).symm

theorem ofEntries {entries others : Entries Value} (h : Alike p entries others) :
    Alike p (Value.ofEntries entries) (Value.ofEntries others) :=
  h.apply fun ρ _ entries => (Value.rename_ofEntries ρ entries).symm

theorem ofRendering {r r' : Rendering Value} (h : Alike p r r') :
    Alike p (Value.ofRendering r) (Value.ofRendering r') :=
  h.apply fun ρ _ r => (Value.rename_ofRendering ρ r).symm

end Alike

/-- A comparison for identity with a value that has no mark does not see the other mark. -/
theorem Value.same_rename_of_mark (ρ : Renaming) (left : Value) {right : Value}
    (h : right.mark? = Option.none) : (left.rename ρ).same (right.rename ρ) = left.same right := by
  have hRight : (right.rename ρ).mark? = Option.none := by
    cases right <;> simp_all [mark?, LoopLevel.rename]
  have hMark (mark : Mark) : Mark.same mark Option.none = false := by cases mark <;> rfl
  cases left with
  | none => exact isNone_rename ρ right
  | bool b => cases right <;> simp [same]
  | int i => cases right <;> simp [same]
  | float x => rfl
  | list items mark =>
      rw [rename_list]
      show Mark.same _ (right.rename ρ).mark? = Mark.same _ right.mark?
      rw [h, hRight, hMark, hMark]
  | _ =>
      show Mark.same _ (right.rename ρ).mark? = Mark.same _ right.mark?
      rw [h, hRight, hMark, hMark]

/-- The renderer that a value is. -/
def Value.renderer? : Value → Option (Renderer Value)
  | renderer content _ => some content
  | _ => Option.none

@[simp] theorem Value.renderer?_rename (ρ : Renaming) (value : Value) :
    (value.rename ρ).renderer? = value.renderer?.map (Renderer.rename ρ) := by
  cases value <;> simp [renderer?]

/-! ## Services -/

/-- Calls and attributes of what is alike are alike. -/
structure Services.Alike (I : Invariant) (p : Pairing) (services : Services) : Prop where
  call : ∀ q, p ≤ q → ∀ a b x y, Stencil.Alike q a b → Stencil.Alike q x y →
    Run.Alike I q (services.call a x) (services.call b y)
  access : ∀ q, p ≤ q → ∀ a b, Stencil.Alike q a b → ∀ name,
    Run.Alike I q (services.access a name) (services.access b name)

theorem Services.Alike.mono {services : Services} (h : services.Alike I p) (hLe : p ≤ q) :
    services.Alike I q :=
  ⟨fun r hr => h.call r (hLe.trans hr), fun r hr => h.access r (hLe.trans hr)⟩

/-- The scenes belong together. -/
structure Scene.Alike (p : Pairing) (scene twin : Scene) : Prop where
  frame : p.frame twin.frame = some scene.frame
  loops : twin.loops = scene.loops
  escape : twin.escape = scene.escape

theorem Scene.Alike.mono {scene twin : Scene} (h : scene.Alike p twin) (hLe : p ≤ q) :
    scene.Alike q twin :=
  ⟨hLe.frame _ _ h.frame, h.loops, h.escape⟩

/-! ## Expressions -/

section Expressions

variable {services : Services}

theorem alike_literal (constant : Literal) : Alike p constant.value constant.value := by
  cases constant <;> rfl

theorem alike_lookup {scene twin : Scene} {out out' : Rendering Value}
    (hScene : scene.Alike p twin) (hOut : Alike p out out') (name : String) :
    Run.Alike I p (scene.lookup out name) (twin.lookup out' name) := by
  refine (Run.Alike.lookup? hScene.frame name).bind fun q hq found other hFound => ?_
  cases found with
  | some value =>
      cases other with
      | some twin => exact .settle (Option.some.inj hFound)
      | none => cases hFound
  | none =>
      cases other with
      | some twin => cases hFound
      | none =>
          simp only [hScene.loops]
          split
          · cases scene.loops with
            | nil => exact .fault _
            | cons innermost outer =>
                refine .settle ?_
                show Value.rename q.left (.loop _ _) = Value.rename q.right (.loop _ _)
                simp [LoopLevel.rename, Function.comp_def]
          · exact .settle (hOut.mono hq).ofRendering
          · exact .fault _

theorem Services.item_eq (services : Services) (value key : Value) :
    services.item value key = match value.renderer? with
      | some _ => do
          let name ← key.wantString "template name"
          services.access value name
      | none => Run.ofEvaluation (value.index key) := by
  cases value <;> rfl

theorem alike_item (h : services.Alike I p) {value twin key other : Value}
    (hValue : Alike p value twin) (hKey : Alike p key other) :
    Run.Alike I p (services.item value key) (services.item twin other) := by
  have hRenderer : Option.map (Renderer.rename p.left) value.renderer? =
      Option.map (Renderer.rename p.right) twin.renderer? := by
    rw [← Value.renderer?_rename, ← Value.renderer?_rename]
    exact congrArg Value.renderer? hValue
  have hName : key.wantString "template name" = other.wantString "template name" :=
    hKey.same fun ρ => Value.wantString_rename ρ "template name"
  rw [Services.item_eq, Services.item_eq]
  cases hLeft : value.renderer? with
  | none =>
      cases hRight : twin.renderer? with
      | none => exact .ofEvaluation (hValue.index hKey)
      | some renderer => rw [hLeft, hRight] at hRenderer; cases hRenderer
  | some renderer =>
      cases hRight : twin.renderer? with
      | none => rw [hLeft, hRight] at hRenderer; cases hRenderer
      | some renderer =>
          simp only [hName]
          have hFound : Run.Alike I p (liftM (other.wantString "template name") : Run String)
              (liftM (other.wantString "template name")) :=
            .liftFault (by cases other.wantString "template name" <;> rfl)
          exact hFound.bind fun q hq name name' hSame => by
            obtain rfl : name = name' := hSame
            exact h.access q hq _ _ (hValue.mono hq) name

/-- A constant without a mark is its own value. -/
theorem settle_scalar {expr : Expr} (h : expr.isScalar = true) :
    ∃ constant : Literal, expr = .literal constant ∧ constant.value.mark? = none ∧
      Run.settle constant.value = pure constant.value := by
  have hSettle (value : Value) (hValue : value.isSettled = true) :
      Run.settle value = pure value :=
    funext fun setting => funext fun store => Run.run_settle_of_isSettled hValue setting store
  cases expr <;> simp [Expr.isScalar] at h
  rename_i constant
  cases constant <;> simp at h <;> exact ⟨_, rfl, rfl, hSettle _ rfl⟩

theorem alike_sameScalar {value twin : Value} (hValue : Alike p value twin) (op : CompareOp)
    (hOp : op.isIdentity = true) {constant : Literal} (h : constant.value.mark? = none) :
    op.apply value constant.value = op.apply twin constant.value := by
  have hSame : value.same constant.value = twin.same constant.value := by
    have hRename (ρ : Renaming) (x : Value) : (x.rename ρ).same constant.value =
        x.same constant.value := by
      have hConstant : constant.value.rename ρ = constant.value := by cases constant <;> rfl
      have hSame := Value.same_rename_of_mark ρ x h
      rwa [hConstant] at hSame
    exact hValue.same (f := fun x => x.same constant.value) hRename
  cases op <;> simp [CompareOp.isIdentity] at hOp <;> simp [CompareOp.apply, hSame]

mutual

/-- An expression gives what is alike. -/
theorem alike_evaluate {p : Pairing} {scene twin : Scene} {out out' : Rendering Value}
    (h : services.Alike I p) (hScene : scene.Alike p twin) (hOut : Alike p out out') :
    ∀ expr : Expr, p.Follows expr.testsIdentity →
      Run.Alike I p (expr.evaluate services scene out) (expr.evaluate services twin out')
  | .literal constant, _ => .settle (alike_literal constant)
  | .name identifier, _ => alike_lookup hScene hOut identifier
  | .list items, hFollows =>
      (alike_evaluateAll h hScene hOut items hFollows).bind fun _ _ _ _ hValues =>
        .settle hValues.ofList
  | .tuple items, hFollows =>
      (alike_evaluateAll h hScene hOut items hFollows).bind fun _ _ _ _ hValues =>
        .settle hValues.ofList
  | .dict entries, hFollows =>
      (alike_evaluateEntries h hScene hOut .nil entries hFollows).bind fun _ _ _ _ hValues =>
        .settle hValues.ofEntries
  | .attribute value field, hFollows =>
      (alike_evaluate h hScene hOut value hFollows).bind fun q hq a b hValue =>
        (h.access q hq a b hValue field).bind fun _ _ _ _ hFound => .settle hFound
  | .index value key, hFollows =>
      have ⟨hLeft, hRight⟩ := Pairing.follows_or.1 hFollows
      (alike_evaluate h hScene hOut value hLeft).bind fun q hq _ _ hValue =>
        (alike_evaluate (h.mono hq) (hScene.mono hq) (hOut.mono hq) key
          (hRight.mono hq.toExtends)).bind fun r hr _ _ hKey =>
            (alike_item (h.mono (hq.trans hr)) (hValue.mono hr) hKey).bind
              fun _ _ _ _ hFound => .settle hFound
  | .slice value start stop step, hFollows => by
      obtain ⟨hFollows, hStep⟩ := Pairing.follows_or.1 hFollows
      obtain ⟨hFollows, hStop⟩ := Pairing.follows_or.1 hFollows
      obtain ⟨hFollows, hStart⟩ := Pairing.follows_or.1 hFollows
      refine (alike_evaluate h hScene hOut value hFollows).bind fun q hq a b hValue => ?_
      refine (alike_evaluateOptional (h.mono hq) (hScene.mono hq) (hOut.mono hq) start
        (hStart.mono hq.toExtends)).bind fun r hr c d hBegin => ?_
      have hqr := hq.trans hr
      refine (alike_evaluateOptional (h.mono hqr) (hScene.mono hqr) (hOut.mono hqr) stop
        (hStop.mono hqr.toExtends)).bind fun u hu c' d' hEnd => ?_
      have hqu := hqr.trans hu
      refine (alike_evaluateOptional (h.mono hqu) (hScene.mono hqu) (hOut.mono hqu) step
        (hStep.mono hqu.toExtends)).bind fun v hv c'' d'' hBy => ?_
      have hAll := ((hValue.mono (hr.trans (hu.trans hv))).pair
        ((hBegin.mono (hu.trans hv)).pair ((hEnd.mono hv).pair hBy)))
      exact (Run.Alike.liftFault (hAll.apply (f := fun x => x.1.slice x.2.1 x.2.2.1 x.2.2.2)
        fun ρ _ x => Value.slice_rename ρ x.1 x.2.1 x.2.2.1 x.2.2.2)).bind
          fun _ _ _ _ hPart => .settle hPart
  | .call function arguments named, hFollows => by
      obtain ⟨hFollows, hNamed⟩ := Pairing.follows_or.1 hFollows
      obtain ⟨hFollows, hArguments⟩ := Pairing.follows_or.1 hFollows
      refine (alike_evaluate h hScene hOut function hFollows).bind fun q hq a b hFunction => ?_
      refine (alike_evaluateAll (h.mono hq) (hScene.mono hq) (hOut.mono hq) arguments
        (hArguments.mono hq.toExtends)).bind fun r hr x y hPositional => ?_
      have hqr := hq.trans hr
      refine (alike_evaluateNamed (h.mono hqr) (hScene.mono hqr) (hOut.mono hqr) .nil named
        (hNamed.mono hqr.toExtends)).bind fun u hu x' y' hNames => ?_
      have hCall := h.call u (hqr.trans hu) a b ⟨x, x'⟩ ⟨y, y'⟩
        (hFunction.mono (hr.trans hu)) (congrArg₂ Arguments.mk (hPositional.mono hu) hNames)
      exact hCall.bind fun _ _ _ _ hResult => .settle hResult
  | .unary op operand, hFollows =>
      (alike_evaluate h hScene hOut operand hFollows).bind fun _ _ _ _ hOperand =>
        (Run.Alike.liftFault (hOperand.unary op)).bind fun _ _ _ _ hResult => .settle hResult
  | .binary op left right, hFollows =>
      have ⟨hLeft, hRight⟩ := Pairing.follows_or.1 hFollows
      (alike_evaluate h hScene hOut left hLeft).bind fun q hq _ _ hValue =>
        (alike_evaluate (h.mono hq) (hScene.mono hq) (hOut.mono hq) right
          (hRight.mono hq.toExtends)).bind fun r hr _ _ hOperand =>
            (Run.Alike.liftFault ((hValue.mono hr).binary op hOperand)).bind
              fun _ _ _ _ hResult => .settle hResult
  | .compare left links, hFollows =>
      have ⟨hLeft, hLinks⟩ := Pairing.follows_or.1 hFollows
      (alike_evaluate h hScene hOut left hLeft).bind fun q hq _ _ hValue =>
        (alike_evaluateLinks (h.mono hq) (hScene.mono hq) (hOut.mono hq) hValue links
          (hLinks.mono hq.toExtends)).bind fun _ _ _ _ hHolds =>
            .pure (congrArg Value.bool hHolds)
  | .and left right, hFollows =>
      have ⟨hLeft, hRight⟩ := Pairing.follows_or.1 hFollows
      (alike_evaluate h hScene hOut left hLeft).bind fun q hq _ _ hValue =>
        .ite (by rw [hValue.truthy])
          (alike_evaluate (h.mono hq) (hScene.mono hq) (hOut.mono hq) right
            (hRight.mono hq.toExtends)) (.pure hValue)
  | .or left right, hFollows =>
      have ⟨hLeft, hRight⟩ := Pairing.follows_or.1 hFollows
      (alike_evaluate h hScene hOut left hLeft).bind fun q hq _ _ hValue =>
        .ite (by rw [hValue.truthy]) (.pure hValue)
          (alike_evaluate (h.mono hq) (hScene.mono hq) (hOut.mono hq) right
            (hRight.mono hq.toExtends))
  | .conditional test body otherwise, hFollows => by
      obtain ⟨hFollows, hOtherwise⟩ := Pairing.follows_or.1 hFollows
      obtain ⟨hTest, hBody⟩ := Pairing.follows_or.1 hFollows
      refine (alike_evaluate h hScene hOut test hTest).bind fun q hq _ _ hValue => ?_
      exact .ite (by rw [hValue.truthy])
        (alike_evaluate (h.mono hq) (hScene.mono hq) (hOut.mono hq) body
          (hBody.mono hq.toExtends))
        (alike_evaluate (h.mono hq) (hScene.mono hq) (hOut.mono hq) otherwise
          (hOtherwise.mono hq.toExtends))

theorem alike_evaluateAll {p : Pairing} {scene twin : Scene} {out out' : Rendering Value}
    (h : services.Alike I p) (hScene : scene.Alike p twin) (hOut : Alike p out out') :
    ∀ exprs : List Expr, p.Follows (Expr.anyTestsIdentity exprs) →
      Run.Alike I p (Expr.evaluateAll services scene out exprs)
        (Expr.evaluateAll services twin out' exprs)
  | [], _ => .pure .nil
  | expr :: rest, hFollows =>
      have ⟨hExpr, hRest⟩ := Pairing.follows_or.1 hFollows
      (alike_evaluate h hScene hOut expr hExpr).bind fun _ hq _ _ hValue =>
        (alike_evaluateAll (h.mono hq) (hScene.mono hq) (hOut.mono hq) rest
          (hRest.mono hq.toExtends)).bind fun _ hr _ _ hValues =>
            .pure ((hValue.mono hr).cons hValues)

theorem alike_evaluateEntries {p : Pairing} {scene twin : Scene} {out out' : Rendering Value}
    (h : services.Alike I p) (hScene : scene.Alike p twin) (hOut : Alike p out out')
    {done done' : Entries Value} (hDone : Alike p done done') :
    ∀ entries : List (Expr × Expr), p.Follows (Expr.entriesTestIdentity entries) →
      Run.Alike I p (Expr.evaluateEntries services scene out done entries)
        (Expr.evaluateEntries services twin out' done' entries)
  | [], _ => .pure hDone
  | (key, expr) :: rest, hFollows => by
      obtain ⟨hFollows, hRest⟩ := Pairing.follows_or.1 hFollows
      obtain ⟨hKey, hExpr⟩ := Pairing.follows_or.1 hFollows
      refine (alike_evaluate h hScene hOut key hKey).bind fun q hq name name' hName => ?_
      refine (alike_evaluate (h.mono hq) (hScene.mono hq) (hOut.mono hq) expr
        (hExpr.mono hq.toExtends)).bind fun r hr _ _ hValue => ?_
      have hqr := hq.trans hr
      have hInsert := (hDone.mono hqr).insert name.text hValue
      rw [← hName.text]
      exact alike_evaluateEntries (h.mono hqr) (hScene.mono hqr) (hOut.mono hqr) hInsert rest
        (hRest.mono hqr.toExtends)

theorem alike_evaluateNamed {p : Pairing} {scene twin : Scene} {out out' : Rendering Value}
    (h : services.Alike I p) (hScene : scene.Alike p twin) (hOut : Alike p out out')
    {done done' : Entries Value} (hDone : Alike p done done') :
    ∀ named : List (String × Expr), p.Follows (Expr.namedTestIdentity named) →
      Run.Alike I p (Expr.evaluateNamed services scene out done named)
        (Expr.evaluateNamed services twin out' done' named)
  | [], _ => .pure hDone
  | (label, expr) :: rest, hFollows => by
      obtain ⟨hExpr, hRest⟩ := Pairing.follows_or.1 hFollows
      refine (alike_evaluate h hScene hOut expr hExpr).bind fun q hq _ _ hValue => ?_
      exact alike_evaluateNamed (h.mono hq) (hScene.mono hq) (hOut.mono hq)
        ((hDone.mono hq).insert label hValue) rest (hRest.mono hq.toExtends)

theorem alike_evaluateOptional {p : Pairing} {scene twin : Scene} {out out' : Rendering Value}
    (h : services.Alike I p) (hScene : scene.Alike p twin) (hOut : Alike p out out') :
    ∀ expr : Option Expr, p.Follows (Expr.optionTestsIdentity expr) →
      Run.Alike I p (Expr.evaluateOptional services scene out expr)
        (Expr.evaluateOptional services twin out' expr)
  | none, _ => .pure .none
  | some expr, hFollows =>
      (alike_evaluate h hScene hOut expr hFollows).bind fun _ _ _ _ hValue => .pure hValue.some

theorem alike_evaluateLinks {p : Pairing} {scene twin : Scene} {out out' : Rendering Value}
    (h : services.Alike I p) (hScene : scene.Alike p twin) (hOut : Alike p out out')
    {left left' : Value} (hLeft : Alike p left left') :
    ∀ links : List (CompareOp × Expr), p.Follows (Expr.linksTestIdentity links) →
      Run.Alike I p (Expr.evaluateLinks services scene out left links)
        (Expr.evaluateLinks services twin out' left' links)
  | [], _ => .pure rfl
  | (op, expr) :: rest, hFollows => by
      obtain ⟨hFollows, hRest⟩ := Pairing.follows_or.1 hFollows
      obtain ⟨hOp, hExpr⟩ := Pairing.follows_or.1 hFollows
      by_cases hScalar : op.isIdentity = true ∧ expr.isScalar = true
      · obtain ⟨constant, rfl, hMark, hSettle⟩ := settle_scalar hScalar.2
        rw [Expr.evaluateLinks, Expr.evaluateLinks, Expr.evaluate, Expr.evaluate, hSettle,
          pure_bind, pure_bind, alike_sameScalar hLeft op hScalar.1 hMark]
        have hHolds : Alike p (op.apply left' constant.value) (op.apply left' constant.value) := by
          cases op.apply left' constant.value <;> rfl
        refine (Run.Alike.liftFault hHolds).bind fun q hq holds holds' hSame => ?_
        obtain rfl : holds = holds' := hSame
        exact .ite Iff.rfl (alike_evaluateLinks (h.mono hq) (hScene.mono hq) (hOut.mono hq)
          (alike_literal constant) rest (hRest.mono hq.toExtends)) (.pure rfl)
      · have hOp : p.Follows op.isIdentity := by
          refine hOp.imp_right fun hNot => ?_
          cases hIdentity : op.isIdentity <;> cases hKind : expr.isScalar <;> simp_all
        refine (alike_evaluate h hScene hOut expr hExpr).bind fun q hq right right' hRight => ?_
        refine (Run.Alike.liftFault ((hLeft.mono hq).compare op (hOp.mono hq.toExtends)
          hRight)).bind fun r hr holds holds' hSame => ?_
        obtain rfl : holds = holds' := hSame
        have hqr := hq.trans hr
        exact .ite Iff.rfl (alike_evaluateLinks (h.mono hqr) (hScene.mono hqr) (hOut.mono hqr)
          (hRight.mono hr) rest (hRest.mono hqr.toExtends)) (.pure rfl)

end

/-- The defaults of parameters give what is alike. -/
theorem alike_evaluateDefaults {p : Pairing} {scene twin : Scene} {out out' : Rendering Value}
    (h : services.Alike I p) (hScene : scene.Alike p twin) (hOut : Alike p out out') :
    ∀ parameters : List Parameter, p.Follows (parameters.any Parameter.testsIdentity) →
      Run.Alike I p (evaluateDefaults services scene out parameters)
        (evaluateDefaults services twin out' parameters)
  | [], _ => .pure .nil
  | parameter :: rest, hFollows => by
      obtain ⟨hParameter, hRest⟩ := Pairing.follows_or.1 hFollows
      have hDefault : Run.Alike I p (parameter.default.mapM (Expr.evaluate services scene out))
          (parameter.default.mapM (Expr.evaluate services twin out')) := by
        refine .optionMapM fun expr hExpr => alike_evaluate h hScene hOut expr ?_
        rwa [Parameter.testsIdentity, hExpr] at hParameter
      exact hDefault.bind fun q hq _ _ hValue =>
        (alike_evaluateDefaults (h.mono hq) (hScene.mono hq) (hOut.mono hq) rest
          (hRest.mono hq.toExtends)).bind fun _ hr _ _ hValues =>
            .pure ((hValue.mono hr).cons hValues)

end Expressions

end Stencil
