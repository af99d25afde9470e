import Stencil.Proofs.Alike.Evaluation

/-!
# Built-in functions on what is alike

Most built-in functions compute on their arguments alone. Those that call a function for each item
give what is alike when the calls do.

## Main results

* `alike_builtin`: a built-in function gives what is alike.
-/

namespace Stencil

variable {I : Invariant} {p q : Pairing}

/-! ## Arguments -/

namespace Alike

variable {arguments arguments' : Arguments}

theorem check (h : Alike p arguments arguments') (function : String) (least : Nat)
    (most : Option Nat) :
    Alike p (arguments.check function least most) (arguments'.check function least most) := by
  have hSame : arguments.check function least most = arguments'.check function least most :=
    h.same (f := fun x => x.check function least most)
      fun ρ x => Arguments.check_rename ρ x function least most
  rw [hSame]
  cases arguments'.check function least most <;> rfl

theorem argument (h : Alike p arguments arguments') (place : Nat) :
    Alike p (Stencil.argument arguments place) (Stencil.argument arguments' place) :=
  h.apply (f := fun x => Stencil.argument x place) fun ρ _ x => argument_rename ρ x place

theorem take (h : Alike p arguments arguments') (name : String) :
    Alike p (arguments.take name) (arguments'.take name) :=
  h.apply (f := fun x => x.take name) fun ρ _ x => Arguments.take_rename ρ x name

theorem positional (h : Alike p arguments arguments') :
    Alike p arguments.positional arguments'.positional := congrArg Arguments.positional h

theorem reverse {α : Type} [Renamable α] {xs ys : List α} (h : Alike p xs ys) :
    Alike p xs.reverse ys.reverse :=
  h.apply (f := List.reverse) fun _ _ _ => List.map_reverse.symm

theorem keyOf {key key' : Option Value} (h : Alike p key key') :
    Alike p (Builtin.keyOf key) (Builtin.keyOf key') := by
  refine h.apply (f := Builtin.keyOf) fun ρ _ key => ?_
  cases key with
  | none => rfl
  | some value =>
      have hNone := Value.isNone_rename ρ value
      show Option.filter _ (Option.some (value.rename ρ)) = Option.map _ (Option.filter _ _)
      simp only [Option.filter, hNone]
      split <;> rfl

end Alike

instance : Renamable Ranked where
  rename ρ := Ranked.rename ρ
  of_agree h a b hab := by
    have hRank := Renamable.of_agree h a.rank b.rank (congrArg Ranked.rank hab)
    have hItem := Renamable.of_agree h a.item b.item (congrArg Ranked.item hab)
    exact ⟨congrArg₂ Ranked.mk hRank.1 hItem.1, congrArg₂ Ranked.mk hRank.2 hItem.2⟩

/-! ## Functions that call functions -/

section Builtins

variable {callback : Value → Value → Run Value}

/-- A callback that gives what is alike for what is alike. -/
def CallbackAlike (I : Invariant) (p : Pairing) (callback : Value → Value → Run Value) : Prop :=
  ∀ q, p ≤ q → ∀ a b x y : Value, Alike q a b → Alike q x y →
    Run.Alike I q (callback a x) (callback b y)

theorem CallbackAlike.mono (h : CallbackAlike I p callback) (hLe : p ≤ q) :
    CallbackAlike I q callback :=
  fun r hr => h r (hLe.trans hr)

theorem alike_keepItems {p : Pairing} (h : CallbackAlike I p callback) {function function' : Value}
    (hFunction : Alike p function function') {kept kept' : List Value} (hKept : Alike p kept kept')
    {items items' : List Value} (hItems : Alike p items items') :
    Run.Alike I p (Builtin.keepItems callback function kept items)
      (Builtin.keepItems callback function' kept' items') := by
  have hKeep {q : Pairing} {item item' : Value} {kept kept' : List Value} (keep : Bool)
      (hItem : Alike q item item') (hKept : Alike q kept kept') :
      Alike q (if keep then item :: kept else kept) (if keep then item' :: kept' else kept') := by
    cases keep
    · exact hKept
    · exact hItem.cons hKept
  induction items generalizing p items' kept kept' with
  | nil =>
      cases items' with
      | nil => exact .pure hKept.reverse
      | cons item' rest' => cases hItems
  | cons item rest ih =>
      cases items' with
      | nil => cases hItems
      | cons item' rest' =>
          obtain ⟨hItem, hRest⟩ := List.cons.inj hItems
          have hItem : Alike p item item' := hItem
          have hRest : Alike p rest rest' := hRest
          rw [Builtin.keepItems, Builtin.keepItems, hItem.truthy]
          refine .ite (by rw [hFunction.isNone]) ?_ ?_
          · exact ih h hFunction (hKeep _ hItem hKept) hRest
          · refine (h p le_rfl _ _ _ _ hFunction hItem).bind fun q hq answer answer' hAnswer => ?_
            rw [hAnswer.truthy]
            exact ih (h.mono hq) (hFunction.mono hq) (hKeep _ (hItem.mono hq) (hKept.mono hq))
              (hRest.mono hq)

theorem alike_rankOf (h : CallbackAlike I p callback) {key key' : Option Value}
    (hKey : Alike p key key') {item item' : Value} (hItem : Alike p item item') :
    Run.Alike I p (Builtin.rankOf callback key item) (Builtin.rankOf callback key' item') := by
  cases key with
  | none =>
      cases key' with
      | none => exact .pure hItem
      | some function' => cases hKey
  | some function =>
      cases key' with
      | none => cases hKey
      | some function' => exact h p le_rfl _ _ _ _ (Option.some.inj hKey) hItem

theorem alike_rankItems {p : Pairing} (h : CallbackAlike I p callback) {key key' : Option Value}
    (hKey : Alike p key key') {done done' : List Ranked} (hDone : Alike p done done')
    {items items' : List Value} (hItems : Alike p items items') :
    Run.Alike I p (Builtin.rankItems callback key done items)
      (Builtin.rankItems callback key' done' items') := by
  induction items generalizing p items' done done' with
  | nil =>
      cases items' with
      | nil => exact .pure hDone.reverse
      | cons item' rest' => cases hItems
  | cons item rest ih =>
      cases items' with
      | nil => cases hItems
      | cons item' rest' =>
          obtain ⟨hItem, hRest⟩ := List.cons.inj hItems
          have hItem : Alike p item item' := hItem
          have hRest : Alike p rest rest' := hRest
          refine (alike_rankOf h hKey hItem).bind fun q hq rank rank' hRank => ?_
          have hRanked : Alike q (⟨rank, item⟩ : Ranked) ⟨rank', item'⟩ :=
            congrArg₂ Ranked.mk hRank (hItem.mono hq)
          exact ih (h.mono hq) (hKey.mono hq) (hRanked.cons (hDone.mono hq)) (hRest.mono hq)

theorem alike_bestItem {p : Pairing} (h : CallbackAlike I p callback) (symbol : String)
    (wanted : Ordering) {key key' : Option Value} (hKey : Alike p key key')
    {best best' : Option Ranked} (hBest : Alike p best best') {items items' : List Value}
    (hItems : Alike p items items') :
    Run.Alike I p (Builtin.bestItem callback symbol wanted key best items)
      (Builtin.bestItem callback symbol wanted key' best' items') := by
  induction items generalizing p items' best best' with
  | nil =>
      cases items' with
      | nil => exact .pure hBest
      | cons item' rest' => cases hItems
  | cons item rest ih =>
      cases items' with
      | nil => cases hItems
      | cons item' rest' =>
          obtain ⟨hItem, hRest⟩ := List.cons.inj hItems
          have hItem : Alike p item item' := hItem
          have hRest : Alike p rest rest' := hRest
          refine (alike_rankOf h hKey hItem).bind fun q hq rank rank' hRank => ?_
          have hRanked : Alike q (⟨rank, item⟩ : Ranked) ⟨rank', item'⟩ :=
            congrArg₂ Ranked.mk hRank (hItem.mono hq)
          cases best with
          | none =>
              cases best' with
              | some best' => cases hBest
              | none => exact ih (h.mono hq) (hKey.mono hq) hRanked.some (hRest.mono hq)
          | some best =>
              cases best' with
              | none => cases hBest
              | some best' =>
                  have hBest : Alike q best best' := Alike.mono (Option.some.inj hBest) hq
                  have hBestRank : Alike q best.rank best'.rank := congrArg Ranked.rank hBest
                  have hOrder : rank.orderFor symbol best.rank =
                      rank'.orderFor symbol best'.rank :=
                    (hRank.pair hBestRank).same (f := fun x => x.1.orderFor symbol x.2)
                      fun ρ x => Value.orderFor_rename x.1 symbol x.2
                  simp only [hOrder]
                  have hFound : Alike q (rank'.orderFor symbol best'.rank)
                      (rank'.orderFor symbol best'.rank) := by
                    cases rank'.orderFor symbol best'.rank <;> rfl
                  refine (Run.Alike.liftFault hFound).bind fun r hr order order' hSame => ?_
                  obtain rfl : order = order' := hSame
                  have hqr := hq.trans hr
                  have hNext : Alike r
                      (some (if order == wanted then (⟨rank, item⟩ : Ranked) else best))
                      (some (if order == wanted then ⟨rank', item'⟩ else best')) := by
                    split
                    · exact (hRanked.mono hr).some
                    · exact (hBest.mono hr).some
                  exact ih (h.mono hqr) (hKey.mono hqr) hNext (hRest.mono hqr)

theorem alike_sorted {p : Pairing} (h : CallbackAlike I p callback)
    {arguments arguments' : Arguments} (hArguments : Alike p arguments arguments') :
    Run.Alike I p (Builtin.sorted callback arguments) (Builtin.sorted callback arguments') := by
  have hTake := hArguments.take "key"
  have hReverse := hTake.snd.take "reverse"
  have hLess : (((arguments.take "key").2.take "reverse").1.any Value.truthy) =
      (((arguments'.take "key").2.take "reverse").1.any Value.truthy) :=
    hReverse.fst.same (f := fun x => x.any Value.truthy) fun ρ x => by
      cases x with
      | none => rfl
      | some value => exact Value.truthy_rename ρ value
  unfold Builtin.sorted
  simp only [hLess]
  refine (Run.Alike.liftFault (hReverse.snd.check _ _ _)).bind fun q hq _ _ _ => ?_
  refine (Run.Alike.liftFault ((hReverse.snd.mono hq).argument 0).items).bind
    fun r hr items items' hItems => ?_
  have hqr := hq.trans hr
  refine (alike_rankItems (h.mono hqr) (hTake.fst.mono hqr).keyOf .nil hItems).bind
    fun u hu ranked ranked' hRanked => ?_
  have hSorted := hRanked.apply
    (f := Ranked.sort (((arguments'.take "key").2.take "reverse").1.any Value.truthy))
    fun ρ _ => Ranked.sort_rename ρ _
  refine (Run.Alike.liftFault hSorted).bind fun v hv sorted sorted' hSorted => .pure ?_
  have hItems : Alike v (sorted.map Ranked.item) (sorted'.map Ranked.item) :=
    hSorted.apply (f := List.map Ranked.item) fun ρ _ xs => by
      show List.map _ (List.map _ xs) = List.map _ (List.map _ xs)
      rw [List.map_map, List.map_map]
      rfl
  exact hItems.ofList

theorem alike_extreme {p : Pairing} (h : CallbackAlike I p callback) (name symbol : String)
    (wanted : Ordering) {arguments arguments' : Arguments}
    (hArguments : Alike p arguments arguments') :
    Run.Alike I p (Builtin.extreme callback name symbol wanted arguments)
      (Builtin.extreme callback name symbol wanted arguments') := by
  have hTake := hArguments.take "key"
  have hDefault := hTake.snd.take "default"
  have hItems : Alike p
      (Builtin.itemsToCompare ((arguments.take "key").2.take "default").2.positional)
      (Builtin.itemsToCompare ((arguments'.take "key").2.take "default").2.positional) := by
    refine hDefault.snd.positional.apply (f := Builtin.itemsToCompare) fun ρ _ values => ?_
    match values with
    | [] => rfl
    | [value] => exact Value.items_rename ρ value
    | _ :: _ :: _ => rfl
  unfold Builtin.extreme
  simp only
  refine (Run.Alike.liftFault (hDefault.snd.check _ _ _)).bind fun q hq _ _ _ => ?_
  refine (Run.Alike.liftFault (hItems.mono hq)).bind fun r hr items items' hItems => ?_
  have hqr := hq.trans hr
  refine (alike_bestItem (h.mono hqr) symbol wanted (hTake.fst.mono hqr).keyOf .none hItems).bind
    fun u hu best best' hBest => ?_
  have hResult : Alike u (Builtin.resultOf name
        ((best.map Ranked.item).or ((arguments.take "key").2.take "default").1))
      (Builtin.resultOf name
        ((best'.map Ranked.item).or ((arguments'.take "key").2.take "default").1)) := by
    refine (hBest.pair (hDefault.fst.mono (hqr.trans hu))).apply
      (f := fun x => Builtin.resultOf name ((x.1.map Ranked.item).or x.2)) fun ρ _ x => ?_
    obtain ⟨best, default⟩ := x
    cases best <;> cases default <;> rfl
  exact .liftFault hResult

theorem alike_builtin {p : Pairing} (h : CallbackAlike I p callback) (name : String)
    {arguments arguments' : Arguments} (hArguments : Alike p arguments arguments') :
    Run.Alike I p (Builtin.apply callback name arguments)
      (Builtin.apply callback name arguments') := by
  unfold Builtin.apply
  split
  · refine (Run.Alike.liftFault (hArguments.check _ _ _)).bind fun q hq _ _ _ => ?_
    refine (Run.Alike.liftFault ((hArguments.mono hq).argument 1).items).bind
      fun r hr items items' hItems => ?_
    have hqr := hq.trans hr
    exact (alike_keepItems (h.mono hqr) ((hArguments.mono hqr).argument 0) .nil hItems).bind
      fun _ _ _ _ hKept => .pure hKept.ofList
  · exact alike_sorted h hArguments
  · exact alike_extreme h _ _ _ hArguments
  · exact alike_extreme h _ _ _ hArguments
  · exact .liftFault (hArguments.apply (f := Builtin.compute _)
      fun ρ _ x => Builtin.compute_rename ρ _ x)

end Builtins

end Stencil
