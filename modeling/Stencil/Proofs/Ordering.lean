import Stencil.Proofs.Equality

/-!
# Order

Numbers are ordered by size, texts letter by letter, and lists as their first items that differ, or
by their lengths when there are none. Nothing else has an order, and a list has none with another
when the items that decide have none. `Content.Orders` says this as a relation on contents, so the
order of two regular values never depends on more than their contents, which is what equality looks
at. The order and equality then agree at every depth. The order alone needs less than regular
values: there need only be no floats in what it looks at.

## Main results

* `Content.Orders.swap`, `Content.Orders.eq_iff`, `Content.Orders.trans`: the laws of the order.
* `Value.IsFloatFree.order?_iff`: the order of values without floats is that of their contents.
* `equality_and_order_are_coherent`: equality is an equivalence, and the order is a partial order
  with it, told by all the operators.
-/

namespace Stencil

namespace Content

mutual

/-- The contents have this order. -/
inductive Orders : Content → Content → Ordering → Prop
  | numbers (m n : Int) : Orders (.number m) (.number n) (compare m n)
  | texts (s t : String) : Orders (.text s) (.text t) (compare s t)
  | lists {left right : List Content} {order : Ordering} (h : OrdersItems left right order) :
      Orders (.list left) (.list right) order

/-- The items have this order. -/
inductive OrdersItems : List Content → List Content → Ordering → Prop
  | same : OrdersItems [] [] .eq
  | shorter (item : Content) (rest : List Content) : OrdersItems [] (item :: rest) .lt
  | longer (item : Content) (rest : List Content) : OrdersItems (item :: rest) [] .gt
  | first {a b : Content} {order : Ordering} (h : Orders a b order) (hDiffer : order ≠ .eq)
      (left right : List Content) : OrdersItems (a :: left) (b :: right) order
  | later {a b : Content} {order : Ordering} {left right : List Content} (h : Orders a b .eq)
      (hRest : OrdersItems left right order) : OrdersItems (a :: left) (b :: right) order

end

/-! ## Laws of the order -/

mutual

/-- Contents are equal in order when they are the same. -/
theorem Orders.eq_iff {a b : Content} {order : Ordering} : Orders a b order → (order = .eq ↔ a = b)
  | .numbers m n => by simp
  | .texts s t => by simp
  | .lists h => by rw [OrdersItems.eq_iff h, list.injEq]

theorem OrdersItems.eq_iff {left right : List Content} {order : Ordering} :
    OrdersItems left right order → (order = .eq ↔ left = right)
  | .same => by simp
  | .shorter item rest => by simp
  | .longer item rest => by simp
  | .first h hDiffer left right => by
      rw [List.cons.injEq, ← Orders.eq_iff h]
      simp [hDiffer]
  | .later h hRest => by
      rw [List.cons.injEq, ← Orders.eq_iff h, OrdersItems.eq_iff hRest]
      simp

end

mutual

/-- The order the other way round. -/
theorem Orders.swap {a b : Content} {order : Ordering} : Orders a b order → Orders b a order.swap
  | .numbers m n => by
      rw [← Std.OrientedOrd.eq_swap]
      exact .numbers n m
  | .texts s t => by
      rw [← Std.OrientedOrd.eq_swap]
      exact .texts t s
  | .lists h => .lists h.swap

theorem OrdersItems.swap {left right : List Content} {order : Ordering} :
    OrdersItems left right order → OrdersItems right left order.swap
  | .same => .same
  | .shorter item rest => .longer item rest
  | .longer item rest => .shorter item rest
  | .first h hDiffer left right => .first h.swap (by simpa using hDiffer) right left
  | .later h hRest => .later h.swap hRest.swap

end

mutual

/-- What is before something is before all that comes after it. -/
theorem Orders.trans {a b c : Content} {before after : Ordering} :
    Orders a b before → Orders b c after → before = .lt → after = .lt → Orders a c .lt
  | .numbers m n, .numbers _ k, hBefore, hAfter => by
      rw [← Std.TransCmp.lt_trans hBefore hAfter]
      exact .numbers m k
  | .texts s t, .texts _ u, hBefore, hAfter => by
      rw [← Std.TransCmp.lt_trans hBefore hAfter]
      exact .texts s u
  | .lists h, .lists h', hBefore, hAfter => .lists (h.trans h' hBefore hAfter)

theorem OrdersItems.trans {left middle right : List Content} {before after : Ordering} :
    OrdersItems left middle before → OrdersItems middle right after → before = .lt → after = .lt →
      OrdersItems left right .lt
  | .shorter item rest, h', _, hAfter => by
      cases h' with
      | longer => cases hAfter
      | first => exact .shorter ..
      | later => exact .shorter ..
  | .first h _ left _, .first h' _ _ right, hBefore, hAfter =>
      .first (h.trans h' hBefore hAfter) (by decide) left right
  -- where one of the two lists agrees with the middle one, the other decides
  | .first h hDiffer left _, .later h' _, hBefore, _ => by
      rw [← h'.eq_iff.1 rfl, ← hBefore]
      exact .first h hDiffer left _
  | .later h _, .first h' hDiffer _ right, _, hAfter => by
      rw [h.eq_iff.1 rfl, ← hAfter]
      exact .first h' hDiffer _ right
  | .later h hRest, .later h' hRest', hBefore, hAfter => by
      have hFirst := h'.eq_iff.1 rfl
      exact .later (hFirst ▸ h) (hRest.trans hRest' hBefore hAfter)

end

section Inversion

variable {content : Content} {order : Ordering}

theorem orders_number_iff {m : Int} :
    Orders (.number m) content order ↔ ∃ n, content = .number n ∧ compare m n = order := by
  constructor
  · rintro ⟨⟩
    exact ⟨_, rfl, rfl⟩
  · rintro ⟨n, rfl, rfl⟩
    exact .numbers m n

theorem orders_text_iff {s : String} :
    Orders (.text s) content order ↔ ∃ t, content = .text t ∧ compare s t = order := by
  constructor
  · rintro ⟨⟩
    exact ⟨_, rfl, rfl⟩
  · rintro ⟨t, rfl, rfl⟩
    exact .texts s t

theorem orders_list_iff {left : List Content} :
    Orders (.list left) content order ↔
      ∃ right, content = .list right ∧ OrdersItems left right order := by
  constructor
  · rintro ⟨⟩
    exact ⟨_, rfl, by assumption⟩
  · rintro ⟨right, rfl, h⟩
    exact .lists h

theorem ordersItems_cons_iff {a b : Content} {left right : List Content} :
    OrdersItems (a :: left) (b :: right) order ↔
      (Orders a b order ∧ order ≠ .eq) ∨ (Orders a b .eq ∧ OrdersItems left right order) := by
  constructor
  · rintro (_ | _ | _ | ⟨h, hDiffer⟩ | ⟨h, hRest⟩)
    · exact .inl ⟨h, hDiffer⟩
    · exact .inr ⟨h, hRest⟩
  · rintro (⟨h, hDiffer⟩ | ⟨h, hRest⟩)
    · exact .first h hDiffer left right
    · exact .later h hRest

end Inversion

end Content

/-! ## The order of values -/

namespace Value

/-- There are no floats in the value and none in its items. The order does not look into values
under names. -/
inductive IsFloatFree : Value → Prop
  | none : IsFloatFree .none
  | bool (b : Bool) : IsFloatFree (.bool b)
  | int (i : Int64) : IsFloatFree (.int i)
  | string (text : String) (mark : Mark) : IsFloatFree (.string text mark)
  | list {items : List Value} (mark : Mark) (floatFree : ∀ item ∈ items, IsFloatFree item) :
      IsFloatFree (.list ⟨items⟩ mark)
  | dict (entries : List (String × Value)) (mark : Mark) : IsFloatFree (.dict entries mark)
  | rendering (content : Rendering Value) (mark : Mark) : IsFloatFree (.rendering content mark)
  | object {value : Value} (isObject : value.isObject = true) : IsFloatFree value

theorem IsRegular.isFloatFree {value : Value} (h : value.IsRegular) : value.IsFloatFree := by
  induction h with
  | none => exact .none
  | bool b => exact .bool b
  | int i => exact .int i
  | string text mark => exact .string text mark
  | list mark _ ih => exact .list mark ih
  | dict mark => exact .dict _ mark
  | rendering mark => exact .rendering _ mark
  | object isObject => exact .object isObject

namespace IsFloatFree

variable {value : Value}

theorem numeric? (h : value.IsFloatFree) : value.numeric? = value.asInt?.map .int := by
  cases h with
  | object isObject => cases value <;> first | rfl | cases isObject
  | _ => rfl

theorem of_list? (h : value.IsFloatFree) {items : List Value} (hItems : value.list? = some items) :
    ∀ item ∈ items, item.IsFloatFree := by
  cases h with
  | list mark floatFree => exact Option.some.inj hItems ▸ floatFree
  | object isObject => rw [list?_of_isObject isObject] at hItems; cases hItems
  | _ => cases hItems

end IsFloatFree

theorem orderItems?_cons_iff {a b : Value} {left right : List Value} {order : Ordering} :
    orderItems? (a :: left) (b :: right) = some order ↔
      (a.order? b = some order ∧ order ≠ .eq) ∨
        (a.order? b = some .eq ∧ orderItems? left right = some order) := by
  rw [orderItems?]
  cases a.order? b with
  | none => simp
  | some found => cases found <;> cases order <;> simp

/-- The items have the order of their contents when each of them has. -/
theorem orderItems?_iff {items : List Value}
    (hItems : ∀ item ∈ items, ∀ other : Value, other.IsFloatFree → ∀ order,
      (item.order? other = some order ↔ item.content.Orders other.content order))
    {others : List Value} (hOthers : ∀ other ∈ others, other.IsFloatFree) {order : Ordering} :
    orderItems? items others = some order ↔
      Content.OrdersItems (contents items) (contents others) order := by
  induction items generalizing others with
  | nil =>
      cases others with
      | nil =>
          simp only [orderItems?, contents, List.isEmpty_nil, if_true, Option.some_inj]
          constructor
          · rintro rfl
            exact .same
          · rintro ⟨⟩
            rfl
      | cons other others =>
          simp only [orderItems?, contents, List.isEmpty_cons, Option.some_inj]
          constructor
          · rintro rfl
            exact .shorter ..
          · rintro ⟨⟩
            rfl
  | cons item rest ih =>
      cases others with
      | nil =>
          simp only [orderItems?, contents, Option.some_inj]
          constructor
          · rintro rfl
            exact .longer ..
          · rintro ⟨⟩
            rfl
      | cons other others =>
          have hOther := hOthers other (List.mem_cons_self ..)
          have hFirst := hItems item (List.mem_cons_self ..) other hOther
          have hRest := ih (fun i hi => hItems i (List.mem_cons_of_mem _ hi))
            fun o ho => hOthers o (List.mem_cons_of_mem _ ho)
          rw [orderItems?_cons_iff, contents, contents, Content.ordersItems_cons_iff, hFirst,
            hFirst, hRest]

section Kinds

variable {left right : Value} {order : Ordering}

theorem order?_number_iff {i : Int64} (hLeft : left.asInt? = some i)
    (hRight : right.IsFloatFree) :
    left.order? right = some order ↔ left.content.Orders right.content order := by
  have hText : left.text? = Option.none := by cases left <;> first | rfl | cases hLeft
  have hList : left.list? = Option.none := by cases left <;> first | rfl | cases hLeft
  have hNumeric : left.numeric? = some (.int i) := by
    cases left <;> first | (cases hLeft; rfl) | cases hLeft
  have hContent : left.content = .number i.toInt := content_eq_number_iff.2 ⟨i, hLeft, rfl⟩
  rw [order?_of_numeric hText hList, hNumeric, hRight.numeric?, hContent, Content.orders_number_iff]
  simp only [content_eq_number_iff]
  cases right.asInt? with
  | none => simp
  | some j => simp [Numeric.order]

/-- What is neither a text nor a list nor a number has no order. -/
theorem order?_eq_none (hText : left.text? = Option.none) (hList : left.list? = Option.none)
    (hNumeric : left.numeric? = Option.none) : left.order? right = Option.none := by
  rw [order?_of_numeric hText hList, hNumeric, Option.bind_none]

end Kinds

namespace IsFloatFree

/-- The order of values without floats is that of their contents. -/
theorem order?_iff {left right : Value} (hLeft : left.IsFloatFree) (hRight : right.IsFloatFree)
    (order : Ordering) :
    left.order? right = some order ↔ left.content.Orders right.content order := by
  induction left using dataInduction generalizing right order with
  | list items mark ih =>
      rw [order?_list, Option.bind_eq_some_iff, content, Content.orders_list_iff]
      simp only [content_eq_list_iff]
      have hOrder : ∀ others, right.list? = some others →
          (orderItems? items others = some order ↔
            Content.OrdersItems (contents items) (contents others) order) := fun others hOthers =>
        orderItems?_iff (fun item hItem other => ih item hItem (hLeft.of_list? rfl item hItem))
          (hRight.of_list? hOthers)
      constructor
      · rintro ⟨others, hOthers, h⟩
        exact ⟨_, ⟨others, hOthers, (contents_eq others).symm⟩, (hOrder others hOthers).1 h⟩
      · rintro ⟨_, ⟨others, hOthers, rfl⟩, h⟩
        exact ⟨others, hOthers, (hOrder others hOthers).2 (contents_eq others ▸ h)⟩
  | dict entries mark ih =>
      rw [order?_eq_none rfl rfl rfl]
      exact ⟨nofun, nofun⟩
  | rendering body pending attributes mark ih =>
      rw [order?_eq_none rfl rfl rfl]
      exact ⟨nofun, nofun⟩
  | leaf value hLeaf =>
      cases hLeft with
      | none =>
          rw [order?_eq_none rfl rfl rfl]
          exact ⟨nofun, nofun⟩
      | bool b => exact order?_number_iff rfl hRight
      | int i => exact order?_number_iff rfl hRight
      | string text mark =>
          rw [order?_string, Option.map_eq_some_iff, content, Content.orders_text_iff]
          simp only [content_eq_text_iff]
          rfl
      | object isObject =>
          have hNumeric : value.numeric? = Option.none := by
            rw [(IsFloatFree.object isObject).numeric?, asInt?_of_isObject isObject]
            rfl
          rw [order?_eq_none (text?_of_isObject isObject) (list?_of_isObject isObject) hNumeric,
            content_of_isObject isObject]
          exact ⟨nofun, nofun⟩
      | _ => cases hLeaf

section Laws

variable {a b c : Value} (ha : a.IsFloatFree) (hb : b.IsFloatFree) (hc : c.IsFloatFree)

include ha hb

/-- Two values have an order both ways round or neither way. -/
theorem order?_swap : b.order? a = (a.order? b).map Ordering.swap := by
  ext order
  rw [hb.order?_iff ha, Option.map_eq_some_iff]
  constructor
  · intro h
    exact ⟨order.swap, (ha.order?_iff hb _).2 h.swap, order.swap_swap⟩
  · rintro ⟨found, hFound, rfl⟩
    exact ((ha.order?_iff hb _).1 hFound).swap

include hc

theorem order?_trans (hLeft : a.order? b = some .lt) (hRight : b.order? c = some .lt) :
    a.order? c = some .lt := by
  rw [ha.order?_iff hb] at hLeft
  rw [hb.order?_iff hc] at hRight
  exact (ha.order?_iff hc _).2 (hLeft.trans hRight rfl rfl)

/-- Values with the same content have the same order with all others. -/
theorem order?_congr (hContent : a.content = b.content) :
    a.order? c = b.order? c ∧ c.order? a = c.order? b := by
  constructor
  · ext order
    rw [ha.order?_iff hc, hb.order?_iff hc, hContent]
  · ext order
    rw [hc.order?_iff ha, hc.order?_iff hb, hContent]

end Laws

end IsFloatFree

/-- Regular values that have an order are equal in it when they are equal. -/
theorem IsRegular.eq_iff_equals {a b : Value} (ha : a.IsRegular) (hb : b.IsRegular)
    {order : Ordering} (h : a.order? b = some order) : order = .eq ↔ a.equals b = true := by
  rw [ha.equals_iff hb]
  exact ((ha.isFloatFree.order?_iff hb.isFloatFree order).1 h).eq_iff

end Value

/-- Of two regular values that have an order, one is less, or they are equal, or it is greater, and
just one of these holds; the operators tell which. -/
theorem CompareOp.apply_of_order? {a b : Value} (ha : a.IsRegular) (hb : b.IsRegular)
    {order : Ordering} (h : a.order? b = some order) :
    ∃ less equal greater : Bool,
      less.toNat + equal.toNat + greater.toNat = 1 ∧
      CompareOp.less.apply a b = .ok less ∧
      CompareOp.equal.apply a b = .ok equal ∧
      CompareOp.greater.apply a b = .ok greater ∧
      CompareOp.lessEqual.apply a b = .ok (less || equal) ∧
      CompareOp.greaterEqual.apply a b = .ok (greater || equal) := by
  have hFound (symbol : String) : a.orderFor symbol b = .ok order := by rw [Value.orderFor, h]
  have hEqual := ha.eq_iff_equals hb h
  refine ⟨order == .lt, order == .eq, order == .gt, ?_⟩
  simp only [CompareOp.apply, hFound]
  cases order <;> simp at hEqual ⊢ <;> simp [hEqual]

/-- On regular values equality is an equivalence, and the order is a partial order whose equality
is this one: it is defined both ways round or neither way, it is transitive, and it does not tell
equal values apart. The operators agree with it. -/
theorem equality_and_order_are_coherent {a b c : Value} (ha : a.IsRegular) (hb : b.IsRegular)
    (hc : c.IsRegular) :
    a.equals a = true ∧
    a.equals b = b.equals a ∧
    (a.equals b = true → b.equals c = true → a.equals c = true) ∧
    b.order? a = (a.order? b).map Ordering.swap ∧
    (∀ order, a.order? b = some order → (order = .eq ↔ a.equals b = true)) ∧
    (a.order? b = some .lt → b.order? c = some .lt → a.order? c = some .lt) ∧
    (a.equals b = true → a.order? c = b.order? c ∧ c.order? a = c.order? b) ∧
    ((a.order? b).isSome = true → ∃ less equal greater : Bool,
      less.toNat + equal.toNat + greater.toNat = 1 ∧
      CompareOp.less.apply a b = .ok less ∧
      CompareOp.equal.apply a b = .ok equal ∧
      CompareOp.greater.apply a b = .ok greater ∧
      CompareOp.lessEqual.apply a b = .ok (less || equal) ∧
      CompareOp.greaterEqual.apply a b = .ok (greater || equal)) := by
  have hFreeA := ha.isFloatFree
  have hFreeB := hb.isFloatFree
  have hFreeC := hc.isFloatFree
  refine ⟨ha.equals_self, ha.equals_comm hb, ha.equals_trans hb hc, hFreeA.order?_swap hFreeB,
    fun order => ha.eq_iff_equals hb, hFreeA.order?_trans hFreeB hFreeC,
    fun h => hFreeA.order?_congr hFreeB hFreeC ((ha.equals_iff hb).1 h), fun h => ?_⟩
  obtain ⟨order, hOrder⟩ := Option.isSome_iff_exists.1 h
  exact CompareOp.apply_of_order? ha hb hOrder

/-- `[True, "b"]` is before `[1, "c"]`, which is before `[1, "c", {"k": None}]`. -/
theorem shorter_list_before_longer :
    (Value.ofList [.bool true, .ofString "b"]).order?
      (.ofList [.int 1, .ofString "c", .ofEntries [("k", .none)]]) = some .lt := by
  have hFirst : (Value.ofList [.bool true, .ofString "b"]).IsRegular :=
    .list .none (by simpa using ⟨.bool true, .string "b" .none⟩)
  have hSecond : (Value.ofList [.int 1, .ofString "c"]).IsRegular :=
    .list .none (by simpa using ⟨.int 1, .string "c" .none⟩)
  have hEntries : (Value.ofEntries [("k", .none)]).IsRegular :=
    .dict .none (by simpa using Value.IsRegular.none) (by decide)
  have hThird : (Value.ofList [.int 1, .ofString "c", .ofEntries [("k", .none)]]).IsRegular :=
    .list .none (by simpa using ⟨.int 1, .string "c" .none, hEntries⟩)
  obtain ⟨-, -, -, -, -, hTrans, -⟩ := equality_and_order_are_coherent hFirst hSecond hThird
  exact hTrans (by decide) (by decide)

end Stencil
