import OrderBook.CrossedOrder

/-!
# Price-time priority

`processCrossedOrder` matches the aggressor with the resting orders that its limit
crosses, best price first and in the order of arrival at each price.  What it takes
is a greedy allocation along that single queue, and the side is the old one with the
allocation subtracted.
-/

namespace OrderBook

open FueledLoop

variable {P : Type} [LinearOrder P] {isSell : Bool} {slack : Set ℤ}

/-- What an allocation takes at a price. -/
abbrev takenAt (taken : List (Order P × ℤ)) (price : P) : ℤ :=
  QueueFill.takenFrom Order.price taken price

/-- Orders after an allocation: filled by their pieces, without those that are used up. -/
abbrev withoutTaken (taken : List (Order P × ℤ)) (orders : List (Order P)) : List (Order P) :=
  QueueFill.subtract Order.getRemainingQuantity Order.fill Order.odid taken orders

theorem execQtyAt_execEvents (taken : List (Order P × ℤ)) (price : P) :
    execQtyAt (execEvents isSell taken) price = takenAt taken price := by
  simp [execQtyAt, execEvents, takenAt, QueueFill.takenFrom, Function.comp_def]

namespace BookSide

variable {side final : BookSide P isSell} {price : P} {qty : ℤ} {events : OrderInfoVec P}

/-- The orders of a level are the resting orders of its price, in the same order. -/
theorem Linked.ordersAt_eq_filter (linked : side.Linked) (key : P) :
    side.ordersAt key = side.restingOrders.filter fun order => order.price = key := by
  have perLevel : ∀ entry ∈ side.levels.entries,
      (entry.2.orders.filter fun order => order.price = key) =
        if entry.1 = key then entry.2.orders else [] := by
    intro entry mem
    have level := linked.level (SortedMap.find?_eq_some_iff.mpr mem)
    split
    · next same =>
        exact List.filter_eq_self.mpr fun order orderMem =>
          decide_eq_true ((level.order_price order orderMem).trans same)
    · next different =>
        refine List.filter_eq_nil_iff.mpr fun order orderMem atKey => different ?_
        rw [← level.order_price order orderMem]
        exact of_decide_eq_true atKey
  have keysNe := SortedMap.keys_ne side.levels
  rw [restingOrders, List.filter_flatMap, List.flatMap_congr perLevel, ordersAt, SortedMap.find?]
  generalize side.levels.entries = entries at keysNe
  clear perLevel
  induction entries with
  | nil => rfl
  | cons entry entries ih =>
      rw [List.pairwise_cons] at keysNe
      rw [List.flatMap_cons]
      by_cases same : entry.1 = key
      · have others : (entries.flatMap fun other =>
            if other.1 = key then other.2.orders else []) = [] := by
          apply List.flatMap_eq_nil_iff.mpr
          intro other mem
          rw [if_neg fun also => keysNe.1 other mem (same.trans also.symm)]
        rw [if_pos same, others, List.append_nil, List.find?_cons_of_pos (by simpa using same)]
        rfl
      · rw [if_neg same, List.nil_append, List.find?_cons_of_neg (by simpa using same)]
        exact ih keysNe.2

/-- The side after crossing, order by order. -/
theorem CrossOutcome.subtracted (valid : side.Valid slack) (nonneg : 0 ≤ qty)
    (outcome : CrossOutcome slack side price qty final events) :
    final.restingOrders =
        withoutTaken (fills qty (side.crossingOrders price)) side.restingOrders ∧
      ∀ key, final.ordersAt key =
        withoutTaken (fills qty (side.crossingOrders price)) (side.ordersAt key) := by
  have nodup := valid.linked.restingIds_nodup
  have remain := valid.resting_remain
  have splitEq := restingOrders_eq side price
  rw [splitEq, ids, List.map_append, List.nodup_append] at nodup
  have beyondRemain : AllRemain (side.ordersBeyond price) := fun order mem =>
    remain order (splitEq ▸ List.mem_append_right _ mem)
  have beyondKept : withoutTaken (fills qty (side.crossingOrders price))
      (side.ordersBeyond price) = side.ordersBeyond price := by
    apply QueueFill.subtract_untouched Order.lawful beyondRemain
    intro order mem
    apply QueueFill.takenFrom_eq_zero
    intro piece pieceMem sameId
    have crossing : piece.1 ∈ side.crossingOrders price :=
      (QueueFill.mem_pieces (valid.crossing_remain price) nonneg pieceMem).1
    exact nodup.2.2 _ (List.mem_map_of_mem crossing) _ (List.mem_map_of_mem mem) sameId
  have resting : final.restingOrders =
      withoutTaken (fills qty (side.crossingOrders price)) side.restingOrders := by
    rw [outcome.resting_eq, splitEq, withoutTaken, QueueFill.subtract_append,
      QueueFill.subtract_pieces Order.lawful nodup.1 (valid.crossing_remain price) nonneg]
    exact congrArg (_ ++ ·) beyondKept.symm
  refine ⟨resting, fun key => ?_⟩
  rw [outcome.valid.linked.ordersAt_eq_filter, resting, valid.linked.ordersAt_eq_filter]
  have stable : ∀ (order : Order P) (amount : ℤ),
      (order.fill amount).price = key ↔ order.price = key := fun _ _ => Iff.rfl
  exact QueueFill.filter_subtract Order.odid (fun order : Order P => order.price = key) stable _ _

/-- Levels at whose price nothing is taken stay as they are. -/
theorem CrossOutcome.find?_untouched (valid : side.Valid slack) (nonneg : 0 ≤ qty)
    (outcome : CrossOutcome slack side price qty final events) {key : P}
    (untouched : ∀ piece ∈ fills qty (side.crossingOrders price), piece.1.price ≠ key) :
    final.levels.find? key = side.levels.find? key := by
  have ordersEq : final.ordersAt key = side.ordersAt key := by
    rw [(outcome.subtracted valid nonneg).2]
    apply QueueFill.subtract_untouched Order.lawful (valid.allRemain key)
    intro order mem
    refine QueueFill.takenFrom_eq_zero fun piece pieceMem sameId => untouched piece pieceMem ?_
    have crossing : piece.1 ∈ side.crossingOrders price :=
      (QueueFill.mem_pieces (valid.crossing_remain price) nonneg pieceMem).1
    obtain ⟨other, atOther⟩ := mem_restingOrders.mp
      (restingOrders_eq side price ▸ List.mem_append_left _ crossing)
    rw [valid.linked.order_eq atOther mem sameId]
    exact valid.linked.order_price mem
  cases found : final.levels.find? key with
  | none =>
      rw [outcome.valid.linked.ordersAt_eq_nil_iff.mpr found] at ordersEq
      exact (valid.linked.ordersAt_eq_nil_iff.mp ordersEq.symm).symm
  | some level =>
      obtain ⟨old, oldFound⟩ := outcome.level_kept found
      have quantityEq := outcome.quantity_eq found
      rw [outcome.events_eq, execQtyAt_execEvents, takenAt,
        QueueFill.takenFrom_eq_zero untouched, sub_zero, quantityAt_of_find? oldFound] at quantityEq
      rw [← found, outcome.valid.linked.find?_eq found, valid.linked.find?_eq oldFound, ordersEq,
        quantityEq]

end BookSide

/-- A crossing order is matched by price-time priority: the events are those of the greedy
allocation along the crossing orders, the side is the old one with the allocation
subtracted, the expected removals grow by what is executed at each price, and if the
aggressor is not used up then nothing crosses its limit any more. -/
theorem processCrossedOrder_priceTime [Zero P] {side : BookSide P isSell}
    (rep : side.RepInvariant) {order : Order P} (opposite : order.isSell ≠ isSell)
    (pos : 0 < order.getRemainingQuantity) :
    ∃ (final : BookSide P isSell) (filled : Order P) (taken : List (Order P × ℤ)),
      Returns (fun fuel => side.processCrossedOrder fuel order)
        (final, filled, execEvents isSell taken) ∧
      QueueFill.Greedy Order.getRemainingQuantity order.getRemainingQuantity
        (side.crossingOrders order.price) taken ∧
      filled = order.fill (min order.getRemainingQuantity
        (totalRemaining (side.crossingOrders order.price))) ∧
      final.RepInvariant ∧
      final.restingOrders = withoutTaken taken side.restingOrders ∧
      (∀ key, final.ordersAt key = withoutTaken taken (side.ordersAt key)) ∧
      (∀ key, (∀ piece ∈ taken, piece.1.price ≠ key) →
        final.levels.find? key = side.levels.find? key) ∧
      (∀ price, qtyAt final.pendingLiqRemoveQty price =
        qtyAt side.pendingLiqRemoveQty price + takenAt taken price) ∧
      final.pendingLiqAddQty = side.pendingLiqAddQty ∧
      (0 < filled.getRemainingQuantity → ∀ key level,
        final.levels.find? key = some level → ¬ BookSide.Crosses isSell order.price key) := by
  have valid := BookSide.repInvariant_iff_valid.mp rep
  have remain := valid.crossing_remain order.price
  obtain ⟨final, events, returns, outcome⟩ :=
    valid.processCrossedOrder_returns opposite pos.le
  obtain ⟨resting, perLevel⟩ := outcome.subtracted valid pos.le
  refine ⟨final, _, fills order.getRemainingQuantity (side.crossingOrders order.price), ?_,
    remain.greedy_pieces pos.le, rfl, BookSide.repInvariant_iff_valid.mpr outcome.valid, resting,
    perLevel, fun key => outcome.find?_untouched valid pos.le, ?_, outcome.add_eq, ?_⟩
  · rw [← outcome.events_eq]
    exact returns
  · intro price
    rw [outcome.remove_eq, qtyAt_creditEvents, outcome.events_eq, execQtyAt_execEvents]
  · intro left key level found
    rw [Order.remaining_fill] at left
    exact outcome.uncrossed (by omega) found

/-- A side with asks at two prices. -/
def twoPriceSide : BookSide ℤ true :=
  ((do
    let first ← BookSide.empty.addOrder ⟨1, true, 10, 100, 0⟩
    first.addOrder ⟨2, true, 5, 101, 0⟩ : Except Halt (BookSide ℤ true)).toOption).getD .empty

theorem twoPriceSide_valid : twoPriceSide.Valid {0} := by
  obtain ⟨first, added⟩ : ∃ first : BookSide ℤ true,
      BookSide.empty.addOrder ⟨1, true, 10, 100, 0⟩ = .ok first := ⟨_, rfl⟩
  have firstValid := BookSide.valid_empty.addOrder (Set.mem_singleton 0)
    (show Order.IsOpen (⟨1, true, 10, 100, 0⟩ : Order ℤ) from ⟨by decide, by decide⟩) added
  refine firstValid.addOrder (Set.mem_singleton 0)
    (show Order.IsOpen (⟨2, true, 5, 101, 0⟩ : Order ℤ) from ⟨by decide, by decide⟩) ?_
  cases added
  rfl

/-- A buy order that takes the better price and a part of the other one. -/
theorem twoPrice_priceTime :
    ∃ (final : BookSide ℤ true) (filled : Order ℤ) (taken : List (Order ℤ × ℤ)),
      Returns (fun fuel => twoPriceSide.processCrossedOrder fuel ⟨3, false, 12, 101, 0⟩)
        (final, filled, execEvents true taken) ∧
      QueueFill.Greedy Order.getRemainingQuantity 12 (twoPriceSide.crossingOrders 101) taken ∧
      final.restingOrders = withoutTaken taken twoPriceSide.restingOrders := by
  obtain ⟨final, filled, taken, returns, greedy, -, -, resting, -⟩ :=
    processCrossedOrder_priceTime (BookSide.repInvariant_iff_valid.mpr twoPriceSide_valid)
      (show (⟨3, false, 12, 101, 0⟩ : Order ℤ).isSell ≠ true by decide) (by decide)
  exact ⟨final, filled, taken, returns, greedy, resting⟩

end OrderBook
