import OrderBook.PriceTimePriority
import OrderBook.ProcessTrade

/-!
# The effect of a trade on one side

A trade is met first by the removals that are expected at its price.  The rest
cancels every better level, fills the level of its price, and is booked as expected
liquidity where that level falls short.
-/

namespace OrderBook

open FueledLoop

variable {P : Type} [LinearOrder P] {isSell : Bool}

namespace BookSide

variable {side final : BookSide P isSell} {trade : Trade P} {events : OrderInfoVec P}
  {slack : Set ℤ}

/-- What the expected removals take of a trade. -/
def expectedQty (side : BookSide P isSell) (trade : Trade P) : ℤ :=
  min (qtyAt side.pendingLiqRemoveQty trade.price) trade.quantity

/-- What the level of its price takes of a trade. -/
def executedQty (side : BookSide P isSell) (trade : Trade P) : ℤ :=
  min (trade.quantity - side.expectedQty trade) (side.quantityAt trade.price)

theorem executedQty_nonneg (valid : side.Valid {0}) : 0 ≤ side.executedQty trade := by
  have held := (valid.allRemain trade.price).total_nonneg
  rw [executedQty, expectedQty, valid.quantityAt_eq]
  exact le_min (by omega) held

/-- The orders at better prices than a trade. -/
def betterOrders (side : BookSide P isSell) (price : P) : List (Order P) :=
  (side.betterLevels price).flatMap fun entry => entry.2.orders

theorem mem_betterOrders {price : P} {order : Order P} :
    order ∈ side.betterOrders price ↔
      ∃ key, PriceComparator isSell key price ∧ order ∈ side.ordersAt key := by
  simp only [betterOrders, List.mem_flatMap, betterLevels, List.mem_filter, decide_eq_true_eq]
  constructor
  · rintro ⟨⟨key, level⟩, ⟨mem, better⟩, orderMem⟩
    refine ⟨key, better, ?_⟩
    rwa [ordersAt_of_find? (SortedMap.find?_eq_some_iff.mpr mem)]
  · rintro ⟨key, better, orderMem⟩
    cases found : side.levels.find? key with
    | none =>
        rw [ordersAt_of_none found] at orderMem
        cases orderMem
    | some level =>
        rw [ordersAt_of_find? found] at orderMem
        exact ⟨(key, level), ⟨SortedMap.find?_eq_some_iff.mp found, better⟩, orderMem⟩

/-- The orders at each price after a trade: nothing better than its price, and the front of
the level of its price filled. -/
theorem TradeOutcome.ordersAt_rest (outcome : TradeOutcome slack side trade final events)
    (key : P) :
    final.ordersAt key =
      if key = trade.price then fillFront (side.restQty trade) (side.ordersAt key)
      else if PriceComparator isSell key trade.price then [] else side.ordersAt key := by
  rw [ordersAt, outcome.levels_eq, find?_putOrders]
  by_cases same : key = trade.price
  · rw [if_pos same, if_pos same, same]
    split
    · next none => exact none.symm
    · rfl
  · rw [if_neg same, if_neg same, find?_retainedLevels]
    split
    · rfl
    · rfl

/-- The orders that rest after a trade. -/
theorem TradeOutcome.ordersAt_eq (valid : side.Valid {0})
    (outcome : TradeOutcome {0} side trade final events) (key : P) :
    final.ordersAt key =
      if key = trade.price then fillFront (side.executedQty trade) (side.ordersAt key)
      else if PriceComparator isSell key trade.price then [] else side.ordersAt key := by
  rw [outcome.ordersAt_rest]
  by_cases same : key = trade.price
  · rw [if_pos same, if_pos same, same, executedQty, valid.quantityAt_eq]
    exact (QueueFill.remaining_min (valid.allRemain trade.price)).1.symm
  · rw [if_neg same, if_neg same]

/-- A trade brings no id to a price, and keeps none at a better price. -/
theorem TradeOutcome.ids_kept (outcome : TradeOutcome slack side trade final events) {key : P}
    {id : ℤ} (mem : id ∈ ids (final.ordersAt key)) :
    ¬ PriceComparator isSell key trade.price ∧ id ∈ ids (side.ordersAt key) := by
  rw [outcome.ordersAt_rest] at mem
  by_cases same : key = trade.price
  · refine ⟨same ▸ irrefl key, ?_⟩
    rw [if_pos same] at mem
    rw [ids_eq_append (side.restQty trade)]
    exact List.mem_append_right _ mem
  · rw [if_neg same] at mem
    split at mem
    · cases mem
    · next notBetter => exact ⟨notBetter, mem⟩

/-- The ids that a trade removes. -/
theorem TradeOutcome.orderMap_find? (valid : side.Valid {0})
    (outcome : TradeOutcome {0} side trade final events) (id : ℤ) :
    final.orderMap.find? id =
      if id ∈ ids (side.betterOrders trade.price) ∨
          id ∈ ids (usedUp (side.executedQty trade) (side.ordersAt trade.price)) then none
      else side.orderMap.find? id := by
  have idsSplit := ids_eq_append (side.executedQty trade) (side.ordersAt trade.price)
  have nodup := valid.linked.nodup trade.price
  rw [idsSplit, List.nodup_append] at nodup
  split
  · next gone =>
      rw [← Option.not_isSome_iff_eq_none]
      intro rests
      obtain ⟨key, mem⟩ := outcome.valid.linked.existOrder_iff.mp rests
      have oldMem := (outcome.ids_kept mem).2
      rw [outcome.ordersAt_eq valid] at mem
      rcases gone with better | used
      · obtain ⟨order, orderMem, rfl⟩ := List.mem_map.mp better
        obtain ⟨other, otherBetter, atOther⟩ := mem_betterOrders.mp orderMem
        obtain rfl := valid.linked.price_unique oldMem (List.mem_map_of_mem atOther)
        have different : key ≠ trade.price := SortedMap.before_ne otherBetter
        rw [if_neg different, if_pos otherBetter] at mem
        cases mem
      · have atPrice : id ∈ ids (side.ordersAt trade.price) := by
          rw [idsSplit]
          exact List.mem_append_left _ used
        obtain rfl := valid.linked.price_unique oldMem atPrice
        rw [if_pos rfl] at mem
        exact nodup.2.2 id used id mem rfl
  · next kept =>
      rw [not_or] at kept
      cases found : side.orderMap.find? id with
      | none =>
          rw [← Option.not_isSome_iff_eq_none] at found ⊢
          intro rests
          obtain ⟨key, mem⟩ := outcome.valid.linked.existOrder_iff.mp rests
          exact found (valid.linked.existOrder_iff.mpr ⟨key, (outcome.ids_kept mem).2⟩)
      | some handler =>
          obtain ⟨idEq, mem⟩ := valid.linked.handler.mp found
          refine outcome.valid.linked.handler.mpr ⟨idEq, ?_⟩
          rw [outcome.ordersAt_eq valid]
          split
          · next same =>
              rw [same, idsSplit] at mem
              rw [same]
              exact (List.mem_append.mp mem).resolve_left kept.2
          · split
            · next better =>
                obtain ⟨order, orderMem, rfl⟩ := List.mem_map.mp mem
                exact (kept.1 (List.mem_map_of_mem
                  (mem_betterOrders.mpr ⟨_, better, orderMem⟩))).elim
            · exact mem

theorem TradeOutcome.find?_worse (outcome : TradeOutcome slack side trade final events) {key : P}
    (worse : PriceComparator isSell trade.price key) :
    final.levels.find? key = side.levels.find? key := by
  have different : key ≠ trade.price := (SortedMap.before_ne worse).symm
  rw [outcome.levels_eq, find?_putOrders, if_neg different, find?_retainedLevels,
    if_neg (asymm worse)]

theorem TradeOutcome.find?_better (outcome : TradeOutcome slack side trade final events) {key : P}
    (better : PriceComparator isSell key trade.price) : final.levels.find? key = none := by
  rw [outcome.levels_eq, find?_putOrders, if_neg (SortedMap.before_ne better),
    find?_retainedLevels, if_pos better]

/-- The quantity at the price of a trade falls by what is executed there. -/
theorem TradeOutcome.quantityAt_eq (valid : side.Valid {0})
    (outcome : TradeOutcome {0} side trade final events) :
    final.quantityAt trade.price = side.quantityAt trade.price - side.executedQty trade := by
  have remain := valid.allRemain trade.price
  rw [outcome.valid.quantityAt_eq, outcome.ordersAt_eq valid, if_pos rfl,
    totalRemaining_fillFront remain (executedQty_nonneg valid), valid.quantityAt_eq]
  have least : side.executedQty trade ≤ totalRemaining (side.ordersAt trade.price) := by
    rw [executedQty, valid.quantityAt_eq]
    exact min_le_right _ _
  rw [min_eq_left least]

/-- The level is erased when it is used up. -/
theorem TradeOutcome.erased_iff (valid : side.Valid {0})
    (outcome : TradeOutcome {0} side trade final events) :
    final.levels.find? trade.price = none ↔
      side.executedQty trade = side.quantityAt trade.price := by
  rw [← outcome.valid.linked.ordersAt_eq_nil_iff]
  have finalRemain := outcome.valid.allRemain trade.price
  have finalQty := outcome.quantityAt_eq valid
  rw [outcome.valid.quantityAt_eq] at finalQty
  constructor
  · intro none
    rw [none] at finalQty
    simp only [totalRemaining, QueueFill.total_nil] at finalQty
    omega
  · intro whole
    by_contra some
    have left : 0 < totalRemaining (final.ordersAt trade.price) := finalRemain.total_pos some
    omega

/-- The fill at the price of a trade is a greedy one in the order of arrival. -/
theorem TradeOutcome.greedy (valid : side.Valid {0})
    (outcome : TradeOutcome {0} side trade final events) :
    ∃ taken, QueueFill.Greedy Order.getRemainingQuantity (side.executedQty trade)
        (side.ordersAt trade.price) taken ∧
      final.ordersAt trade.price = withoutTaken taken (side.ordersAt trade.price) := by
  have remain := valid.allRemain trade.price
  have nonneg : 0 ≤ side.executedQty trade := executedQty_nonneg valid
  refine ⟨fills (side.executedQty trade) (side.ordersAt trade.price),
    remain.greedy_pieces nonneg, ?_⟩
  rw [outcome.ordersAt_eq valid, if_pos rfl, withoutTaken,
    QueueFill.subtract_pieces Order.lawful (valid.linked.nodup trade.price) remain nonneg]

/-- The expected removals at the price of a trade fall by what they take of it. -/
theorem TradeOutcome.remove_effect (outcome : TradeOutcome {0} side trade final events)
    (price : P) :
    final.pendingLiqRemoveQty.find? price =
      if price = trade.price then
        if qtyAt side.pendingLiqRemoveQty price - side.expectedQty trade = 0 then none
        else some (qtyAt side.pendingLiqRemoveQty price - side.expectedQty trade)
      else side.pendingLiqRemoveQty.find? price := by
  rw [outcome.remove_eq, ← expectedQty, debit]
  by_cases same : price = trade.price
  · rw [if_pos same, same]
    split
    · rw [SortedMap.find?_erase_self]
    · rw [SortedMap.find?_insert_self]
  · rw [if_neg same]
    split
    · rw [SortedMap.find?_erase_of_ne _ same]
    · rw [SortedMap.find?_insert_of_ne _ _ same]

/-- What nothing takes of a trade is booked as expected liquidity at its price. -/
theorem TradeOutcome.add_effect (valid : side.Valid {0})
    (outcome : TradeOutcome {0} side trade final events) (price : P) :
    final.pendingLiqAddQty.find? price =
      if price = trade.price ∧
          trade.quantity - side.expectedQty trade - side.executedQty trade ≠ 0 then
        some (qtyAt side.pendingLiqAddQty price +
          (trade.quantity - side.expectedQty trade - side.executedQty trade))
      else side.pendingLiqAddQty.find? price := by
  have restEq : trade.quantity - side.expectedQty trade = side.restQty trade := rfl
  have executedEq : side.executedQty trade =
      min (side.restQty trade) (totalRemaining (side.ordersAt trade.price)) := by
    rw [executedQty, restEq, valid.quantityAt_eq]
  rw [outcome.add_eq, restEq, executedEq]
  by_cases short : totalRemaining (side.ordersAt trade.price) < side.restQty trade
  · have some : side.restQty trade - totalRemaining (side.ordersAt trade.price) ≠ 0 := by omega
    rw [if_pos short, min_eq_right short.le, credit, SortedMap.find?_insert]
    by_cases same : price = trade.price
    · rw [if_pos same, if_pos ⟨same, some⟩, same]
      rfl
    · rw [if_neg same, if_neg fun both => same both.1]
  · have none : ¬ side.restQty trade - side.restQty trade ≠ 0 := by omega
    rw [if_neg short, min_eq_left (not_lt.mp short), if_neg fun both => none both.2]

end BookSide

/-- The effect of a trade on one side.  Of its quantity `expectedQty` settles expected
removals and `executedQty` fills the level of its price; better levels and their orders
are gone, worse levels stay, and the rest is booked as expected liquidity. -/
theorem processTrade_effect [Zero P] {side : BookSide P isSell} (rep : side.RepInvariant)
    {trade : Trade P} (pos : 0 < trade.quantity) :
    ∃ (final : BookSide P isSell) (events : OrderInfoVec P),
      Returns (fun fuel => side.processTrade fuel trade) (final, events) ∧
      final.RepInvariant ∧
      (∀ key, PriceComparator isSell key trade.price → final.levels.find? key = none) ∧
      (∀ key, PriceComparator isSell trade.price key →
        final.levels.find? key = side.levels.find? key) ∧
      (∃ taken, QueueFill.Greedy Order.getRemainingQuantity (side.executedQty trade)
          (side.ordersAt trade.price) taken ∧
        final.ordersAt trade.price = withoutTaken taken (side.ordersAt trade.price)) ∧
      final.quantityAt trade.price = side.quantityAt trade.price - side.executedQty trade ∧
      (final.levels.find? trade.price = none ↔
        side.executedQty trade = side.quantityAt trade.price) ∧
      (∀ id, final.orderMap.find? id =
        if id ∈ ids (side.betterOrders trade.price) ∨
            id ∈ ids (usedUp (side.executedQty trade) (side.ordersAt trade.price)) then none
        else side.orderMap.find? id) ∧
      (∀ price, final.pendingLiqRemoveQty.find? price =
        if price = trade.price then
          if qtyAt side.pendingLiqRemoveQty price - side.expectedQty trade = 0 then none
          else some (qtyAt side.pendingLiqRemoveQty price - side.expectedQty trade)
        else side.pendingLiqRemoveQty.find? price) ∧
      ∀ price, final.pendingLiqAddQty.find? price =
        if price = trade.price ∧
            trade.quantity - side.expectedQty trade - side.executedQty trade ≠ 0 then
          some (qtyAt side.pendingLiqAddQty price +
            (trade.quantity - side.expectedQty trade - side.executedQty trade))
        else side.pendingLiqAddQty.find? price := by
  have valid := BookSide.repInvariant_iff_valid.mp rep
  obtain ⟨final, events, returns, outcome⟩ := valid.processTrade_returns trade pos.le
  exact ⟨final, events, returns, BookSide.repInvariant_iff_valid.mpr outcome.valid,
    fun _ => outcome.find?_better, fun _ => outcome.find?_worse, outcome.greedy valid,
    outcome.quantityAt_eq valid, outcome.erased_iff valid, outcome.orderMap_find? valid,
    outcome.remove_effect, outcome.add_effect valid⟩

/-- A trade at the second price: the better ask is cancelled, and 3 of the trade are more
than the other ask holds. -/
theorem twoPrice_tradeEffect :
    ∃ (final : BookSide ℤ true) (events : OrderInfoVec ℤ),
      Returns (fun fuel => twoPriceSide.processTrade fuel ⟨8, 101⟩) (final, events) ∧
      final.levels.find? 100 = none ∧ final.levels.find? 101 = none ∧
      final.pendingLiqAddQty.find? 101 = some 3 := by
  obtain ⟨final, events, returns, -, better, -, -, -, erased, -, -, booked⟩ :=
    processTrade_effect (BookSide.repInvariant_iff_valid.mpr twoPriceSide_valid)
      (show 0 < (⟨8, 101⟩ : Trade ℤ).quantity by decide)
  exact ⟨final, events, returns, better 100 (by decide), erased.mpr (by decide), booked 101⟩

end OrderBook
