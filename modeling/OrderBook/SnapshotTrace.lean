import OrderBook.EventTrace

/-!
# The queue of expected snapshots

`processCrossedOrder` and `processTrade` save a view after each fill, and
`processTrade` also after each removal.  The saved views are those that an observer
of the events has as long as no order is used up in a place where the two differ:
a crossed level must not be emptied, since its last fill saves a quantity of zero,
and a trade must not use up an order, since its removal saves a view of its own.
-/

namespace OrderBook

open FueledLoop

variable {P : Type} [LinearOrder P]

theorem mem_fillViews (view : L2SnapshotSide P) (key : P) (quantity : ℤ)
    {taken : List (Order P × ℤ)} (some : taken ≠ []) :
    viewWith view key (quantity - (taken.map Prod.snd).sum) ∈
      fillViews view key quantity taken := by
  induction taken generalizing quantity with
  | nil => exact (some rfl).elim
  | cons piece taken ih =>
      rw [fillViews, List.map_cons, List.sum_cons, ← sub_sub]
      by_cases last : taken = []
      · simp [last]
      · exact List.mem_cons_of_mem _ (ih (quantity - piece.2) last)

theorem length_fillViews (view : L2SnapshotSide P) (key : P) (quantity : ℤ)
    (taken : List (Order P × ℤ)) : (fillViews view key quantity taken).length = taken.length := by
  induction taken generalizing quantity with
  | nil => rfl
  | cons piece taken ih => simp [fillViews, ih]

theorem length_removalViews {isSell : Bool}
    (levels : SortedMap P (L3PriceLevel P) (PriceComparator isSell)) (key : P)
    (rest : List (Order P)) (quantity : ℤ) (gone : List (Order P)) :
    (removalViews levels key rest quantity gone).length = gone.length := by
  induction gone generalizing quantity with
  | nil => rfl
  | cons order gone ih => simp [removalViews, ih]

namespace BookSide

variable {isSell : Bool} {side final : BookSide P isSell} {key : P} {level : L3PriceLevel P}

/-- The views saved by a call are those of its events, the last one the view of the side
after it. -/
def TracesEvents (side final : BookSide P isSell) (events : OrderInfoVec P) : Prop :=
  final.l2SnapQueue = side.l2SnapQueue ++ eventViews (queuesOf side.levels) events ∧
    ∀ view ∈ (eventViews (queuesOf side.levels) events).getLast?, view = final.l2View

/-- It is enough that the views agree and that the events lead to the final levels. -/
theorem TracesEvents.of_after (valid : final.Valid {0}) {events : OrderInfoVec P}
    (queueEq : final.l2SnapQueue =
      side.l2SnapQueue ++ eventViews (queuesOf side.levels) events)
    (afterEq : afterEvents (queuesOf side.levels) events = queuesOf final.levels) :
    side.TracesEvents final events := by
  refine ⟨queueEq, ?_⟩
  intro view last
  rw [eventViews_getLast? _ _ view last, afterEq, valid.exact.viewOfQueues_eq]
  rfl

theorem tracesEvents_nil (side : BookSide P isSell) : side.TracesEvents side [] :=
  ⟨(List.append_nil _).symm, fun _ last => nomatch last⟩

theorem Valid.find?_exact (valid : side.Valid {0}) (found : side.levels.find? key = some level) :
    side.levels.find? key =
      some (.ofOrders key (totalRemaining (side.ordersAt key)) (side.ordersAt key)) := by
  rw [ordersAt_of_find? found]
  exact valid.exact.found_eq found

/-! ### Crossing orders -/

/-- A crossing order that empties the best level saves a view with nothing there. -/
theorem Valid.zero_mem_crossLevel (valid : side.Valid {0})
    (first : side.levels.begin? = some (key, level)) {qty : ℤ}
    (covers : totalRemaining (side.ordersAt key) ≤ qty) :
    ∃ view ∈ fillViews side.l2View key (side.quantityAt key) (fills qty (side.ordersAt key)),
      ⟨key, 0⟩ ∈ view := by
  have found := SortedMap.find?_of_begin? first
  have remain := valid.allRemain key
  have totalPos := valid.totalRemaining_pos found
  have sumEq : ((fills qty (side.ordersAt key)).map Prod.snd).sum =
      totalRemaining (side.ordersAt key) := by
    rw [fills, QueueFill.sum_pieces remain (totalPos.le.trans covers)]
    exact min_eq_right covers
  have some : fills qty (side.ordersAt key) ≠ [] := by
    intro none
    rw [none] at sumEq
    exact absurd sumEq totalPos.ne
  refine ⟨_, mem_fillViews side.l2View key (side.quantityAt key) some, ?_⟩
  rw [sumEq, valid.quantityAt_eq, sub_self]
  exact List.mem_map.mpr ⟨⟨key, level.quantity⟩, List.mem_map.mpr
    ⟨_, SortedMap.find?_eq_some_iff.mp found, rfl⟩, if_pos rfl⟩

theorem Valid.putOrders_fillFront (valid : side.Valid {0}) (key : P) {qty : ℤ}
    (nonneg : 0 ≤ qty) (levels : SortedMap P (L3PriceLevel P) (PriceComparator isSell)) :
    putOrders levels key (side.quantityAt key - min qty (totalRemaining (side.ordersAt key)))
        (fillFront qty (side.ordersAt key)) =
      putOrders levels key (totalRemaining (fillFront qty (side.ordersAt key)))
        (fillFront qty (side.ordersAt key)) := by
  rw [totalRemaining_fillFront (valid.allRemain key) nonneg, valid.quantityAt_eq]

/-- A crossing order that does not empty the best level. -/
theorem Valid.crossLevel_traces [Zero P] (valid : side.Valid {0})
    (found : side.levels.find? key = some level) {qty : ℤ} (nonneg : 0 ≤ qty)
    (short : qty < totalRemaining (side.ordersAt key)) :
    side.TracesEvents (side.crossLevel key qty)
      (execEvents isSell (fills qty (side.ordersAt key))) := by
  obtain ⟨-, viewsEq, afterEq⟩ := valid.exact.exec nonneg (valid.find?_exact found)
  apply TracesEvents.of_after (valid.crossLevel found nonneg)
  · rw [viewsEq short, ← valid.quantityAt_eq]
    rfl
  · rw [afterEq, ← valid.putOrders_fillFront key nonneg]
    rfl

theorem Valid.crossed_traces_iff [Zero P] (valid : side.Valid {0}) {order : Order P}
    (opposite : order.isSell ≠ isSell) :
    (∃ final filled events, Returns (fun fuel => side.processCrossedOrder fuel order)
        (final, filled, events) ∧ side.TracesEvents final events) ↔
      ∀ best ∈ side.levels.begin?, Crosses isSell order.price best.1 →
        order.getRemainingQuantity < best.2.quantity := by
  have quantityOf : ∀ {key : P} {level : L3PriceLevel P},
      side.levels.begin? = some (key, level) →
        level.quantity = totalRemaining (side.ordersAt key) := by
    intro key level first
    have found := SortedMap.find?_of_begin? first
    rw [ordersAt_of_find? found, valid.exact.counted found]
  by_cases nothing : order.getRemainingQuantity ≤ 0
  · refine ⟨fun _ best first _ => ?_, fun _ => ⟨side, order, [],
      valid.linked.processCrossedOrder_idle opposite nothing, tracesEvents_nil side⟩⟩
    have found := SortedMap.find?_of_begin? first
    have positive := QueueFill.Positive.total_pos (valid.exact.remain found)
      (valid.exact.fits found).nonempty
    rw [valid.exact.counted found]
    exact nothing.trans_lt positive
  · have pos : 0 < order.getRemainingQuantity := not_le.mp nothing
    obtain ⟨final, events, returns, outcome⟩ :=
      valid.processCrossedOrder_returns opposite pos.le
    constructor
    · rintro ⟨other, filled, otherEvents, otherReturns, queueEq, -⟩ ⟨key, level⟩ first crosses
      have same := Returns.unique (processCrossedOrder_monotone side order) otherReturns returns
      cases same
      by_contra covers
      rw [quantityOf first, not_lt] at covers
      obtain ⟨view, saved, zero⟩ := valid.zero_mem_crossLevel first covers
      obtain ⟨⟨later, laterEq⟩, -⟩ := outcome.best first crosses pos
      have traced : view ∈ eventViews (queuesOf side.levels) events := by
        rw [queueEq, BookSide.crossLevel, List.append_assoc] at laterEq
        rw [List.append_cancel_left laterEq]
        exact List.mem_append_left _ saved
      exact absurd (pos_of_mem_eventViews traced _ zero) (lt_irrefl 0)
    · intro short
      refine ⟨final, _, events, returns, ?_⟩
      by_cases stops : ∀ {key : P} {level : L3PriceLevel P},
          side.levels.begin? = some (key, level) → ¬ Crosses isSell order.price key
      · have none := (crossingOrders_eq_nil stops).1
        rw [outcome.stops_eq (Or.inr stops), outcome.events_eq, none]
        exact tracesEvents_nil side
      · push Not at stops
        obtain ⟨key, level, first, crosses⟩ := stops
        have less := short (key, level) first crosses
        rw [quantityOf first] at less
        rw [(outcome.best first crosses pos).2 less.le, outcome.events_eq,
          (valid.fills_best first crosses pos.le less.le).1]
        exact valid.crossLevel_traces (SortedMap.find?_of_begin? first) pos.le less

/-! ### Trades -/

theorem foldl_erase_betterLevels (side : BookSide P isSell) (price : P) :
    ((side.betterLevels price).map Prod.fst).foldl SortedMap.erase side.levels =
      side.retainedLevels price := by
  apply SortedMap.ext_find?
  intro key
  rw [SortedMap.find?_foldl_erase, find?_retainedLevels]
  by_cases better : PriceComparator isSell key price
  · rw [if_pos better]
    cases found : side.levels.find? key with
    | none => split <;> rfl
    | some level =>
        refine if_pos (List.mem_map.mpr ⟨(key, level), List.mem_filter.mpr ⟨?_, ?_⟩, rfl⟩)
        · exact SortedMap.find?_eq_some_iff.mp found
        · exact decide_eq_true better
  · rw [if_neg better, if_neg]
    intro mem
    obtain ⟨entry, entryMem, rfl⟩ := List.mem_map.mp mem
    exact better (of_decide_eq_true (List.mem_filter.mp entryMem).2)

theorem Valid.retained_exact (valid : side.Valid {0}) (price : P) :
    Exact (side.retainedLevels price) := by
  have kept : ∀ {key : P} {level : L3PriceLevel P},
      (side.retainedLevels price).find? key = some level → side.levels.find? key = some level := by
    intro key level found
    rw [find?_retainedLevels] at found
    split at found
    · cases found
    · exact found
  exact ⟨fun found => valid.exact.fits (kept found), fun found => valid.exact.counted (kept found),
    fun found => valid.exact.remain (kept found)⟩

/-- The implicit cancels as an observer reads them. -/
theorem Valid.cancels_traced (valid : side.Valid {0}) (price : P) :
    eventViews (queuesOf side.levels) (cancelEvents isSell
        ((side.betterLevels price).flatMap fun entry => entry.2.orders)) =
          cancelViews side.levels (side.betterLevels price) ∧
      afterEvents (queuesOf side.levels) (cancelEvents isSell
        ((side.betterLevels price).flatMap fun entry => entry.2.orders)) =
          queuesOf (side.retainedLevels price) := by
  have found : ∀ entry ∈ side.betterLevels price, side.levels.find? entry.1 = some entry.2 :=
    fun entry mem => SortedMap.find?_eq_some_iff.mpr (List.mem_filter.mp mem).1
  have distinct : ((side.betterLevels price).map Prod.fst).Nodup :=
    List.pairwise_map.mpr (side.levels.keys_ne.filter _)
  rw [← foldl_erase_betterLevels]
  exact valid.exact.cancelLevels found distinct

/-- An execution that is only guessed names no resting order. -/
theorem guess_unseen {levels : SortedMap P (L3PriceLevel P) (PriceComparator isSell)} {price : P}
    (absent : levels.find? price = none) (id qty : ℤ) :
    eventViews (queuesOf levels) [⟨.add, id, isSell, qty, price⟩, ⟨.exec, id, isSell, qty, price⟩] =
      [] := by
  have unnamed : ∀ event, ¬ NamesResting (queuesOf levels) ⟨event, id, isSell, qty, price⟩ := by
    intro event named
    obtain ⟨-, level, found, -⟩ := namesResting_queuesOf.mp named
    rw [absent] at found
    cases found
  simp [eventViews, unnamed]

/-- The executions of a trade at its level, as an observer reads them. -/
theorem TradeOutcome.exec_traced (valid : side.Valid {0}) {trade : Trade P}
    {events : OrderInfoVec P} (outcome : TradeOutcome {0} side trade final events) :
    (eventViews (queuesOf (side.retainedLevels trade.price))
        (execEvents isSell (fills (side.restQty trade) (side.ordersAt trade.price)))).length =
          (fills (side.restQty trade) (side.ordersAt trade.price)).length ∧
      (side.ordersAt trade.price = [] ∨
          side.restQty trade < totalRemaining (side.ordersAt trade.price) →
        eventViews (queuesOf (side.retainedLevels trade.price))
          (execEvents isSell (fills (side.restQty trade) (side.ordersAt trade.price))) =
            fillViews (viewOf (side.retainedLevels trade.price)) trade.price
              (side.quantityAt trade.price)
              (fills (side.restQty trade) (side.ordersAt trade.price))) ∧
      afterEvents (queuesOf (side.retainedLevels trade.price))
        (execEvents isSell (fills (side.restQty trade) (side.ordersAt trade.price))) =
          queuesOf final.levels := by
  have levelsEq := outcome.levels_eq
  rw [valid.putOrders_fillFront trade.price restQty_nonneg] at levelsEq
  have same := find?_retainedLevels side trade.price trade.price
  rw [if_neg (irrefl trade.price)] at same
  cases found : side.levels.find? trade.price with
  | none =>
      rw [found] at same
      rw [ordersAt_of_none found] at levelsEq ⊢
      refine ⟨rfl, fun _ => rfl, ?_⟩
      rw [levelsEq, putOrders,
        if_pos (show fillFront (side.restQty trade) ([] : List (Order P)) = [] from rfl),
        SortedMap.erase_of_find?_none same]
      rfl
  | some level =>
      have atPrice := valid.find?_exact found
      rw [← same] at atPrice
      have restNonneg : 0 ≤ side.restQty trade := restQty_nonneg
      obtain ⟨lengthEq, viewsEq, afterEq⟩ :=
        (valid.retained_exact trade.price).exec restNonneg atPrice
      refine ⟨lengthEq, ?_, ?_⟩
      · rintro (none | short)
        · rw [ordersAt_of_find? found] at none
          exact ((valid.linked.level found).nonempty none).elim
        · rw [viewsEq short, valid.quantityAt_eq]
      · rw [afterEq, levelsEq]

/-- The events of a trade as an observer reads them: the cancels give the views saved by
the removals, each execution gives one view, and the guessed order is not resting. -/
theorem TradeOutcome.eventViews_eq (valid : side.Valid {0}) {trade : Trade P}
    {events : OrderInfoVec P} (outcome : TradeOutcome {0} side trade final events) :
    eventViews (queuesOf side.levels) events =
        cancelViews side.levels (side.betterLevels trade.price) ++
          eventViews (queuesOf (side.retainedLevels trade.price))
            (execEvents isSell (fills (side.restQty trade) (side.ordersAt trade.price))) ∧
      afterEvents (queuesOf side.levels) events = queuesOf final.levels := by
  obtain ⟨cancelViewsEq, cancelAfter⟩ := valid.cancels_traced trade.price
  obtain ⟨-, -, execAfter⟩ := outcome.exec_traced valid
  have guessed : eventViews (queuesOf final.levels)
      (if totalRemaining (side.ordersAt trade.price) < side.restQty trade then
        [⟨.add, -1, isSell,
            side.restQty trade - totalRemaining (side.ordersAt trade.price), trade.price⟩,
          ⟨.exec, -1, isSell,
            side.restQty trade - totalRemaining (side.ordersAt trade.price), trade.price⟩]
      else []) = [] := by
    split
    · next more =>
        refine guess_unseen ?_ _ _
        have usedUp := fillFront_eq_nil (valid.allRemain trade.price) more.le
        rw [outcome.levels_eq, find?_putOrders, if_pos rfl, if_pos usedUp]
    · rfl
  constructor
  · rw [outcome.events_eq, eventViews_append, eventViews_append, afterEvents_append,
      cancelViewsEq, cancelAfter, execAfter, guessed, List.append_nil]
  · rw [outcome.events_eq, afterEvents_append, afterEvents_append, cancelAfter, execAfter,
      afterEvents_of_unseen guessed]

theorem Valid.restQty_lt_iff (valid : side.Valid {0}) {trade : Trade P} {order : Order P}
    (first : (side.ordersAt trade.price).head? = some order) :
    side.restQty trade < order.getRemainingQuantity ↔
      trade.quantity - qtyAt side.pendingLiqRemoveQty trade.price <
        order.getRemainingQuantity := by
  have remains : 0 < order.getRemainingQuantity :=
    valid.allRemain trade.price order (List.mem_of_mem_head? first)
  unfold restQty
  omega

theorem Valid.traded_traces_iff [Zero P] (valid : side.Valid {0}) {trade : Trade P}
    (pos : 0 < trade.quantity) :
    (∃ final events, Returns (fun fuel => side.processTrade fuel trade) (final, events) ∧
        side.TracesEvents final events) ↔
      ∀ order ∈ (side.ordersAt trade.price).head?,
        trade.quantity - qtyAt side.pendingLiqRemoveQty trade.price <
          order.getRemainingQuantity := by
  obtain ⟨final, events, returns, outcome⟩ := valid.processTrade_returns trade pos.le
  obtain ⟨viewsEq, afterEq⟩ := outcome.eventViews_eq valid
  obtain ⟨lengthEq, execEq, -⟩ := outcome.exec_traced valid
  have remain := valid.allRemain trade.price
  have queueEq := outcome.queue_eq
  constructor
  · rintro ⟨other, otherEvents, otherReturns, traced, -⟩
    have same := Returns.unique (processTrade_monotone side trade) otherReturns returns
    cases same
    -- each removal of a used-up order has saved a view without an event
    rw [queueEq, viewsEq, List.append_assoc] at traced
    have lengths := congrArg List.length
      (List.append_cancel_left (List.append_cancel_left traced))
    rw [List.length_append, length_fillViews, length_removalViews, List.length_map, lengthEq]
      at lengths
    have none : usedUp (side.restQty trade) (side.ordersAt trade.price) = [] :=
      List.length_eq_zero_iff.mp (by omega)
    intro order first
    exact (valid.restQty_lt_iff first).mp (usedUp_eq_nil_iff.mp none order first)
  · intro short
    refine ⟨final, events, returns, TracesEvents.of_after outcome.valid ?_ afterEq⟩
    have none : usedUp (side.restQty trade) (side.ordersAt trade.price) = [] :=
      usedUp_eq_nil_iff.mpr fun order first =>
        (valid.restQty_lt_iff first).mpr (short order first)
    have within : side.ordersAt trade.price = [] ∨
        side.restQty trade < totalRemaining (side.ordersAt trade.price) := by
      cases ordersEq : side.ordersAt trade.price with
      | nil => exact Or.inl rfl
      | cons order others =>
          have first := usedUp_eq_nil_iff.mp none order (by rw [ordersEq]; rfl)
          rw [ordersEq] at remain
          have othersNonneg : 0 ≤ totalRemaining others := remain.tail.total_nonneg
          right
          rw [totalRemaining_cons]
          omega
    rw [queueEq, viewsEq, execEq within, none]
    simp [removalViews]

end BookSide

/-- The views that a call saves are those of its events exactly when a crossing order
does not empty the best level, and a trade does not use up the first order of its level. -/
theorem tracesEvents_iff_none_usedUp [Zero P] {isSell : Bool} {side : BookSide P isSell}
    (rep : side.RepInvariant) :
    (∀ order : Order P, order.isSell ≠ isSell → 0 < order.quantity →
      ((∃ final filled events, Returns (fun fuel => side.processCrossedOrder fuel order)
          (final, filled, events) ∧ side.TracesEvents final events) ↔
        ∀ best ∈ side.levels.begin?, BookSide.Crosses isSell order.price best.1 →
          order.getRemainingQuantity < best.2.quantity)) ∧
    ∀ trade : Trade P, 0 < trade.quantity →
      ((∃ final events, Returns (fun fuel => side.processTrade fuel trade) (final, events) ∧
          side.TracesEvents final events) ↔
        ∀ order ∈ (side.ordersAt trade.price).head?,
          trade.quantity - qtyAt side.pendingLiqRemoveQty trade.price <
            order.getRemainingQuantity) := by
  have valid := BookSide.repInvariant_iff_valid.mp rep
  exact ⟨fun _ opposite _ => valid.crossed_traces_iff opposite,
    fun _ pos => valid.traded_traces_iff pos⟩

/-- A side with one ask. -/
def oneAskSide : BookSide ℤ true :=
  ((BookSide.empty.addOrder ⟨1, true, 10, 100, 0⟩).toOption).getD .empty

theorem oneAskSide_valid : oneAskSide.Valid {0} :=
  BookSide.valid_empty.addOrder (Set.mem_singleton 0)
    (show Order.IsOpen (⟨1, true, 10, 100, 0⟩ : Order ℤ) from ⟨by decide, by decide⟩) rfl

/-- A part of the ask is taken by an order and by a trade. -/
theorem oneAsk_part_traced :
    (∃ final filled events, Returns (fun fuel => oneAskSide.processCrossedOrder fuel
        ⟨2, false, 4, 100, 0⟩) (final, filled, events) ∧ oneAskSide.TracesEvents final events) ∧
      ∃ final events, Returns (fun fuel => oneAskSide.processTrade fuel ⟨4, 100⟩)
        (final, events) ∧ oneAskSide.TracesEvents final events := by
  have traced := tracesEvents_iff_none_usedUp
    (BookSide.repInvariant_iff_valid.mpr oneAskSide_valid)
  constructor
  · apply (traced.1 ⟨2, false, 4, 100, 0⟩ (by decide) (by decide)).mpr
    rintro best first -
    cases first
    decide
  · apply (traced.2 ⟨4, 100⟩ (by decide)).mpr
    intro order first
    cases first
    decide

/-- The whole ask is taken: the order saves a view with quantity zero, and the trade
saves two views for one event. -/
theorem oneAsk_whole_not_traced :
    oneAskSide.RepInvariant ∧
      (¬ ∃ final filled events, Returns (fun fuel => oneAskSide.processCrossedOrder fuel
        ⟨2, false, 10, 100, 0⟩) (final, filled, events) ∧
          oneAskSide.TracesEvents final events) ∧
      ¬ ∃ final events, Returns (fun fuel => oneAskSide.processTrade fuel ⟨10, 100⟩)
        (final, events) ∧ oneAskSide.TracesEvents final events := by
  refine ⟨BookSide.repInvariant_iff_valid.mpr oneAskSide_valid, ?_, ?_⟩
  · rw [oneAskSide_valid.crossed_traces_iff (by decide)]
    intro short
    exact absurd (short _ rfl (by decide)) (by decide)
  · rw [oneAskSide_valid.traded_traces_iff (by decide)]
    intro short
    exact absurd (short _ rfl) (by decide)

end OrderBook
