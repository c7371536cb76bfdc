import OrderBook.ExpectedTrade

/-!
# An order between its trades

An aggressive order and the trades of its executions come from different
streams.  Trades that arrive first fill the other side and leave their quantity
as liquidity to come on the side of the order; trades that arrive later meet the
removals that the order has announced.  All interleavings agree when every
execution is at the limit of the order, or when there is only one.  Otherwise the
order that comes after its first trade is never absorbed.
-/

namespace OrderBook

open FueledLoop InputRun

variable {P : Type} [LinearOrder P] {slack : Set ℤ}

namespace BookSide

variable {isSell : Bool} {side next : BookSide P isSell} {key : P}

theorem NoneBetter.of_narrows (none : side.NoneBetter key) (narrows : next.Narrows side) :
    next.NoneBetter key :=
  fun other present => none other (narrows other present)

theorem Valid.fillLevel_narrows (valid : side.Valid slack) (key : P) (qty : ℤ) :
    (side.fillLevel key qty).Narrows side := by
  apply narrows_put rfl
  intro left
  have some : side.ordersAt key ≠ [] := by
    intro none
    exact left (by simp [none, fillFront, QueueFill.remaining])
  rw [Ne, valid.linked.ordersAt_eq_nil_iff] at some
  exact Option.isSome_iff_ne_none.mpr some

theorem Valid.fills_at (valid : side.Valid slack) {qty : ℤ} (nonneg : 0 ≤ qty)
    {piece : Order P × ℤ} (mem : piece ∈ fills qty (side.ordersAt key)) :
    0 < piece.2 ∧ piece.1.price = key := by
  obtain ⟨orderMem, pos, -⟩ := QueueFill.mem_pieces (valid.allRemain key) nonneg mem
  exact ⟨pos, valid.linked.order_price orderMem⟩

/-- An order that the best level fills, if anything of it is left to fill. -/
theorem CrossOutcome.fillLevel_best {price : P} {qty : ℤ} {events : OrderInfoVec P}
    (outcome : CrossOutcome slack side price qty next events) (valid : side.Valid slack)
    (crosses : Crosses isSell price key) (nonneg : 0 ≤ qty)
    (first : qty ≠ 0 → ∃ level, side.levels.begin? = some (key, level))
    (enough : qty ≤ totalRemaining (side.ordersAt key)) :
    fills qty (side.crossingOrders price) = fills qty (side.ordersAt key) ∧
      qty ≤ totalRemaining (side.crossingOrders price) ∧
      next.levels = (side.fillLevel key qty).levels := by
  by_cases none : qty = 0
  · refine ⟨by simp [none], ?_, ?_⟩
    · rw [none]
      exact (valid.crossing_remain price).total_nonneg
    · rw [outcome.stops_eq (Or.inl none), none, valid.fillLevel_zero]
  · obtain ⟨level, first⟩ := first none
    obtain ⟨fillsEq, total⟩ := valid.fills_best first crosses nonneg enough
    refine ⟨fillsEq, total, ?_⟩
    rw [(outcome.best first crosses (by omega)).2 enough]
    rfl

/-- A side that expects no removal takes a trade in full from its orders and books
the rest. -/
theorem TradeOutcome.ledgers_of_unexpected {trade : Trade P} {events : OrderInfoVec P}
    (nonneg : 0 ≤ trade.quantity) (nothing : side.pendingLiqRemoveQty = .empty)
    (outcome : TradeOutcome slack side trade next events) :
    side.restQty trade = trade.quantity ∧ next.pendingLiqRemoveQty = .empty ∧
      next.pendingLiqAddQty =
        if totalRemaining (side.ordersAt trade.price) < trade.quantity then
          credit side.pendingLiqAddQty trade.price
            (trade.quantity - totalRemaining (side.ordersAt trade.price))
        else side.pendingLiqAddQty := by
  have noQty : qtyAt side.pendingLiqRemoveQty trade.price = 0 := by
    rw [nothing]
    rfl
  have restEq : side.restQty trade = trade.quantity := by
    rw [restQty, noQty, min_eq_left nonneg, sub_zero]
  have emptyPositive : PositiveLedger (.empty : SortedMap P ℤ (· < ·)) :=
    fun _ _ found => by simp at found
  refine ⟨restEq, ?_, ?_⟩
  · rw [outcome.remove_eq, noQty, min_eq_left nonneg, nothing]
    exact debit_zero emptyPositive trade.price
  · rw [outcome.add_eq, restEq]

/-- A trade that no removal announces and that meets no better level fills the level
of its price. -/
theorem TradeOutcome.levels_of_unexpected {trade : Trade P} {events : OrderInfoVec P}
    (none : side.NoneBetter trade.price) (nonneg : 0 ≤ trade.quantity)
    (nothing : side.pendingLiqRemoveQty = .empty)
    (outcome : TradeOutcome slack side trade next events) :
    next.levels = (side.fillLevel trade.price trade.quantity).levels ∧
      next.pendingLiqRemoveQty = .empty ∧
      next.pendingLiqAddQty =
        if totalRemaining (side.ordersAt trade.price) < trade.quantity then
          credit side.pendingLiqAddQty trade.price
            (trade.quantity - totalRemaining (side.ordersAt trade.price))
        else side.pendingLiqAddQty := by
  obtain ⟨restEq, removeEq, addEq⟩ := outcome.ledgers_of_unexpected nonneg nothing
  refine ⟨?_, removeEq, addEq⟩
  rw [outcome.levels_eq, restEq, retainedLevels_of_none none.betterLevels]
  rfl

theorem begin?_fillLevel {level : L3PriceLevel P} {qty : ℤ}
    (first : side.levels.begin? = some (key, level)) (nonneg : 0 ≤ qty)
    (short : qty < totalRemaining (side.ordersAt key)) :
    ∃ left, (side.fillLevel key qty).levels.begin? = some (key, left) := by
  obtain ⟨others, entriesEq⟩ := SortedMap.begin?_eq_some_iff.mp first
  have left : fillFront qty (side.ordersAt key) ≠ [] := fillFront_ne_nil nonneg short
  have entriesAfter := SortedMap.entries_insert_first entriesEq
    (L3PriceLevel.ofOrders key (side.quantityAt key - min qty (totalRemaining (side.ordersAt key)))
      (fillFront qty (side.ordersAt key)))
  have levelsEq : (side.fillLevel key qty).levels = side.levels.insert key (.ofOrders key
      (side.quantityAt key - min qty (totalRemaining (side.ordersAt key)))
      (fillFront qty (side.ordersAt key))) := by
    simp only [fillLevel, putOrders, if_neg left]
  rw [levelsEq]
  exact ⟨_, SortedMap.begin?_eq_some_iff.mpr ⟨others, entriesAfter⟩⟩

/-- Liquidity announced at one price is absorbed without rest by an order that has
this price as its limit, or just this quantity. -/
theorem absorbs {price : P} {held quantity : ℤ}
    (only : side.pendingLiqAddQty = if held = 0 then .empty else onlyPending key held)
    (fits : held ≤ quantity) (reaches : Reaches isSell price key)
    (whole : price = key ∨ held = 0 ∨ held = quantity) :
    ∃ ledger : SortedMap P ℤ (PriceComparator isSell),
      Returns (fun fuel => side.matchPendingLiqAdd fuel quantity price)
        ({ side with pendingLiqAddQty := ledger }, held) ∧
      ∀ other, qtyAt ledger other = 0 := by
  by_cases none : held = 0
  · rw [if_pos none] at only
    refine ⟨.empty, ?_, fun _ => rfl⟩
    rw [none, ← only]
    exact matchPendingLiqAdd_empty only quantity price
  · rw [if_neg none] at only
    by_cases same : price = key
    · subst same
      exact ⟨.empty, matchPendingLiqAdd_atLimit only fits, fun _ => rfl⟩
    · obtain rfl : held = quantity := by tauto
      refine ⟨onlyPending key 0, matchPendingLiqAdd_drained only reaches same, fun other => ?_⟩
      rw [onlyPending, qtyAt_insert]
      split <;> rfl

end BookSide

namespace SmartOrderBook

omit [LinearOrder P] in
theorem tradesOf_execEvents {isSell : Bool} (taken : List (Order P × ℤ)) :
    tradesOf (execEvents isSell taken) = taken.map fun piece => ⟨piece.2, piece.1.price⟩ := by
  simp [tradesOf, execEvents, List.filter_map, Function.comp_def]

variable {book state next : SmartOrderBook P} {isSell : Bool} {key : P}
  {level : L3PriceLevel P} {ahead piece : ℤ}

/-! ### Trades that come first -/

/-- The state after trades of `ahead` at the best price `key` of the other side, with
the order of side `isSell` still to come. -/
structure TradedAhead (slack : Set ℤ) (book : SmartOrderBook P) (isSell : Bool) (key : P)
    (ahead : ℤ) (state : SmartOrderBook P) : Prop where
  valid : state.Valid slack
  other_levels : (state.sides (!isSell)).levels =
    ((book.sides (!isSell)).fillLevel key ahead).levels
  own_levels : (state.sides isSell).levels = (book.sides isSell).levels
  no_remove : ∀ side, (state.sides side).pendingLiqRemoveQty = .empty
  other_add : (state.sides (!isSell)).pendingLiqAddQty = .empty
  own_add : (state.sides isSell).pendingLiqAddQty =
    if ahead = 0 then .empty else BookSide.onlyPending key ahead

theorem priceComparator_not {lhs rhs : P} :
    PriceComparator (!isSell) lhs rhs ↔ PriceComparator isSell rhs lhs := by
  cases isSell <;> exact Iff.rfl

/-- The side of an order has no level at the best price of the other side, and no
better one. -/
theorem Uncrossed.own_apart (uncrossed : book.Uncrossed)
    (found : (book.sides (!isSell)).levels.find? key = some level) :
    (book.sides isSell).levels.find? key = none ∧ (book.sides isSell).NoneBetter key := by
  have present : (book.sides (!isSell)).existLevel key = true :=
    BookSide.existLevel_iff.mpr ⟨level, found⟩
  have apart : ∀ other, (book.sides isSell).existLevel other = true →
      PriceComparator (!isSell) other key :=
    fun other own => (uncrossed_iff isSell).mp uncrossed own present
  constructor
  · cases ownFound : (book.sides isSell).levels.find? key with
    | none => rfl
    | some own =>
        exact (irrefl key (apart key (BookSide.existLevel_iff.mpr ⟨own, ownFound⟩))).elim
  · intro other otherPresent better
    exact asymm better (priceComparator_not.mp (apart other otherPresent))

theorem noneBetter_first (first : (book.sides isSell).levels.begin? = some (key, level)) :
    (book.sides isSell).NoneBetter key := by
  intro other present
  obtain ⟨otherLevel, found⟩ := BookSide.existLevel_iff.mp present
  exact BookSide.not_better_first first found

theorem TradedAhead.start (valid : book.Valid slack)
    (settled : ∀ side, (book.sides side).pendingLiqRemoveQty = .empty ∧
      (book.sides side).pendingLiqAddQty = .empty) (isSell : Bool) (key : P) :
    TradedAhead slack book isSell key 0 book where
  valid := valid
  other_levels := by rw [(valid (!isSell)).fillLevel_zero]
  own_levels := rfl
  no_remove side := (settled side).1
  other_add := (settled (!isSell)).2
  own_add := by rw [if_pos rfl, (settled isSell).2]

/-- Filling the best level of one side puts no price before it on either side. -/
theorem Uncrossed.noneBetter (uncrossed : book.Uncrossed) (valid : book.Valid slack)
    (first : (book.sides (!isSell)).levels.begin? = some (key, level)) {qty : ℤ}
    (ownLevels : (state.sides isSell).levels = (book.sides isSell).levels)
    (otherLevels : (state.sides (!isSell)).levels =
      ((book.sides (!isSell)).fillLevel key qty).levels) :
    ∀ side, (state.sides side).NoneBetter key := by
  refine forall_side isSell ?_ ?_
  · exact (uncrossed.own_apart (SortedMap.find?_of_begin? first)).2.of_narrows
      (BookSide.Narrows.of_levels ownLevels)
  · apply (noneBetter_first first).of_narrows
    exact BookSide.Narrows.trans (BookSide.Narrows.of_levels otherLevels)
      ((valid (!isSell)).fillLevel_narrows key qty)

/-- The trades of an order that is executed in price-time priority. -/
def executions (book : SmartOrderBook P) (msg : OrderMessage P) : List (TradeMessage P) :=
  tradesOf (book.crossEvents msg msg.quantity)

theorem Valid.executions_best (valid : book.Valid slack) {msg : OrderMessage P}
    (first : (book.sides (!msg.isSell)).levels.begin? = some (key, level))
    (crosses : BookSide.Crosses (!msg.isSell) msg.price key) (pos : 0 < msg.quantity)
    (enough : msg.quantity ≤ totalRemaining ((book.sides (!msg.isSell)).ordersAt key)) :
    book.executions msg = (fills msg.quantity
      ((book.sides (!msg.isSell)).ordersAt key)).map fun piece => ⟨piece.2, piece.1.price⟩ := by
  rw [executions, crossEvents, tradesOf_execEvents,
    ((valid (!msg.isSell)).fills_best first crosses pos.le enough).1]

/-- The first trades of an order that the best level fills. -/
theorem Valid.executions_take (valid : book.Valid slack) {msg : OrderMessage P}
    (first : (book.sides (!msg.isSell)).levels.begin? = some (key, level))
    (crosses : BookSide.Crosses (!msg.isSell) msg.price key) (pos : 0 < msg.quantity)
    (enough : msg.quantity ≤ totalRemaining ((book.sides (!msg.isSell)).ordersAt key))
    (early : ℕ) :
    (∀ trade ∈ (book.executions msg).take early, 0 < trade.quantity ∧ trade.price = key) ∧
      ((book.executions msg).take early).map TradeMessage.quantity =
        ((fills msg.quantity ((book.sides (!msg.isSell)).ordersAt key)).take early).map
          Prod.snd := by
  have tradesEq := valid.executions_best first crosses pos enough
  constructor
  · intro trade mem
    rw [tradesEq] at mem
    obtain ⟨piece, pieceMem, rfl⟩ := List.mem_map.mp (List.mem_of_mem_take mem)
    exact (valid (!msg.isSell)).fills_at pos.le pieceMem
  · rw [tradesEq, ← List.map_take, List.map_map]
    rfl

/-- The trades after them are those of what the first ones leave of the level. -/
theorem Valid.executions_drop (valid : book.Valid slack) {msg : OrderMessage P}
    (first : (book.sides (!msg.isSell)).levels.begin? = some (key, level))
    (crosses : BookSide.Crosses (!msg.isSell) msg.price key) (pos : 0 < msg.quantity)
    (enough : msg.quantity ≤ totalRemaining ((book.sides (!msg.isSell)).ordersAt key))
    (early : ℕ) {ahead : ℤ} {events : OrderInfoVec P}
    (aheadEq : (((fills msg.quantity ((book.sides (!msg.isSell)).ordersAt key)).take early).map
      Prod.snd).sum = ahead)
    (eventsEq : events = execEvents (!msg.isSell) (fills (msg.quantity - ahead)
      (fillFront ahead ((book.sides (!msg.isSell)).ordersAt key)))) :
    (book.executions msg).drop early = tradesOf events ∧
      ∀ e ∈ events, 0 < e.quantity ∧ e.event = .exec ∧ e.price = key := by
  have laterEq : (fills msg.quantity ((book.sides (!msg.isSell)).ordersAt key)).drop early =
      fills (msg.quantity - ahead)
        (fillFront ahead ((book.sides (!msg.isSell)).ordersAt key)) := by
    rw [← aheadEq]
    exact QueueFill.pieces_drop Order.lawful ((valid (!msg.isSell)).allRemain key) pos.le early
  rw [← laterEq] at eventsEq
  constructor
  · rw [valid.executions_best first crosses pos enough, eventsEq, tradesOf_execEvents,
      List.map_drop]
  · intro e mem
    rw [eventsEq] at mem
    obtain ⟨piece, pieceMem, rfl⟩ := List.mem_map.mp mem
    obtain ⟨piecePos, priceEq⟩ :=
      (valid (!msg.isSell)).fills_at pos.le (List.mem_of_mem_drop pieceMem)
    exact ⟨piecePos, rfl, priceEq⟩

/-- The best level of the other side crosses an order that can be filled. -/
theorem exists_crossed {msg : OrderMessage P} (pos : 0 < msg.quantity)
    (filled : msg.quantity ≤ book.crossingTotal msg) :
    ∃ key level, (book.sides (!msg.isSell)).levels.begin? = some (key, level) ∧
      BookSide.Crosses (!msg.isSell) msg.price key := by
  by_contra none
  push Not at none
  have nothing := (BookSide.crossingOrders_eq_nil fun first => none _ _ first).1
  rw [crossingTotal, nothing] at filled
  exact absurd (pos.trans_le filled) (lt_irrefl 0)

variable [Zero P]

/-- One more trade ahead of the order. -/
theorem TradedAhead.trade (ahead_ : TradedAhead slack book isSell key ahead state)
    (bookValid : book.Valid slack) (uncrossed : book.Uncrossed)
    (first : (book.sides (!isSell)).levels.begin? = some (key, level))
    (nonneg : 0 ≤ ahead) (pos : 0 < piece)
    (enough : ahead + piece ≤ totalRemaining ((book.sides (!isSell)).ordersAt key))
    {events : OrderInfoVec P}
    (returns : Returns (fun fuel => state.processTradeMessage fuel ⟨piece, key⟩)
      (next, events)) :
    TradedAhead slack book isSell key (ahead + piece) next := by
  obtain ⟨sideEvents, -, outcome⟩ := ahead_.valid.tradeOutcome pos.le returns
  have noneBetter := uncrossed.noneBetter bookValid first ahead_.own_levels ahead_.other_levels
  have traded := fun side => (outcome side).levels_of_unexpected (noneBetter side) pos.le
    (ahead_.no_remove side)
  have otherOrders : (state.sides (!isSell)).ordersAt key =
      fillFront ahead ((book.sides (!isSell)).ordersAt key) := by
    rw [BookSide.ordersAt_putOrders ahead_.other_levels, if_pos rfl]
  have otherEnough : ¬ totalRemaining ((state.sides (!isSell)).ordersAt key) < piece := by
    rw [otherOrders, totalRemaining_fillFront ((bookValid (!isSell)).allRemain key) nonneg]
    omega
  have ownAbsent : (state.sides isSell).levels.find? key = none := by
    rw [ahead_.own_levels, (uncrossed.own_apart (SortedMap.find?_of_begin? first)).1]
  have ownOrders : (state.sides isSell).ordersAt key = [] := BookSide.ordersAt_of_none ownAbsent
  refine ⟨fun side => (outcome side).valid, ?_, ?_, fun side => (traded side).2.1, ?_, ?_⟩
  · rw [(traded (!isSell)).1]
    exact BookSide.fillLevel_add ((bookValid (!isSell)).allRemain key) nonneg pos.le
      ahead_.other_levels
  · have unfilled := (ahead_.valid isSell).linked.fillLevel_of_nil ownOrders piece
    rw [(traded isSell).1]
    exact (congrArg BookSide.levels unfilled).trans ahead_.own_levels
  · rw [(traded (!isSell)).2.2]
    exact (if_neg otherEnough).trans ahead_.other_add
  · have more : totalRemaining ((state.sides isSell).ordersAt key) < piece := by
      rw [ownOrders]
      exact pos
    rw [(traded isSell).2.2]
    apply (if_pos more).trans
    change credit _ key (piece - totalRemaining ((state.sides isSell).ordersAt key)) = _
    have some : ¬ ahead + piece = 0 := by omega
    rw [ownOrders, ahead_.own_add, if_neg some]
    split
    · next none =>
        subst none
        simp [credit, BookSide.onlyPending, totalRemaining]
    · simp [credit, BookSide.onlyPending, SortedMap.insert_insert, totalRemaining]

/-- All trades that come before the order. -/
theorem TradedAhead.run (ahead_ : TradedAhead slack book isSell key ahead state)
    (bookValid : book.Valid slack) (uncrossed : book.Uncrossed)
    (first : (book.sides (!isSell)).levels.begin? = some (key, level)) (nonneg : 0 ≤ ahead)
    (trades : List (TradeMessage P)) (atKey : ∀ msg ∈ trades, 0 < msg.quantity ∧ msg.price = key)
    (enough : ahead + (trades.map TradeMessage.quantity).sum ≤
      totalRemaining ((book.sides (!isSell)).ordersAt key)) :
    ∃ next, Run MessageStep state (trades.map Message.trade) next ∧
      TradedAhead slack book isSell key
        (ahead + (trades.map TradeMessage.quantity).sum) next := by
  induction trades generalizing state ahead with
  | nil => exact ⟨state, Run.start, by simpa using ahead_⟩
  | cons msg trades ih =>
      obtain ⟨quantity, price⟩ := msg
      obtain ⟨pos, priceEq⟩ := atKey _ List.mem_cons_self
      obtain rfl : price = key := priceEq
      have laterAtKey : ∀ msg ∈ trades, 0 < msg.quantity ∧ msg.price = price :=
        fun msg mem => atKey msg (List.mem_cons_of_mem _ mem)
      have laterNonneg : 0 ≤ (trades.map TradeMessage.quantity).sum :=
        QueueFill.sum_map_nonneg fun msg mem => (laterAtKey msg mem).1.le
      simp only [List.map_cons, List.sum_cons, ← add_assoc] at enough pos ⊢
      obtain ⟨following, events, returns, -⟩ :=
        ahead_.valid.processTradeMessage_returns ⟨quantity, price⟩ pos.le
      have ahead_ := ahead_.trade bookValid uncrossed first nonneg pos (by omega) returns
      obtain ⟨next, run, reached⟩ := ih ahead_ (by omega) laterAtKey enough
      exact ⟨next, Run.cons ⟨_, returns⟩ run, reached⟩

/-! ### The order and the trades after it -/

/-- The state after the order, when `ahead` of it was traded before. -/
theorem TradedAhead.add {msg : OrderMessage P} {ledger : SortedMap P ℤ (PriceComparator msg.isSell)}
    (ahead_ : TradedAhead slack book msg.isSell key ahead state) (bookValid : book.Valid slack)
    (first : (book.sides (!msg.isSell)).levels.begin? = some (key, level))
    (crosses : BookSide.Crosses (!msg.isSell) msg.price key) (pos : 0 < msg.quantity)
    (nonneg : 0 ≤ ahead) (fits : ahead ≤ msg.quantity)
    (enough : msg.quantity ≤ totalRemaining ((book.sides (!msg.isSell)).ordersAt key))
    (absorbed : Returns (fun fuel => (state.sides msg.isSell).matchPendingLiqAdd fuel
      msg.quantity msg.price)
        ({ state.sides msg.isSell with pendingLiqAddQty := ledger }, ahead)) :
    ∃ after events,
      Returns (fun fuel => state.processOrderAddMessage fuel msg) (after, events) ∧
      events = execEvents (!msg.isSell) (fills (msg.quantity - ahead)
        (fillFront ahead ((book.sides (!msg.isSell)).ordersAt key))) ∧
      (after.sides (!msg.isSell)).levels =
        ((book.sides (!msg.isSell)).fillLevel key msg.quantity).levels ∧
      (after.sides msg.isSell).levels = (book.sides msg.isSell).levels ∧
      (∀ side, (after.sides side).pendingLiqRemoveQty = creditEvents .empty events) ∧
      (after.sides (!msg.isSell)).pendingLiqAddQty = .empty ∧
      (after.sides msg.isSell).pendingLiqAddQty = ledger := by
  obtain ⟨after, events, returns, outcome⟩ :=
    ahead_.valid.processOrderAddMessage_returns pos absorbed
  have remain := (bookValid (!msg.isSell)).allRemain key
  have ordersEq : (state.sides (!msg.isSell)).ordersAt key =
      fillFront ahead ((book.sides (!msg.isSell)).ordersAt key) := by
    rw [BookSide.ordersAt_putOrders ahead_.other_levels, if_pos rfl]
  have leftEnough : msg.quantity - ahead ≤
      totalRemaining ((state.sides (!msg.isSell)).ordersAt key) := by
    rw [ordersEq, totalRemaining_fillFront remain nonneg]
    omega
  have leftFirst : msg.quantity - ahead ≠ 0 →
      ∃ left, (state.sides (!msg.isSell)).levels.begin? = some (key, left) := by
    intro some
    rw [ahead_.other_levels]
    exact BookSide.begin?_fillLevel first nonneg (by omega)
  obtain ⟨fillsEq, total, levelsEq⟩ := outcome.crossed.fillLevel_best
    (ahead_.valid (!msg.isSell)) crosses (by omega) leftFirst leftEnough
  obtain ⟨ownEq, eventsEq⟩ := outcome.filled total
  have removed : ∀ side, (after.sides side).pendingLiqRemoveQty = creditEvents .empty events := by
    rw [eventsEq]
    refine forall_side msg.isSell ?_ ?_
    · rw [ownEq]
      exact congrArg (creditEvents · _) (ahead_.no_remove msg.isSell)
    · rw [outcome.crossed.remove_eq, ahead_.no_remove]
  refine ⟨after, events, returns, ?_, ?_, ?_, removed, ?_, ?_⟩
  · rw [eventsEq, crossEvents, fillsEq, ordersEq]
  · rw [levelsEq, BookSide.fillLevel_add remain nonneg (by omega) ahead_.other_levels]
    congr 2
    omega
  · rw [ownEq]
    exact ahead_.own_levels
  · rw [outcome.crossed.add_eq, ahead_.other_add]
  · rw [ownEq]
    rfl

/-! ### All interleavings -/

/-- The order after the first `early` of its trades. -/
def interleaving (msg : OrderMessage P) (trades : List (TradeMessage P)) (early : ℕ) :
    List (Message P) :=
  (trades.take early).map .trade ++ .add msg :: (trades.drop early).map .trade

/-- Wherever the order comes between its trades, all messages are processed, the
levels and the id maps are the same in the end, and no quantity is left pending. -/
def Confluent (book : SmartOrderBook P) (msg : OrderMessage P)
    (trades : List (TradeMessage P)) : Prop :=
  ∃ agreed : SmartOrderBook P, ∀ early ≤ trades.length,
    ∃ final, Run MessageStep book (interleaving msg trades early) final ∧
      ∀ side,
        (final.sides side).levels = (agreed.sides side).levels ∧
        (final.sides side).orderMap = (agreed.sides side).orderMap ∧
        ∀ price, qtyAt (final.sides side).pendingLiqRemoveQty price = 0 ∧
          qtyAt (final.sides side).pendingLiqAddQty price = 0

omit [Zero P] in
theorem Valid.withRemovals_empty (valid : book.Valid slack) :
    (book.withRemovals fun _ => .empty).Valid slack :=
  fun side => (valid side).congr rfl rfl
    ⟨fun _ _ found => by simp [withRemovals] at found, (valid side).ledgers.add_nonneg⟩

/-- Executions at a price that no level improves are settled by their trades. -/
theorem Valid.replay_at (valid : book.Valid slack) {events : OrderInfoVec P}
    (eventsAt : ∀ e ∈ events, 0 < e.quantity ∧ e.event = .exec ∧ e.price = key)
    (none : ∀ side, (book.sides side).NoneBetter key)
    (credited : ∀ side, (book.sides side).pendingLiqRemoveQty = creditEvents .empty events) :
    Run SilentTrade book (tradesOf events) (book.withRemovals fun _ => .empty) := by
  apply valid.replay _ _ _ _ credited
  · intro e mem
    exact (eventsAt e mem).1
  · intro e mem
    exact (eventsAt e mem).2.1
  · intro e mem side
    rw [(eventsAt e mem).2.2]
    exact none side
  · intro side price qty found
    simp at found

/-- An order that the best level fills, after trades of `ahead`: when the absorption
leaves nothing, the rest of the trades is swallowed. -/
theorem Valid.interleaving_returns (valid : book.Valid slack) (zeroMem : 0 ∈ slack)
    (uncrossed : book.Uncrossed)
    (settled : ∀ side, (book.sides side).pendingLiqRemoveQty = .empty ∧
      (book.sides side).pendingLiqAddQty = .empty) {msg : OrderMessage P}
    (first : (book.sides (!msg.isSell)).levels.begin? = some (key, level))
    (crosses : BookSide.Crosses (!msg.isSell) msg.price key) (pos : 0 < msg.quantity)
    (enough : msg.quantity ≤ totalRemaining ((book.sides (!msg.isSell)).ordersAt key))
    (early : ℕ)
    (whole : msg.price = key ∨
      (((book.executions msg).take early).map TradeMessage.quantity).sum = 0 ∨
      (((book.executions msg).take early).map TradeMessage.quantity).sum = msg.quantity) :
    ∃ final, Run MessageStep book (interleaving msg (book.executions msg) early) final ∧
      final.Valid slack ∧
      (final.sides (!msg.isSell)).levels =
        ((book.sides (!msg.isSell)).fillLevel key msg.quantity).levels ∧
      (final.sides msg.isSell).levels = (book.sides msg.isSell).levels ∧
      ∀ side price, qtyAt (final.sides side).pendingLiqRemoveQty price = 0 ∧
        qtyAt (final.sides side).pendingLiqAddQty price = 0 := by
  have remain := (valid (!msg.isSell)).allRemain key
  obtain ⟨tradesAt, aheadEq⟩ := valid.executions_take first crosses pos enough early
  obtain ⟨aheadNonneg, aheadLe⟩ := QueueFill.sum_take_pieces remain pos.le early
  generalize sumEq : (((fills msg.quantity ((book.sides (!msg.isSell)).ordersAt key)).take
    early).map Prod.snd).sum = ahead at aheadNonneg aheadLe
  rw [aheadEq, sumEq] at whole
  -- the trades before the order
  obtain ⟨state, tradesRun, ahead_⟩ := (TradedAhead.start valid settled msg.isSell key).run valid
    uncrossed first le_rfl _ tradesAt (by rw [aheadEq]; omega)
  rw [aheadEq, sumEq, zero_add] at ahead_
  -- the order itself
  have reaches : BookSide.Reaches msg.isSell msg.price key :=
    fun better => crosses (priceComparator_not.mpr better)
  obtain ⟨ledger, absorbed, noLedger⟩ := BookSide.absorbs ahead_.own_add aheadLe reaches whole
  obtain ⟨after, events, returns, eventsEq, otherLevels, ownLevels, removed, otherAdd, ownAdd⟩ :=
    ahead_.add valid first crosses pos aheadNonneg aheadLe enough absorbed
  have afterValid := ahead_.valid.processOrderAddMessage zeroMem pos returns
  -- the trades after it
  obtain ⟨dropEq, eventsAt⟩ :=
    valid.executions_drop first crosses pos enough early sumEq eventsEq
  have replayed := afterValid.replay_at eventsAt
    (uncrossed.noneBetter valid first ownLevels otherLevels) removed
  refine ⟨after.withRemovals fun _ => .empty, ?_, afterValid.withRemovals_empty, otherLevels,
    ownLevels, ?_⟩
  · refine tradesRun.append (Run.cons ⟨events, returns⟩ ?_)
    rw [dropEq]
    exact replayed.map Message.trade fun silent => ⟨[], silent⟩
  · refine forall_side msg.isSell (fun price => ⟨rfl, ?_⟩) (fun price => ⟨rfl, ?_⟩)
    · exact (congrArg (qtyAt · price) ownAdd).trans (noLedger price)
    · exact congrArg (qtyAt · price) otherAdd

/-- An order that is not at the best price, after a first trade that leaves some of it:
it is never absorbed. -/
theorem TradedAhead.diverges {msg : OrderMessage P}
    (ahead_ : TradedAhead slack book msg.isSell key ahead state)
    (crosses : BookSide.Crosses (!msg.isSell) msg.price key) (different : msg.price ≠ key)
    (aheadPos : 0 < ahead) (short : ahead < msg.quantity) :
    ¬ state.MessageStep (.add msg) next := by
  rintro ⟨events, returns⟩
  obtain ⟨own, matched, ⟨fuel, absorbed⟩, -⟩ :=
    ahead_.valid.addOutcome (aheadPos.trans short) returns
  have only := ahead_.own_add
  rw [if_neg aheadPos.ne'] at only
  have reaches : BookSide.Reaches msg.isSell msg.price key :=
    fun better => crosses (priceComparator_not.mpr better)
  have never :=
    BookSide.matchPendingLiqAdd_diverges only reaches different aheadPos.le short fuel
  have impossible := never.symm.trans absorbed
  cases impossible

/-- An order that goes beyond the first order of the best level, with a limit that is not
the best price, does not return after its first trade. -/
theorem Valid.not_confluent (valid : book.Valid slack) (uncrossed : book.Uncrossed)
    (settled : ∀ side, (book.sides side).pendingLiqRemoveQty = .empty ∧
      (book.sides side).pendingLiqAddQty = .empty) {msg : OrderMessage P}
    (first : (book.sides (!msg.isSell)).levels.begin? = some (key, level))
    (crosses : BookSide.Crosses (!msg.isSell) msg.price key) (different : msg.price ≠ key)
    {order : Order P} {others : List (Order P)} (ordersEq : level.orders = order :: others)
    (short : order.getRemainingQuantity < msg.quantity) :
    ¬ book.Confluent msg (book.executions msg) := by
  rintro ⟨agreed, same⟩
  have found := SortedMap.find?_of_begin? first
  have atKey := BookSide.ordersAt_of_find? found
  rw [ordersEq] at atKey
  have remain := (valid (!msg.isSell)).allRemain key
  rw [atKey] at remain
  have orderPos : 0 < order.getRemainingQuantity := remain.head
  have othersNonneg : 0 ≤ totalRemaining others := remain.tail.total_nonneg
  have priceEq : order.price = key :=
    ((valid (!msg.isSell)).linked.level found).order_price order (by simp [ordersEq])
  obtain ⟨entries, entriesEq⟩ := SortedMap.begin?_eq_some_iff.mp first
  have executionsEq : ∃ later, book.executions msg = ⟨order.getRemainingQuantity, key⟩ :: later := by
    have taken : min msg.quantity order.getRemainingQuantity = order.getRemainingQuantity := by
      omega
    rw [executions, crossEvents, BookSide.crossingOrders_first entriesEq crosses, ordersEq,
      List.cons_append, fills_cons _ _ (by omega), taken, tradesOf_execEvents, List.map_cons,
      priceEq]
    exact ⟨_, rfl⟩
  obtain ⟨later, executionsEq⟩ := executionsEq
  obtain ⟨final, run, -⟩ := same 1 (by simp [executionsEq])
  rw [executionsEq] at run
  obtain ⟨state, ⟨events, traded⟩, run⟩ := Run.of_cons run
  obtain ⟨next, added, -⟩ := Run.of_cons run
  have ahead_ := (TradedAhead.start valid settled msg.isSell key).trade valid uncrossed first
    le_rfl orderPos (by rw [atKey, totalRemaining_cons]; omega) traded
  rw [zero_add] at ahead_
  exact ahead_.diverges crosses different orderPos short added

/-- An order that the best level fills, when what is traded before the order is absorbed
without rest. -/
theorem Valid.confluent (valid : book.Valid slack) (zeroMem : 0 ∈ slack)
    (uncrossed : book.Uncrossed)
    (settled : ∀ side, (book.sides side).pendingLiqRemoveQty = .empty ∧
      (book.sides side).pendingLiqAddQty = .empty) {msg : OrderMessage P}
    (pos : 0 < msg.quantity)
    (first : (book.sides (!msg.isSell)).levels.begin? = some (key, level))
    (crosses : BookSide.Crosses (!msg.isSell) msg.price key)
    (enough : msg.quantity ≤ totalRemaining ((book.sides (!msg.isSell)).ordersAt key))
    (whole : ∀ early, msg.price = key ∨
      (((book.executions msg).take early).map TradeMessage.quantity).sum = 0 ∨
      (((book.executions msg).take early).map TradeMessage.quantity).sum = msg.quantity) :
    book.Confluent msg (book.executions msg) := by
  let agreed := book.setSide (!msg.isSell)
    ((book.sides (!msg.isSell)).fillLevel key msg.quantity)
  have agreedValid : agreed.Valid slack := by
    refine forall_side (!msg.isSell) ?_ ?_
    · rw [sides_setSide_self]
      exact (valid (!msg.isSell)).fillLevel (SortedMap.find?_of_begin? first) pos.le
    · rw [sides_setSide_not]
      exact valid (!!msg.isSell)
  refine ⟨agreed, fun early _ => ?_⟩
  obtain ⟨final, run, finalValid, otherLevels, ownLevels, nothing⟩ :=
    valid.interleaving_returns zeroMem uncrossed settled first crosses pos enough early
      (whole early)
  have levelsEq : ∀ side, (final.sides side).levels = (agreed.sides side).levels := by
    refine forall_side msg.isSell ?_ ?_
    · rw [ownLevels, sides_setSide_of_not]
    · rw [otherLevels, sides_setSide_self]
  refine ⟨final, run, fun side => ⟨levelsEq side, ?_, nothing side⟩⟩
  apply (finalValid side).linked.orderMap_eq (agreedValid side).linked
  intro price
  rw [BookSide.ordersAt, levelsEq side, BookSide.ordersAt]

/-- An order that the first order of the best level fills has one execution. -/
theorem Valid.confluent_of_front (valid : book.Valid slack) (zeroMem : 0 ∈ slack)
    (uncrossed : book.Uncrossed)
    (settled : ∀ side, (book.sides side).pendingLiqRemoveQty = .empty ∧
      (book.sides side).pendingLiqAddQty = .empty) {msg : OrderMessage P}
    (pos : 0 < msg.quantity)
    (first : (book.sides (!msg.isSell)).levels.begin? = some (key, level))
    (crosses : BookSide.Crosses (!msg.isSell) msg.price key) {order : Order P}
    {others : List (Order P)} (ordersEq : level.orders = order :: others)
    (enough : msg.quantity ≤ order.getRemainingQuantity) :
    book.Confluent msg (book.executions msg) := by
  have atKey := BookSide.ordersAt_of_find? (SortedMap.find?_of_begin? first)
  rw [ordersEq] at atKey
  have remain := (valid (!msg.isSell)).allRemain key
  rw [atKey] at remain
  have othersNonneg : 0 ≤ totalRemaining others := remain.tail.total_nonneg
  have levelEnough : msg.quantity ≤ totalRemaining ((book.sides (!msg.isSell)).ordersAt key) := by
    rw [atKey, totalRemaining_cons]
    omega
  have single : book.executions msg = [⟨msg.quantity, order.price⟩] := by
    rw [valid.executions_best first crosses pos levelEnough, atKey, fills_cons _ _ pos.ne',
      min_eq_left enough, sub_self, fills_zero]
    rfl
  apply valid.confluent zeroMem uncrossed settled pos first crosses levelEnough
  intro early
  rw [single]
  cases early with
  | zero => exact Or.inr (Or.inl rfl)
  | succ early => exact Or.inr (Or.inr (by simp))

end SmartOrderBook

/-- An order that the other side can fill gives the same book wherever it comes between
its trades exactly when its limit is the best price, or the first order of the best level
fills it. -/
theorem confluent_iff_limit_or_first [Zero P] {book : SmartOrderBook P}
    (reachable : book.Reachable) (uncrossed : book.Uncrossed)
    (settled : ∀ side, (book.sides side).pendingLiqRemoveQty = .empty ∧
      (book.sides side).pendingLiqAddQty = .empty)
    {msg : OrderMessage P} (pos : 0 < msg.quantity)
    (filled : msg.quantity ≤ book.crossingTotal msg) :
    book.Confluent msg (book.executions msg) ↔
      ∃ key level, (book.sides (!msg.isSell)).levels.begin? = some (key, level) ∧
        (msg.price = key ∨ ∃ order, level.orders.head? = some order ∧
          msg.quantity ≤ order.getRemainingQuantity) := by
  have valid := reachable.valid
  obtain ⟨key, level, first, crosses⟩ := SmartOrderBook.exists_crossed pos filled
  have found := SortedMap.find?_of_begin? first
  have ordersEq := BookSide.ordersAt_of_find? found
  obtain ⟨order, others, splitOrders⟩ :=
    List.exists_cons_of_ne_nil ((valid (!msg.isSell)).linked.level found).nonempty
  constructor
  · intro confluent
    refine ⟨key, level, first, ?_⟩
    by_contra neither
    push Not at neither
    obtain ⟨different, beyond⟩ := neither
    exact valid.not_confluent uncrossed settled first crosses different splitOrders
      (beyond order (by rw [splitOrders]; rfl)) confluent
  · rintro ⟨best, bestLevel, bestFirst, limit | ⟨front, frontFirst, enough⟩⟩
    · rw [first] at bestFirst
      cases bestFirst
      rw [SmartOrderBook.crossingTotal, limit, BookSide.crossingOrders_atFirst first,
        ← ordersEq] at filled
      exact valid.confluent BookSide.zero_mem_nonneg uncrossed settled pos first crosses filled
        fun _ => Or.inl limit
    · rw [first] at bestFirst
      cases bestFirst
      rw [splitOrders] at frontFirst
      cases frontFirst
      exact valid.confluent_of_front BookSide.zero_mem_nonneg uncrossed settled pos first crosses
        splitOrders enough

/-- Two asks at the same price. -/
def twoAskMessages : List (Message ℤ) :=
  [.add ⟨.add, 1, true, 10, 101⟩, .add ⟨.add, 2, true, 10, 101⟩]

def twoAskBook : SmartOrderBook ℤ :=
  ((SmartOrderBook.empty.processAll 9 twoAskMessages).toOption).getD .empty

/-- A buy order at the price of two asks agrees with its two trades in any order. -/
theorem confluent_of_limit :
    twoAskBook.Confluent ⟨.add, 3, false, 20, 101⟩
      (twoAskBook.executions ⟨.add, 3, false, 20, 101⟩) := by
  have run : Run SmartOrderBook.MessageStep .empty twoAskMessages twoAskBook :=
    SmartOrderBook.run_of_processAll 9 rfl
  have uncrossed : twoAskBook.Uncrossed :=
    SmartOrderBook.uncrossed_iff_lt.mpr fun present => nomatch (show false = true from present)
  refine (confluent_iff_limit_or_first ⟨twoAskMessages, run, by decide⟩ uncrossed
    (fun side => by cases side <;> exact ⟨rfl, rfl⟩) (by decide) (by decide)).mpr ?_
  exact ⟨101, _, rfl, Or.inl rfl⟩

/-- Two asks at different prices. -/
def ladderMessages : List (Message ℤ) :=
  [.add ⟨.add, 1, true, 10, 101⟩, .add ⟨.add, 2, true, 10, 102⟩]

def ladderBook : SmartOrderBook ℤ :=
  ((SmartOrderBook.empty.processAll 9 ladderMessages).toOption).getD .empty

/-- A buy order that sweeps both asks does not return between its two trades. -/
theorem sweep_not_confluent :
    ladderBook.Reachable ∧ ladderBook.Uncrossed ∧
      (∀ side, (ladderBook.sides side).pendingLiqRemoveQty = .empty ∧
        (ladderBook.sides side).pendingLiqAddQty = .empty) ∧
      ladderBook.existOrder 3 = false ∧
      20 ≤ ladderBook.crossingTotal ⟨.add, 3, false, 20, 103⟩ ∧
      ladderBook.executions ⟨.add, 3, false, 20, 103⟩ = [⟨10, 101⟩, ⟨10, 102⟩] ∧
      ¬ ladderBook.Confluent ⟨.add, 3, false, 20, 103⟩ [⟨10, 101⟩, ⟨10, 102⟩] := by
  have run : Run SmartOrderBook.MessageStep .empty ladderMessages ladderBook :=
    SmartOrderBook.run_of_processAll 9 rfl
  have reachable : ladderBook.Reachable := ⟨ladderMessages, run, by decide⟩
  have uncrossed : ladderBook.Uncrossed :=
    SmartOrderBook.uncrossed_iff_lt.mpr fun present => nomatch (show false = true from present)
  have settled : ∀ side, (ladderBook.sides side).pendingLiqRemoveQty = .empty ∧
      (ladderBook.sides side).pendingLiqAddQty = .empty := by
    intro side
    cases side <;> exact ⟨rfl, rfl⟩
  have executed : ladderBook.executions ⟨.add, 3, false, 20, 103⟩ = [⟨10, 101⟩, ⟨10, 102⟩] := by
    decide
  refine ⟨reachable, uncrossed, settled, by decide, by decide, executed, ?_⟩
  rw [← executed]
  exact reachable.valid.not_confluent uncrossed settled rfl (by decide) (by decide) rfl (by decide)

end OrderBook
