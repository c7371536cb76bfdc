import OrderBook.Uncrossed

/-!
# Expected trades

When the order stream leads, the trades of an uncrossed order are expected: both
sides hold their quantity as a pending removal.  An expected trade is swallowed
exactly when no level is better than its price, because the implicit cancels of
`processTrade` do not look at what the ledger has matched.  The trades of an
order that was just uncrossed meet no better level, so replaying them settles the
ledgers and changes nothing else.
-/

namespace OrderBook

open FueledLoop InputRun

variable {P : Type} [LinearOrder P] {slack : Set ℤ}

namespace BookSide

variable {isSell : Bool} {side next : BookSide P isSell}

/-- The side with `qty` less to expect at a price. -/
def settled (side : BookSide P isSell) (price : P) (qty : ℤ) : BookSide P isSell :=
  { side with pendingLiqRemoveQty := debit side.pendingLiqRemoveQty price qty }

/-- No level is better than a price. -/
def NoneBetter (side : BookSide P isSell) (price : P) : Prop :=
  ∀ key, side.existLevel key = true → ¬ PriceComparator isSell key price

theorem NoneBetter.betterLevels {price : P} (none : side.NoneBetter price) :
    side.betterLevels price = [] := by
  apply betterLevels_eq_nil
  intro key level first
  exact none key (existLevel_iff.mpr ⟨level, SortedMap.find?_of_begin? first⟩)

theorem restQty_of_expected {trade : Trade P}
    (expected : trade.quantity ≤ qtyAt side.pendingLiqRemoveQty trade.price) :
    side.restQty trade = 0 := by
  rw [restQty, min_eq_right expected, sub_self]

/-- The levels after an expected trade are those that are not better. -/
theorem TradeOutcome.levels_of_expected (valid : side.Valid slack) {trade : Trade P}
    {events : OrderInfoVec P}
    (expected : trade.quantity ≤ qtyAt side.pendingLiqRemoveQty trade.price)
    (outcome : TradeOutcome slack side trade next events) :
    next.levels = side.retainedLevels trade.price := by
  have remain := valid.allRemain trade.price
  have totalNonneg : 0 ≤ totalRemaining (side.ordersAt trade.price) := remain.total_nonneg
  rw [outcome.levels_eq, restQty_of_expected expected, fillFront_zero remain,
    min_eq_left totalNonneg, sub_zero]
  apply SortedMap.ext_find?
  intro key
  rw [find?_putOrders]
  split
  · next same =>
      subst same
      rw [find?_retainedLevels, if_neg (irrefl trade.price)]
      cases found : side.levels.find? trade.price with
      | none => rw [ordersAt_of_none found, if_pos rfl]
      | some level =>
          have some : side.ordersAt trade.price ≠ [] := by
            rw [Ne, valid.linked.ordersAt_eq_nil_iff, found]
            exact Option.some_ne_none level
          rw [if_neg some, ← find?_ofOrders valid.linked found, found]
  · rfl

/-- An expected trade with no better level is swallowed. -/
theorem TradeOutcome.swallowed (valid : side.Valid slack) {trade : Trade P}
    {events : OrderInfoVec P} (none : side.NoneBetter trade.price)
    (expected : trade.quantity ≤ qtyAt side.pendingLiqRemoveQty trade.price)
    (outcome : TradeOutcome slack side trade next events) :
    next = side.settled trade.price trade.quantity ∧ events = [] := by
  have remain := valid.allRemain trade.price
  have totalNonneg : 0 ≤ totalRemaining (side.ordersAt trade.price) := remain.total_nonneg
  have restEq := restQty_of_expected expected
  have notMore : ¬ totalRemaining (side.ordersAt trade.price) < side.restQty trade := by omega
  have levelsEq : next.levels = side.levels := by
    rw [outcome.levels_of_expected valid expected, retainedLevels_of_none none.betterLevels]
  have ordersEq : ∀ key, next.ordersAt key = side.ordersAt key := by
    intro key
    rw [ordersAt, levelsEq, ordersAt]
  have mapEq : next.orderMap = side.orderMap :=
    outcome.valid.linked.orderMap_eq valid.linked fun key => by rw [ordersEq key]
  have removeEq := outcome.remove_eq
  rw [min_eq_right expected] at removeEq
  have addEq := outcome.add_eq
  rw [if_neg notMore] at addEq
  have queueEq := outcome.queue_eq
  rw [restEq, fills_zero, usedUp_zero remain, none.betterLevels] at queueEq
  constructor
  · cases next
    simp_all [settled, cancelViews, fillViews, removalViews]
  · rw [outcome.events_eq, if_neg notMore, restEq, fills_zero, none.betterLevels]
    rfl

end BookSide

namespace SmartOrderBook

variable {book : SmartOrderBook P}

/-- The executions of an `ADD` message are at levels of the other side. -/
theorem Valid.existLevel_of_crossEvents (valid : book.Valid slack) {msg : OrderMessage P}
    {qty : ℤ} (nonneg : 0 ≤ qty) {e : OrderInfo P} (mem : e ∈ book.crossEvents msg qty) :
    (book.sides (!msg.isSell)).existLevel e.price = true := by
  obtain ⟨⟨order, piece⟩, pieceMem, rfl⟩ := List.mem_map.mp mem
  have remain := (valid (!msg.isSell)).crossing_remain msg.price
  obtain ⟨⟨key, level⟩, levelMem, orderMem⟩ :=
    List.mem_flatMap.mp (QueueFill.mem_pieces remain nonneg pieceMem).1
  have found := SortedMap.find?_eq_some_iff.mpr (List.mem_filter.mp levelMem).1
  have priceEq := ((valid (!msg.isSell)).linked.level found).order_price order orderMem
  exact BookSide.existLevel_iff.mpr ⟨level, priceEq ▸ found⟩

/-- After an `ADD` message that is filled completely, no level is better than any of
its execution prices. -/
theorem AddOutcome.noneBetter (valid : book.Valid slack) (uncrossed : book.Uncrossed)
    {msg : OrderMessage P} {own : BookSide P msg.isSell} {matched : ℤ}
    {after : SmartOrderBook P} {events : OrderInfoVec P}
    (ownLevels : own.levels = (book.sides msg.isSell).levels)
    (nonneg : 0 ≤ msg.quantity - matched)
    (filled : msg.quantity - matched ≤ book.crossingTotal msg)
    (outcome : AddOutcome slack book msg own matched after events) :
    ∀ e ∈ book.crossEvents msg (msg.quantity - matched), ∀ isSell,
      (after.sides isSell).NoneBetter e.price := by
  intro e mem
  refine forall_side msg.isSell ?_ ?_
  · intro key present better
    rw [(outcome.filled filled).1] at present
    have ownPresent : (book.sides msg.isSell).existLevel key = true := by
      rwa [BookSide.existLevel, ← ownLevels]
    have apart := (uncrossed_iff msg.isSell).mp uncrossed ownPresent
      (valid.existLevel_of_crossEvents nonneg mem)
    revert better apart
    cases msg.isSell
    · exact fun better apart => lt_asymm better apart
    · exact fun better apart => lt_asymm better apart
  · intro key present
    obtain ⟨level, found⟩ := BookSide.existLevel_iff.mp present
    exact outcome.crossed.none_better e mem found

variable [Zero P]

/-- A trade message that emits nothing and only lowers the expected removals at its
price on both sides. -/
def Swallows (book : SmartOrderBook P) (msg : TradeMessage P) : Prop :=
  ∃ final : SmartOrderBook P,
    Returns (fun fuel => book.processTradeMessage fuel msg) (final, []) ∧
    ∀ isSell,
      (final.sides isSell).levels = (book.sides isSell).levels ∧
      (final.sides isSell).orderMap = (book.sides isSell).orderMap ∧
      (final.sides isSell).pendingLiqAddQty = (book.sides isSell).pendingLiqAddQty ∧
      ∀ price, qtyAt (final.sides isSell).pendingLiqRemoveQty price =
        qtyAt (book.sides isSell).pendingLiqRemoveQty price -
          if price = msg.price then msg.quantity else 0

/-- An expected trade with no better level on either side settles its quantity. -/
theorem Valid.settles (valid : book.Valid slack) {msg : TradeMessage P}
    (nonneg : 0 ≤ msg.quantity) (none : ∀ isSell, (book.sides isSell).NoneBetter msg.price)
    (expected : ∀ isSell, msg.quantity ≤ qtyAt (book.sides isSell).pendingLiqRemoveQty msg.price) :
    Returns (fun fuel => book.processTradeMessage fuel msg)
      (⟨fun isSell => (book.sides isSell).settled msg.price msg.quantity⟩, []) := by
  obtain ⟨final, events, returns, outcome⟩ := valid.processTradeMessage_returns msg nonneg
  have swallowed := fun isSell =>
    (outcome isSell).swallowed (valid isSell) (none isSell) (expected isSell)
  have finalEq : final =
      ⟨fun isSell => (book.sides isSell).settled msg.price msg.quantity⟩ :=
    ext_sides true (swallowed true).1 (swallowed false).1
  rw [finalEq, (swallowed true).2, (swallowed false).2] at returns
  exact returns

theorem Valid.swallows_iff (valid : book.Valid slack) {msg : TradeMessage P}
    (nonneg : 0 ≤ msg.quantity)
    (expected : ∀ isSell, msg.quantity ≤ qtyAt (book.sides isSell).pendingLiqRemoveQty msg.price) :
    book.Swallows msg ↔ ∀ isSell, (book.sides isSell).NoneBetter msg.price := by
  constructor
  · rintro ⟨final, returns, unchanged⟩ isSell key present better
    obtain ⟨sideEvents, -, outcome⟩ := valid.tradeOutcome nonneg returns
    have levelsEq := (outcome isSell).levels_of_expected (valid isSell) (expected isSell)
    obtain ⟨level, found⟩ := BookSide.existLevel_iff.mp present
    have gone := BookSide.find?_retainedLevels (book.sides isSell) msg.price key
    rw [if_pos better] at gone
    rw [← (unchanged isSell).1, levelsEq] at found
    exact Option.some_ne_none level (found.symm.trans gone)
  · intro none
    exact ⟨_, valid.settles nonneg none expected, fun isSell =>
      ⟨rfl, rfl, rfl, fun price => qtyAt_debit _ _ _ _⟩⟩

/-! ### Replaying the trades of an order -/

/-- The trades that report the executions of an event list. -/
def tradesOf (events : OrderInfoVec P) : List (TradeMessage P) :=
  (events.filter fun e => e.event = OrderEvent.exec).map fun e => ⟨e.quantity, e.price⟩

/-- A trade message that emits no event. -/
def SilentTrade (book : SmartOrderBook P) (msg : TradeMessage P) (next : SmartOrderBook P) :
    Prop :=
  Returns (fun fuel => book.processTradeMessage fuel msg) (next, [])

/-- The book with other expected removals. -/
def withRemovals (book : SmartOrderBook P) (ledgers : Bool → SortedMap P ℤ (· < ·)) :
    SmartOrderBook P :=
  ⟨fun isSell => { book.sides isSell with pendingLiqRemoveQty := ledgers isSell }⟩

/-- Replaying executions that both ledgers expect, with no level better than any of
their prices, settles them one by one. -/
theorem Valid.replay (valid : book.Valid slack) {events : OrderInfoVec P}
    (eventsPos : ∀ e ∈ events, 0 < e.quantity) (executed : ∀ e ∈ events, e.event = .exec)
    (none : ∀ e ∈ events, ∀ isSell, (book.sides isSell).NoneBetter e.price)
    {base : Bool → SortedMap P ℤ (· < ·)} (basePos : ∀ isSell, PositiveLedger (base isSell))
    (credited : ∀ isSell, (book.sides isSell).pendingLiqRemoveQty =
      creditEvents (base isSell) events) :
    Run SilentTrade book (tradesOf events) (book.withRemovals base) := by
  induction events generalizing book with
  | nil =>
      obtain rfl : base = fun isSell => (book.sides isSell).pendingLiqRemoveQty :=
        funext fun isSell => (credited isSell).symm
      exact Run.start
  | cons e events ih =>
      have eExec := executed e List.mem_cons_self
      have trades : tradesOf (e :: events) = ⟨e.quantity, e.price⟩ :: tradesOf events := by
        simp [tradesOf, eExec]
      have settle := fun isSell => debit_creditEvents (basePos isSell) eExec eventsPos
      have expected : ∀ isSell,
          e.quantity ≤ qtyAt (book.sides isSell).pendingLiqRemoveQty e.price := by
        intro isSell
        rw [credited]
        exact (settle isSell).1
      have returns : book.SilentTrade ⟨e.quantity, e.price⟩ _ :=
        valid.settles (eventsPos e List.mem_cons_self).le (none e List.mem_cons_self) expected
      rw [trades]
      refine Run.cons returns (ih (fun isSell => (valid isSell).debited (expected isSell))
        (fun other mem => eventsPos other (List.mem_cons_of_mem _ mem))
        (fun other mem => executed other (List.mem_cons_of_mem _ mem))
        (fun other mem => none other (List.mem_cons_of_mem _ mem)) ?_)
      intro isSell
      rw [← (settle isSell).2, ← credited]
      rfl

end SmartOrderBook

/-- Order leads trade: once an `ADD` message has been filled by crossing, replaying its
executions as trades emits nothing, leaves the book as it is, and brings the expected
removals back to what they were before the message. -/
theorem replay_settles_ledgers [Zero P] {book : SmartOrderBook P} (reachable : book.Reachable)
    (uncrossed : book.Uncrossed) {msg : OrderMessage P} (pos : 0 < msg.quantity)
    {own : BookSide P msg.isSell} {matched : ℤ}
    (absorbed : Returns (fun fuel => (book.sides msg.isSell).matchPendingLiqAdd fuel
      msg.quantity msg.price) (own, matched))
    (filled : msg.quantity - matched ≤ book.crossingTotal msg) :
    ∃ (after : SmartOrderBook P) (events : OrderInfoVec P) (final : SmartOrderBook P),
      Returns (fun fuel => book.processOrderAddMessage fuel msg) (after, events) ∧
      Run SmartOrderBook.SilentTrade after (SmartOrderBook.tradesOf events) final ∧
      ∀ isSell,
        (final.sides isSell).levels = (after.sides isSell).levels ∧
        (final.sides isSell).orderMap = (after.sides isSell).orderMap ∧
        (final.sides isSell).pendingLiqAddQty = (after.sides isSell).pendingLiqAddQty ∧
        (final.sides isSell).l2SnapQueue = (after.sides isSell).l2SnapQueue ∧
        (final.sides isSell).pendingLiqRemoveQty =
          (book.sides isSell).pendingLiqRemoveQty := by
  have valid := reachable.valid
  obtain ⟨after, events, returns, outcome⟩ := valid.processOrderAddMessage_returns pos absorbed
  have ⟨_, _, matchedLe, ownEq⟩ :=
    (valid msg.isSell).matchPendingLiqAdd pos.le absorbed.choose_spec
  have nonneg : 0 ≤ msg.quantity - matched := by omega
  obtain ⟨ownAfter, rfl⟩ := outcome.filled filled
  have afterValid := valid.processOrderAddMessage BookSide.zero_mem_nonneg pos returns
  have credited : ∀ isSell, (after.sides isSell).pendingLiqRemoveQty =
      creditEvents (book.sides isSell).pendingLiqRemoveQty
        (book.crossEvents msg (msg.quantity - matched)) := by
    refine SmartOrderBook.forall_side msg.isSell ?_ outcome.crossed.remove_eq
    rw [ownAfter, ownEq]
    rfl
  refine ⟨after, _, after.withRemovals fun isSell => (book.sides isSell).pendingLiqRemoveQty,
    returns, ?_, fun isSell => ⟨rfl, rfl, rfl, rfl, rfl⟩⟩
  refine afterValid.replay (valid.crossEvents_pos msg nonneg) ?_
    (outcome.noneBetter valid uncrossed (by rw [ownEq]) nonneg filled)
    (fun isSell => (valid isSell).ledgers.remove_pos) credited
  intro e mem
  obtain ⟨piece, -, rfl⟩ := List.mem_map.mp mem
  rfl

/-- One resting ask. -/
def askMessages : List (Message ℤ) := [.add ⟨.add, 1, true, 10, 100⟩]

def askBook : SmartOrderBook ℤ :=
  ((SmartOrderBook.empty.processAll 9 askMessages).toOption).getD .empty

theorem replay_of_sweep_settles :
    ∃ (after : SmartOrderBook ℤ) (events : OrderInfoVec ℤ) (final : SmartOrderBook ℤ),
      Returns (fun fuel => askBook.processOrderAddMessage fuel ⟨.add, 2, false, 10, 101⟩)
        (after, events) ∧
      Run SmartOrderBook.SilentTrade after (SmartOrderBook.tradesOf events) final ∧
      ∀ isSell, (final.sides isSell).pendingLiqRemoveQty = .empty := by
  have run : Run SmartOrderBook.MessageStep .empty askMessages askBook :=
    SmartOrderBook.run_of_processAll 9 rfl
  have uncrossed : askBook.Uncrossed :=
    SmartOrderBook.uncrossed_iff_lt.mpr fun present => nomatch (show false = true from present)
  obtain ⟨after, events, final, returns, replayed, settled⟩ :=
    replay_settles_ledgers ⟨askMessages, run, by decide⟩ uncrossed
      (show 0 < (⟨.add, 2, false, 10, 101⟩ : OrderMessage ℤ).quantity by decide)
      (BookSide.matchPendingLiqAdd_empty rfl 10 101) (by decide)
  refine ⟨after, events, final, returns, replayed, fun isSell => ?_⟩
  rw [(settled isSell).2.2.2.2]
  cases isSell <;> rfl

/-- In every state that the order and trade streams lead to, an expected trade leaves
the book alone exactly when no bid level is above and no ask level is below its price. -/
theorem expectedTrade_swallowed_iff [Zero P] {messages : List (Message P)}
    {book : SmartOrderBook P} (run : Run SmartOrderBook.MessageStep .empty messages book)
    (allowed : ∀ message ∈ messages, message.Positive ∧ message.OrderOrTrade)
    {msg : TradeMessage P} (pos : 0 < msg.quantity)
    (expected : ∀ isSell,
      msg.quantity ≤ qtyAt (book.sides isSell).pendingLiqRemoveQty msg.price) :
    book.Swallows msg ↔
      (∀ bid, (book.sides false).existLevel bid = true → ¬ msg.price < bid) ∧
        ∀ ask, (book.sides true).existLevel ask = true → ¬ ask < msg.price := by
  have valid := SmartOrderBook.Reachable.valid
    ⟨messages, run, fun message mem => (allowed message mem).1⟩
  rw [valid.swallows_iff pos.le expected]
  exact ⟨fun none => ⟨none false, none true⟩,
    fun none => SmartOrderBook.forall_side false none.1 none.2⟩

/-- A bid that is filled by an ask of its quantity. -/
def matchingMessages : List (Message ℤ) :=
  [.add ⟨.add, 1, true, 10, 100⟩, .add ⟨.add, 2, false, 10, 100⟩]

def matchingBook : SmartOrderBook ℤ :=
  ((SmartOrderBook.empty.processAll 9 matchingMessages).toOption).getD .empty

theorem expectedTrade_of_matching_swallowed : matchingBook.Swallows ⟨10, 100⟩ := by
  have run : Run SmartOrderBook.MessageStep .empty matchingMessages matchingBook :=
    SmartOrderBook.run_of_processAll 9 rfl
  refine (expectedTrade_swallowed_iff run (by decide) (by decide) (by decide)).mpr ⟨?_, ?_⟩
  · exact fun bid present => nomatch (show false = true from present)
  · exact fun ask present => nomatch (show false = true from present)

/-- A bid that sweeps an ask and leaves a rest above it. -/
def restAboveMessages : List (Message ℤ) :=
  [.add ⟨.add, 1, true, 10, 100⟩, .add ⟨.add, 2, false, 20, 101⟩]

def restAboveBook : SmartOrderBook ℤ :=
  ((SmartOrderBook.empty.processAll 9 restAboveMessages).toOption).getD .empty

/-- The trade of the swept ask cancels the rest of the bid that swept it. -/
theorem expectedTrade_cancels_rest :
    Run SmartOrderBook.MessageStep .empty restAboveMessages restAboveBook ∧
      (∀ message ∈ restAboveMessages, message.Positive ∧ message.OrderOrTrade) ∧
      (∀ isSell, 10 ≤ qtyAt (restAboveBook.sides isSell).pendingLiqRemoveQty 100) ∧
      ¬ restAboveBook.Swallows ⟨10, 100⟩ := by
  have run : Run SmartOrderBook.MessageStep .empty restAboveMessages restAboveBook :=
    SmartOrderBook.run_of_processAll 9 rfl
  have expected : ∀ isSell, 10 ≤ qtyAt (restAboveBook.sides isSell).pendingLiqRemoveQty 100 := by
    decide
  have allowed : ∀ message ∈ restAboveMessages, message.Positive ∧ message.OrderOrTrade := by
    decide
  have valid := SmartOrderBook.Reachable.valid
    ⟨restAboveMessages, run, fun message mem => (allowed message mem).1⟩
  refine ⟨run, allowed, expected, ?_⟩
  rw [valid.swallows_iff (by decide) expected]
  intro none
  exact none false 101 (by decide) (by decide)

end OrderBook
