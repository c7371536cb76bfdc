import OrderBook.BookRuns
import OrderBook.GreedyDrain
import OrderBook.PriceTimePriority

/-!
# Where the quantity of a new order goes

The quantity of an `ADD` message goes to three places: the liquidity that was
expected for it, the crossing orders of the other side, and a new order at the end
of its own level.  The three add up to the quantity, and what is executed is booked
as an expected removal on both sides.
-/

namespace OrderBook

open FueledLoop

variable {P : Type} [LinearOrder P] {slack : Set ℤ}

namespace SmartOrderBook

variable {book final : SmartOrderBook P} {msg : OrderMessage P} {matched : ℤ}

/-- What the other side executes of an order of which `matched` was expected. -/
def executedOf (book : SmartOrderBook P) (msg : OrderMessage P) (matched : ℤ) : ℤ :=
  min (msg.quantity - matched) (book.crossingTotal msg)

/-- What is left to rest. -/
def restOf (book : SmartOrderBook P) (msg : OrderMessage P) (matched : ℤ) : ℤ :=
  msg.quantity - matched - book.executedOf msg matched

/-- The new order is the last one at its price, and nothing else changes. -/
structure GainsOrder {isSell : Bool} (side : BookSide P isSell) (order : Order P)
    (final : BookSide P isSell) : Prop where
  levels_eq : final.levels = BookSide.putOrders side.levels order.price
    (side.quantityAt order.price + order.getRemainingQuantity)
    (side.ordersAt order.price ++ [order])
  orderMap_eq : final.orderMap = side.orderMap.insert order.odid ⟨order.price, order.odid⟩

/-- The executions that an order causes lower the total of the other side. -/
theorem AddOutcome.opposite_total {own : BookSide P msg.isSell} {events : OrderInfoVec P}
    (valid : book.Valid slack) (fits : matched ≤ msg.quantity)
    (outcome : AddOutcome slack book msg own matched final events) :
    totalRemaining (final.sides (!msg.isSell)).restingOrders =
      totalRemaining (book.sides (!msg.isSell)).restingOrders - book.executedOf msg matched := by
  have remain := (valid (!msg.isSell)).crossing_remain msg.price
  rw [outcome.crossed.resting_eq, BookSide.restingOrders_eq _ msg.price, totalRemaining_append,
    totalRemaining_append, totalRemaining_fillFront remain (sub_nonneg.mpr fits), executedOf,
    crossingTotal]
  omega

/-- Both sides expect the trades of the executions. -/
theorem AddOutcome.removals {own : BookSide P msg.isSell} {events : OrderInfoVec P}
    (ownRemove : own.pendingLiqRemoveQty = (book.sides msg.isSell).pendingLiqRemoveQty)
    (outcome : AddOutcome slack book msg own matched final events) :
    ∀ isSell, (final.sides isSell).pendingLiqRemoveQty =
      creditEvents (book.sides isSell).pendingLiqRemoveQty
        (book.crossEvents msg (msg.quantity - matched)) := by
  refine forall_side msg.isSell ?_ outcome.crossed.remove_eq
  rcases le_or_gt (msg.quantity - matched) (book.crossingTotal msg) with enough | short
  · rw [(outcome.filled enough).1, BookSide.addPendingLiqRemoveQty, ← ownRemove]
    rfl
  · rw [(outcome.rests short).1, BookSide.withOrder, ← ownRemove]
    split
    · rfl
    · rfl

/-- The own side gains the rest of the order, or keeps its levels and ids. -/
theorem AddOutcome.own_side {own : BookSide P msg.isSell} {events : OrderInfoVec P}
    (fresh : (book.sides msg.isSell).existOrder msg.id = false)
    (ownEq : own = { book.sides msg.isSell with pendingLiqAddQty := own.pendingLiqAddQty })
    (outcome : AddOutcome slack book msg own matched final events) :
    (final.sides msg.isSell).pendingLiqAddQty = own.pendingLiqAddQty ∧
    (book.restOf msg matched = 0 →
      (final.sides msg.isSell).levels = (book.sides msg.isSell).levels ∧
      (final.sides msg.isSell).orderMap = (book.sides msg.isSell).orderMap) ∧
    (0 < book.restOf msg matched →
      GainsOrder (book.sides msg.isSell)
        (msg.toOrder.fill (matched + book.executedOf msg matched)) (final.sides msg.isSell)) := by
  have ownMap : own.orderMap = (book.sides msg.isSell).orderMap := by rw [ownEq]
  have ownLevels : own.levels = (book.sides msg.isSell).levels := by rw [ownEq]
  rcases le_or_gt (msg.quantity - matched) (book.crossingTotal msg) with enough | short
  · have none : book.restOf msg matched = 0 := by
      rw [restOf, executedOf, min_eq_left enough, sub_self]
    rw [(outcome.filled enough).1]
    exact ⟨rfl, fun _ => ⟨ownLevels, ownMap⟩, fun some => by omega⟩
  · have executedEq : book.executedOf msg matched = book.crossingTotal msg := min_eq_right short.le
    have some : 0 < book.restOf msg matched := by
      rw [restOf, executedEq]
      omega
    have free : (own.addPendingLiqRemoveQty (book.crossEvents msg
        (msg.quantity - matched))).existOrder
          (msg.toOrder.fill (matched + book.crossingTotal msg)).odid = false := by
      rw [← fresh]
      exact congrArg (fun orderMap => (SortedMap.find? orderMap msg.id).isSome) ownMap
    rw [(outcome.rests short).1, BookSide.withOrder, if_neg (by rw [free]; decide), executedEq]
    refine ⟨rfl, fun none => by omega, fun _ => ⟨?_, ?_⟩⟩
    · simp only [BookSide.quantityAt, BookSide.ordersAt, BookSide.addPendingLiqRemoveQty,
        ownLevels]
    · exact congrArg (fun orderMap => SortedMap.insert orderMap _ _) ownMap

/-- The events are the executions and the rest that is added. -/
theorem AddOutcome.events_eq {own : BookSide P msg.isSell} {events : OrderInfoVec P}
    (outcome : AddOutcome slack book msg own matched final events) :
    events = book.crossEvents msg (msg.quantity - matched) ++
      if book.restOf msg matched = 0 then []
      else [⟨.add, msg.id, msg.isSell, book.restOf msg matched, msg.price⟩] := by
  rcases le_or_gt (msg.quantity - matched) (book.crossingTotal msg) with enough | short
  · have none : book.restOf msg matched = 0 := by
      rw [restOf, executedOf, min_eq_left enough, sub_self]
    rw [if_pos none, List.append_nil]
    exact (outcome.filled enough).2
  · have restEq : book.restOf msg matched = msg.quantity - matched - book.crossingTotal msg := by
      rw [restOf, executedOf, min_eq_right short.le]
    rw [if_neg (by omega), restEq]
    exact (outcome.rests short).2

end SmartOrderBook

/-- The quantity of an `ADD` message is conserved: of `msg.quantity` the amount `matched` is
taken from the expected liquidity, `executedOf` from the crossing orders of the other
side, and `restOf` comes to rest at the end of its own level.  What is executed at each
price is expected as a removal on both sides, and nothing else changes. -/
theorem addMessage_conserves [Zero P] {book : SmartOrderBook P} (reachable : book.Reachable)
    {msg : OrderMessage P} (pos : 0 < msg.quantity)
    (fresh : (book.sides msg.isSell).existOrder msg.id = false)
    {own : BookSide P msg.isSell} {matched : ℤ}
    (absorbed : Returns (fun fuel => (book.sides msg.isSell).matchPendingLiqAdd fuel
      msg.quantity msg.price) (own, matched)) :
    0 ≤ matched ∧ matched ≤ msg.quantity ∧
    BookSide.ledgerTotal own.pendingLiqAddQty =
      BookSide.ledgerTotal (book.sides msg.isSell).pendingLiqAddQty - matched ∧
    ∃ (final : SmartOrderBook P) (taken : List (Order P × ℤ)),
      Returns (fun fuel => book.processOrderAddMessage fuel msg)
        (final, execEvents (!msg.isSell) taken ++
          if book.restOf msg matched = 0 then []
          else [⟨.add, msg.id, msg.isSell, book.restOf msg matched, msg.price⟩]) ∧
      QueueFill.Greedy Order.getRemainingQuantity (msg.quantity - matched)
        ((book.sides (!msg.isSell)).crossingOrders msg.price) taken ∧
      (taken.map Prod.snd).sum = book.executedOf msg matched ∧
      totalRemaining (final.sides (!msg.isSell)).restingOrders =
        totalRemaining (book.sides (!msg.isSell)).restingOrders - book.executedOf msg matched ∧
      (∀ key, (final.sides (!msg.isSell)).ordersAt key =
        withoutTaken taken ((book.sides (!msg.isSell)).ordersAt key)) ∧
      (∀ id, (final.sides (!msg.isSell)).existOrder id = true ↔
        id ∈ ids (withoutTaken taken (book.sides (!msg.isSell)).restingOrders)) ∧
      (∀ key level, (final.sides (!msg.isSell)).levels.find? key = some level →
        level.quantity = (book.sides (!msg.isSell)).quantityAt key - takenAt taken key) ∧
      (∀ key, (∀ piece ∈ taken, piece.1.price ≠ key) →
        (final.sides (!msg.isSell)).levels.find? key =
          (book.sides (!msg.isSell)).levels.find? key) ∧
      (final.sides (!msg.isSell)).pendingLiqAddQty =
        (book.sides (!msg.isSell)).pendingLiqAddQty ∧
      (∀ isSell price, qtyAt (final.sides isSell).pendingLiqRemoveQty price =
        qtyAt (book.sides isSell).pendingLiqRemoveQty price + takenAt taken price) ∧
      (final.sides msg.isSell).pendingLiqAddQty = own.pendingLiqAddQty ∧
      (book.restOf msg matched = 0 →
        (final.sides msg.isSell).levels = (book.sides msg.isSell).levels ∧
        (final.sides msg.isSell).orderMap = (book.sides msg.isSell).orderMap) ∧
      (0 < book.restOf msg matched →
        ∃ order : Order P, order.odid = msg.id ∧ order.isSell = msg.isSell ∧
          order.price = msg.price ∧ order.getRemainingQuantity = book.restOf msg matched ∧
          SmartOrderBook.GainsOrder (book.sides msg.isSell) order (final.sides msg.isSell)) := by
  have valid := reachable.valid
  obtain ⟨fuel, matchedReturned⟩ := absorbed
  obtain ⟨-, matchedNonneg, fits, ownEq⟩ :=
    (valid msg.isSell).matchPendingLiqAdd pos.le matchedReturned
  have qtyNonneg : 0 ≤ msg.quantity - matched := sub_nonneg.mpr fits
  have ownRemove : own.pendingLiqRemoveQty = (book.sides msg.isSell).pendingLiqRemoveQty := by
    rw [ownEq]
  have remain := (valid (!msg.isSell)).crossing_remain msg.price
  obtain ⟨final, events, returns, outcome⟩ :=
    valid.processOrderAddMessage_returns pos ⟨fuel, matchedReturned⟩
  obtain ⟨ownAdd, ownKept, ownGains⟩ := outcome.own_side fresh ownEq
  refine ⟨matchedNonneg, fits, BookSide.ledgerTotal_matchPendingLiqAdd ⟨fuel, matchedReturned⟩,
    final, fills (msg.quantity - matched) ((book.sides (!msg.isSell)).crossingOrders msg.price),
    ?_, remain.greedy_pieces qtyNonneg, QueueFill.sum_pieces remain qtyNonneg,
    outcome.opposite_total valid fits, (outcome.crossed.subtracted (valid _) qtyNonneg).2, ?_, ?_,
    fun key => outcome.crossed.find?_untouched (valid _) qtyNonneg, outcome.crossed.add_eq, ?_,
    ownAdd, ownKept, fun some => ⟨_, rfl, rfl, rfl, ?_, ownGains some⟩⟩
  · rw [outcome.events_eq] at returns
    exact returns
  · intro id
    rw [outcome.crossed.valid.linked.existOrder_iff_resting,
      (outcome.crossed.subtracted (valid _) qtyNonneg).1]
  · intro key level found
    rw [outcome.crossed.quantity_eq found, SmartOrderBook.crossEvents, execQtyAt_execEvents]
  · intro isSell price
    rw [outcome.removals ownRemove, qtyAt_creditEvents, SmartOrderBook.crossEvents,
      execQtyAt_execEvents]
  · rw [Order.remaining_fill, OrderMessage.toOrder, Order.remaining_new, SmartOrderBook.restOf]
    omega

/-- An ask of 10 at 100. -/
def restingAskMessages : List (Message ℤ) := [.add ⟨.add, 1, true, 10, 100⟩]

def restingAskBook : SmartOrderBook ℤ :=
  ((SmartOrderBook.empty.processAll 9 restingAskMessages).toOption).getD .empty

/-- A bid of 12 at 101 takes the ask, and 2 of it come to rest. -/
theorem addMessage_of_bid_conserves :
    ∃ (final : SmartOrderBook ℤ) (taken : List (Order ℤ × ℤ)),
      Returns (fun fuel => restingAskBook.processOrderAddMessage fuel ⟨.add, 2, false, 12, 101⟩)
        (final, execEvents true taken ++ [⟨.add, 2, false, 2, 101⟩]) ∧
      (taken.map Prod.snd).sum = 10 ∧ totalRemaining (final.sides true).restingOrders = 0 := by
  have reachable : restingAskBook.Reachable :=
    ⟨restingAskMessages, SmartOrderBook.run_of_processAll 9 rfl, by decide⟩
  have fresh : (restingAskBook.sides false).existOrder 2 = false := rfl
  have absorbed : Returns (fun fuel => (restingAskBook.sides false).matchPendingLiqAdd fuel 12 101)
      (restingAskBook.sides false, 0) := BookSide.matchPendingLiqAdd_empty rfl 12 101
  obtain ⟨-, -, -, final, taken, returns, -, takenSum, total, -⟩ := addMessage_conserves reachable
    (show 0 < (⟨.add, 2, false, 12, 101⟩ : OrderMessage ℤ).quantity by decide) fresh absorbed
  exact ⟨final, taken, returns, takenSum, total⟩

end OrderBook
