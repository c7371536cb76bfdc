import OrderBook.StreamOrder
import OrderBook.TradeEffect

/-!
# A trade ahead of its order messages

A trade can arrive before the order that caused it and before the cancels of the
orders it passed over.  The book guesses both: it removes the better orders, fills
the level of the trade, and expects the aggressor.  The late messages then find
nothing left to do, in whatever order they arrive.
-/

namespace OrderBook

open FueledLoop InputRun

/-- The late cancel of an order, with whatever quantity it carries. -/
def lateCancel {P : Type} (isSell : Bool) (quantity : Order P → ℤ) (order : Order P) :
    Message P :=
  .cancel ⟨.cancel, order.odid, isSell, quantity order, order.price⟩

variable {P : Type} [LinearOrder P] {slack : Set ℤ}

namespace BookSide

variable {isSell : Bool} {side final : BookSide P isSell}

/-- A trade leaves no order at a better price. -/
theorem TradeOutcome.better_gone {trade : Trade P} {events : OrderInfoVec P}
    (valid : side.Valid slack) (outcome : TradeOutcome slack side trade final events)
    {order : Order P} (better : order ∈ side.betterOrders trade.price) :
    final.existOrder order.odid = false := by
  rw [← Bool.not_eq_true, outcome.valid.linked.existOrder_iff]
  rintro ⟨key, mem⟩
  obtain ⟨notBetter, oldMem⟩ := outcome.ids_kept mem
  obtain ⟨other, otherBetter, resting⟩ := mem_betterOrders.mp better
  obtain rfl := valid.linked.price_unique oldMem (List.mem_map_of_mem resting)
  exact notBetter otherBetter

/-- A cancel of an order that is gone, with no removal expected, is dropped. -/
theorem processOrderCancel_absent [Zero P] (nothing : side.pendingLiqRemoveQty = .empty) {id : ℤ}
    (absent : side.existOrder id = false) (quantity : ℤ) (price : P) :
    side.processOrderCancel id quantity price = (side, []) := by
  have unmatched : side.matchPendingLiqRemove quantity price = (side, 0) := by
    simp [matchPendingLiqRemove, nothing]
  simp [processOrderCancel, unmatched, absent]

end BookSide

namespace SmartOrderBook

variable [Zero P] {book : SmartOrderBook P}

/-- A message that is processed without an event. -/
def SilentStep (book : SmartOrderBook P) (message : Message P) (next : SmartOrderBook P) : Prop :=
  Returns (fun fuel => book.process fuel message) (next, [])

/-- Cancels of orders that are gone change nothing. -/
theorem silent_cancels {isSell : Bool} (nothing : (book.sides isSell).pendingLiqRemoveQty = .empty)
    {orders : List (Order P)}
    (gone : ∀ order ∈ orders, (book.sides isSell).existOrder order.odid = false)
    {quantity : Order P → ℤ} {late : List (Message P)}
    (cancels : ∀ message ∈ late, message ∈ orders.map (lateCancel isSell quantity)) :
    Run SilentStep book late book := by
  induction late with
  | nil => exact Run.start
  | cons message late ih =>
      obtain ⟨order, mem, rfl⟩ := List.mem_map.mp (cancels message List.mem_cons_self)
      have dropped := BookSide.processOrderCancel_absent nothing (gone order mem)
        (quantity order) order.price
      have same : book.setSide isSell (book.sides isSell) = book :=
        ext_sides isSell (sides_setSide_self ..) (sides_setSide_not ..)
      have silent : book.SilentStep (lateCancel isSell quantity order) book := by
        refine Returns.const (congrArg Except.ok ?_)
        simp only [processOrderCancelMessage, dropped, same]
      exact (ih fun other otherMem => cancels other (List.mem_cons_of_mem _ otherMem)).cons silent

/-- An order that is expected in full is absorbed. -/
theorem silent_add {msg : OrderMessage P} {own : BookSide P msg.isSell}
    (absorbed : Returns (fun fuel => (book.sides msg.isSell).matchPendingLiqAdd fuel
      msg.quantity msg.price) (own, msg.quantity)) :
    book.SilentStep (.add msg) (book.setSide msg.isSell own) := by
  obtain ⟨fuel, absorbed⟩ := absorbed
  refine ⟨fuel, ?_⟩
  have spent : (msg.toOrder.fill msg.quantity).getRemainingQuantity = 0 := by
    simp [OrderMessage.toOrder]
  simp only [process, processOrderAddMessage, absorbed, ok_bind, addUnmatched, if_pos spent,
    pure_eq_ok]

end SmartOrderBook

/-- After a trade at a level of the other side of a quiet book, the order that caused it
and the cancels of the orders it passed over are dropped without an event, in any order
and whatever quantities the cancels carry. -/
theorem tradeLeads_settles [Zero P] {book : SmartOrderBook P} (reachable : book.Reachable)
    (uncrossed : book.Uncrossed)
    (settled : ∀ side, (book.sides side).pendingLiqRemoveQty = .empty ∧
      (book.sides side).pendingLiqAddQty = .empty)
    {msg : OrderMessage P} (pos : 0 < msg.quantity) {price : P} {level : L3PriceLevel P}
    (found : (book.sides (!msg.isSell)).levels.find? price = some level)
    (crosses : BookSide.Crosses (!msg.isSell) msg.price price) :
    ∃ (traded : SmartOrderBook P) (events : OrderInfoVec P),
      Returns (fun fuel => book.processTradeMessage fuel ⟨msg.quantity, price⟩)
        (traded, events) ∧
      ∀ (quantity : Order P → ℤ) (late : List (Message P)),
        late.Perm (.add msg :: ((book.sides (!msg.isSell)).betterOrders price).map
          (lateCancel (!msg.isSell) quantity)) →
        ∃ final, Run SmartOrderBook.SilentStep traded late final ∧
          ∀ isSell, (final.sides isSell).levels = (traded.sides isSell).levels ∧
            (final.sides isSell).orderMap = (traded.sides isSell).orderMap := by
  have valid := reachable.valid
  obtain ⟨traded, events, returns, outcome⟩ :=
    valid.processTradeMessage_returns ⟨msg.quantity, price⟩ pos.le
  have passiveRemove :=
    ((outcome (!msg.isSell)).ledgers_of_unexpected pos.le (settled _).1).2.1
  have gone : ∀ order ∈ (book.sides (!msg.isSell)).betterOrders price,
      (traded.sides (!msg.isSell)).existOrder order.odid = false :=
    fun order better => (outcome (!msg.isSell)).better_gone (valid _) better
  -- the aggressor's side is below the trade and books all of it
  have ownAdd : (traded.sides msg.isSell).pendingLiqAddQty =
      if msg.quantity = 0 then .empty else BookSide.onlyPending price msg.quantity := by
    have apart := BookSide.ordersAt_of_none (uncrossed.own_apart found).1
    have booked := ((outcome msg.isSell).ledgers_of_unexpected pos.le (settled _).1).2.2
    have total : totalRemaining ((book.sides msg.isSell).ordersAt price) = 0 := by
      rw [apart]
      rfl
    rw [if_neg pos.ne', booked, TradeMessage.toTrade, total, if_pos pos, (settled _).2, sub_zero]
    simp [credit, BookSide.onlyPending]
  obtain ⟨ledger, absorbed, -⟩ := BookSide.absorbs ownAdd le_rfl
    (fun better => crosses (SmartOrderBook.priceComparator_not.mpr better)) (.inr (.inr rfl))
  refine ⟨traded, _, returns, ?_⟩
  intro quantity late permuted
  have delivered : Message.add msg ∈ late := permuted.mem_iff.mpr List.mem_cons_self
  obtain ⟨early, later, rfl⟩ := List.append_of_mem delivered
  have cancels := (List.perm_middle.symm.trans permuted).cons_inv.subset
  set final := traded.setSide msg.isSell
    { traded.sides msg.isSell with pendingLiqAddQty := ledger }
  have passiveSame : final.sides (!msg.isSell) = traded.sides (!msg.isSell) :=
    SmartOrderBook.sides_setSide_not ..
  have ownSame : final.sides msg.isSell =
      { traded.sides msg.isSell with pendingLiqAddQty := ledger } :=
    SmartOrderBook.sides_setSide_self ..
  have earlyRun := SmartOrderBook.silent_cancels passiveRemove gone
    fun message mem => cancels (List.mem_append_left later mem)
  have laterRun := SmartOrderBook.silent_cancels (passiveSame ▸ passiveRemove)
    (passiveSame ▸ gone) fun message mem => cancels (List.mem_append_right early mem)
  refine ⟨final, earlyRun.append (laterRun.cons (SmartOrderBook.silent_add absorbed)), ?_⟩
  refine SmartOrderBook.forall_side msg.isSell ?_ ?_
  · rw [ownSame]
    exact ⟨rfl, rfl⟩
  · rw [passiveSame]
    exact ⟨rfl, rfl⟩

/-- The trade fills the second ask, so the first one is guessed to be cancelled. -/
theorem tradeLeads_of_ladder_settles :
    ∃ (traded final : SmartOrderBook ℤ) (events : OrderInfoVec ℤ),
      Returns (fun fuel => ladderBook.processTradeMessage fuel ⟨4, 102⟩) (traded, events) ∧
      Run SmartOrderBook.SilentStep traded
        [.cancel ⟨.cancel, 1, true, 10, 101⟩, .add ⟨.add, 3, false, 4, 103⟩] final ∧
      (final.sides true).levels = (traded.sides true).levels := by
  have reachable : ladderBook.Reachable :=
    ⟨ladderMessages, SmartOrderBook.run_of_processAll 9 rfl, by decide⟩
  obtain ⟨traded, events, returns, settles⟩ :=
    tradeLeads_settles reachable (by unfold SmartOrderBook.Uncrossed; decide)
      (fun side => by cases side <;> exact ⟨rfl, rfl⟩)
      (show 0 < (⟨.add, 3, false, 4, 103⟩ : OrderMessage ℤ).quantity by decide)
      (show (ladderBook.sides true).levels.find? 102 = some (.ofOrders 102 10 [_]) from rfl)
      (by decide)
  obtain ⟨final, run, same⟩ := settles (fun _ => 10) _ (List.Perm.swap ..)
  exact ⟨traded, final, events, returns, run, (same true).1⟩

end OrderBook
