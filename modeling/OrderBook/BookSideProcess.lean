import OrderBook.BookSide

/-!
# Processing messages on one side

The four `process…` operations of `book_side.cpp`.  The bodies of their loops
are definitions of their own.
-/

namespace OrderBook.BookSide

open FueledLoop

variable {P : Type} [LinearOrder P] [Zero P] {isSell : Bool}

/-! ### Crossing orders -/

/-- The variables of `processCrossedOrder`: the side, the aggressor, and the
locals `remaining_quantity`, `order_events` and `orders_to_remove`. -/
structure CrossState (P : Type) [LinearOrder P] (isSell : Bool) where
  side : BookSide P isSell
  order : Order P
  remainingQuantity : ℤ
  orderEvents : OrderInfoVec P
  ordersToRemove : List ℤ

/-- One pass of the inner `for` over the orders of the level under `key`.  Once
nothing remains, the `break` skips the other orders. -/
def crossFill (key : P) (state : CrossState P isSell) (curOrder : Order P) :
    Except Halt (CrossState P isSell) :=
  if state.remainingQuantity = 0 then return state
  else do
    let fillableQty := min state.remainingQuantity curOrder.getRemainingQuantity
    let filled ← state.side.fillLevelOrder key curOrder fillableQty
    let saved := filled.saveL2SnapshoSide
    return {
      side := { saved with
        pendingLiqRemoveQty :=
          credit saved.pendingLiqRemoveQty curOrder.price fillableQty }
      order := state.order.fill fillableQty
      remainingQuantity := state.remainingQuantity - fillableQty
      orderEvents := state.orderEvents ++
        [⟨.exec, curOrder.odid, isSell, fillableQty, curOrder.price⟩]
      ordersToRemove :=
        if (curOrder.fill fillableQty).getRemainingQuantity = 0 then
          state.ordersToRemove ++ [curOrder.odid]
        else state.ordersToRemove }

/-- One iteration of the outer `while` of `processCrossedOrder`. -/
def processCrossedOrderBody (state : CrossState P isSell) :
    Except Halt (Flow (CrossState P isSell)) :=
  if 0 < state.remainingQuantity ∧ state.side.bookCrossedWithPrice state.order.price then
    match state.side.levels.begin? with
    | none => return .done state
    | some (key, curLevel) => do
        let filled ← curLevel.orders.foldlM (crossFill key)
          { state with ordersToRemove := [] }
        return .next { filled with
          side := filled.ordersToRemove.foldl removeOrder filled.side }
  else return .done state

/-- Returns the side, the aggressor with its new filled quantity, and the events. -/
def processCrossedOrder (fuel : Nat) (side : BookSide P isSell) (order : Order P) :
    Except Halt (BookSide P isSell × Order P × OrderInfoVec P) := do
  assertThat (order.isSell ≠ isSell)
  let last ← loop processCrossedOrderBody fuel
    ⟨side, order, order.getRemainingQuantity, [], []⟩
  return (last.side, last.order, last.orderEvents)

/-! ### Cancels -/

def processOrderCancel (side : BookSide P isSell) (id : ℤ) (quantity : ℤ)
    (price : P) : BookSide P isSell × OrderInfoVec P :=
  let (matchedSide, matchedQty) := side.matchPendingLiqRemove quantity price
  let restQty := quantity - matchedQty
  if 0 < restQty ∧ matchedSide.existOrder id then
    (matchedSide.removeOrder id, [⟨.cancel, id, isSell, restQty, price⟩])
  else (matchedSide, [])

/-! ### Trades -/

def removeAndSave (side : BookSide P isSell) (odid : ℤ) : BookSide P isSell :=
  (side.removeOrder odid).saveL2SnapshoSide

/-- One iteration of step 1: cancel the whole best level if its price is better
than the trade price.  The events carry the original quantity of the orders. -/
def implicitCancelBody (tradePrice : P) (state : BookSide P isSell × OrderInfoVec P) :
    Except Halt (Flow (BookSide P isSell × OrderInfoVec P)) :=
  let (side, orderEvents) := state
  match side.levels.begin? with
  | none => return .done state
  | some (key, level) =>
      let shouldCancel :=
        if isSell then decide (key < tradePrice) else decide (key > tradePrice)
      if shouldCancel then
        return .next
          ((level.orders.map Order.odid).foldl removeAndSave side,
            orderEvents ++ level.orders.map fun order =>
              ⟨.cancel, order.odid, isSell, order.quantity, order.price⟩)
      else return .done state

/-- The locals of step 2: the side, `cur_trade_qty`, `order_events` and
`orders_to_remove`. -/
structure TradeState (P : Type) [LinearOrder P] (isSell : Bool) where
  side : BookSide P isSell
  curTradeQty : ℤ
  orderEvents : OrderInfoVec P
  ordersToRemove : List ℤ

/-- One pass of the `for` of step 2 over the orders of the level under `key`. -/
def tradeFill (key : P) (state : TradeState P isSell) (curOrder : Order P) :
    Except Halt (TradeState P isSell) :=
  if state.curTradeQty = 0 then return state
  else do
    let fillableQty := min state.curTradeQty curOrder.getRemainingQuantity
    let filled ← state.side.fillLevelOrder key curOrder fillableQty
    return {
      side := filled.saveL2SnapshoSide
      curTradeQty := state.curTradeQty - fillableQty
      orderEvents := state.orderEvents ++
        [⟨.exec, curOrder.odid, isSell, fillableQty, curOrder.price⟩]
      ordersToRemove :=
        if (curOrder.fill fillableQty).getRemainingQuantity = 0 then
          state.ordersToRemove ++ [curOrder.odid]
        else state.ordersToRemove }

/-- Step 2: match the trade with the level of its price. -/
def tradeLevel (side : BookSide P isSell) (tradePrice : P) (qty : ℤ)
    (orderEvents : OrderInfoVec P) :
    Except Halt (BookSide P isSell × ℤ × OrderInfoVec P) :=
  match side.levels.find? tradePrice with
  | none => return (side, qty, orderEvents)
  | some curLevel => do
      let filled ← curLevel.orders.foldlM (tradeFill tradePrice) ⟨side, qty, orderEvents, []⟩
      return (filled.ordersToRemove.foldl removeAndSave filled.side,
        filled.curTradeQty, filled.orderEvents)

def processTrade (fuel : Nat) (side : BookSide P isSell) (trade : Trade P) :
    Except Halt (BookSide P isSell × OrderInfoVec P) := do
  let (matchedSide, matchedQty) := side.matchPendingLiqRemove trade.quantity trade.price
  -- Step 1
  let (cancelled, cancelEvents) ←
    loop (implicitCancelBody trade.price) fuel (matchedSide, [])
  -- Step 2
  let (matched, curTradeQty, orderEvents) ←
    cancelled.tradeLevel trade.price (trade.quantity - matchedQty) cancelEvents
  -- Step 3
  if 0 < curTradeQty then
    return ({ matched with
        pendingLiqAddQty := credit matched.pendingLiqAddQty trade.price curTradeQty },
      orderEvents ++ [⟨.add, -1, isSell, curTradeQty, trade.price⟩,
        ⟨.exec, -1, isSell, curTradeQty, trade.price⟩])
  else return (matched, orderEvents)

/-! ### Snapshots -/

/-- The locals of the first pass of `processL2Snapshot`. -/
structure ReconcileState (P : Type) [LinearOrder P] (isSell : Bool) where
  side : BookSide P isSell
  orderEvents : OrderInfoVec P
  pendingOrders : List (Order P × ℤ)
  fakeOrderId : ℤ

/-- Invent one order for liquidity that the snapshot shows and the book lacks. -/
def addLiquidity (state : ReconcileState P isSell) (qty : ℤ) (price : P) :
    Except Halt (ReconcileState P isSell) := do
  let credited := { state.side with
    pendingLiqAddQty := credit state.side.pendingLiqAddQty price qty }
  let side ← credited.addOrder (Order.new state.fakeOrderId isSell qty price)
  return { state with
    side := side
    orderEvents := state.orderEvents ++ [⟨.add, -1, isSell, qty, price⟩]
    fakeOrderId := state.fakeOrderId + 1 }

/-- The orders at the front of a level that make up `qtyToRemove`. -/
def frontOrders (qtyToRemove : ℤ) (orders : List (Order P)) :
    List (Order P × ℤ) :=
  QueueFill.pieces Order.getRemainingQuantity qtyToRemove orders

/-- One pass of the first loop, over the levels of the snapshot. -/
def reconcileLevel (state : ReconcileState P isSell) (l2Level : L2PriceLevel P) :
    Except Halt (ReconcileState P isSell) :=
  match state.side.levels.find? l2Level.price with
  | none => addLiquidity state l2Level.quantity l2Level.price
  | some level =>
      if l2Level.quantity < level.quantity then
        return { state with
          pendingOrders := state.pendingOrders ++
            frontOrders (level.quantity - l2Level.quantity) level.orders }
      else if l2Level.quantity > level.quantity then
        addLiquidity state (l2Level.quantity - level.quantity) l2Level.price
      else return state

instance (snapshot : L2SnapshotSide P) (price : P) :
    Decidable (price ∈ snapshot.map L2PriceLevel.price) :=
  inferInstance

/-- The second loop: every order of a level that the snapshot does not have. -/
def missingOrders (side : BookSide P isSell) (snapshot : L2SnapshotSide P) :
    List (Order P × ℤ) :=
  side.levels.entries.flatMap fun entry =>
    if entry.1 ∈ snapshot.map L2PriceLevel.price then []
    else entry.2.orders.map fun order => (order, order.getRemainingQuantity)

/-- The third loop.  All entries of one order share its object, also after the
order has left the book: `filled` is what the loop has filled of each so far. -/
structure RemovalState (P : Type) [LinearOrder P] (isSell : Bool) where
  side : BookSide P isSell
  orderEvents : OrderInfoVec P
  filled : ℤ → ℤ

/-- One pass of the third loop, at index `entry.2` of `pending_orders`. -/
def removePending (executedOrderNum : Nat) (state : RemovalState P isSell)
    (entry : (Order P × ℤ) × Nat) : Except Halt (RemovalState P isSell) :=
  let order := entry.1.1.fill (state.filled entry.1.1.odid)
  let qty := entry.1.2
  let event := if entry.2 < executedOrderNum then OrderEvent.exec else OrderEvent.cancel
  let orderEvents := state.orderEvents ++ [⟨event, order.odid, isSell, qty, order.price⟩]
  if order.getRemainingQuantity = qty then
    return { state with side := state.side.removeOrder order.odid, orderEvents := orderEvents }
  else if state.side.existLevel order.price then do
    let side ← state.side.fillLevelOrder order.price order qty
    return {
      side := side
      orderEvents := orderEvents
      filled := Function.update state.filled order.odid (state.filled order.odid + qty) }
  else return { state with orderEvents := orderEvents }

/-- `ceil(0.3 * size)`, computed exactly. -/
def executedOrderNum (size : Nat) : Nat := (3 * size + 9) / 10

/-- The reconciliation branch, taken when no snapshot is expected. -/
def reconcile (side : BookSide P isSell) (snapshot : L2SnapshotSide P) :
    Except Halt (BookSide P isSell × OrderInfoVec P) := do
  let compared ← snapshot.foldlM reconcileLevel ⟨side, [], [], 100⟩
  let pendingOrders := compared.pendingOrders ++ compared.side.missingOrders snapshot
  let removed ← pendingOrders.zipIdx.foldlM
    (removePending (executedOrderNum pendingOrders.length))
    ⟨compared.side, compared.orderEvents, fun _ => 0⟩
  return (removed.side, removed.orderEvents)

def processL2Snapshot (side : BookSide P isSell) (snapshot : L2SnapshotSide P) :
    Except Halt (BookSide P isSell × OrderInfoVec P) :=
  match side.l2SnapQueue with
  | [] => side.reconcile snapshot
  | expected :: later =>
      if expected = snapshot then return ({ side with l2SnapQueue := later }, [])
      -- a polluted snapshot
      else return (side, [])

end OrderBook.BookSide
