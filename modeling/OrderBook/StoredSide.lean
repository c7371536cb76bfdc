import OrderBook.BookSideProcess

/-!
# A side that stores its quantities

The exact model takes a `Quantity` to be an integer of any size.  Here every `Quantity`
that the code computes goes through `store` before it is used, as a value goes through a
machine register: `store` may keep it, change it or stop the program.  A minimum of two
stored quantities needs no store.  Apart from that each operation is the one of the exact
model, under the same name.
-/

namespace OrderBook.Stored

open FueledLoop

variable {P : Type} (store : ℤ → Except Halt ℤ)

def getRemainingQuantity (order : Order P) : Except Halt ℤ :=
  store (order.quantity - order.filledQuantity)

/-- The write `order->filled_quantity += qty`. -/
def fill (order : Order P) (qty : ℤ) : Except Halt (Order P) := do
  let filledQuantity ← store (order.filledQuantity + qty)
  return { order with filledQuantity := filledQuantity }

/-! ### Levels -/

namespace Level

def addOrder (level : L3PriceLevel P) (order : Order P) : Except Halt (L3PriceLevel P) := do
  let remaining ← getRemainingQuantity store order
  let quantity ← store (level.quantity + remaining)
  return ⟨order.price, quantity, level.numOrders + 1, level.orders ++ [order]⟩

def removeOrder (level : L3PriceLevel P) (handler : OrderHandler P) :
    Except Halt (L3PriceLevel P) :=
  match level.order? handler with
  | none => return level
  | some order => do
      let remaining ← getRemainingQuantity store order
      let quantity ← store (level.quantity - remaining)
      return { level with
        orders := level.orders.eraseP fun other => other.odid = handler.odid
        quantity := quantity
        numOrders := level.numOrders - 1 }

/-- The order is written through a pointer, so its entry in the list changes with it. -/
def fillOrder (level : L3PriceLevel P) (order : Order P) (qty : ℤ) :
    Except Halt (L3PriceLevel P) := do
  let remaining ← getRemainingQuantity store order
  assertThat (qty ≤ remaining)
  let filled ← fill store order qty
  let quantity ← store (level.quantity - qty)
  return { level with
    quantity := quantity
    orders := level.orders.map fun other => if other.odid = order.odid then filled else other }

end Level

variable [LinearOrder P]

/-- The update `pending[price] += qty`. -/
def credit {before : P → P → Prop} [DecidableRel before] [IsStrictTotalOrder P before]
    (pending : SortedMap P ℤ before) (price : P) (qty : ℤ) :
    Except Halt (SortedMap P ℤ before) := do
  let total ← store ((pending.find? price).getD 0 + qty)
  return pending.insert price total

namespace Side

variable {isSell : Bool}

/-! ### Pending ledgers -/

def matchPendingLiqRemove (side : BookSide P isSell) (quantity : ℤ) (price : P) :
    Except Halt (BookSide P isSell × ℤ) :=
  match side.pendingLiqRemoveQty.find? price with
  | none => return (side, 0)
  | some pending => do
      let matched := min pending quantity
      let rest ← store (pending - matched)
      let ledger := side.pendingLiqRemoveQty.insert price rest
      return ({ side with
          pendingLiqRemoveQty := if rest = 0 then ledger.erase price else ledger },
        matched)

def addPendingLiqRemoveQty (side : BookSide P isSell) (events : OrderInfoVec P) :
    Except Halt (BookSide P isSell) := do
  let ledger ← events.foldlM
    (fun pending e =>
      if e.event = OrderEvent.exec then credit store pending e.price e.quantity
      else return pending)
    side.pendingLiqRemoveQty
  return { side with pendingLiqRemoveQty := ledger }

def matchPendingLiqAddBody (isSell : Bool) (quantity : ℤ) (price : P)
    (state : SortedMap P ℤ (PriceComparator isSell) × ℤ) :
    Except Halt (Flow (SortedMap P ℤ (PriceComparator isSell) × ℤ)) :=
  let (pending, matched) := state
  match pending.begin? with
  | none => .ok (.done (pending, matched))
  | some (first, held) =>
      let canMatch := if isSell then decide (price ≤ first) else decide (price ≥ first)
      if canMatch then do
        let wanted ← store (quantity - matched)
        let curMatched := min held wanted
        let matchedQty ← store (matched + curMatched)
        let rest ← store (held - curMatched)
        let lowered := pending.insert first rest
        let ledger := if rest = 0 then lowered.erase price else lowered
        if matchedQty = quantity then .ok (.done (ledger, matchedQty))
        else .ok (.next (ledger, matchedQty))
      else .ok (.done (pending, matched))

def matchPendingLiqAdd (fuel : Nat) (side : BookSide P isSell) (quantity : ℤ)
    (price : P) : Except Halt (BookSide P isSell × ℤ) := do
  let (ledger, matched) ←
    loop (matchPendingLiqAddBody store isSell quantity price) fuel (side.pendingLiqAddQty, 0)
  return ({ side with pendingLiqAddQty := ledger }, matched)

/-! ### Orders -/

variable [Zero P]

def addOrder (side : BookSide P isSell) (order : Order P) :
    Except Halt (BookSide P isSell) := do
  assertThat (order.isSell = isSell)
  if side.existOrder order.odid then return side
  let level ← Level.addOrder store (side.getL3Level order.price) order
  return { side with
    levels := side.levels.insert order.price level
    orderMap := side.orderMap.insert order.odid ⟨order.price, order.odid⟩ }

def removeOrder (side : BookSide P isSell) (id : ℤ) : Except Halt (BookSide P isSell) :=
  match side.orderMap.find? id with
  | none => return side
  | some handler => do
      let level ← Level.removeOrder store (side.getL3Level handler.price) handler
      let levels := side.levels.insert handler.price level
      return { side with
        orderMap := side.orderMap.erase id
        levels := if level.numOrders = 0 then levels.erase level.price else levels }

def removeAndSave (side : BookSide P isSell) (odid : ℤ) : Except Halt (BookSide P isSell) := do
  let removed ← removeOrder store side odid
  return removed.saveL2SnapshoSide

def fillLevelOrder (side : BookSide P isSell) (key : P) (order : Order P) (qty : ℤ) :
    Except Halt (BookSide P isSell) := do
  let level ← Level.fillOrder store (side.getL3Level key) order qty
  return { side with levels := side.levels.insert key level }

/-! ### Crossing orders -/

open BookSide

def crossFill (key : P) (state : CrossState P isSell) (curOrder : Order P) :
    Except Halt (CrossState P isSell) :=
  if state.remainingQuantity = 0 then return state
  else do
    let curRemaining ← getRemainingQuantity store curOrder
    let fillableQty := min state.remainingQuantity curRemaining
    let filled ← fillLevelOrder store state.side key curOrder fillableQty
    let saved := filled.saveL2SnapshoSide
    let remainingQuantity ← store (state.remainingQuantity - fillableQty)
    -- the current order as `fillOrder` has left it
    let curFilled ← fill store curOrder fillableQty
    let left ← getRemainingQuantity store curFilled
    let ledger ← credit store saved.pendingLiqRemoveQty curOrder.price fillableQty
    let order ← fill store state.order fillableQty
    return {
      side := { saved with pendingLiqRemoveQty := ledger }
      order := order
      remainingQuantity := remainingQuantity
      orderEvents := state.orderEvents ++
        [⟨.exec, curOrder.odid, isSell, fillableQty, curOrder.price⟩]
      ordersToRemove :=
        if left = 0 then state.ordersToRemove ++ [curOrder.odid] else state.ordersToRemove }

def processCrossedOrderBody (state : CrossState P isSell) :
    Except Halt (Flow (CrossState P isSell)) :=
  if 0 < state.remainingQuantity ∧ state.side.bookCrossedWithPrice state.order.price then
    match state.side.levels.begin? with
    | none => return .done state
    | some (key, curLevel) => do
        let filled ← curLevel.orders.foldlM (crossFill store key)
          { state with ordersToRemove := [] }
        let side ← filled.ordersToRemove.foldlM (removeOrder store) filled.side
        return .next { filled with side := side }
  else return .done state

def processCrossedOrder (fuel : Nat) (side : BookSide P isSell) (order : Order P) :
    Except Halt (BookSide P isSell × Order P × OrderInfoVec P) := do
  assertThat (order.isSell ≠ isSell)
  let remainingQuantity ← getRemainingQuantity store order
  let last ← loop (processCrossedOrderBody store) fuel ⟨side, order, remainingQuantity, [], []⟩
  return (last.side, last.order, last.orderEvents)

/-! ### Cancels -/

def processOrderCancel (side : BookSide P isSell) (id : ℤ) (quantity : ℤ) (price : P) :
    Except Halt (BookSide P isSell × OrderInfoVec P) := do
  let (matchedSide, matchedQty) ← matchPendingLiqRemove store side quantity price
  let restQty ← store (quantity - matchedQty)
  if 0 < restQty ∧ matchedSide.existOrder id then
    let removed ← removeOrder store matchedSide id
    return (removed, [⟨.cancel, id, isSell, restQty, price⟩])
  else return (matchedSide, [])

/-! ### Trades -/

def implicitCancelBody (tradePrice : P) (state : BookSide P isSell × OrderInfoVec P) :
    Except Halt (Flow (BookSide P isSell × OrderInfoVec P)) :=
  let (side, orderEvents) := state
  match side.levels.begin? with
  | none => return .done state
  | some (key, level) =>
      let shouldCancel :=
        if isSell then decide (key < tradePrice) else decide (key > tradePrice)
      if shouldCancel then do
        let cancelled ← (level.orders.map Order.odid).foldlM (removeAndSave store) side
        return .next
          (cancelled,
            orderEvents ++ level.orders.map fun order =>
              ⟨.cancel, order.odid, isSell, order.quantity, order.price⟩)
      else return .done state

def tradeFill (key : P) (state : TradeState P isSell) (curOrder : Order P) :
    Except Halt (TradeState P isSell) :=
  if state.curTradeQty = 0 then return state
  else do
    let curRemaining ← getRemainingQuantity store curOrder
    let fillableQty := min state.curTradeQty curRemaining
    let filled ← fillLevelOrder store state.side key curOrder fillableQty
    let curTradeQty ← store (state.curTradeQty - fillableQty)
    -- the current order as `fillOrder` has left it
    let curFilled ← fill store curOrder fillableQty
    let left ← getRemainingQuantity store curFilled
    return {
      side := filled.saveL2SnapshoSide
      curTradeQty := curTradeQty
      orderEvents := state.orderEvents ++
        [⟨.exec, curOrder.odid, isSell, fillableQty, curOrder.price⟩]
      ordersToRemove :=
        if left = 0 then state.ordersToRemove ++ [curOrder.odid] else state.ordersToRemove }

def tradeLevel (side : BookSide P isSell) (tradePrice : P) (qty : ℤ)
    (orderEvents : OrderInfoVec P) :
    Except Halt (BookSide P isSell × ℤ × OrderInfoVec P) :=
  match side.levels.find? tradePrice with
  | none => return (side, qty, orderEvents)
  | some curLevel => do
      let filled ← curLevel.orders.foldlM (tradeFill store tradePrice)
        ⟨side, qty, orderEvents, []⟩
      let removed ← filled.ordersToRemove.foldlM (removeAndSave store) filled.side
      return (removed, filled.curTradeQty, filled.orderEvents)

def processTrade (fuel : Nat) (side : BookSide P isSell) (trade : Trade P) :
    Except Halt (BookSide P isSell × OrderInfoVec P) := do
  let (matchedSide, matchedQty) ← matchPendingLiqRemove store side trade.quantity trade.price
  let restQty ← store (trade.quantity - matchedQty)
  let (cancelled, cancelEvents) ←
    loop (implicitCancelBody store trade.price) fuel (matchedSide, [])
  let (matched, curTradeQty, orderEvents) ←
    tradeLevel store cancelled trade.price restQty cancelEvents
  if 0 < curTradeQty then
    let ledger ← credit store matched.pendingLiqAddQty trade.price curTradeQty
    return ({ matched with pendingLiqAddQty := ledger },
      orderEvents ++ [⟨.add, -1, isSell, curTradeQty, trade.price⟩,
        ⟨.exec, -1, isSell, curTradeQty, trade.price⟩])
  else return (matched, orderEvents)

/-! ### Snapshots -/

def addLiquidity (state : ReconcileState P isSell) (qty : ℤ) (price : P) :
    Except Halt (ReconcileState P isSell) := do
  let ledger ← credit store state.side.pendingLiqAddQty price qty
  let side ← addOrder store { state.side with pendingLiqAddQty := ledger }
    (Order.new state.fakeOrderId isSell qty price)
  return { state with
    side := side
    orderEvents := state.orderEvents ++ [⟨.add, -1, isSell, qty, price⟩]
    fakeOrderId := state.fakeOrderId + 1 }

def frontOrders : ℤ → List (Order P) → Except Halt (List (Order P × ℤ))
  | _, [] => return []
  | qtyToRemove, order :: orders =>
      if qtyToRemove = 0 then return []
      else do
        let remaining ← getRemainingQuantity store order
        let rest ← store (qtyToRemove - min qtyToRemove remaining)
        let later ← frontOrders rest orders
        return (order, min qtyToRemove remaining) :: later

def reconcileLevel (state : ReconcileState P isSell) (l2Level : L2PriceLevel P) :
    Except Halt (ReconcileState P isSell) :=
  match state.side.levels.find? l2Level.price with
  | none => addLiquidity store state l2Level.quantity l2Level.price
  | some level =>
      if l2Level.quantity < level.quantity then do
        let qtyToRemove ← store (level.quantity - l2Level.quantity)
        let front ← frontOrders store qtyToRemove level.orders
        return { state with pendingOrders := state.pendingOrders ++ front }
      else if l2Level.quantity > level.quantity then do
        let curQty ← store (l2Level.quantity - level.quantity)
        addLiquidity store state curQty l2Level.price
      else return state

def missingOrders (side : BookSide P isSell) (snapshot : L2SnapshotSide P) :
    Except Halt (List (Order P × ℤ)) := do
  let missing ← side.levels.entries.mapM fun entry =>
    if entry.1 ∈ snapshot.map L2PriceLevel.price then return []
    else entry.2.orders.mapM fun order => do
      let remaining ← getRemainingQuantity store order
      return (order, remaining)
  return missing.flatten

/-- The object of a listed order has been filled by `state.filled` since it was listed. -/
def removePending (executedOrderNum : Nat) (state : RemovalState P isSell)
    (entry : (Order P × ℤ) × Nat) : Except Halt (RemovalState P isSell) := do
  let order := entry.1.1.fill (state.filled entry.1.1.odid)
  let qty := entry.1.2
  let event := if entry.2 < executedOrderNum then OrderEvent.exec else OrderEvent.cancel
  let orderEvents := state.orderEvents ++ [⟨event, order.odid, isSell, qty, order.price⟩]
  let remaining ← getRemainingQuantity store order
  if remaining = qty then
    let side ← removeOrder store state.side order.odid
    return { state with side := side, orderEvents := orderEvents }
  else if state.side.existLevel order.price then
    let side ← fillLevelOrder store state.side order.price order qty
    return {
      side := side
      orderEvents := orderEvents
      filled := Function.update state.filled order.odid (state.filled order.odid + qty) }
  else return { state with orderEvents := orderEvents }

def reconcile (side : BookSide P isSell) (snapshot : L2SnapshotSide P) :
    Except Halt (BookSide P isSell × OrderInfoVec P) := do
  let compared ← snapshot.foldlM (reconcileLevel store) ⟨side, [], [], 100⟩
  let missing ← missingOrders store compared.side snapshot
  let pendingOrders := compared.pendingOrders ++ missing
  let removed ← pendingOrders.zipIdx.foldlM
    (removePending store (executedOrderNum pendingOrders.length))
    ⟨compared.side, compared.orderEvents, fun _ => 0⟩
  return (removed.side, removed.orderEvents)

def processL2Snapshot (side : BookSide P isSell) (snapshot : L2SnapshotSide P) :
    Except Halt (BookSide P isSell × OrderInfoVec P) :=
  match side.l2SnapQueue with
  | [] => reconcile store side snapshot
  | expected :: later =>
      if expected = snapshot then return ({ side with l2SnapQueue := later }, [])
      else return (side, [])

end Side

end OrderBook.Stored
