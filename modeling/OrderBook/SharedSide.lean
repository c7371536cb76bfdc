import OrderBook.SharedHeap
import OrderBook.BookSideProcess

/-!
# A side of the book with its pointers

The level and the side of `level.h` and `book_side.h` as the source stores
them.  An order is one object on the heap.  The list of a level holds pointers
to orders, and the handler that the id map keeps for an order is its pointer
together with an iterator to its list node.  Every read or write of an order goes
through a pointer, so the variables of a loop hold pointers, not orders.
-/

namespace OrderBook

open FueledLoop SharedHeap

/-- `L3PriceLevel` of the source, with its list of pointers. -/
structure SharedLevel (P : Type) where
  price : P
  quantity : ℤ
  numOrders : ℤ
  orders : List Node
  deriving DecidableEq, Repr

/-- `OrderHandler` of the source. -/
structure SharedHandler where
  order : Pointer
  iter : Iterator
  deriving DecidableEq, Repr

namespace SharedLevel

variable {P : Type}

def new [Zero P] : SharedLevel P := ⟨0, 0, 0, []⟩

def addOrder (level : SharedLevel P) (order : Pointer) :
    Program (Order P) (SharedLevel P × Iterator) := do
  let object ← load order
  let (orders, iter) ← pushBack level.orders order
  return ({
    price := object.price
    quantity := level.quantity + object.getRemainingQuantity
    numOrders := level.numOrders + 1
    orders := orders }, iter)

def removeOrder (level : SharedLevel P) (handler : SharedHandler) :
    Program (Order P) (SharedLevel P) := do
  let orders ← eraseNode level.orders handler.iter
  let object ← load handler.order
  return { level with
    orders := orders
    quantity := level.quantity - object.getRemainingQuantity
    numOrders := level.numOrders - 1 }

def modifyOrder [DecidableEq P] (level : SharedLevel P) (order : Pointer) (newQuantity : ℤ)
    (newPrice : P) : Program (Order P) (SharedLevel P) := do
  let object ← load order
  liftCall (assertThat (newPrice = object.price))
  store order { object with quantity := newQuantity }
  return { level with quantity := level.quantity + (newQuantity - object.quantity) }

def fillOrder (level : SharedLevel P) (order : Pointer) (qty : ℤ) :
    Program (Order P) (SharedLevel P) := do
  let object ← load order
  liftCall (assertThat (qty ≤ object.getRemainingQuantity))
  store order (object.fill qty)
  return { level with quantity := level.quantity - qty }

end SharedLevel

structure SharedSide (P : Type) [LinearOrder P] (isSell : Bool) where
  levels : SortedMap P (SharedLevel P) (PriceComparator isSell)
  orderMap : SortedMap ℤ SharedHandler (· < ·)
  l2SnapQueue : List (L2SnapshotSide P)
  pendingLiqRemoveQty : SortedMap P ℤ (· < ·)
  pendingLiqAddQty : SortedMap P ℤ (PriceComparator isSell)

namespace SharedSide

variable {P : Type} [LinearOrder P] {isSell : Bool}

def empty : SharedSide P isSell where
  levels := .empty
  orderMap := .empty
  l2SnapQueue := []
  pendingLiqRemoveQty := .empty
  pendingLiqAddQty := .empty

def existOrder (side : SharedSide P isSell) (id : ℤ) : Bool :=
  (side.orderMap.find? id).isSome

def existLevel (side : SharedSide P isSell) (price : P) : Bool :=
  (side.levels.find? price).isSome

/-- The expression `levels_[price]`. -/
def getL3Level [Zero P] (side : SharedSide P isSell) (price : P) : SharedLevel P :=
  (side.levels.find? price).getD .new

def l2View (side : SharedSide P isSell) : L2SnapshotSide P :=
  side.levels.entries.map fun entry => ⟨entry.1, entry.2.quantity⟩

def saveL2SnapshoSide (side : SharedSide P isSell) : SharedSide P isSell :=
  { side with l2SnapQueue := side.l2SnapQueue ++ [side.l2View] }

def bookCrossedWithPrice (side : SharedSide P isSell) (price : P) : Bool :=
  match side.levels.begin? with
  | none => false
  | some (_, level) =>
      if isSell then decide (price ≥ level.price) else decide (level.price ≥ price)

section Orders

variable [Zero P]

def addOrder (side : SharedSide P isSell) (order : Pointer) :
    Program (Order P) (SharedSide P isSell) := do
  let object ← load order
  liftCall (assertThat (object.isSell = isSell))
  if side.existOrder object.odid then return side
  let (level, iter) ← (side.getL3Level object.price).addOrder order
  return { side with
    levels := side.levels.insert object.price level
    orderMap := side.orderMap.insert object.odid ⟨order, iter⟩ }

def removeOrder (side : SharedSide P isSell) (id : ℤ) :
    Program (Order P) (SharedSide P isSell) :=
  match side.orderMap.find? id with
  | none => return side
  | some handler => do
      let object ← load handler.order
      let level ← (side.getL3Level object.price).removeOrder handler
      let levels := side.levels.insert object.price level
      return { side with
        orderMap := side.orderMap.erase id
        levels := if level.numOrders = 0 then levels.erase level.price else levels }

def modifyOrder (side : SharedSide P isSell) (odid : ℤ) (quantity : ℤ) (price : P) :
    Program (Order P) (SharedSide P isSell) :=
  match side.orderMap.find? odid with
  | none => return side
  | some handler => do
      let object ← load handler.order
      if object.price = price then
        let level ← (side.getL3Level price).modifyOrder handler.order quantity price
        return { side with levels := side.levels.insert price level }
      else
        let newOrder ← makeShared
          ((Order.new object.odid object.isSell quantity price).fill object.filledQuantity)
        let removed ← side.removeOrder odid
        removed.addOrder newOrder

/-- The call `fillOrder(order, qty)` on the level stored under `key`. -/
def fillLevelOrder (side : SharedSide P isSell) (key : P) (order : Pointer) (qty : ℤ) :
    Program (Order P) (SharedSide P isSell) := do
  let level ← (side.getL3Level key).fillOrder order qty
  return { side with levels := side.levels.insert key level }

end Orders

/-! ### Pending ledgers -/

def matchPendingLiqRemove (side : SharedSide P isSell) (quantity : ℤ) (price : P) :
    SharedSide P isSell × ℤ :=
  match side.pendingLiqRemoveQty.find? price with
  | none => (side, 0)
  | some pending =>
      let matched := min pending quantity
      let ledger := side.pendingLiqRemoveQty.insert price (pending - matched)
      ({ side with
          pendingLiqRemoveQty :=
            if pending - matched = 0 then ledger.erase price else ledger },
        matched)

def addPendingLiqRemoveQty (side : SharedSide P isSell) (events : OrderInfoVec P) :
    SharedSide P isSell :=
  { side with
    pendingLiqRemoveQty := events.foldl
      (fun pending e =>
        if e.event = OrderEvent.exec then credit pending e.price e.quantity else pending)
      side.pendingLiqRemoveQty }

def matchPendingLiqAdd (fuel : Nat) (side : SharedSide P isSell) (quantity : ℤ)
    (price : P) : Except Halt (SharedSide P isSell × ℤ) := do
  let (ledger, matched) ←
    loop (BookSide.matchPendingLiqAddBody isSell quantity price) fuel (side.pendingLiqAddQty, 0)
  return ({ side with pendingLiqAddQty := ledger }, matched)

/-! ### Crossing orders -/

variable [Zero P]

/-- The variables of `processCrossedOrder` beside the pointer to the aggressor. -/
structure CrossState (P : Type) [LinearOrder P] (isSell : Bool) where
  side : SharedSide P isSell
  remainingQuantity : ℤ
  orderEvents : OrderInfoVec P
  ordersToRemove : List ℤ

/-- One pass of the inner `for` over the list of the level under `key`. -/
def crossFill (key : P) (order : Pointer) (state : CrossState P isSell) (node : Node) :
    Program (Order P) (CrossState P isSell) :=
  if state.remainingQuantity = 0 then return state
  else do
    let curOrder ← load node.pointer
    let fillableQty := min state.remainingQuantity curOrder.getRemainingQuantity
    let filled ← state.side.fillLevelOrder key node.pointer fillableQty
    let saved := filled.saveL2SnapshoSide
    let current ← load node.pointer
    let aggressor ← load order
    store order (aggressor.fill fillableQty)
    return {
      side := { saved with
        pendingLiqRemoveQty := credit saved.pendingLiqRemoveQty current.price fillableQty }
      remainingQuantity := state.remainingQuantity - fillableQty
      orderEvents := state.orderEvents ++
        [⟨.exec, current.odid, isSell, fillableQty, current.price⟩]
      ordersToRemove :=
        if current.getRemainingQuantity = 0 then state.ordersToRemove ++ [current.odid]
        else state.ordersToRemove }

/-- One iteration of the outer `while` of `processCrossedOrder`. -/
def processCrossedOrderBody (order : Pointer) (state : CrossState P isSell) :
    Program (Order P) (Flow (CrossState P isSell)) := do
  let aggressor ← load order
  if 0 < state.remainingQuantity ∧ state.side.bookCrossedWithPrice aggressor.price then
    match state.side.levels.begin? with
    | none => return .done state
    | some (key, curLevel) => do
        let filled ← curLevel.orders.foldlM (crossFill key order)
          { state with ordersToRemove := [] }
        let side ← filled.ordersToRemove.foldlM removeOrder filled.side
        return .next { filled with side := side }
  else return .done state

def processCrossedOrder (fuel : Nat) (side : SharedSide P isSell) (order : Pointer) :
    Program (Order P) (SharedSide P isSell × OrderInfoVec P) := do
  let aggressor ← load order
  liftCall (assertThat (aggressor.isSell ≠ isSell))
  let last ← loopProgram (processCrossedOrderBody order) fuel
    ⟨side, aggressor.getRemainingQuantity, [], []⟩
  return (last.side, last.orderEvents)

/-! ### Cancels -/

def processOrderCancel (side : SharedSide P isSell) (id : ℤ) (quantity : ℤ) (price : P) :
    Program (Order P) (SharedSide P isSell × OrderInfoVec P) :=
  let (matchedSide, matchedQty) := side.matchPendingLiqRemove quantity price
  let restQty := quantity - matchedQty
  if 0 < restQty ∧ matchedSide.existOrder id then do
    let removed ← matchedSide.removeOrder id
    return (removed, [⟨.cancel, id, isSell, restQty, price⟩])
  else return (matchedSide, [])

/-! ### Trades -/

def removeAndSave (side : SharedSide P isSell) (odid : ℤ) :
    Program (Order P) (SharedSide P isSell) := do
  let removed ← side.removeOrder odid
  return removed.saveL2SnapshoSide

/-- One iteration of step 1 of `processTrade`. -/
def implicitCancelBody (tradePrice : P) (state : SharedSide P isSell × OrderInfoVec P) :
    Program (Order P) (Flow (SharedSide P isSell × OrderInfoVec P)) :=
  let (side, orderEvents) := state
  match side.levels.begin? with
  | none => return .done state
  | some (key, level) =>
      let shouldCancel :=
        if isSell then decide (key < tradePrice) else decide (key > tradePrice)
      if shouldCancel then do
        let orders ← level.orders.mapM fun node => load node.pointer
        let removed ← (orders.map Order.odid).foldlM removeAndSave side
        return .next (removed,
          orderEvents ++ orders.map fun order =>
            ⟨.cancel, order.odid, isSell, order.quantity, order.price⟩)
      else return .done state

/-- The locals of step 2. -/
structure TradeState (P : Type) [LinearOrder P] (isSell : Bool) where
  side : SharedSide P isSell
  curTradeQty : ℤ
  orderEvents : OrderInfoVec P
  ordersToRemove : List ℤ

/-- One pass of the `for` of step 2 over the list of the level under `key`. -/
def tradeFill (key : P) (state : TradeState P isSell) (node : Node) :
    Program (Order P) (TradeState P isSell) :=
  if state.curTradeQty = 0 then return state
  else do
    let curOrder ← load node.pointer
    let fillableQty := min state.curTradeQty curOrder.getRemainingQuantity
    let filled ← state.side.fillLevelOrder key node.pointer fillableQty
    let current ← load node.pointer
    return {
      side := filled.saveL2SnapshoSide
      curTradeQty := state.curTradeQty - fillableQty
      orderEvents := state.orderEvents ++
        [⟨.exec, current.odid, isSell, fillableQty, current.price⟩]
      ordersToRemove :=
        if current.getRemainingQuantity = 0 then state.ordersToRemove ++ [current.odid]
        else state.ordersToRemove }

def tradeLevel (side : SharedSide P isSell) (tradePrice : P) (qty : ℤ)
    (orderEvents : OrderInfoVec P) :
    Program (Order P) (SharedSide P isSell × ℤ × OrderInfoVec P) :=
  match side.levels.find? tradePrice with
  | none => return (side, qty, orderEvents)
  | some curLevel => do
      let filled ← curLevel.orders.foldlM (tradeFill tradePrice) ⟨side, qty, orderEvents, []⟩
      let removed ← filled.ordersToRemove.foldlM removeAndSave filled.side
      return (removed, filled.curTradeQty, filled.orderEvents)

def processTrade (fuel : Nat) (side : SharedSide P isSell) (trade : Trade P) :
    Program (Order P) (SharedSide P isSell × OrderInfoVec P) := do
  let (matchedSide, matchedQty) := side.matchPendingLiqRemove trade.quantity trade.price
  -- Step 1
  let (cancelled, cancelEvents) ←
    loopProgram (implicitCancelBody trade.price) fuel (matchedSide, [])
  -- Step 2
  let (matched, curTradeQty, orderEvents) ←
    cancelled.tradeLevel trade.price (trade.quantity - matchedQty) cancelEvents
  -- Step 3
  if 0 < curTradeQty then
    return ({ matched with
        pendingLiqAddQty := credit matched.pendingLiqAddQty trade.price curTradeQty },
      orderEvents ++ [⟨.add, -1, isSell, curTradeQty, trade.price⟩,
        ⟨.exec, -1, isSell, curTradeQty, trade.price⟩])
  else return (matched, orderEvents)

/-! ### Snapshots -/

/-- The locals of the first pass of `processL2Snapshot`; `pending_orders` holds pointers. -/
structure ReconcileState (P : Type) [LinearOrder P] (isSell : Bool) where
  side : SharedSide P isSell
  orderEvents : OrderInfoVec P
  pendingOrders : List (Pointer × ℤ)
  fakeOrderId : ℤ

def addLiquidity (state : ReconcileState P isSell) (qty : ℤ) (price : P) :
    Program (Order P) (ReconcileState P isSell) := do
  let credited := { state.side with
    pendingLiqAddQty := credit state.side.pendingLiqAddQty price qty }
  let order ← makeShared (Order.new state.fakeOrderId isSell qty price)
  let side ← credited.addOrder order
  return { state with
    side := side
    orderEvents := state.orderEvents ++ [⟨.add, -1, isSell, qty, price⟩]
    fakeOrderId := state.fakeOrderId + 1 }

/-- One pass of the `for` that takes orders from the front of a level; the
state is `qty_to_remove` and `pending_orders`. -/
def frontOrder (state : ℤ × List (Pointer × ℤ)) (node : Node) :
    Program (Order P) (ℤ × List (Pointer × ℤ)) :=
  if state.1 = 0 then return state
  else do
    let order ← load node.pointer
    let curRemoveQuantity := min state.1 order.getRemainingQuantity
    return (state.1 - curRemoveQuantity, state.2 ++ [(node.pointer, curRemoveQuantity)])

/-- One pass of the first loop, over the levels of the snapshot. -/
def reconcileLevel (state : ReconcileState P isSell) (l2Level : L2PriceLevel P) :
    Program (Order P) (ReconcileState P isSell) :=
  match state.side.levels.find? l2Level.price with
  | none => addLiquidity state l2Level.quantity l2Level.price
  | some level =>
      if l2Level.quantity < level.quantity then do
        let (_, pendingOrders) ← level.orders.foldlM frontOrder
          (level.quantity - l2Level.quantity, state.pendingOrders)
        return { state with pendingOrders := pendingOrders }
      else if l2Level.quantity > level.quantity then
        addLiquidity state (l2Level.quantity - level.quantity) l2Level.price
      else return state

def missingOrder (pendingOrders : List (Pointer × ℤ)) (node : Node) :
    Program (Order P) (List (Pointer × ℤ)) := do
  let order ← load node.pointer
  return pendingOrders ++ [(node.pointer, order.getRemainingQuantity)]

/-- One pass of the second loop: the orders of a level that the snapshot does not have. -/
def missingLevel (snapshot : L2SnapshotSide P) (pendingOrders : List (Pointer × ℤ))
    (entry : P × SharedLevel P) : Program (Order P) (List (Pointer × ℤ)) :=
  if entry.1 ∈ snapshot.map L2PriceLevel.price then return pendingOrders
  else entry.2.orders.foldlM missingOrder pendingOrders

/-- The variables of the third loop. -/
structure RemovalState (P : Type) [LinearOrder P] (isSell : Bool) where
  side : SharedSide P isSell
  orderEvents : OrderInfoVec P

/-- One pass of the third loop, at index `entry.2` of `pending_orders`. -/
def removePending (executedOrderNum : Nat) (state : RemovalState P isSell)
    (entry : (Pointer × ℤ) × Nat) : Program (Order P) (RemovalState P isSell) := do
  let order ← load entry.1.1
  let qty := entry.1.2
  let event := if entry.2 < executedOrderNum then OrderEvent.exec else OrderEvent.cancel
  let orderEvents := state.orderEvents ++ [⟨event, order.odid, isSell, qty, order.price⟩]
  if order.getRemainingQuantity = qty then
    let side ← state.side.removeOrder order.odid
    return ⟨side, orderEvents⟩
  else if state.side.existLevel order.price then
    let side ← state.side.fillLevelOrder order.price entry.1.1 qty
    return ⟨side, orderEvents⟩
  else return { state with orderEvents := orderEvents }

/-- The reconciliation branch, taken when no snapshot is expected. -/
def reconcile (side : SharedSide P isSell) (snapshot : L2SnapshotSide P) :
    Program (Order P) (SharedSide P isSell × OrderInfoVec P) := do
  let compared ← snapshot.foldlM reconcileLevel ⟨side, [], [], 100⟩
  let pendingOrders ← compared.side.levels.entries.foldlM (missingLevel snapshot)
    compared.pendingOrders
  let removed ← pendingOrders.zipIdx.foldlM
    (removePending (BookSide.executedOrderNum pendingOrders.length))
    ⟨compared.side, compared.orderEvents⟩
  return (removed.side, removed.orderEvents)

def processL2Snapshot (side : SharedSide P isSell) (snapshot : L2SnapshotSide P) :
    Program (Order P) (SharedSide P isSell × OrderInfoVec P) :=
  match side.l2SnapQueue with
  | [] => side.reconcile snapshot
  | expected :: later =>
      if expected = snapshot then return ({ side with l2SnapQueue := later }, [])
      -- a polluted snapshot
      else return (side, [])

end SharedSide

end OrderBook
