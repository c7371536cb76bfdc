import OrderBook.SharedSide
import OrderBook.SmartOrderBook

/-!
# The two-sided book with its pointers

The handlers of `order_book.cpp` over the heap.  Both sides keep pointers into
the one heap: the order of an ADD message is allocated before it crosses the
opposite side, which fills it, and the same object is linked on its own side.
-/

namespace OrderBook

open FueledLoop SharedHeap

structure SharedBook (P : Type) [LinearOrder P] where
  sides : (isSell : Bool) → SharedSide P isSell

namespace SharedBook

variable {P : Type} [LinearOrder P]

def empty : SharedBook P := ⟨fun _ => .empty⟩

def setSide (book : SharedBook P) (isSell : Bool) (side : SharedSide P isSell) :
    SharedBook P :=
  ⟨Function.update book.sides isSell side⟩

def existOrder (book : SharedBook P) (id : ℤ) : Bool :=
  (book.sides false).existOrder id || (book.sides true).existOrder id

/-- `getOrderHandler(id)`.  For an unknown id the source makes a handler without an order. -/
def getOrderHandler? (book : SharedBook P) (id : ℤ) : Option SharedHandler :=
  if (book.sides false).existOrder id then (book.sides false).orderMap.find? id
  else (book.sides true).orderMap.find? id

variable [Zero P]

def uncross (fuel : Nat) (book : SharedBook P) (msg : OrderMessage P) (order : Pointer) :
    Program (Order P) (SharedBook P × OrderInfoVec P) :=
  if (book.sides (!msg.isSell)).bookCrossedWithPrice msg.price then do
    let (opposite, uncrossEvents) ← (book.sides (!msg.isSell)).processCrossedOrder fuel order
    let uncrossed := book.setSide (!msg.isSell) opposite
    let credited := uncrossed.setSide msg.isSell
      ((uncrossed.sides msg.isSell).addPendingLiqRemoveQty uncrossEvents)
    return (credited, uncrossEvents)
  else return (book, [])

def addUnmatched (fuel : Nat) (book : SharedBook P) (msg : OrderMessage P) (order : Pointer) :
    Program (Order P) (SharedBook P × OrderInfoVec P) := do
  let matched ← load order
  if matched.getRemainingQuantity = 0 then return (book, [])
  let (uncrossed, events) ← book.uncross fuel msg order
  let filled ← load order
  if filled.getRemainingQuantity = 0 then return (uncrossed, events)
  let side ← (uncrossed.sides msg.isSell).addOrder order
  let added ← load order
  return (uncrossed.setSide msg.isSell side,
    events ++ [⟨.add, msg.id, msg.isSell, added.getRemainingQuantity, added.price⟩])

def processOrderAddMessage (fuel : Nat) (book : SharedBook P) (msg : OrderMessage P) :
    Program (Order P) (SharedBook P × OrderInfoVec P) := do
  let order ← makeShared msg.toOrder
  let (own, matchedQty) ← liftCall
    ((book.sides msg.isSell).matchPendingLiqAdd fuel msg.quantity msg.price)
  let object ← load order
  store order (object.fill matchedQty)
  (book.setSide msg.isSell own).addUnmatched fuel msg order

def processOrderCancelMessage (book : SharedBook P) (msg : OrderMessage P) :
    Program (Order P) (SharedBook P × OrderInfoVec P) := do
  let (side, events) ←
    (book.sides msg.isSell).processOrderCancel msg.id msg.quantity msg.price
  return (book.setSide msg.isSell side, events)

def processOrderModifyMessage (fuel : Nat) (book : SharedBook P) (msg : OrderMessage P) :
    Program (Order P) (SharedBook P × OrderInfoVec P) :=
  let events : OrderInfoVec P := [⟨.modif, msg.id, msg.isSell, msg.quantity, msg.price⟩]
  if book.existOrder msg.id then
    match book.getOrderHandler? msg.id with
    | none => fun _ => .error .danglingPointer
    | some handler => do
        let curOrder ← load handler.order
        let (cancelled, _) ← book.processOrderCancelMessage
          ⟨.cancel, msg.id, msg.isSell, curOrder.getRemainingQuantity, msg.price⟩
        let (added, _) ← cancelled.processOrderAddMessage fuel
          ⟨.add, msg.id, msg.isSell, msg.quantity, msg.price⟩
        return (added, events)
  else return (book, events)

def processTradeMessage (fuel : Nat) (book : SharedBook P) (msg : TradeMessage P) :
    Program (Order P) (SharedBook P × OrderInfoVec P) := do
  let (bid, bidEvents) ← (book.sides false).processTrade fuel msg.toTrade
  let (ask, askEvents) ← (book.sides true).processTrade fuel msg.toTrade
  return ((book.setSide false bid).setSide true ask, bidEvents ++ askEvents)

def processSnapshotMessage (book : SharedBook P) (msg : SnapshotMessage P) :
    Program (Order P) (SharedBook P × OrderInfoVec P) := do
  let (bid, bidEvents) ← (book.sides false).processL2Snapshot msg.bidLevels
  let (ask, askEvents) ← (book.sides true).processL2Snapshot msg.askLevels
  return ((book.setSide false bid).setSide true ask, bidEvents ++ askEvents)

def process (fuel : Nat) (book : SharedBook P) :
    Message P → Program (Order P) (SharedBook P × OrderInfoVec P)
  | .add msg => book.processOrderAddMessage fuel msg
  | .cancel msg => book.processOrderCancelMessage msg
  | .modify msg => book.processOrderModifyMessage fuel msg
  | .trade msg => book.processTradeMessage fuel msg
  | .snapshot msg => book.processSnapshotMessage msg

end SharedBook

end OrderBook
