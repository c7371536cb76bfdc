import OrderBook.BookSideProcess

/-!
# The two-sided book

Messages and handlers of `message.h`, `order_book.h` and `order_book.cpp`.  The
array `sides_` is indexed by `is_sell`: bids under `false`, asks under `true`.
-/

namespace OrderBook

open FueledLoop

inductive MessageType where
  | add
  | cancel
  | modify
  | exec
  | trade
  | snapshot
  deriving DecidableEq, Repr

structure OrderMessage (P : Type) where
  type : MessageType
  id : ℤ
  isSell : Bool
  quantity : ℤ
  price : P
  deriving DecidableEq, Repr

def OrderMessage.toOrder {P : Type} (msg : OrderMessage P) : Order P :=
  Order.new msg.id msg.isSell msg.quantity msg.price

structure TradeMessage (P : Type) where
  quantity : ℤ
  price : P
  deriving DecidableEq, Repr

def TradeMessage.toTrade {P : Type} (msg : TradeMessage P) : Trade P :=
  ⟨msg.quantity, msg.price⟩

structure SnapshotMessage (P : Type) where
  bidLevels : L2SnapshotSide P
  askLevels : L2SnapshotSide P
  deriving DecidableEq, Repr

/-- The levels of a snapshot message for the bids or the asks. -/
def SnapshotMessage.levels {P : Type} (msg : SnapshotMessage P) : Bool → L2SnapshotSide P
  | false => msg.bidLevels
  | true => msg.askLevels

structure SmartOrderBook (P : Type) [LinearOrder P] where
  sides : (isSell : Bool) → BookSide P isSell

namespace SmartOrderBook

variable {P : Type} [LinearOrder P]

/-- A freshly constructed book. -/
def empty : SmartOrderBook P := ⟨fun _ => .empty⟩

/-- Write one of the two sides. -/
def setSide (book : SmartOrderBook P) (isSell : Bool) (side : BookSide P isSell) :
    SmartOrderBook P :=
  ⟨Function.update book.sides isSell side⟩

def existOrder (book : SmartOrderBook P) (id : ℤ) : Bool :=
  (book.sides false).existOrder id || (book.sides true).existOrder id

/-- The order that `getOrderHandler(id).order` points at. -/
def getOrder? (book : SmartOrderBook P) (id : ℤ) : Option (Order P) :=
  if (book.sides false).existOrder id then (book.sides false).getOrder? id
  else (book.sides true).getOrder? id

variable [Zero P]

/-- The uncrossing part of `processOrderAddMessage`. -/
def uncross (fuel : Nat) (book : SmartOrderBook P) (msg : OrderMessage P)
    (order : Order P) :
    Except Halt (SmartOrderBook P × Order P × OrderInfoVec P) :=
  if (book.sides (!msg.isSell)).bookCrossedWithPrice msg.price then do
    let (opposite, filled, uncrossEvents) ←
      (book.sides (!msg.isSell)).processCrossedOrder fuel order
    let uncrossed := book.setSide (!msg.isSell) opposite
    let credited := uncrossed.setSide msg.isSell
      ((uncrossed.sides msg.isSell).addPendingLiqRemoveQty uncrossEvents)
    return (credited, filled, uncrossEvents)
  else return (book, order, [])

/-- The part of `processOrderAddMessage` after the match with pending quantity. -/
def addUnmatched (fuel : Nat) (book : SmartOrderBook P) (msg : OrderMessage P)
    (order : Order P) : Except Halt (SmartOrderBook P × OrderInfoVec P) := do
  if order.getRemainingQuantity = 0 then return (book, [])
  let (uncrossed, filled, events) ← book.uncross fuel msg order
  if filled.getRemainingQuantity = 0 then return (uncrossed, events)
  let side ← (uncrossed.sides msg.isSell).addOrder filled
  return (uncrossed.setSide msg.isSell side,
    events ++ [⟨.add, msg.id, msg.isSell, filled.getRemainingQuantity, filled.price⟩])

def processOrderAddMessage (fuel : Nat) (book : SmartOrderBook P) (msg : OrderMessage P) :
    Except Halt (SmartOrderBook P × OrderInfoVec P) := do
  let (own, matchedQty) ←
    (book.sides msg.isSell).matchPendingLiqAdd fuel msg.quantity msg.price
  (book.setSide msg.isSell own).addUnmatched fuel msg (msg.toOrder.fill matchedQty)

def processOrderCancelMessage (book : SmartOrderBook P) (msg : OrderMessage P) :
    SmartOrderBook P × OrderInfoVec P :=
  let (side, events) :=
    (book.sides msg.isSell).processOrderCancel msg.id msg.quantity msg.price
  (book.setSide msg.isSell side, events)

/-- The events of the simulated cancel and add are dropped, as in the source. -/
def processOrderModifyMessage (fuel : Nat) (book : SmartOrderBook P)
    (msg : OrderMessage P) : Except Halt (SmartOrderBook P × OrderInfoVec P) :=
  let events : OrderInfoVec P := [⟨.modif, msg.id, msg.isSell, msg.quantity, msg.price⟩]
  match book.getOrder? msg.id with
  | none => return (book, events)
  | some curOrder => do
      let (cancelled, _) := book.processOrderCancelMessage
        ⟨.cancel, msg.id, msg.isSell, curOrder.getRemainingQuantity, msg.price⟩
      let (added, _) ← cancelled.processOrderAddMessage fuel
        ⟨.add, msg.id, msg.isSell, msg.quantity, msg.price⟩
      return (added, events)

def processTradeMessage (fuel : Nat) (book : SmartOrderBook P) (msg : TradeMessage P) :
    Except Halt (SmartOrderBook P × OrderInfoVec P) := do
  let (bid, bidEvents) ← (book.sides false).processTrade fuel msg.toTrade
  let (ask, askEvents) ← (book.sides true).processTrade fuel msg.toTrade
  return ((book.setSide false bid).setSide true ask, bidEvents ++ askEvents)

def processSnapshotMessage (book : SmartOrderBook P) (msg : SnapshotMessage P) :
    Except Halt (SmartOrderBook P × OrderInfoVec P) := do
  let (bid, bidEvents) ← (book.sides false).processL2Snapshot msg.bidLevels
  let (ask, askEvents) ← (book.sides true).processL2Snapshot msg.askLevels
  return ((book.setSide false bid).setSide true ask, bidEvents ++ askEvents)

end SmartOrderBook

/-- A message of one of the three streams, with the handler it goes to. -/
inductive Message (P : Type) where
  | add (msg : OrderMessage P)
  | cancel (msg : OrderMessage P)
  | modify (msg : OrderMessage P)
  | trade (msg : TradeMessage P)
  | snapshot (msg : SnapshotMessage P)
  deriving DecidableEq, Repr

def SmartOrderBook.process {P : Type} [LinearOrder P] [Zero P] (fuel : Nat)
    (book : SmartOrderBook P) : Message P → Except Halt (SmartOrderBook P × OrderInfoVec P)
  | .add msg => book.processOrderAddMessage fuel msg
  | .cancel msg => return book.processOrderCancelMessage msg
  | .modify msg => book.processOrderModifyMessage fuel msg
  | .trade msg => book.processTradeMessage fuel msg
  | .snapshot msg => book.processSnapshotMessage msg

end OrderBook
