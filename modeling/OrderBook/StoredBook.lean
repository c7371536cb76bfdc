import OrderBook.BookRuns
import OrderBook.StoredSide

/-!
# A book that stores its quantities

The handlers of `order_book.cpp` over the sides that store every computed quantity.  The
`int` of the source is the store that keeps the low 32 bits; a store with a range check
stops the program at the first quantity out of the range.
-/

namespace OrderBook.Stored

open FueledLoop

/-- A 32-bit `int` in two's complement. -/
def int32 (qty : ℤ) : Except Halt ℤ := .ok (qty.bmod (2 ^ 32))

/-- Stop the program when a quantity leaves `[0, bound]`. -/
def inRange (bound qty : ℤ) : Except Halt ℤ := do
  assertThat (0 ≤ qty ∧ qty ≤ bound)
  return qty

variable {P : Type} [LinearOrder P] [Zero P] (store : ℤ → Except Halt ℤ)

def uncross (fuel : Nat) (book : SmartOrderBook P) (msg : OrderMessage P) (order : Order P) :
    Except Halt (SmartOrderBook P × Order P × OrderInfoVec P) :=
  if (book.sides (!msg.isSell)).bookCrossedWithPrice msg.price then do
    let (opposite, filled, uncrossEvents) ←
      Side.processCrossedOrder store fuel (book.sides (!msg.isSell)) order
    let uncrossed := book.setSide (!msg.isSell) opposite
    let own ← Side.addPendingLiqRemoveQty store (uncrossed.sides msg.isSell) uncrossEvents
    return (uncrossed.setSide msg.isSell own, filled, uncrossEvents)
  else return (book, order, [])

def addUnmatched (fuel : Nat) (book : SmartOrderBook P) (msg : OrderMessage P)
    (order : Order P) : Except Halt (SmartOrderBook P × OrderInfoVec P) := do
  let unmatched ← getRemainingQuantity store order
  if unmatched = 0 then return (book, [])
  let (uncrossed, filled, events) ← uncross store fuel book msg order
  let unfilled ← getRemainingQuantity store filled
  if unfilled = 0 then return (uncrossed, events)
  let side ← Side.addOrder store (uncrossed.sides msg.isSell) filled
  return (uncrossed.setSide msg.isSell side,
    events ++ [⟨.add, msg.id, msg.isSell, unfilled, filled.price⟩])

def processOrderAddMessage (fuel : Nat) (book : SmartOrderBook P) (msg : OrderMessage P) :
    Except Halt (SmartOrderBook P × OrderInfoVec P) := do
  let (own, matchedQty) ←
    Side.matchPendingLiqAdd store fuel (book.sides msg.isSell) msg.quantity msg.price
  let order ← fill store msg.toOrder matchedQty
  addUnmatched store fuel (book.setSide msg.isSell own) msg order

def processOrderCancelMessage (book : SmartOrderBook P) (msg : OrderMessage P) :
    Except Halt (SmartOrderBook P × OrderInfoVec P) := do
  let (side, events) ←
    Side.processOrderCancel store (book.sides msg.isSell) msg.id msg.quantity msg.price
  return (book.setSide msg.isSell side, events)

def processOrderModifyMessage (fuel : Nat) (book : SmartOrderBook P) (msg : OrderMessage P) :
    Except Halt (SmartOrderBook P × OrderInfoVec P) :=
  let events : OrderInfoVec P := [⟨.modif, msg.id, msg.isSell, msg.quantity, msg.price⟩]
  match book.getOrder? msg.id with
  | none => return (book, events)
  | some curOrder => do
      let remaining ← getRemainingQuantity store curOrder
      let (cancelled, _) ← processOrderCancelMessage store book
        ⟨.cancel, msg.id, msg.isSell, remaining, msg.price⟩
      let (added, _) ← processOrderAddMessage store fuel cancelled
        ⟨.add, msg.id, msg.isSell, msg.quantity, msg.price⟩
      return (added, events)

def processTradeMessage (fuel : Nat) (book : SmartOrderBook P) (msg : TradeMessage P) :
    Except Halt (SmartOrderBook P × OrderInfoVec P) := do
  let (bid, bidEvents) ← Side.processTrade store fuel (book.sides false) msg.toTrade
  let (ask, askEvents) ← Side.processTrade store fuel (book.sides true) msg.toTrade
  return ((book.setSide false bid).setSide true ask, bidEvents ++ askEvents)

def processSnapshotMessage (book : SmartOrderBook P) (msg : SnapshotMessage P) :
    Except Halt (SmartOrderBook P × OrderInfoVec P) := do
  let (bid, bidEvents) ← Side.processL2Snapshot store (book.sides false) msg.bidLevels
  let (ask, askEvents) ← Side.processL2Snapshot store (book.sides true) msg.askLevels
  return ((book.setSide false bid).setSide true ask, bidEvents ++ askEvents)

def process (fuel : Nat) (book : SmartOrderBook P) :
    Message P → Except Halt (SmartOrderBook P × OrderInfoVec P)
  | .add msg => processOrderAddMessage store fuel book msg
  | .cancel msg => processOrderCancelMessage store book msg
  | .modify msg => processOrderModifyMessage store fuel book msg
  | .trade msg => processTradeMessage store fuel book msg
  | .snapshot msg => processSnapshotMessage store book msg

/-- A message whose handler returns. -/
def MessageStep (book : SmartOrderBook P) (message : Message P) (next : SmartOrderBook P) :
    Prop :=
  ∃ events, Returns (fun fuel => process store fuel book message) (next, events)

end OrderBook.Stored
