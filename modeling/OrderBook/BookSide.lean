import Mathlib.Order.RelClasses
import OrderBook.SortedMap
import OrderBook.QueueFill
import OrderBook.PriceLevel

/-!
# One side of the book

The state and the operations of `book_side.h` and `book_side.cpp`.  The flag
`is_sell_` of the source is an index of the type, so the comparator of a side
is fixed by it as in the constructor of `SmartOrderBook`.  Loops that need not
end take fuel; an operation that reaches an `assert` may fail.
-/

namespace OrderBook

open FueledLoop

def BidComparator {P : Type} [LT P] (lhs rhs : P) : Prop := lhs > rhs

def AskComparator {P : Type} [LT P] (lhs rhs : P) : Prop := lhs < rhs

/-- The comparator a side is built with: lower asks and higher bids come first. -/
def PriceComparator {P : Type} [LT P] : Bool → P → P → Prop
  | false => BidComparator
  | true => AskComparator

section Comparator

variable {P : Type} [LinearOrder P]

instance (isSell : Bool) : DecidableRel (PriceComparator (P := P) isSell) :=
  match isSell with
  | false => fun lhs rhs => inferInstanceAs (Decidable (lhs > rhs))
  | true => fun lhs rhs => inferInstanceAs (Decidable (lhs < rhs))

instance (isSell : Bool) : IsStrictTotalOrder P (PriceComparator isSell) :=
  match isSell with
  | false => inferInstanceAs (IsStrictTotalOrder P (· > ·))
  | true => inferInstanceAs (IsStrictTotalOrder P (· < ·))

end Comparator

/-- A pending ledger entry is created at zero when it is first touched:
`pending[price] += qty`. -/
def credit {P : Type} {before : P → P → Prop} [DecidableEq P] [DecidableRel before]
    [IsStrictTotalOrder P before] (pending : SortedMap P ℤ before)
    (price : P) (qty : ℤ) : SortedMap P ℤ before :=
  pending.insert price ((pending.find? price).getD 0 + qty)

structure Trade (P : Type) where
  quantity : ℤ
  price : P
  deriving DecidableEq, Repr

structure BookSide (P : Type) [LinearOrder P] (isSell : Bool) where
  levels : SortedMap P (L3PriceLevel P) (PriceComparator isSell)
  orderMap : SortedMap ℤ (OrderHandler P) (· < ·)
  l2SnapQueue : List (L2SnapshotSide P)
  pendingLiqRemoveQty : SortedMap P ℤ (· < ·)
  pendingLiqAddQty : SortedMap P ℤ (PriceComparator isSell)

namespace BookSide

variable {P : Type} [LinearOrder P] {isSell : Bool}

/-- A freshly constructed side. -/
def empty : BookSide P isSell where
  levels := .empty
  orderMap := .empty
  l2SnapQueue := []
  pendingLiqRemoveQty := .empty
  pendingLiqAddQty := .empty

def existOrder (side : BookSide P isSell) (id : ℤ) : Bool :=
  (side.orderMap.find? id).isSome

def existLevel (side : BookSide P isSell) (price : P) : Bool :=
  (side.levels.find? price).isSome

/-- The expression `levels_[price]`. -/
def getL3Level [Zero P] (side : BookSide P isSell) (price : P) : L3PriceLevel P :=
  (side.levels.find? price).getD .new

/-- The order that `getOrderHandler(id).order` points at. -/
def getOrder? (side : BookSide P isSell) (id : ℤ) : Option (Order P) := do
  let handler ← side.orderMap.find? id
  let level ← side.levels.find? handler.price
  level.order? handler

/-- The prices and quantities of the levels, best price first. -/
def l2View (side : BookSide P isSell) : L2SnapshotSide P :=
  side.levels.entries.map fun entry => ⟨entry.1, entry.2.quantity⟩

def saveL2SnapshoSide (side : BookSide P isSell) : BookSide P isSell :=
  { side with l2SnapQueue := side.l2SnapQueue ++ [side.l2View] }

def addOrder [Zero P] (side : BookSide P isSell) (order : Order P) :
    Except Halt (BookSide P isSell) := do
  assertThat (order.isSell = isSell)
  if side.existOrder order.odid then return side
  return { side with
    levels := side.levels.insert order.price
      ((side.getL3Level order.price).addOrder order)
    orderMap := side.orderMap.insert order.odid ⟨order.price, order.odid⟩ }

def removeOrder [Zero P] (side : BookSide P isSell) (id : ℤ) : BookSide P isSell :=
  match side.orderMap.find? id with
  | none => side
  | some handler =>
      let level := (side.getL3Level handler.price).removeOrder handler
      let levels := side.levels.insert handler.price level
      { side with
        orderMap := side.orderMap.erase id
        levels := if level.numOrders = 0 then levels.erase level.price else levels }

def modifyOrder [Zero P] (side : BookSide P isSell) (odid : ℤ)
    (quantity : ℤ) (price : P) : Except Halt (BookSide P isSell) :=
  match side.getOrder? odid with
  | none => return side
  | some order =>
      if order.price = price then do
        let level ← (side.getL3Level price).modifyOrder order quantity price
        return { side with levels := side.levels.insert price level }
      else
        let newOrder := (Order.new order.odid order.isSell quantity price).fill
          order.filledQuantity
        (side.removeOrder odid).addOrder newOrder

def bookCrossedWithPrice (side : BookSide P isSell) (price : P) : Bool :=
  match side.levels.begin? with
  | none => false
  | some (_, level) =>
      if isSell then decide (price ≥ level.price) else decide (level.price ≥ price)

/-- The call `fillOrder(order, qty)` on the level stored under `key`. -/
def fillLevelOrder [Zero P] (side : BookSide P isSell) (key : P) (order : Order P)
    (qty : ℤ) : Except Halt (BookSide P isSell) := do
  let level ← (side.getL3Level key).fillOrder order qty
  return { side with levels := side.levels.insert key level }

/-! ### Pending ledgers -/

def matchPendingLiqRemove (side : BookSide P isSell) (quantity : ℤ) (price : P) :
    BookSide P isSell × ℤ :=
  match side.pendingLiqRemoveQty.find? price with
  | none => (side, 0)
  | some pending =>
      let matched := min pending quantity
      let ledger := side.pendingLiqRemoveQty.insert price (pending - matched)
      ({ side with
          pendingLiqRemoveQty :=
            if pending - matched = 0 then ledger.erase price else ledger },
        matched)

def addPendingLiqRemoveQty (side : BookSide P isSell) (events : OrderInfoVec P) :
    BookSide P isSell :=
  { side with
    pendingLiqRemoveQty := events.foldl
      (fun pending e =>
        if e.event = OrderEvent.exec then credit pending e.price e.quantity else pending)
      side.pendingLiqRemoveQty }

/-- One iteration of the loop of `matchPendingLiqAdd`.  An exhausted entry is
erased under the price of the order, not under the key of the entry. -/
def matchPendingLiqAddBody (isSell : Bool) (quantity : ℤ) (price : P)
    (state : SortedMap P ℤ (PriceComparator isSell) × ℤ) :
    Except Halt (Flow (SortedMap P ℤ (PriceComparator isSell) × ℤ)) :=
  let (pending, matched) := state
  match pending.begin? with
  | none => .ok (.done (pending, matched))
  | some (first, held) =>
      let canMatch := if isSell then decide (price ≤ first) else decide (price ≥ first)
      if canMatch then
        let curMatched := min held (quantity - matched)
        let lowered := pending.insert first (held - curMatched)
        let ledger := if held - curMatched = 0 then lowered.erase price else lowered
        if matched + curMatched = quantity then
          .ok (.done (ledger, matched + curMatched))
        else
          .ok (.next (ledger, matched + curMatched))
      else
        .ok (.done (pending, matched))

def matchPendingLiqAdd (fuel : Nat) (side : BookSide P isSell) (quantity : ℤ)
    (price : P) : Except Halt (BookSide P isSell × ℤ) := do
  let (ledger, matched) ←
    loop (matchPendingLiqAddBody isSell quantity price) fuel (side.pendingLiqAddQty, 0)
  return ({ side with pendingLiqAddQty := ledger }, matched)

end BookSide

end OrderBook
