import Mathlib.Algebra.Order.Ring.Int
import OrderBook.FueledLoop

/-!
# Orders, events and price levels

The records of `common.h`, `order.h` and `level.h` with the operations of
`level.cpp`.  A price is an element of an arbitrary linear order: the source
only compares its (never NaN) doubles.  A `Quantity` and an `OrderId` are exact
integers.

The source keeps an order as one shared object, reached from the list of its
level and from the id map.  Here the object lives in the list of its level and
is named by its id, so a write through any pointer to it is a write to the list
element with that id.
-/

namespace OrderBook

open FueledLoop

inductive OrderEvent where
  | add
  | cancel
  | exec
  | modif
  deriving DecidableEq, Repr

structure OrderInfo (P : Type) where
  event : OrderEvent
  odid : ℤ
  isSell : Bool
  quantity : ℤ
  price : P
  deriving DecidableEq, Repr

abbrev OrderInfoVec (P : Type) := List (OrderInfo P)

structure Order (P : Type) where
  odid : ℤ
  isSell : Bool
  quantity : ℤ
  price : P
  filledQuantity : ℤ
  deriving DecidableEq, Repr

namespace Order

variable {P : Type}

/-- The constructor of the source: nothing is filled yet. -/
def new (odid : ℤ) (isSell : Bool) (quantity : ℤ) (price : P) : Order P :=
  ⟨odid, isSell, quantity, price, 0⟩

def getRemainingQuantity (order : Order P) : ℤ :=
  order.quantity - order.filledQuantity

/-- The write `order->filled_quantity += qty`. -/
def fill (order : Order P) (qty : ℤ) : Order P :=
  { order with filledQuantity := order.filledQuantity + qty }

end Order

structure L2PriceLevel (P : Type) where
  price : P
  quantity : ℤ
  deriving DecidableEq, Repr

abbrev L2SnapshotSide (P : Type) := List (L2PriceLevel P)

structure L3PriceLevel (P : Type) where
  price : P
  quantity : ℤ
  numOrders : ℤ
  orders : List (Order P)
  deriving DecidableEq, Repr

/-- `OrderHandler` of the source pairs a pointer to an order with an iterator to
its list node.  Both name the node: the order `odid` in the list of the level
stored under `price`. -/
structure OrderHandler (P : Type) where
  price : P
  odid : ℤ
  deriving DecidableEq, Repr

namespace L3PriceLevel

variable {P : Type}

/-- The default constructor, run when `levels_[price]` meets a new price. -/
def new [Zero P] : L3PriceLevel P := ⟨0, 0, 0, []⟩

def addOrder (level : L3PriceLevel P) (order : Order P) : L3PriceLevel P where
  price := order.price
  quantity := level.quantity + order.getRemainingQuantity
  numOrders := level.numOrders + 1
  orders := level.orders ++ [order]

/-- The order a handler points at. -/
def order? (level : L3PriceLevel P) (handler : OrderHandler P) : Option (Order P) :=
  level.orders.find? fun order => order.odid = handler.odid

/-- Erase the list node of a handler.  A handler of a resting order always
names a node; without one nothing is erased. -/
def removeOrder (level : L3PriceLevel P) (handler : OrderHandler P) : L3PriceLevel P :=
  match level.order? handler with
  | none => level
  | some order =>
      { level with
        orders := level.orders.eraseP fun other => other.odid = handler.odid
        quantity := level.quantity - order.getRemainingQuantity
        numOrders := level.numOrders - 1 }

def modifyOrder [DecidableEq P] (level : L3PriceLevel P) (order : Order P)
    (newQuantity : ℤ) (newPrice : P) : Except Halt (L3PriceLevel P) := do
  assertThat (newPrice = order.price)
  return { level with
    quantity := level.quantity + (newQuantity - order.quantity)
    orders := level.orders.map fun other =>
      if other.odid = order.odid then { other with quantity := newQuantity } else other }

def fillOrder (level : L3PriceLevel P) (order : Order P) (qty : ℤ) :
    Except Halt (L3PriceLevel P) := do
  assertThat (qty ≤ order.getRemainingQuantity)
  return { level with
    quantity := level.quantity - qty
    orders := level.orders.map fun other =>
      if other.odid = order.odid then other.fill qty else other }

def getL2Level (level : L3PriceLevel P) : L2PriceLevel P :=
  ⟨level.price, level.quantity⟩

end L3PriceLevel

end OrderBook
