import OrderBook.BookSideProcess

/-!
# How the levels and the id map of a side hang together

`Linked` is the part of the representation invariant that holds even in the
middle of an operation: the level lists and the id map name the same orders,
every order sits in the level of its price, and each level counts its orders.
It says nothing of quantities.  Under it a level is known from its orders and
its quantity, so adding, filling and removing orders are all the replacement of
one level, `putOrders`.
-/

namespace OrderBook

open FueledLoop

section Orders

variable {P : Type}

@[simp]
theorem Order.fill_odid (order : Order P) (qty : ℤ) :
    (order.fill qty).odid = order.odid := rfl

@[simp]
theorem Order.fill_price (order : Order P) (qty : ℤ) :
    (order.fill qty).price = order.price := rfl

@[simp]
theorem Order.fill_isSell (order : Order P) (qty : ℤ) :
    (order.fill qty).isSell = order.isSell := rfl

@[simp]
theorem Order.fill_quantity (order : Order P) (qty : ℤ) :
    (order.fill qty).quantity = order.quantity := rfl

@[simp]
theorem Order.fill_filledQuantity (order : Order P) (qty : ℤ) :
    (order.fill qty).filledQuantity = order.filledQuantity + qty := rfl

@[simp]
theorem Order.remaining_fill (order : Order P) (qty : ℤ) :
    (order.fill qty).getRemainingQuantity = order.getRemainingQuantity - qty := by
  simp only [getRemainingQuantity, fill_quantity, fill_filledQuantity]
  omega

@[simp]
theorem Order.remaining_new (odid : ℤ) (isSell : Bool) (quantity : ℤ)
    (price : P) : (Order.new odid isSell quantity price).getRemainingQuantity = quantity := by
  simp [Order.new, getRemainingQuantity]

@[simp]
theorem Order.fill_fill (order : Order P) (first second : ℤ) :
    (order.fill first).fill second = order.fill (first + second) := by
  simp [Order.fill, add_assoc]

@[simp]
theorem Order.fill_zero (order : Order P) : order.fill 0 = order := by
  simp [Order.fill]

/-- Filling orders is cutting them in the sense of `QueueFill`. -/
theorem Order.lawful :
    QueueFill.Lawful (Order.getRemainingQuantity (P := P)) Order.fill where
  size_cut := Order.remaining_fill
  cut_cut := Order.fill_fill
  cut_zero := Order.fill_zero

/-- The remaining quantity of a list of orders. -/
abbrev totalRemaining (orders : List (Order P)) : ℤ :=
  QueueFill.total Order.getRemainingQuantity orders

abbrev ids (orders : List (Order P)) : List ℤ := orders.map Order.odid

/-- The orders left when `qty` is filled from the front of a list. -/
abbrev fillFront (qty : ℤ) (orders : List (Order P)) : List (Order P) :=
  QueueFill.remaining Order.getRemainingQuantity Order.fill qty orders

/-- The orders of a list that a fill of `qty` uses up. -/
abbrev usedUp (qty : ℤ) (orders : List (Order P)) : List (Order P) :=
  QueueFill.exhausted Order.getRemainingQuantity qty orders

/-- The fills made when `qty` is filled from the front of a list. -/
abbrev fills (qty : ℤ) (orders : List (Order P)) : List (Order P × ℤ) :=
  QueueFill.pieces Order.getRemainingQuantity qty orders

/-- Every order of a list has something left to fill. -/
abbrev AllRemain (orders : List (Order P)) : Prop :=
  QueueFill.Positive Order.getRemainingQuantity orders

/-- Equal ids mean equal orders in a list without repeated ids. -/
theorem order_unique {orders : List (Order P)} (nodup : (ids orders).Nodup)
    {first second : Order P} (firstMem : first ∈ orders) (secondMem : second ∈ orders)
    (sameId : first.odid = second.odid) : first = second :=
  List.inj_on_of_nodup_map nodup firstMem secondMem sameId

end Orders

namespace L3PriceLevel

variable {P : Type}

/-- The level under `key` with the given quantity and orders. -/
def ofOrders (key : P) (quantity : ℤ) (orders : List (Order P)) : L3PriceLevel P :=
  ⟨key, quantity, orders.length, orders⟩

@[simp]
theorem ofOrders_price (key : P) (quantity : ℤ) (orders : List (Order P)) :
    (ofOrders key quantity orders).price = key := rfl

@[simp]
theorem ofOrders_quantity (key : P) (quantity : ℤ) (orders : List (Order P)) :
    (ofOrders key quantity orders).quantity = quantity := rfl

@[simp]
theorem ofOrders_numOrders (key : P) (quantity : ℤ) (orders : List (Order P)) :
    (ofOrders key quantity orders).numOrders = orders.length := rfl

@[simp]
theorem ofOrders_orders (key : P) (quantity : ℤ) (orders : List (Order P)) :
    (ofOrders key quantity orders).orders = orders := rfl

/-- A level fits the key it is stored under. -/
structure Linked (isSell : Bool) (key : P) (level : L3PriceLevel P) : Prop where
  price_eq : level.price = key
  numOrders_eq : level.numOrders = level.orders.length
  nonempty : level.orders ≠ []
  order_price : ∀ order ∈ level.orders, order.price = key
  order_isSell : ∀ order ∈ level.orders, order.isSell = isSell
  nodup : (ids level.orders).Nodup

theorem Linked.eq_ofOrders {isSell : Bool} {key : P} {level : L3PriceLevel P}
    (linked : level.Linked isSell key) :
    level = ofOrders key level.quantity level.orders := by
  cases level
  simpa [ofOrders] using ⟨linked.price_eq, linked.numOrders_eq⟩

theorem ne_of_mem_front {front back : List (Order P)} {order : Order P}
    (nodup : (ids (front ++ order :: back)).Nodup) :
    ∀ other ∈ front, ¬ other.odid = order.odid := by
  intro other otherMem same
  simp only [ids, List.map_append, List.map_cons] at nodup
  exact (List.disjoint_of_nodup_append nodup) (List.mem_map_of_mem otherMem)
    (by simp [same])

theorem order?_ofOrders {key : P} {quantity : ℤ} {front back : List (Order P)}
    {order : Order P} (nodup : (ids (front ++ order :: back)).Nodup) :
    (ofOrders key quantity (front ++ order :: back)).order? ⟨key, order.odid⟩ = some order := by
  have notFront := ne_of_mem_front nodup
  simp only [order?, ofOrders, List.find?_append]
  rw [List.find?_eq_none.mpr (by simpa using notFront)]
  simp

/-- Erasing the node of an order out of the middle of a list. -/
theorem removeOrder_ofOrders {key : P} {quantity : ℤ}
    {front back : List (Order P)} {order : Order P}
    (nodup : (ids (front ++ order :: back)).Nodup) :
    (ofOrders key quantity (front ++ order :: back)).removeOrder ⟨key, order.odid⟩ =
      ofOrders key (quantity - order.getRemainingQuantity) (front ++ back) := by
  have notFront := ne_of_mem_front nodup
  simp only [removeOrder, order?_ofOrders nodup]
  simp only [ofOrders]
  rw [List.eraseP_append_right _ (by simpa using notFront), List.eraseP_cons_of_pos (by simp)]
  simp only [List.length_append, List.length_cons, L3PriceLevel.mk.injEq, true_and, and_true]
  push_cast
  omega

/-- Rewriting the order of one id rewrites one element. -/
theorem map_atId {front back : List (Order P)} {order : Order P}
    (nodup : (ids (front ++ order :: back)).Nodup) (update : Order P → Order P) :
    ((front ++ order :: back).map fun other =>
        if other.odid = order.odid then update other else other) =
      front ++ update order :: back := by
  have others : ∀ other ∈ front ++ back, ¬ other.odid = order.odid := by
    intro other otherMem same
    simp only [ids, List.map_append, List.map_cons] at nodup
    have distinct := List.nodup_middle.mp nodup
    rw [List.nodup_cons, ← List.map_append] at distinct
    exact distinct.1 (same ▸ List.mem_map_of_mem otherMem)
  have keep (part : List (Order P)) (sub : ∀ other ∈ part, other ∈ front ++ back) :
      part.map (fun other => if other.odid = order.odid then update other else other) =
        part := by
    conv_rhs => rw [← List.map_id part]
    apply List.map_congr_left
    intro other otherMem
    simp [others other (sub other otherMem)]
  rw [List.map_append, List.map_cons, keep front (by simp +contextual),
    keep back (by simp +contextual), if_pos rfl]

/-- Filling one order of a list. -/
theorem fillOrder_ofOrders {key : P} {quantity qty : ℤ}
    {front back : List (Order P)} {order : Order P}
    (nodup : (ids (front ++ order :: back)).Nodup)
    (fits : qty ≤ order.getRemainingQuantity) :
    (ofOrders key quantity (front ++ order :: back)).fillOrder order qty =
      .ok (ofOrders key (quantity - qty) (front ++ order.fill qty :: back)) := by
  simp only [fillOrder, assertThat_of fits, ok_bind, pure_eq_ok, ofOrders]
  rw [map_atId nodup fun other => other.fill qty]
  simp

/-- Changing the quantity of one order of a list. -/
theorem modifyOrder_ofOrders [DecidableEq P] {key : P} {quantity newQuantity : ℤ}
    {front back : List (Order P)} {order : Order P}
    (nodup : (ids (front ++ order :: back)).Nodup) (priceEq : key = order.price) :
    (ofOrders key quantity (front ++ order :: back)).modifyOrder order newQuantity key =
      .ok (ofOrders key (quantity + (newQuantity - order.quantity))
        (front ++ { order with quantity := newQuantity } :: back)) := by
  simp only [modifyOrder, assertThat_of priceEq, ok_bind, pure_eq_ok, ofOrders]
  rw [map_atId nodup fun other => { other with quantity := newQuantity }]
  simp

end L3PriceLevel

namespace BookSide

variable {P : Type} [LinearOrder P] {isSell : Bool}

/-- The orders resting at a price, first come first. -/
def ordersAt (side : BookSide P isSell) (price : P) : List (Order P) :=
  ((side.levels.find? price).map L3PriceLevel.orders).getD []

/-- Replace the level under `key`; a level without orders is erased. -/
def putOrders (levels : SortedMap P (L3PriceLevel P) (PriceComparator isSell)) (key : P)
    (quantity : ℤ) (orders : List (Order P)) :
    SortedMap P (L3PriceLevel P) (PriceComparator isSell) :=
  if orders = [] then levels.erase key
  else levels.insert key (.ofOrders key quantity orders)

theorem find?_putOrders (levels : SortedMap P (L3PriceLevel P) (PriceComparator isSell))
    (key other : P) (quantity : ℤ) (orders : List (Order P)) :
    (putOrders levels key quantity orders).find? other =
      if other = key then
        if orders = [] then none else some (.ofOrders key quantity orders)
      else levels.find? other := by
  unfold putOrders
  by_cases none : orders = []
  · simp [none, SortedMap.find?_erase]
  · simp [none, SortedMap.find?_insert]

theorem putOrders_putOrders
    (levels : SortedMap P (L3PriceLevel P) (PriceComparator isSell)) (key : P)
    (first second : ℤ) (firstOrders secondOrders : List (Order P)) :
    putOrders (putOrders levels key first firstOrders) key second secondOrders =
      putOrders levels key second secondOrders := by
  apply SortedMap.ext_find?
  intro other
  simp only [find?_putOrders]
  split <;> rfl

/-- The levels and the id map of a side name the same orders. -/
structure Linked (side : BookSide P isSell) : Prop where
  level : ∀ {key : P} {level : L3PriceLevel P},
    side.levels.find? key = some level → level.Linked isSell key
  handler : ∀ {id : ℤ} {handler : OrderHandler P},
    side.orderMap.find? id = some handler ↔
      handler.odid = id ∧ id ∈ ids (side.ordersAt handler.price)

theorem ordersAt_of_find? {side : BookSide P isSell} {key : P} {level : L3PriceLevel P}
    (found : side.levels.find? key = some level) : side.ordersAt key = level.orders := by
  simp [ordersAt, found]

theorem ordersAt_of_none {side : BookSide P isSell} {key : P}
    (absent : side.levels.find? key = none) : side.ordersAt key = [] := by
  simp [ordersAt, absent]

theorem linked_empty : (empty : BookSide P isSell).Linked where
  level found := by simp [empty] at found
  handler := by simp [empty, ordersAt]

namespace Linked

variable {side : BookSide P isSell}

theorem ordersAt_eq_nil_iff (linked : side.Linked) {key : P} :
    side.ordersAt key = [] ↔ side.levels.find? key = none := by
  cases found : side.levels.find? key with
  | none => simp [ordersAt, found]
  | some level => simpa [ordersAt, found] using (linked.level found).nonempty

theorem find?_eq (linked : side.Linked) {key : P} {level : L3PriceLevel P}
    (found : side.levels.find? key = some level) :
    side.levels.find? key = some (.ofOrders key level.quantity (side.ordersAt key)) := by
  rw [found, ordersAt_of_find? found]
  exact congrArg some (linked.level found).eq_ofOrders

theorem exists_level (linked : side.Linked) {key : P} {order : Order P}
    (mem : order ∈ side.ordersAt key) :
    ∃ quantity, side.levels.find? key = some (.ofOrders key quantity (side.ordersAt key)) := by
  cases found : side.levels.find? key with
  | none => simp [ordersAt, found] at mem
  | some level => exact ⟨level.quantity, found ▸ linked.find?_eq found⟩

theorem order_price (linked : side.Linked) {key : P} {order : Order P}
    (mem : order ∈ side.ordersAt key) : order.price = key := by
  cases found : side.levels.find? key with
  | none => simp [ordersAt, found] at mem
  | some level =>
      rw [ordersAt_of_find? found] at mem
      exact (linked.level found).order_price order mem

theorem order_isSell (linked : side.Linked) {key : P} {order : Order P}
    (mem : order ∈ side.ordersAt key) : order.isSell = isSell := by
  cases found : side.levels.find? key with
  | none => simp [ordersAt, found] at mem
  | some level =>
      rw [ordersAt_of_find? found] at mem
      exact (linked.level found).order_isSell order mem

theorem nodup (linked : side.Linked) (key : P) : (ids (side.ordersAt key)).Nodup := by
  cases found : side.levels.find? key with
  | none => simp [ordersAt, found]
  | some level =>
      rw [ordersAt_of_find? found]
      exact (linked.level found).nodup

theorem orderMap_of_mem (linked : side.Linked) {key : P} {order : Order P}
    (mem : order ∈ side.ordersAt key) :
    side.orderMap.find? order.odid = some ⟨key, order.odid⟩ :=
  linked.handler.mpr ⟨rfl, List.mem_map_of_mem mem⟩

theorem existOrder_iff (linked : side.Linked) {id : ℤ} :
    side.existOrder id = true ↔ ∃ key, id ∈ ids (side.ordersAt key) := by
  rw [existOrder, Option.isSome_iff_exists]
  constructor
  · rintro ⟨handler, found⟩
    exact ⟨handler.price, (linked.handler.mp found).2⟩
  · rintro ⟨key, mem⟩
    exact ⟨⟨key, id⟩, linked.handler.mpr ⟨rfl, mem⟩⟩

/-- An id rests at one price only. -/
theorem price_unique (linked : side.Linked) {first second : P} {id : ℤ}
    (firstMem : id ∈ ids (side.ordersAt first))
    (secondMem : id ∈ ids (side.ordersAt second)) : first = second := by
  have firstFound : side.orderMap.find? id = some ⟨first, id⟩ :=
    linked.handler.mpr ⟨rfl, firstMem⟩
  have secondFound : side.orderMap.find? id = some ⟨second, id⟩ :=
    linked.handler.mpr ⟨rfl, secondMem⟩
  rw [firstFound] at secondFound
  exact congrArg OrderHandler.price (Option.some.inj secondFound)

/-- An id names one resting order only. -/
theorem order_eq (linked : side.Linked) {firstKey secondKey : P} {first second : Order P}
    (firstMem : first ∈ side.ordersAt firstKey) (secondMem : second ∈ side.ordersAt secondKey)
    (sameId : first.odid = second.odid) : first = second := by
  have firstId : second.odid ∈ ids (side.ordersAt firstKey) :=
    sameId ▸ List.mem_map_of_mem firstMem
  obtain rfl := linked.price_unique firstId (List.mem_map_of_mem secondMem)
  exact order_unique (linked.nodup firstKey) firstMem secondMem sameId

end Linked

theorem ordersAt_putOrders {side next : BookSide P isSell} {key : P} {quantity : ℤ}
    {orders : List (Order P)}
    (levelsEq : next.levels = putOrders side.levels key quantity orders) (other : P) :
    next.ordersAt other = if other = key then orders else side.ordersAt other := by
  simp only [ordersAt, levelsEq, find?_putOrders]
  split
  · split
    · next none => simp [none]
    · simp
  · rfl

/-- Replacing the orders of one level keeps a side linked when the id map follows
and no new id rests elsewhere. -/
theorem Linked.put {side next : BookSide P isSell} (linked : side.Linked) {key : P}
    {quantity : ℤ} {orders : List (Order P)}
    (levelsEq : next.levels = putOrders side.levels key quantity orders)
    (priceEq : ∀ order ∈ orders, order.price = key)
    (isSellEq : ∀ order ∈ orders, order.isSell = isSell)
    (nodup : (ids orders).Nodup)
    (fresh : ∀ id ∈ ids orders, ∀ other, id ∈ ids (side.ordersAt other) → other = key)
    (mapEq : ∀ id, next.orderMap.find? id =
      if id ∈ ids orders then some ⟨key, id⟩
      else if id ∈ ids (side.ordersAt key) then none else side.orderMap.find? id) :
    next.Linked where
  level := by
    intro other level found
    rw [levelsEq, find?_putOrders] at found
    split at found
    · next same =>
        split at found
        · cases found
        · next nonempty =>
            cases found
            exact ⟨same.symm, rfl, nonempty,
              fun order mem => (priceEq order mem).trans same.symm, isSellEq, nodup⟩
    · exact linked.level found
  handler := by
    intro id handler
    rw [mapEq, ordersAt_putOrders levelsEq]
    constructor
    · intro found
      split at found
      · next mem =>
          cases found
          simpa using mem
      · split at found
        · cases found
        · next elsewhere =>
            have old := linked.handler.mp found
            have different : handler.price ≠ key := by
              intro same
              exact elsewhere (same ▸ old.2)
            rw [if_neg different]
            exact old
    · rintro ⟨idEq, mem⟩
      split at mem
      · next same => rw [if_pos mem, ← same, ← idEq]
      · next different =>
          have notNew : id ∉ ids orders := fun new =>
            different (fresh id new handler.price mem)
          have notOld : id ∉ ids (side.ordersAt key) := fun old =>
            different (linked.price_unique mem old)
          rw [if_neg notNew, if_neg notOld]
          exact linked.handler.mpr ⟨idEq, mem⟩

/-- Replacing the orders of a level by orders of the same ids. -/
theorem Linked.put_sameIds {side : BookSide P isSell} (linked : side.Linked)
    {next : BookSide P isSell} {key : P}
    {quantity : ℤ} {orders : List (Order P)}
    (levelsEq : next.levels = putOrders side.levels key quantity orders)
    (mapEq : next.orderMap = side.orderMap)
    (priceEq : ∀ order ∈ orders, order.price = key)
    (isSellEq : ∀ order ∈ orders, order.isSell = isSell)
    (idsEq : ids orders = ids (side.ordersAt key)) : next.Linked := by
  apply linked.put levelsEq priceEq isSellEq (idsEq ▸ linked.nodup key)
  · intro id mem other otherMem
    exact linked.price_unique otherMem (idsEq ▸ mem)
  · intro id
    rw [mapEq, idsEq]
    by_cases mem : id ∈ ids (side.ordersAt key)
    · rw [if_pos mem]
      exact linked.handler.mpr ⟨rfl, mem⟩
    · rw [if_neg mem, if_neg mem]

theorem mem_ordersAt_of_erased {side : BookSide P isSell} {key : P} {front back : List (Order P)}
    {order : Order P} (split : side.ordersAt key = front ++ order :: back) {other : Order P}
    (mem : other ∈ front ++ back) : other ∈ side.ordersAt key := by
  rw [split]
  simp only [List.mem_append, List.mem_cons] at mem ⊢
  tauto

theorem mem_ordersAt_of_replaced {side : BookSide P isSell} {key : P}
    {front back : List (Order P)} {order new : Order P}
    (split : side.ordersAt key = front ++ order :: back) {other : Order P}
    (mem : other ∈ front ++ new :: back) : other = new ∨ other ∈ side.ordersAt key := by
  rw [split]
  simp only [List.mem_append, List.mem_cons] at mem ⊢
  tauto

/-- Replacing one order by another state of the same order. -/
theorem Linked.put_replaced {side : BookSide P isSell} (linked : side.Linked)
    {next : BookSide P isSell} {key : P} {quantity : ℤ} {front back : List (Order P)}
    {order new : Order P} (split : side.ordersAt key = front ++ order :: back)
    (levelsEq : next.levels = putOrders side.levels key quantity (front ++ new :: back))
    (mapEq : next.orderMap = side.orderMap) (sameId : new.odid = order.odid)
    (samePrice : new.price = order.price) (sameSide : new.isSell = order.isSell) :
    next.Linked := by
  have orderMem : order ∈ side.ordersAt key := by simp [split]
  apply linked.put_sameIds levelsEq mapEq
  · intro other otherMem
    rcases mem_ordersAt_of_replaced split otherMem with rfl | resting
    · rw [samePrice, linked.order_price orderMem]
    · exact linked.order_price resting
  · intro other otherMem
    rcases mem_ordersAt_of_replaced split otherMem with rfl | resting
    · rw [sameSide, linked.order_isSell orderMem]
    · exact linked.order_isSell resting
  · simp [ids, split, sameId]

/-- The id map of a linked side is known from the ids in its levels. -/
theorem Linked.orderMap_eq {side : BookSide P isSell} (linked : side.Linked)
    {other : BookSide P isSell}
    (otherLinked : other.Linked)
    (same : ∀ key, ids (side.ordersAt key) = ids (other.ordersAt key)) :
    side.orderMap = other.orderMap := by
  apply SortedMap.ext_find?
  intro id
  ext handler
  rw [linked.handler, otherLinked.handler, same]

theorem putOrders_self {side : BookSide P isSell} {key : P} {quantity : ℤ} {orders : List (Order P)}
    (found : side.levels.find? key = some (.ofOrders key quantity orders))
    (nonempty : orders ≠ []) :
    putOrders side.levels key quantity orders = side.levels := by
  rw [putOrders, if_neg nonempty, SortedMap.insert_find?_self found]

/-! ### The operations as replacements of one level -/

section Operations

variable [Zero P] {side : BookSide P isSell}

theorem getL3Level_of_find? {key : P} {level : L3PriceLevel P}
    (found : side.levels.find? key = some level) : side.getL3Level key = level := by
  simp [getL3Level, found]

theorem removeOrder_of_not_exist {id : ℤ} (absent : side.existOrder id = false) :
    side.removeOrder id = side := by
  have none : side.orderMap.find? id = none := by simpa [existOrder] using absent
  simp [removeOrder, none]

/-- Removing a resting order takes it out of its level. -/
theorem Linked.removeOrder_eq (linked : side.Linked) {key : P} {quantity : ℤ}
    {front back : List (Order P)} {order : Order P}
    (found : side.levels.find? key =
      some (.ofOrders key quantity (front ++ order :: back))) :
    side.removeOrder order.odid =
      { side with
        levels := putOrders side.levels key (quantity - order.getRemainingQuantity)
          (front ++ back)
        orderMap := side.orderMap.erase order.odid } := by
  have nodup := (linked.level found).nodup
  have mem : order ∈ side.ordersAt key := by
    simp [ordersAt_of_find? found]
  simp only [removeOrder, linked.orderMap_of_mem mem, getL3Level_of_find? found]
  rw [L3PriceLevel.removeOrder_ofOrders nodup]
  congr 1
  by_cases last : front ++ back = []
  · simp [putOrders, last]
  · have counted : (L3PriceLevel.ofOrders key (quantity - order.getRemainingQuantity)
        (front ++ back)).numOrders ≠ 0 := by
      have := List.length_pos_iff.mpr last
      rw [L3PriceLevel.ofOrders_numOrders]
      omega
    rw [if_neg counted, putOrders, if_neg last]

theorem Linked.removeFirst_eq (linked : side.Linked) {key : P} {quantity : ℤ}
    {back : List (Order P)} {order : Order P}
    (found : side.levels.find? key = some (.ofOrders key quantity (order :: back))) :
    side.removeOrder order.odid =
      { side with
        levels := putOrders side.levels key (quantity - order.getRemainingQuantity) back
        orderMap := side.orderMap.erase order.odid } :=
  @removeOrder_eq P _ isSell _ side linked key quantity [] back order found

theorem Linked.removeOrder_linked (linked : side.Linked) (id : ℤ) :
    (side.removeOrder id).Linked := by
  cases exists_ : side.existOrder id with
  | false => rwa [removeOrder_of_not_exist exists_]
  | true =>
      obtain ⟨key, mem⟩ := linked.existOrder_iff.mp exists_
      obtain ⟨order, orderMem, rfl⟩ := List.mem_map.mp mem
      obtain ⟨quantity, found⟩ := linked.exists_level orderMem
      obtain ⟨front, back, split⟩ := List.append_of_mem orderMem
      have nodup := linked.nodup key
      rw [split] at found nodup
      rw [linked.removeOrder_eq found]
      have sub : ∀ other ∈ front ++ back, other ∈ side.ordersAt key :=
        fun _ => mem_ordersAt_of_erased split
      have distinct : order.odid ∉ ids (front ++ back) ∧ (ids (front ++ back)).Nodup := by
        simp only [ids, List.map_append, List.map_cons] at nodup
        simpa [ids] using List.nodup_middle.mp nodup
      refine linked.put rfl (fun other otherMem => linked.order_price (sub other otherMem))
        (fun other otherMem => linked.order_isSell (sub other otherMem)) distinct.2 ?_ ?_
      · intro other otherMem price priceMem
        obtain ⟨found, foundMem, rfl⟩ := List.mem_map.mp otherMem
        exact linked.price_unique priceMem (List.mem_map_of_mem (sub found foundMem))
      · intro other
        simp only [SortedMap.find?_erase]
        by_cases same : other = order.odid
        · subst same
          rw [if_pos rfl, if_neg distinct.1, if_pos mem]
        · rw [if_neg same]
          by_cases stays : other ∈ ids (front ++ back)
          · rw [if_pos stays]
            obtain ⟨found, foundMem, rfl⟩ := List.mem_map.mp stays
            exact linked.orderMap_of_mem (sub found foundMem)
          · have gone : other ∉ ids (side.ordersAt key) := by
              rw [split]
              simp only [ids, List.map_append, List.map_cons, List.mem_append,
                List.mem_cons] at stays ⊢
              tauto
            rw [if_neg stays, if_neg gone]

/-- Removing the first orders of a level one by one. -/
theorem Linked.removeFront (linked : side.Linked) {key : P} {quantity : ℤ}
    {gone rest : List (Order P)}
    (found : side.levels.find? key = some (.ofOrders key quantity (gone ++ rest))) :
    (ids gone).foldl removeOrder side =
      { side with
        levels := putOrders side.levels key (quantity - totalRemaining gone) rest
        orderMap := (ids gone).foldl SortedMap.erase side.orderMap } := by
  induction gone generalizing side quantity with
  | nil =>
      have unchanged := putOrders_self found (linked.level found).nonempty
      simp only [List.nil_append] at unchanged
      simp [unchanged]
  | cons order gone ih =>
      have removed := linked.removeFirst_eq found
      have linkedAfter := linked.removeOrder_linked order.odid
      simp only [List.map_cons, List.foldl_cons]
      by_cases last : gone ++ rest = []
      · obtain ⟨rfl, rfl⟩ := List.append_eq_nil_iff.mp last
        simp [removed, putOrders]
      · rw [removed] at linkedAfter ⊢
        have foundAfter : (putOrders side.levels key
            (quantity - order.getRemainingQuantity) (gone ++ rest)).find? key =
              some (.ofOrders key (quantity - order.getRemainingQuantity) (gone ++ rest)) := by
          simp [find?_putOrders, last]
        rw [ih linkedAfter foundAfter]
        simp [putOrders_putOrders, sub_sub]

theorem Linked.foldl_removeOrder_linked (linked : side.Linked) (removed : List ℤ) :
    (removed.foldl removeOrder side).Linked := by
  induction removed generalizing side with
  | nil => exact linked
  | cons id removed ih => exact ih (linked.removeOrder_linked id)

/-- The quantity field of the level at a price, zero without a level. -/
def quantityAt (side : BookSide P isSell) (price : P) : ℤ :=
  ((side.levels.find? price).map L3PriceLevel.quantity).getD 0

omit [Zero P] in
theorem quantityAt_of_find? {key : P} {level : L3PriceLevel P}
    (found : side.levels.find? key = some level) : side.quantityAt key = level.quantity := by
  simp [quantityAt, found]

omit [Zero P] in
theorem quantityAt_of_none {key : P} (absent : side.levels.find? key = none) :
    side.quantityAt key = 0 := by
  simp [quantityAt, absent]

/-- Adding an order appends it to the level of its price. -/
theorem Linked.addOrder_eq (linked : side.Linked) {order : Order P}
    (isSellEq : order.isSell = isSell) (fresh : side.existOrder order.odid = false) :
    side.addOrder order = .ok
      { side with
        levels := putOrders side.levels order.price
          (side.quantityAt order.price + order.getRemainingQuantity)
          (side.ordersAt order.price ++ [order])
        orderMap := side.orderMap.insert order.odid ⟨order.price, order.odid⟩ } := by
  have appended : (side.getL3Level order.price).addOrder order =
      .ofOrders order.price (side.quantityAt order.price + order.getRemainingQuantity)
        (side.ordersAt order.price ++ [order]) := by
    cases found : side.levels.find? order.price with
    | none =>
        simp [getL3Level, quantityAt, ordersAt, found, L3PriceLevel.new,
          L3PriceLevel.addOrder, L3PriceLevel.ofOrders]
    | some level =>
        simp [getL3Level, quantityAt, ordersAt, found, L3PriceLevel.addOrder,
          L3PriceLevel.ofOrders, (linked.level found).numOrders_eq]
  simp only [addOrder, assertThat_of isSellEq, ok_bind, fresh, pure_eq_ok]
  simp [appended, putOrders]

theorem addOrder_of_exist {order : Order P} (isSellEq : order.isSell = isSell)
    (present : side.existOrder order.odid = true) : side.addOrder order = .ok side := by
  simp [addOrder, assertThat_of isSellEq, present]

theorem isSell_of_addOrder {order : Order P} {next : BookSide P isSell}
    (added : side.addOrder order = .ok next) : order.isSell = isSell := by
  simp only [addOrder, bind_eq_ok] at added
  obtain ⟨_, checked, _⟩ := added
  exact assertThat_eq_ok.mp checked

theorem Linked.addOrder_linked (linked : side.Linked) {order : Order P}
    {next : BookSide P isSell} (added : side.addOrder order = .ok next) : next.Linked := by
  have isSellEq := isSell_of_addOrder added
  cases exists_ : side.existOrder order.odid with
  | true =>
      rw [addOrder_of_exist isSellEq exists_] at added
      cases added
      exact linked
  | false =>
      rw [linked.addOrder_eq isSellEq exists_] at added
      cases added
      have absent : ∀ key, order.odid ∉ ids (side.ordersAt key) := by
        intro key mem
        rw [linked.existOrder_iff.mpr ⟨key, mem⟩] at exists_
        cases exists_
      apply linked.put rfl
      · intro other otherMem
        rcases List.mem_append.mp otherMem with old | new
        · exact linked.order_price old
        · simp_all
      · intro other otherMem
        rcases List.mem_append.mp otherMem with old | new
        · exact linked.order_isSell old
        · simp_all
      · simp only [ids, List.map_append, List.map_cons, List.map_nil]
        exact List.nodup_append.mpr ⟨linked.nodup _, by simp, by
          rintro id mem _ new rfl
          exact absent order.price (by simp_all)⟩
      · intro id mem other otherMem
        simp only [ids, List.map_append, List.map_cons, List.map_nil, List.mem_append,
          List.mem_singleton] at mem
        rcases mem with old | rfl
        · exact linked.price_unique otherMem old
        · exact (absent other otherMem).elim
      · intro id
        simp only [SortedMap.find?_insert, ids, List.map_append, List.map_cons, List.map_nil,
          List.mem_append, List.mem_singleton]
        by_cases same : id = order.odid
        · simp [same]
        · by_cases old : id ∈ (side.ordersAt order.price).map Order.odid
          · simp only [same, old, if_false, or_false, if_true]
            exact linked.handler.mpr ⟨rfl, old⟩
          · simp only [same, old, if_false, or_false]

/-- Filling an order in place. -/
theorem fillLevelOrder_eq {key : P} {quantity qty : ℤ} {front back : List (Order P)}
    {order : Order P}
    (found : side.levels.find? key =
      some (.ofOrders key quantity (front ++ order :: back)))
    (nodup : (ids (front ++ order :: back)).Nodup)
    (fits : qty ≤ order.getRemainingQuantity) :
    side.fillLevelOrder key order qty = .ok
      { side with
        levels := putOrders side.levels key (quantity - qty)
          (front ++ order.fill qty :: back) } := by
  simp only [fillLevelOrder, getL3Level_of_find? found,
    L3PriceLevel.fillOrder_ofOrders nodup fits, ok_bind, pure_eq_ok, putOrders]
  rw [if_neg (by simp)]

end Operations

end BookSide

end OrderBook
