import Mathlib.Data.Set.Basic
import OrderBook.LevelFill

/-!
# The representation invariant of a side

`RepInvariant` lists what the redundant parts of a side owe each other between
two operations.  The proofs work with `Valid slack`, which reads the same facts
off single lookups and lets the total of a level exceed its quantity field by an
element of `slack`: exactly the invariant for `{0}`, and a weaker one that also
survives snapshots that repeat a price for `{d | 0 ≤ d}`.
-/

namespace OrderBook

open FueledLoop

/-- An order that rests: partly filled at most. -/
def Order.IsOpen {P : Type} (order : Order P) : Prop :=
  0 ≤ order.filledQuantity ∧ order.filledQuantity < order.quantity

theorem Order.IsOpen.remaining_pos {P : Type} {order : Order P} (isOpen : order.IsOpen) :
    0 < order.getRemainingQuantity := by
  have := isOpen.2
  simp only [getRemainingQuantity]
  omega

theorem Order.IsOpen.fill {P : Type} {order : Order P} {qty : ℤ} (isOpen : order.IsOpen)
    (nonneg : 0 ≤ qty) (short : qty = 0 ∨ qty < order.getRemainingQuantity) :
    (order.fill qty).IsOpen := by
  have := isOpen.1
  have := isOpen.2
  simp only [getRemainingQuantity] at short
  simp only [IsOpen, fill_filledQuantity, fill_quantity]
  omega

namespace BookSide

variable {P : Type} [LinearOrder P] {isSell : Bool}

/-- All resting orders, best price first and first come first at a price. -/
def restingOrders (side : BookSide P isSell) : List (Order P) :=
  side.levels.entries.flatMap fun entry => entry.2.orders

/-- The pending ledgers of a side hold no negative quantity, and expected
removals are dropped when they reach zero. -/
structure Ledgers (side : BookSide P isSell) : Prop where
  remove_pos : PositiveLedger side.pendingLiqRemoveQty
  add_nonneg : ∀ {price : P} {qty : ℤ},
    side.pendingLiqAddQty.find? price = some qty → 0 ≤ qty

/-- The representation invariant of `BookSide`. -/
structure RepInvariant (side : BookSide P isSell) : Prop where
  existOrder_iff : ∀ id, side.existOrder id = true ↔ id ∈ ids side.restingOrders
  ids_nodup : (ids side.restingOrders).Nodup
  handler_points : ∀ id handler, side.orderMap.find? id = some handler →
    handler.odid = id ∧ id ∈ ids (side.ordersAt handler.price)
  order_fits : ∀ entry ∈ side.levels.entries, ∀ order ∈ entry.2.orders,
    order.price = entry.1 ∧ order.isSell = isSell
  level_price : ∀ entry ∈ side.levels.entries, entry.2.price = entry.1
  numOrders_eq : ∀ entry ∈ side.levels.entries,
    entry.2.numOrders = entry.2.orders.length ∧ entry.2.orders ≠ []
  quantity_eq : ∀ entry ∈ side.levels.entries,
    entry.2.quantity = (entry.2.orders.map Order.getRemainingQuantity).sum
  order_open : ∀ entry ∈ side.levels.entries, ∀ order ∈ entry.2.orders,
    0 ≤ order.filledQuantity ∧ order.filledQuantity < order.quantity
  ledgers : side.Ledgers

/-- The invariant with the quantity field of a level up to `slack`. -/
structure Valid (slack : Set ℤ) (side : BookSide P isSell) : Prop where
  linked : side.Linked
  isOpen : ∀ {key : P} {order : Order P}, order ∈ side.ordersAt key → order.IsOpen
  counted : ∀ {key : P} {level : L3PriceLevel P}, side.levels.find? key = some level →
    totalRemaining level.orders - level.quantity ∈ slack
  ledgers : side.Ledgers

/-- An order at a price stands in an entry of the levels. -/
theorem exists_entry_of_mem {side : BookSide P isSell} {key : P} {order : Order P}
    (mem : order ∈ side.ordersAt key) :
    ∃ level, (key, level) ∈ side.levels.entries ∧ order ∈ level.orders := by
  cases found : side.levels.find? key with
  | none => simp [ordersAt_of_none found] at mem
  | some level =>
      exact ⟨level, SortedMap.find?_eq_some_iff.mp found,
        by simpa [ordersAt_of_find? found] using mem⟩

theorem mem_restingOrders {side : BookSide P isSell} {order : Order P} :
    order ∈ side.restingOrders ↔ ∃ key, order ∈ side.ordersAt key := by
  simp only [restingOrders, List.mem_flatMap]
  constructor
  · rintro ⟨⟨key, level⟩, entryMem, orderMem⟩
    exact ⟨key, by simpa [ordersAt_of_find? (SortedMap.find?_eq_some_iff.mpr entryMem)]⟩
  · rintro ⟨key, orderMem⟩
    obtain ⟨level, entryMem, levelMem⟩ := exists_entry_of_mem orderMem
    exact ⟨(key, level), entryMem, levelMem⟩

theorem Linked.restingIds_nodup {side : BookSide P isSell} (linked : side.Linked) :
    (ids side.restingOrders).Nodup := by
  rw [ids, restingOrders, List.map_flatMap, List.nodup_flatMap]
  constructor
  · rintro ⟨key, level⟩ entryMem
    exact (linked.level (SortedMap.find?_eq_some_iff.mpr entryMem)).nodup
  · apply side.levels.keys_ne.imp_of_mem
    rintro ⟨firstKey, firstLevel⟩ ⟨secondKey, secondLevel⟩ firstMem secondMem different
    intro id idFirst idSecond
    have firstFound := SortedMap.find?_eq_some_iff.mpr firstMem
    have secondFound := SortedMap.find?_eq_some_iff.mpr secondMem
    exact different (linked.price_unique
      (by simpa [ordersAt_of_find? firstFound] using idFirst)
      (by simpa [ordersAt_of_find? secondFound] using idSecond))

theorem Linked.existOrder_iff_resting {side : BookSide P isSell} (linked : side.Linked) {id : ℤ} :
    side.existOrder id = true ↔ id ∈ ids side.restingOrders := by
  rw [linked.existOrder_iff]
  simp only [ids, List.mem_map, mem_restingOrders]
  constructor
  · rintro ⟨key, order, mem, idEq⟩
    exact ⟨order, ⟨key, mem⟩, idEq⟩
  · rintro ⟨order, ⟨key, mem⟩, idEq⟩
    exact ⟨key, order, mem, idEq⟩

namespace RepInvariant

variable {side : BookSide P isSell}

theorem order_price (rep : side.RepInvariant) {key : P} {order : Order P}
    (mem : order ∈ side.ordersAt key) : order.price = key := by
  obtain ⟨level, entryMem, orderMem⟩ := exists_entry_of_mem mem
  exact (rep.order_fits _ entryMem order orderMem).1

/-- The id map holds the handler of every order, as ids are unique. -/
theorem handler_of_mem (rep : side.RepInvariant) {id : ℤ} {handler : OrderHandler P}
    (idEq : handler.odid = id) (mem : id ∈ ids (side.ordersAt handler.price)) :
    side.orderMap.find? id = some handler := by
  obtain ⟨order, orderMem, orderId⟩ := List.mem_map.mp mem
  have present : side.existOrder id = true := (rep.existOrder_iff id).mpr
    (List.mem_map.mpr ⟨order, mem_restingOrders.mpr ⟨_, orderMem⟩, orderId⟩)
  obtain ⟨other, otherFound⟩ := Option.isSome_iff_exists.mp present
  have points := rep.handler_points id other otherFound
  obtain ⟨found, foundMem, foundId⟩ := List.mem_map.mp points.2
  -- both handlers name the one order of this id, hence the same level
  have sameOrder : found = order := order_unique rep.ids_nodup
    (mem_restingOrders.mpr ⟨_, foundMem⟩) (mem_restingOrders.mpr ⟨_, orderMem⟩)
    (foundId.trans orderId.symm)
  have samePrice : other.price = handler.price := by
    rw [← rep.order_price foundMem, ← rep.order_price orderMem, sameOrder]
  rw [otherFound]
  cases other
  cases handler
  simp_all

theorem linked (rep : side.RepInvariant) : side.Linked := by
  refine ⟨?_, fun {id handler} => ⟨rep.handler_points id handler, ?_⟩⟩
  · intro key level found
    have mem := SortedMap.find?_eq_some_iff.mp found
    refine ⟨rep.level_price _ mem, (rep.numOrders_eq _ mem).1, (rep.numOrders_eq _ mem).2,
      fun order orderMem => (rep.order_fits _ mem order orderMem).1,
      fun order orderMem => (rep.order_fits _ mem order orderMem).2, ?_⟩
    have nodup := rep.ids_nodup
    rw [ids, restingOrders, List.map_flatMap, List.nodup_flatMap] at nodup
    exact nodup.1 _ mem
  · rintro ⟨idEq, mem⟩
    exact rep.handler_of_mem idEq mem

theorem valid (rep : side.RepInvariant) : side.Valid {0} where
  linked := rep.linked
  isOpen mem := by
    obtain ⟨level, entryMem, orderMem⟩ := exists_entry_of_mem mem
    exact rep.order_open _ entryMem _ orderMem
  counted found := by
    have quantityEq := rep.quantity_eq _ (SortedMap.find?_eq_some_iff.mp found)
    simp only [totalRemaining, QueueFill.total, Set.mem_singleton_iff]
    simp only at quantityEq
    omega
  ledgers := rep.ledgers

end RepInvariant

theorem Valid.repInvariant {side : BookSide P isSell} (valid : side.Valid {0}) :
    side.RepInvariant := by
  have levelOf {entry : P × L3PriceLevel P} (mem : entry ∈ side.levels.entries) :
      side.levels.find? entry.1 = some entry.2 := SortedMap.find?_eq_some_iff.mpr mem
  refine ⟨fun _ => valid.linked.existOrder_iff_resting, valid.linked.restingIds_nodup,
    fun _ _ => valid.linked.handler.mp, ?_, ?_, ?_, ?_, ?_, valid.ledgers⟩
  · intro entry mem order orderMem
    have level := valid.linked.level (levelOf mem)
    exact ⟨level.order_price order orderMem, level.order_isSell order orderMem⟩
  · intro entry mem
    exact (valid.linked.level (levelOf mem)).price_eq
  · intro entry mem
    have level := valid.linked.level (levelOf mem)
    exact ⟨level.numOrders_eq, level.nonempty⟩
  · intro entry mem
    have counted := valid.counted (levelOf mem)
    simp only [totalRemaining, QueueFill.total, Set.mem_singleton_iff] at counted
    omega
  · intro entry mem order orderMem
    have atKey : order ∈ side.ordersAt entry.1 := by
      simpa [ordersAt_of_find? (levelOf mem)] using orderMem
    exact valid.isOpen atKey

/-- The invariant as stated is `Valid` without slack. -/
theorem repInvariant_iff_valid {side : BookSide P isSell} :
    side.RepInvariant ↔ side.Valid {0} :=
  ⟨RepInvariant.valid, Valid.repInvariant⟩

/-! ### Operations keep the invariant -/

variable {slack : Set ℤ}

theorem ledgers_empty : (empty : BookSide P isSell).Ledgers :=
  ⟨fun _ _ found => by simp [empty] at found, fun found => by simp [empty] at found⟩

theorem valid_empty : (empty : BookSide P isSell).Valid slack where
  linked := linked_empty
  isOpen mem := by simp [empty, ordersAt] at mem
  counted found := by simp [empty] at found
  ledgers := ledgers_empty

theorem Ledgers.congr {side next : BookSide P isSell} (ledgers : side.Ledgers)
    (removeEq : next.pendingLiqRemoveQty = side.pendingLiqRemoveQty)
    (addEq : next.pendingLiqAddQty = side.pendingLiqAddQty) : next.Ledgers :=
  ⟨removeEq ▸ ledgers.remove_pos, fun found => ledgers.add_nonneg (addEq ▸ found)⟩

namespace Valid

variable {side : BookSide P isSell}

theorem allRemain (valid : side.Valid slack) (key : P) : AllRemain (side.ordersAt key) :=
  fun _ mem => (valid.isOpen mem).remaining_pos

/-- Only the levels and the id map matter to the first three parts. -/
theorem congr (valid : side.Valid slack) {next : BookSide P isSell}
    (levelsEq : next.levels = side.levels) (mapEq : next.orderMap = side.orderMap)
    (ledgers : next.Ledgers) : next.Valid slack where
  linked := valid.linked.congr levelsEq mapEq
  isOpen mem := valid.isOpen (by simpa [ordersAt, levelsEq] using mem)
  counted found := valid.counted (levelsEq ▸ found)
  ledgers := ledgers

/-- Replacing the orders of one level. -/
theorem put (valid : side.Valid slack) {next : BookSide P isSell} (linked : next.Linked)
    {key : P} {quantity : ℤ} {orders : List (Order P)}
    (levelsEq : next.levels = putOrders side.levels key quantity orders)
    (isOpen : ∀ order ∈ orders, order.IsOpen)
    (counted : orders ≠ [] → totalRemaining orders - quantity ∈ slack)
    (ledgers : next.Ledgers) : next.Valid slack where
  linked := linked
  isOpen := by
    intro other order mem
    rw [ordersAt_putOrders levelsEq] at mem
    split at mem
    · exact isOpen order mem
    · exact valid.isOpen mem
  counted := by
    intro other level found
    rw [levelsEq, find?_putOrders] at found
    split at found
    · split at found
      · cases found
      · next nonempty =>
          cases found
          exact counted nonempty
    · exact valid.counted found
  ledgers := ledgers

theorem counted_ofOrders (valid : side.Valid slack) {key : P} {quantity : ℤ}
    {orders : List (Order P)}
    (found : side.levels.find? key = some (.ofOrders key quantity orders)) :
    totalRemaining orders - quantity ∈ slack :=
  valid.counted found

/-- Without slack the quantity of a level is the total of its orders. -/
theorem quantityAt_eq (valid : side.Valid {0}) (key : P) :
    side.quantityAt key = totalRemaining (side.ordersAt key) := by
  cases found : side.levels.find? key with
  | none => simp [quantityAt, ordersAt_of_none found, found, totalRemaining]
  | some level =>
      rw [ordersAt_of_find? found, sub_eq_zero.mp (valid.counted found)]
      simp [quantityAt, found]

theorem fillLevel [Zero P] (valid : side.Valid slack) {key : P} {level : L3PriceLevel P}
    {qty : ℤ} (found : side.levels.find? key = some level) (nonneg : 0 ≤ qty) :
    (side.fillLevel key qty).Valid slack := by
  have remain := valid.allRemain key
  have counted := valid.counted found
  have quantityEq := quantityAt_of_find? found
  rw [← ordersAt_of_find? found, ← quantityEq] at counted
  refine valid.put (valid.linked.fillLevel_linked found remain nonneg) rfl ?_ ?_
    (valid.ledgers.congr rfl rfl)
  · intro order mem
    obtain ⟨old, oldMem, taken, takenNonneg, short, rfl⟩ := mem_fillFront nonneg mem
    exact (valid.isOpen oldMem).fill takenNonneg short
  · intro _
    rw [totalRemaining_fillFront remain nonneg]
    have sameGap : ∀ total quantity taken : ℤ,
        total - taken - (quantity - taken) = total - quantity := by
      intros
      omega
    rwa [sameGap]

section Operations

variable [Zero P]

theorem removeOrder (valid : side.Valid slack) (id : ℤ) :
    (side.removeOrder id).Valid slack := by
  cases exists_ : side.existOrder id with
  | false => rwa [removeOrder_of_not_exist exists_]
  | true =>
      obtain ⟨key, mem⟩ := valid.linked.existOrder_iff.mp exists_
      obtain ⟨order, orderMem, rfl⟩ := List.mem_map.mp mem
      obtain ⟨quantity, found⟩ := valid.linked.exists_level orderMem
      obtain ⟨front, back, split⟩ := List.append_of_mem orderMem
      have linkedAfter := valid.linked.removeOrder_linked order.odid
      have counted := valid.counted_ofOrders found
      rw [split] at found counted
      rw [valid.linked.removeOrder_eq found] at linkedAfter ⊢
      refine valid.put linkedAfter rfl ?_ ?_ (valid.ledgers.congr rfl rfl)
      · intro other otherMem
        exact valid.isOpen (mem_ordersAt_of_erased split otherMem)
      · intro _
        have sameGap : totalRemaining (front ++ back) -
            (quantity - order.getRemainingQuantity) =
              totalRemaining (front ++ order :: back) - quantity := by
          simp only [totalRemaining, QueueFill.total_append, QueueFill.total_cons]
          omega
        rwa [sameGap]

theorem foldl_removeOrder (valid : side.Valid slack) (removed : List ℤ) :
    (removed.foldl BookSide.removeOrder side).Valid slack := by
  induction removed generalizing side with
  | nil => exact valid
  | cons id removed ih => exact ih (valid.removeOrder id)

theorem addOrder (valid : side.Valid slack) (zeroMem : 0 ∈ slack) {order : Order P}
    (isOpen : order.IsOpen) {next : BookSide P isSell}
    (added : side.addOrder order = .ok next) : next.Valid slack := by
  have linkedAfter := valid.linked.addOrder_linked added
  have isSellEq := isSell_of_addOrder added
  cases exists_ : side.existOrder order.odid with
  | true =>
      rw [addOrder_of_exist isSellEq exists_] at added
      cases added
      exact valid
  | false =>
      rw [valid.linked.addOrder_eq isSellEq exists_] at added
      cases added
      refine valid.put linkedAfter rfl ?_ ?_ (valid.ledgers.congr rfl rfl)
      · intro other otherMem
        rcases List.mem_append.mp otherMem with old | new
        · exact valid.isOpen old
        · rw [List.mem_singleton.mp new]
          exact isOpen
      · intro _
        have sameGap : totalRemaining (side.ordersAt order.price ++ [order]) -
            (side.quantityAt order.price + order.getRemainingQuantity) =
              totalRemaining (side.ordersAt order.price) - side.quantityAt order.price := by
          simp only [totalRemaining, QueueFill.total_append, QueueFill.total_cons,
            QueueFill.total_nil]
          omega
        rw [sameGap]
        cases found : side.levels.find? order.price with
        | none => simpa [ordersAt, quantityAt, found] using zeroMem
        | some level => simpa [ordersAt, quantityAt, found] using valid.counted found

end Operations

end Valid

end BookSide

end OrderBook
