import OrderBook.LinkedSide
import OrderBook.Ledger

/-!
# Filling one level

The loops of `processCrossedOrder` and `processTrade` fill the orders of one
level front to back, saving the L2 view after each fill, and then remove the
orders they used up.  In the middle of such a pass orders may be completely
filled and still rest, so only `Linked` is known.
-/

namespace OrderBook

open FueledLoop

section Fills

variable {P : Type}

@[simp]
theorem totalRemaining_cons (order : Order P) (orders : List (Order P)) :
    totalRemaining (order :: orders) = order.getRemainingQuantity + totalRemaining orders :=
  QueueFill.total_cons order orders

@[simp]
theorem fills_zero (orders : List (Order P)) : fills 0 orders = [] :=
  QueueFill.pieces_zero orders

theorem usedUp_zero {orders : List (Order P)} (remain : AllRemain orders) :
    usedUp 0 orders = [] :=
  QueueFill.exhausted_zero remain

theorem fillFront_zero {orders : List (Order P)} (remain : AllRemain orders) :
    fillFront 0 orders = orders :=
  QueueFill.remaining_zero Order.lawful remain

theorem fillFront_eq_nil {qty : ℤ} {orders : List (Order P)} (remain : AllRemain orders)
    (covers : totalRemaining orders ≤ qty) : fillFront qty orders = [] :=
  QueueFill.remaining_eq_nil remain covers

theorem fillFront_ne_nil {qty : ℤ} {orders : List (Order P)} (nonneg : 0 ≤ qty)
    (short : qty < totalRemaining orders) : fillFront qty orders ≠ [] :=
  QueueFill.remaining_ne_nil short nonneg

theorem totalRemaining_fillFront {qty : ℤ} {orders : List (Order P)}
    (remain : AllRemain orders) (nonneg : 0 ≤ qty) :
    totalRemaining (fillFront qty orders) =
      totalRemaining orders - min qty (totalRemaining orders) :=
  QueueFill.total_remaining Order.lawful remain nonneg

@[simp]
theorem totalRemaining_append (first second : List (Order P)) :
    totalRemaining (first ++ second) = totalRemaining first + totalRemaining second :=
  QueueFill.total_append first second

theorem fills_append {qty : ℤ} {first : List (Order P)} (second : List (Order P))
    (remain : AllRemain first) (nonneg : 0 ≤ qty) :
    fills qty (first ++ second) =
      fills qty first ++ fills (qty - min qty (totalRemaining first)) second :=
  QueueFill.pieces_append remain nonneg

theorem fillFront_append_of_covers {qty : ℤ} {first : List (Order P)}
    (second : List (Order P)) (remain : AllRemain first)
    (covers : totalRemaining first ≤ qty) :
    fillFront qty (first ++ second) = fillFront (qty - totalRemaining first) second :=
  QueueFill.remaining_append_of_covers remain covers

theorem fillFront_append_of_short {qty : ℤ} {first : List (Order P)}
    (second : List (Order P)) (nonneg : 0 ≤ qty) (short : qty < totalRemaining first) :
    fillFront qty (first ++ second) = fillFront qty first ++ second :=
  QueueFill.remaining_append_of_short nonneg short

theorem fillFront_fillFront {first second : ℤ} {orders : List (Order P)}
    (remain : AllRemain orders) (firstNonneg : 0 ≤ first) (secondNonneg : 0 ≤ second) :
    fillFront second (fillFront first orders) = fillFront (first + second) orders :=
  QueueFill.remaining_remaining Order.lawful remain firstNonneg secondNonneg

/-- The orders of a level after a fill and before the removal of used-up orders. -/
def fillEach : ℤ → List (Order P) → List (Order P)
  | _, [] => []
  | qty, order :: orders =>
      if qty = 0 then order :: orders
      else order.fill (min qty order.getRemainingQuantity) ::
        fillEach (qty - min qty order.getRemainingQuantity) orders

theorem fills_cons {qty : ℤ} (order : Order P) (orders : List (Order P)) (some : qty ≠ 0) :
    fills qty (order :: orders) = (order, min qty order.getRemainingQuantity) ::
      fills (qty - min qty order.getRemainingQuantity) orders := by
  simp [fills, QueueFill.pieces, some]

theorem fills_total {orders : List (Order P)} (remain : AllRemain orders) :
    fills (totalRemaining orders) orders =
      orders.map fun order => (order, order.getRemainingQuantity) := by
  induction orders with
  | nil => rfl
  | cons order orders ih =>
      have orderPos := remain.head
      have totalNonneg : 0 ≤ totalRemaining orders := remain.tail.total_nonneg
      have whole : min (totalRemaining (order :: orders)) order.getRemainingQuantity =
          order.getRemainingQuantity := by
        rw [totalRemaining_cons]
        omega
      have others : totalRemaining (order :: orders) - order.getRemainingQuantity =
          totalRemaining orders := by
        rw [totalRemaining_cons]
        omega
      have some : totalRemaining (order :: orders) ≠ 0 := by
        rw [totalRemaining_cons]
        omega
      rw [fills_cons order orders some, whole, others, ih remain.tail, List.map_cons]

theorem usedUp_cons {qty : ℤ} {order : Order P} {orders : List (Order P)}
    (remain : AllRemain (order :: orders)) :
    usedUp qty (order :: orders) =
      (if (order.fill (min qty order.getRemainingQuantity)).getRemainingQuantity = 0
        then [order] else []) ++
          usedUp (qty - min qty order.getRemainingQuantity) orders := by
  have orderPos := remain.head
  by_cases covers : order.getRemainingQuantity ≤ qty
  · simp [usedUp, QueueFill.exhausted, covers]
  · have partly : min qty order.getRemainingQuantity = qty := by omega
    rw [partly, if_neg (by simp; omega), sub_self, usedUp_zero remain.tail]
    simp [usedUp, QueueFill.exhausted, covers]

/-- A fill uses up no order when it ends inside the first one. -/
theorem usedUp_eq_nil_iff {qty : ℤ} {orders : List (Order P)} :
    usedUp qty orders = [] ↔ ∀ order ∈ orders.head?, qty < order.getRemainingQuantity := by
  cases orders with
  | nil => simp [usedUp, QueueFill.exhausted]
  | cons order orders =>
      by_cases covers : order.getRemainingQuantity ≤ qty
      · simp [usedUp, QueueFill.exhausted, covers]
      · simp [usedUp, QueueFill.exhausted, covers, not_le.mp covers]

theorem fillEach_eq {qty : ℤ} {orders : List (Order P)} (remain : AllRemain orders)
    (nonneg : 0 ≤ qty) :
    fillEach qty orders =
      (usedUp qty orders).map (fun order => order.fill order.getRemainingQuantity) ++
        fillFront qty orders := by
  induction orders generalizing qty with
  | nil => rfl
  | cons order orders ih =>
      have orderPos := remain.head
      by_cases empty : qty = 0
      · subst empty
        rw [fillFront_zero remain, usedUp_zero remain]
        simp [fillEach]
      · rw [fillEach, if_neg empty, ih remain.tail (by omega)]
        by_cases covers : order.getRemainingQuantity ≤ qty
        · simp [usedUp, fillFront, QueueFill.exhausted, QueueFill.remaining, covers]
        · have partly : min qty order.getRemainingQuantity = qty := by omega
          rw [partly, sub_self, usedUp_zero remain.tail, fillFront_zero remain.tail]
          simp [usedUp, fillFront, QueueFill.exhausted, QueueFill.remaining, covers]

theorem fillEach_ids (qty : ℤ) (orders : List (Order P)) :
    ids (fillEach qty orders) = ids orders := by
  induction orders generalizing qty with
  | nil => rfl
  | cons order orders ih =>
      by_cases empty : qty = 0
      · simp [fillEach, empty]
      · simpa [fillEach, empty] using ih _

theorem mem_fillEach {qty : ℤ} {orders : List (Order P)} {order : Order P}
    (mem : order ∈ fillEach qty orders) :
    ∃ old ∈ orders, ∃ taken, order = old.fill taken := by
  induction orders generalizing qty with
  | nil => simp [fillEach] at mem
  | cons head orders ih =>
      by_cases empty : qty = 0
      · exact ⟨order, by simpa [fillEach, empty] using mem, 0, by simp⟩
      · rw [fillEach, if_neg empty, List.mem_cons] at mem
        rcases mem with rfl | mem
        · exact ⟨head, by simp, _, rfl⟩
        · obtain ⟨old, oldMem, taken, orderEq⟩ := ih mem
          exact ⟨old, by simp [oldMem], taken, orderEq⟩

/-- The orders left after a fill: old ones, the first of them perhaps filled
further but not completely. -/
theorem mem_fillFront {qty : ℤ} {orders : List (Order P)} {order : Order P}
    (nonneg : 0 ≤ qty) (mem : order ∈ fillFront qty orders) :
    ∃ old ∈ orders, ∃ taken, 0 ≤ taken ∧
      (taken = 0 ∨ taken < old.getRemainingQuantity) ∧ order = old.fill taken := by
  induction orders generalizing qty with
  | nil => simp [fillFront, QueueFill.remaining] at mem
  | cons head orders ih =>
      by_cases covers : head.getRemainingQuantity ≤ qty
      · rw [fillFront, QueueFill.remaining, if_pos covers] at mem
        obtain ⟨old, oldMem, rest⟩ := ih (by omega) mem
        exact ⟨old, by simp [oldMem], rest⟩
      · rw [fillFront, QueueFill.remaining, if_neg covers, List.mem_cons] at mem
        rcases mem with rfl | mem
        · exact ⟨head, by simp, qty, nonneg, Or.inr (by omega), rfl⟩
        · exact ⟨order, by simp [mem], 0, le_refl 0, Or.inl rfl, by simp⟩

/-- The ids of the used up orders come before those of the orders that are left. -/
theorem ids_eq_append (qty : ℤ) (orders : List (Order P)) :
    ids orders = ids (usedUp qty orders) ++ ids (fillFront qty orders) :=
  QueueFill.map_eq_append Order.fill_odid orders qty

theorem totalRemaining_filledUp (orders : List (Order P)) :
    totalRemaining (orders.map fun order => order.fill order.getRemainingQuantity) = 0 := by
  induction orders with
  | nil => rfl
  | cons order orders ih => simpa using ih

theorem ids_filledUp (orders : List (Order P)) :
    ids (orders.map fun order => order.fill order.getRemainingQuantity) = ids orders := by
  simp [ids, Function.comp_def]

/-- The `EXEC` events of a list of fills. -/
def execEvents (isSell : Bool) (taken : List (Order P × ℤ)) : OrderInfoVec P :=
  taken.map fun piece => ⟨.exec, piece.1.odid, isSell, piece.2, piece.1.price⟩

theorem execEvents_pos {isSell : Bool} {qty : ℤ} {orders : List (Order P)}
    (remain : AllRemain orders)
    (nonneg : 0 ≤ qty) : ∀ e ∈ execEvents isSell (fills qty orders), 0 < e.quantity := by
  intro e mem
  obtain ⟨⟨order, piece⟩, pieceMem, rfl⟩ := List.mem_map.mp mem
  exact (QueueFill.mem_pieces remain nonneg pieceMem).2.1

end Fills

section Views

variable {P : Type} [LinearOrder P] {isSell : Bool}

/-- The L2 view of a map of levels. -/
def viewOf (levels : SortedMap P (L3PriceLevel P) (PriceComparator isSell)) :
    L2SnapshotSide P :=
  levels.entries.map fun entry => ⟨entry.1, entry.2.quantity⟩

/-- A view with another quantity at one price. -/
def viewWith (view : L2SnapshotSide P) (key : P) (quantity : ℤ) : L2SnapshotSide P :=
  view.map fun level => if level.price = key then ⟨key, quantity⟩ else level

theorem viewOf_putOrders {levels : SortedMap P (L3PriceLevel P) (PriceComparator isSell)}
    {key : P} {old : L3PriceLevel P} {quantity : ℤ} {orders : List (Order P)}
    (found : levels.find? key = some old) (nonempty : orders ≠ []) :
    viewOf (BookSide.putOrders levels key quantity orders) =
      viewWith (viewOf levels) key quantity := by
  rw [BookSide.putOrders, if_neg nonempty, viewOf, SortedMap.entries_insert_of_find? found,
    viewWith, viewOf, List.map_map, List.map_map]
  apply List.map_congr_left
  intro entry _
  simp only [Function.comp_apply]
  split <;> simp_all

theorem viewWith_viewWith (view : L2SnapshotSide P) (key : P) (first second : ℤ) :
    viewWith (viewWith view key first) key second = viewWith view key second := by
  simp only [viewWith, List.map_map]
  apply List.map_congr_left
  intro level _
  simp only [Function.comp_apply]
  split <;> simp_all

/-- The views saved by a pass of fills over the level under `key`. -/
def fillViews (view : L2SnapshotSide P) (key : P) : ℤ → List (Order P × ℤ) →
    List (L2SnapshotSide P)
  | _, [] => []
  | quantity, piece :: taken =>
      viewWith view key (quantity - piece.2) ::
        fillViews view key (quantity - piece.2) taken

theorem fillViews_viewWith (view : L2SnapshotSide P) (key : P) (other quantity : ℤ)
    (taken : List (Order P × ℤ)) :
    fillViews (viewWith view key other) key quantity taken =
      fillViews view key quantity taken := by
  induction taken generalizing quantity with
  | nil => rfl
  | cons piece taken ih => simp [fillViews, viewWith_viewWith, ih]

end Views

namespace BookSide

variable {P : Type} [LinearOrder P] {isSell : Bool}

theorem l2View_eq_viewOf (side : BookSide P isSell) : side.l2View = viewOf side.levels := rfl

/-- The view after the level under `key` is replaced, with orders left in it. -/
theorem l2View_put {side : BookSide P isSell} {key : P} {old : L3PriceLevel P}
    (found : side.levels.find? key = some old) (quantity : ℤ) {orders : List (Order P)}
    (nonempty : orders ≠ []) :
    ({ side with levels := putOrders side.levels key quantity orders } :
      BookSide P isSell).l2View = viewWith side.l2View key quantity :=
  viewOf_putOrders found nonempty

theorem Linked.congr {side next : BookSide P isSell} (linked : side.Linked)
    (levelsEq : next.levels = side.levels) (mapEq : next.orderMap = side.orderMap) :
    next.Linked where
  level := by
    intro key level found
    exact linked.level (levelsEq ▸ found)
  handler := by
    intro id handler
    rw [mapEq, ordersAt, levelsEq]
    exact linked.handler

/-- The side after `qty` is filled along the level under `key`, used-up orders
removed. -/
def fillLevel (side : BookSide P isSell) (key : P) (qty : ℤ) : BookSide P isSell :=
  { side with
    levels := putOrders side.levels key
      (side.quantityAt key - min qty (totalRemaining (side.ordersAt key)))
      (fillFront qty (side.ordersAt key))
    orderMap := (ids (usedUp qty (side.ordersAt key))).foldl SortedMap.erase side.orderMap }

theorem ordersAt_fillLevel (side : BookSide P isSell) (key other : P) (qty : ℤ) :
    (side.fillLevel key qty).ordersAt other =
      if other = key then fillFront qty (side.ordersAt key) else side.ordersAt other :=
  ordersAt_putOrders rfl other

/-- Two fills of one level are one fill of their sum. -/
theorem fillLevel_add {side next : BookSide P isSell} {key : P}
    (remain : AllRemain (side.ordersAt key)) {first second : ℤ} (firstNonneg : 0 ≤ first)
    (secondNonneg : 0 ≤ second)
    (levelsEq : next.levels = (side.fillLevel key first).levels) :
    (next.fillLevel key second).levels = (side.fillLevel key (first + second)).levels := by
  have ordersEq : next.ordersAt key = fillFront first (side.ordersAt key) := by
    rw [ordersAt_putOrders levelsEq, if_pos rfl]
  have bothEq : fillFront second (next.ordersAt key) =
      fillFront (first + second) (side.ordersAt key) := by
    rw [ordersEq, fillFront_fillFront remain firstNonneg secondNonneg]
  simp only [BookSide.fillLevel]
  rw [levelsEq, bothEq, BookSide.fillLevel, putOrders_putOrders]
  by_cases none : fillFront (first + second) (side.ordersAt key) = []
  · simp only [putOrders, if_pos none]
  · have short : first + second < totalRemaining (side.ordersAt key) := by
      by_contra covers
      exact none (fillFront_eq_nil remain (not_lt.mp covers))
    have left : fillFront first (side.ordersAt key) ≠ [] :=
      fillFront_ne_nil firstNonneg (by omega)
    have quantityEq : next.quantityAt key = side.quantityAt key - first := by
      rw [quantityAt, levelsEq, BookSide.fillLevel, find?_putOrders, if_pos rfl, if_neg left]
      have taken : min first (totalRemaining (side.ordersAt key)) = first := by omega
      simp [taken]
    have totalEq : totalRemaining (next.ordersAt key) =
        totalRemaining (side.ordersAt key) - first := by
      rw [ordersEq, totalRemaining_fillFront remain firstNonneg]
      omega
    rw [quantityEq, totalEq]
    congr 1
    omega

/-- A side in the middle of a pass of fills. -/
theorem Linked.fillEach_linked {side next : BookSide P isSell} (linked : side.Linked) {key : P}
    {quantity qty : ℤ}
    (levelsEq : next.levels =
      putOrders side.levels key quantity (fillEach qty (side.ordersAt key)))
    (mapEq : next.orderMap = side.orderMap) : next.Linked := by
  refine linked.put_sameIds levelsEq mapEq ?_ ?_ (fillEach_ids _ _)
  · intro order mem
    obtain ⟨old, oldMem, taken, rfl⟩ := mem_fillEach mem
    simpa using linked.order_price oldMem
  · intro order mem
    obtain ⟨old, oldMem, taken, rfl⟩ := mem_fillEach mem
    simpa using linked.order_isSell oldMem

/-- The level in the middle of a pass: its used-up orders still come first. -/
theorem Linked.find?_fillEach {side next : BookSide P isSell} (linked : side.Linked) {key : P}
    {level : L3PriceLevel P} {qty quantity : ℤ} (found : side.levels.find? key = some level)
    (remain : AllRemain (side.ordersAt key)) (nonneg : 0 ≤ qty)
    (levelsEq : next.levels =
      putOrders side.levels key quantity (fillEach qty (side.ordersAt key))) :
    next.levels.find? key = some (.ofOrders key quantity
      ((usedUp qty (side.ordersAt key)).map
          (fun order => order.fill order.getRemainingQuantity) ++
        fillFront qty (side.ordersAt key))) := by
  have nonempty : fillEach qty (side.ordersAt key) ≠ [] := by
    intro none
    have idsEq := fillEach_ids qty (side.ordersAt key)
    rw [none] at idsEq
    exact (linked.level found).nonempty
      (by simpa [ordersAt_of_find? found] using idsEq.symm)
  rw [levelsEq, find?_putOrders, if_pos rfl, if_neg nonempty, fillEach_eq remain nonneg]

variable [Zero P]

theorem foldlM_crossFill_zero (key : P) (side : BookSide P isSell) (aggressor : Order P)
    (events : OrderInfoVec P) (removed : List ℤ) (orders : List (Order P)) :
    orders.foldlM (crossFill key) ⟨side, aggressor, 0, events, removed⟩ =
      .ok ⟨side, aggressor, 0, events, removed⟩ := by
  induction orders with
  | nil => rfl
  | cons order orders ih => simpa [crossFill] using ih

/-- One pass of the inner loop of `processCrossedOrder`. -/
theorem crossFill_eq {side : BookSide P isSell} {key : P} {quantity qty : ℤ}
    {front back : List (Order P)} {order : Order P} (aggressor : Order P)
    (events : OrderInfoVec P) (removed : List ℤ)
    (found : side.levels.find? key = some (.ofOrders key quantity (front ++ order :: back)))
    (nodup : (ids (front ++ order :: back)).Nodup) (some : qty ≠ 0) :
    crossFill key ⟨side, aggressor, qty, events, removed⟩ order = .ok
      ⟨{ side with
          levels := putOrders side.levels key
            (quantity - min qty order.getRemainingQuantity)
            (front ++ order.fill (min qty order.getRemainingQuantity) :: back)
          l2SnapQueue := side.l2SnapQueue ++
            [viewWith side.l2View key (quantity - min qty order.getRemainingQuantity)]
          pendingLiqRemoveQty := creditEvents side.pendingLiqRemoveQty
            (execEvents isSell [(order, min qty order.getRemainingQuantity)]) },
        aggressor.fill (min qty order.getRemainingQuantity),
        qty - min qty order.getRemainingQuantity,
        events ++ execEvents isSell [(order, min qty order.getRemainingQuantity)],
        removed ++ ids
          (if (order.fill (min qty order.getRemainingQuantity)).getRemainingQuantity = 0
            then [order] else [])⟩ := by
  have filled := fillLevelOrder_eq found nodup (min_le_right qty order.getRemainingQuantity)
  have nonempty : front ++ order.fill (min qty order.getRemainingQuantity) :: back ≠ [] := by
    simp
  simp only [crossFill, if_neg some, filled, ok_bind, pure_eq_ok, saveL2SnapshoSide,
    l2View_put found _ nonempty]
  simp only [execEvents, creditEvents, List.map_cons, List.map_nil, List.foldl_cons,
    List.foldl_nil, if_true, apply_ite ids]
  split <;> simp

/-- The whole inner loop of `processCrossedOrder`: the level is filled front to
back, with one saved view, one ledger credit and one event for each fill. -/
theorem foldlM_crossFill {side : BookSide P isSell} {key : P} {quantity qty : ℤ}
    {front orders : List (Order P)} (aggressor : Order P) (events : OrderInfoVec P)
    (removed : List ℤ)
    (found : side.levels.find? key = some (.ofOrders key quantity (front ++ orders)))
    (nonempty : front ++ orders ≠ []) (nodup : (ids (front ++ orders)).Nodup)
    (remain : AllRemain orders) (nonneg : 0 ≤ qty) :
    orders.foldlM (crossFill key) ⟨side, aggressor, qty, events, removed⟩ = .ok
      ⟨{ side with
          levels := putOrders side.levels key (quantity - min qty (totalRemaining orders))
            (front ++ fillEach qty orders)
          l2SnapQueue := side.l2SnapQueue ++
            fillViews side.l2View key quantity (fills qty orders)
          pendingLiqRemoveQty := creditEvents side.pendingLiqRemoveQty
            (execEvents isSell (fills qty orders)) },
        aggressor.fill (min qty (totalRemaining orders)),
        qty - min qty (totalRemaining orders),
        events ++ execEvents isSell (fills qty orders),
        removed ++ ids (usedUp qty orders)⟩ := by
  induction orders generalizing side quantity front aggressor events removed qty with
  | nil =>
      have unchanged := putOrders_self found nonempty
      have nothing : min qty 0 = 0 := min_eq_right nonneg
      simp only [List.append_nil] at unchanged
      simp [fills, QueueFill.pieces, fillViews, execEvents, creditEvents, fillEach, usedUp,
        QueueFill.exhausted, nothing, unchanged]
  | cons order orders ih =>
      have orderPos := remain.head
      have totalNonneg : 0 ≤ totalRemaining orders := remain.tail.total_nonneg
      by_cases empty : qty = 0
      · subst empty
        have unchanged := putOrders_self found nonempty
        have nothing : min 0 (totalRemaining (order :: orders)) = 0 :=
          min_eq_left remain.total_nonneg
        rw [foldlM_crossFill_zero, fills_zero, usedUp_zero remain, nothing]
        simp [fillEach, unchanged, fillViews, execEvents, creditEvents]
      · have step := crossFill_eq aggressor events removed found nodup empty
        rw [List.foldlM_cons, step, ok_bind]
        have splitTotal : min qty (totalRemaining (order :: orders)) =
            min qty order.getRemainingQuantity +
              min (qty - min qty order.getRemainingQuantity) (totalRemaining orders) := by
          rw [totalRemaining_cons]
          omega
        have nonnegAfter : 0 ≤ qty - min qty order.getRemainingQuantity := by omega
        rw [splitTotal, usedUp_cons remain, fills_cons order orders empty, fillEach,
          if_neg empty]
        generalize min qty order.getRemainingQuantity = taken at *
        have nonemptyAfter : front ++ order.fill taken :: orders ≠ [] := by simp
        have foundAfter : (putOrders side.levels key (quantity - taken)
            (front ++ order.fill taken :: orders)).find? key =
              some (.ofOrders key (quantity - taken)
                ((front ++ [order.fill taken]) ++ orders)) := by
          simp [find?_putOrders]
        rw [ih _ _ _ foundAfter (by simp) (by simpa using nodup) remain.tail nonnegAfter]
        simp [putOrders_putOrders, l2View_eq_viewOf, viewOf_putOrders found nonemptyAfter,
          fillViews, fillViews_viewWith, execEvents, creditEvents, sub_sub]

/-- A state of the crossing loop seen as one of the trade loop, which has no
aggressor and leaves the ledger alone. -/
def CrossState.forget (ledger : SortedMap P ℤ (· < ·)) (state : CrossState P isSell) :
    TradeState P isSell where
  side := { state.side with pendingLiqRemoveQty := ledger }
  curTradeQty := state.remainingQuantity
  orderEvents := state.orderEvents
  ordersToRemove := state.ordersToRemove

theorem tradeFill_forget (key : P) (ledger : SortedMap P ℤ (· < ·))
    (state : CrossState P isSell) (order : Order P) :
    tradeFill key (state.forget ledger) order =
      (crossFill key state order).map (CrossState.forget ledger) := by
  by_cases none : state.remainingQuantity = 0
  · simp [tradeFill, crossFill, CrossState.forget, none, Except.map]
  · have noneTrade : (state.forget ledger).curTradeQty ≠ 0 := none
    rw [tradeFill, if_neg noneTrade, crossFill, if_neg none]
    simp only [CrossState.forget, fillLevelOrder, getL3Level]
    cases ((state.side.levels.find? key).getD .new).fillOrder order
      (min state.remainingQuantity order.getRemainingQuantity) with
    | error halt => rfl
    | ok level => rfl

theorem foldlM_tradeFill_forget (key : P) (ledger : SortedMap P ℤ (· < ·))
    (state : CrossState P isSell) (orders : List (Order P)) :
    orders.foldlM (tradeFill key) (state.forget ledger) =
      (orders.foldlM (crossFill key) state).map (CrossState.forget ledger) := by
  induction orders generalizing state with
  | nil => rfl
  | cons order orders ih =>
      rw [List.foldlM_cons, List.foldlM_cons, tradeFill_forget]
      cases crossFill key state order with
      | error halt => rfl
      | ok following => exact ih following

/-- The whole loop of step 2 of `processTrade`. -/
theorem foldlM_tradeFill {side : BookSide P isSell} {key : P} {quantity qty : ℤ}
    {orders : List (Order P)} (events : OrderInfoVec P) (removed : List ℤ)
    (found : side.levels.find? key = some (.ofOrders key quantity orders))
    (nonempty : orders ≠ []) (nodup : (ids orders).Nodup)
    (remain : AllRemain orders) (nonneg : 0 ≤ qty) :
    orders.foldlM (tradeFill key) ⟨side, qty, events, removed⟩ = .ok
      ⟨{ side with
          levels := putOrders side.levels key (quantity - min qty (totalRemaining orders))
            (fillEach qty orders)
          l2SnapQueue := side.l2SnapQueue ++
            fillViews side.l2View key quantity (fills qty orders) },
        qty - min qty (totalRemaining orders),
        events ++ execEvents isSell (fills qty orders),
        removed ++ ids (usedUp qty orders)⟩ := by
  -- the aggressor is arbitrary: the trade loop forgets it
  let start : CrossState P isSell := ⟨side, Order.new 0 isSell 0 key, qty, events, removed⟩
  have crossed := foldlM_crossFill start.order events removed
    (show side.levels.find? key = some (.ofOrders key quantity ([] ++ orders)) from found)
    nonempty nodup remain nonneg
  have simulated := foldlM_tradeFill_forget key side.pendingLiqRemoveQty start orders
  rw [crossed] at simulated
  exact simulated

/-- Removing the used-up orders after a pass of fills completes `fillLevel`. -/
theorem Linked.removeUsedUp {side next : BookSide P isSell} (linked : side.Linked) {key : P}
    {level : L3PriceLevel P} {qty : ℤ} (found : side.levels.find? key = some level)
    (remain : AllRemain (side.ordersAt key)) (nonneg : 0 ≤ qty)
    (levelsEq : next.levels = putOrders side.levels key
      (side.quantityAt key - min qty (totalRemaining (side.ordersAt key)))
      (fillEach qty (side.ordersAt key)))
    (mapEq : next.orderMap = side.orderMap) :
    (ids (usedUp qty (side.ordersAt key))).foldl removeOrder next =
      { next with
        levels := (side.fillLevel key qty).levels
        orderMap := (side.fillLevel key qty).orderMap } := by
  have nextFound := linked.find?_fillEach found remain nonneg levelsEq
  have removed := (linked.fillEach_linked levelsEq mapEq).removeFront nextFound
  rw [ids_filledUp, totalRemaining_filledUp, sub_zero, mapEq, levelsEq,
    putOrders_putOrders] at removed
  exact removed

theorem Linked.fillLevel_linked {side : BookSide P isSell} (linked : side.Linked) {key : P}
    {level : L3PriceLevel P} {qty : ℤ} (found : side.levels.find? key = some level)
    (remain : AllRemain (side.ordersAt key)) (nonneg : 0 ≤ qty) :
    (side.fillLevel key qty).Linked := by
  let filled : BookSide P isSell := { side with
    levels := putOrders side.levels key
      (side.quantityAt key - min qty (totalRemaining (side.ordersAt key)))
      (fillEach qty (side.ordersAt key)) }
  have filledLinked : filled.Linked := linked.fillEach_linked rfl rfl
  have completed := filledLinked.foldl_removeOrder_linked
    (ids (usedUp qty (side.ordersAt key)))
  have removed := linked.removeUsedUp found remain nonneg
    (show filled.levels = _ from rfl) (show filled.orderMap = _ from rfl)
  rw [removed] at completed
  exact completed.congr rfl rfl

end BookSide

end OrderBook
