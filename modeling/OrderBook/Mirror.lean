import OrderBook.BookSideProcess

/-!
# The mirror image of a side

Negating every price and exchanging bids and asks turns one side of the book into
the other.  The source writes the two directions down separately: in the comparators,
in the crossing test, in the implicit cancels and in the match of pending liquidity.
Each operation on the mirror image of a side is the mirror image of the operation,
so all of them agree.
-/

namespace OrderBook

open FueledLoop

/-- A negation of prices: it undoes itself and turns the order around. -/
structure PriceNegation (P : Type) [LinearOrder P] [Zero P] where
  neg : P → P
  involutive : Function.Involutive neg
  lt_iff : ∀ {first second : P}, neg first < neg second ↔ second < first
  zero : neg 0 = 0

variable {P : Type} [LinearOrder P] [Zero P] {isSell : Bool} (negation : PriceNegation P)

namespace PriceNegation

def rename : P ≃ P := negation.involutive.toPerm

@[simp]
theorem rename_apply (price : P) : negation.rename price = negation.neg price := rfl

theorem le_iff {first second : P} :
    negation.neg first ≤ negation.neg second ↔ second ≤ first := by
  rw [← not_lt, negation.lt_iff, not_lt]

theorem eq_iff {first second : P} : negation.neg first = negation.neg second ↔ first = second :=
  negation.involutive.injective.eq_iff

theorem comparator {first second : P} :
    PriceComparator (!isSell) (negation.neg first) (negation.neg second) ↔
      PriceComparator isSell first second := by
  cases isSell with
  | false => exact negation.lt_iff
  | true => exact negation.lt_iff

end PriceNegation

/-! ### Records -/

def Order.mirror (order : Order P) : Order P :=
  { order with isSell := !order.isSell, price := negation.neg order.price }

def OrderInfo.mirror (info : OrderInfo P) : OrderInfo P :=
  { info with isSell := !info.isSell, price := negation.neg info.price }

def L2PriceLevel.mirror (level : L2PriceLevel P) : L2PriceLevel P :=
  { level with price := negation.neg level.price }

theorem L2PriceLevel.mirror_injective :
    Function.Injective (L2PriceLevel.mirror negation) := by
  rintro ⟨price, quantity⟩ ⟨otherPrice, otherQuantity⟩ same
  simp only [L2PriceLevel.mirror, L2PriceLevel.mk.injEq, negation.eq_iff] at same
  rw [same.1, same.2]

def L3PriceLevel.mirror (level : L3PriceLevel P) : L3PriceLevel P :=
  { level with
    price := negation.neg level.price
    orders := level.orders.map (Order.mirror negation) }

def OrderHandler.mirror (handler : OrderHandler P) : OrderHandler P :=
  { handler with price := negation.neg handler.price }

def Trade.mirror (trade : Trade P) : Trade P :=
  { trade with price := negation.neg trade.price }

/-- A map by prices from the best one on. -/
def mirrorSorted {Value Image : Type} (image : Value → Image)
    (m : SortedMap P Value (PriceComparator isSell)) :
    SortedMap P Image (PriceComparator (!isSell)) :=
  m.rekey negation.rename image negation.comparator.mpr

/-- The ledger of expected trades, whose order has no meaning. -/
def mirrorRemovals (m : SortedMap P ℤ (· < ·)) : SortedMap P ℤ (· < ·) :=
  m.rekeyReversed negation.rename id negation.lt_iff.mpr

def mirrorHandlers (m : SortedMap ℤ (OrderHandler P) (· < ·)) :
    SortedMap ℤ (OrderHandler P) (· < ·) :=
  m.rekey (Equiv.refl ℤ) (OrderHandler.mirror negation) id

def BookSide.mirror (side : BookSide P isSell) : BookSide P (!isSell) where
  levels := mirrorSorted negation (L3PriceLevel.mirror negation) side.levels
  orderMap := mirrorHandlers negation side.orderMap
  l2SnapQueue := side.l2SnapQueue.map (List.map (L2PriceLevel.mirror negation))
  pendingLiqRemoveQty := mirrorRemovals negation side.pendingLiqRemoveQty
  pendingLiqAddQty := mirrorSorted negation id side.pendingLiqAddQty

/-! ### Maps -/

section Maps

variable {Value Image : Type} {image : Value → Image}

theorem find?_mirrorSorted (m : SortedMap P Value (PriceComparator isSell)) (key : P) :
    (mirrorSorted negation image m).find? (negation.neg key) = (m.find? key).map image :=
  SortedMap.renames_rekey m negation.comparator.mpr key

theorem begin?_mirrorSorted (m : SortedMap P Value (PriceComparator isSell)) :
    (mirrorSorted negation image m).begin? =
      m.begin?.map fun entry => (negation.neg entry.1, image entry.2) :=
  SortedMap.begin?_rekey m negation.rename image negation.comparator.mpr

theorem mirrorSorted_insert (m : SortedMap P Value (PriceComparator isSell)) (key : P)
    (value : Value) :
    mirrorSorted negation image (m.insert key value) =
      (mirrorSorted negation image m).insert (negation.neg key) (image value) :=
  (SortedMap.renames_rekey _ negation.comparator.mpr).unique
    ((SortedMap.renames_rekey m negation.comparator.mpr).insert key value)

theorem mirrorSorted_erase (m : SortedMap P Value (PriceComparator isSell)) (key : P) :
    mirrorSorted negation image (m.erase key) =
      (mirrorSorted negation image m).erase (negation.neg key) :=
  (SortedMap.renames_rekey _ negation.comparator.mpr).unique
    ((SortedMap.renames_rekey m negation.comparator.mpr).erase key)

theorem find?_mirrorRemovals (m : SortedMap P ℤ (· < ·)) (key : P) :
    (mirrorRemovals negation m).find? (negation.neg key) = m.find? key :=
  (SortedMap.renames_rekeyReversed m negation.lt_iff.mpr key).trans Option.map_id'

theorem mirrorRemovals_insert (m : SortedMap P ℤ (· < ·)) (key : P) (qty : ℤ) :
    mirrorRemovals negation (m.insert key qty) =
      (mirrorRemovals negation m).insert (negation.neg key) qty :=
  (SortedMap.renames_rekeyReversed _ negation.lt_iff.mpr).unique
    ((SortedMap.renames_rekeyReversed m negation.lt_iff.mpr).insert key qty)

theorem mirrorRemovals_erase (m : SortedMap P ℤ (· < ·)) (key : P) :
    mirrorRemovals negation (m.erase key) =
      (mirrorRemovals negation m).erase (negation.neg key) :=
  (SortedMap.renames_rekeyReversed _ negation.lt_iff.mpr).unique
    ((SortedMap.renames_rekeyReversed m negation.lt_iff.mpr).erase key)

theorem renames_mirrorHandlers (m : SortedMap ℤ (OrderHandler P) (· < ·)) :
    m.Renames (Equiv.refl ℤ) (OrderHandler.mirror negation) (mirrorHandlers negation m) :=
  SortedMap.renames_rekey m id

theorem find?_mirrorHandlers (m : SortedMap ℤ (OrderHandler P) (· < ·)) (odid : ℤ) :
    (mirrorHandlers negation m).find? odid =
      (m.find? odid).map (OrderHandler.mirror negation) :=
  renames_mirrorHandlers negation m odid

theorem mirrorHandlers_insert (m : SortedMap ℤ (OrderHandler P) (· < ·)) (odid : ℤ)
    (handler : OrderHandler P) :
    mirrorHandlers negation (m.insert odid handler) =
      (mirrorHandlers negation m).insert odid (handler.mirror negation) :=
  (renames_mirrorHandlers negation _).unique
    ((renames_mirrorHandlers negation m).insert odid handler)

theorem mirrorHandlers_erase (m : SortedMap ℤ (OrderHandler P) (· < ·)) (odid : ℤ) :
    mirrorHandlers negation (m.erase odid) = (mirrorHandlers negation m).erase odid :=
  (renames_mirrorHandlers negation _).unique ((renames_mirrorHandlers negation m).erase odid)

end Maps

/-! ### Levels -/

section Levels

theorem Order.mirror_odid (order : Order P) : (order.mirror negation).odid = order.odid := rfl

theorem Order.mirror_price (order : Order P) :
    (order.mirror negation).price = negation.neg order.price := rfl

theorem Order.mirror_remaining (order : Order P) :
    (order.mirror negation).getRemainingQuantity = order.getRemainingQuantity := rfl

theorem Order.mirror_atId (update : Order P → Order P)
    (stable : ∀ order, (update order).mirror negation = update (order.mirror negation))
    (odid : ℤ) (orders : List (Order P)) :
    ((orders.map (Order.mirror negation)).map fun other =>
        if other.odid = odid then update other else other) =
      (orders.map fun other => if other.odid = odid then update other else other).map
        (Order.mirror negation) := by
  rw [List.map_map, List.map_map]
  apply List.map_congr_left
  intro other _
  simp only [Function.comp_apply]
  by_cases same : other.odid = odid
  · rw [if_pos same, stable]
    exact if_pos same
  · rw [if_neg same]
    exact if_neg same

theorem L3PriceLevel.mirror_new :
    (L3PriceLevel.new : L3PriceLevel P).mirror negation = .new := by
  simp [L3PriceLevel.mirror, L3PriceLevel.new, negation.zero]

theorem L3PriceLevel.mirror_addOrder (level : L3PriceLevel P) (order : Order P) :
    (level.addOrder order).mirror negation =
      (level.mirror negation).addOrder (order.mirror negation) := by
  simp [L3PriceLevel.mirror, L3PriceLevel.addOrder, Order.mirror, Order.getRemainingQuantity]

theorem L3PriceLevel.mirror_order? (level : L3PriceLevel P) (handler : OrderHandler P) :
    (level.mirror negation).order? (handler.mirror negation) =
      (level.order? handler).map (Order.mirror negation) := by
  simp only [L3PriceLevel.order?, L3PriceLevel.mirror, List.find?_map]
  rfl

theorem L3PriceLevel.mirror_removeOrder (level : L3PriceLevel P) (handler : OrderHandler P) :
    (level.removeOrder handler).mirror negation =
      (level.mirror negation).removeOrder (handler.mirror negation) := by
  rw [L3PriceLevel.removeOrder, L3PriceLevel.removeOrder, L3PriceLevel.mirror_order?]
  cases level.order? handler with
  | none => rfl
  | some order =>
      simp only [Option.map_some, L3PriceLevel.mirror, List.eraseP_map]
      rfl

theorem L3PriceLevel.mirror_fillOrder (level : L3PriceLevel P) (order : Order P) (qty : ℤ) :
    (level.mirror negation).fillOrder (order.mirror negation) qty =
      (level.fillOrder order qty).map (L3PriceLevel.mirror negation) := by
  refine simulate_bind (simulate_assert Iff.rfl) fun _ => congrArg Except.ok ?_
  exact congrArg (L3PriceLevel.mk _ _ _) (Order.mirror_atId negation
    (fun other => other.fill qty) (fun _ => rfl) order.odid level.orders)

end Levels

namespace BookSide

variable (side : BookSide P isSell)

/-! ### Lookups -/

theorem mirror_existOrder (id : ℤ) :
    (side.mirror negation).existOrder id = side.existOrder id := by
  rw [existOrder, mirror, find?_mirrorHandlers, Option.isSome_map]
  rfl

theorem mirror_find? (key : P) :
    (side.mirror negation).levels.find? (negation.neg key) =
      (side.levels.find? key).map (L3PriceLevel.mirror negation) :=
  find?_mirrorSorted negation side.levels key

theorem mirror_begin? :
    (side.mirror negation).levels.begin? =
      side.levels.begin?.map fun entry =>
        (negation.neg entry.1, entry.2.mirror negation) :=
  begin?_mirrorSorted negation side.levels

theorem mirror_existLevel (key : P) :
    (side.mirror negation).existLevel (negation.neg key) = side.existLevel key := by
  rw [existLevel, mirror_find?, Option.isSome_map]
  rfl

theorem mirror_getL3Level (key : P) :
    (side.mirror negation).getL3Level (negation.neg key) =
      (side.getL3Level key).mirror negation := by
  rw [getL3Level, getL3Level, mirror_find?]
  cases side.levels.find? key with
  | none => exact (L3PriceLevel.mirror_new negation).symm
  | some level => rfl

theorem mirror_getOrder? (id : ℤ) :
    (side.mirror negation).getOrder? id = (side.getOrder? id).map (Order.mirror negation) := by
  have handlerEq : (side.mirror negation).orderMap.find? id =
      (side.orderMap.find? id).map (OrderHandler.mirror negation) :=
    find?_mirrorHandlers negation side.orderMap id
  rw [getOrder?, getOrder?, handlerEq]
  cases side.orderMap.find? id with
  | none => rfl
  | some handler =>
      have levelEq := mirror_find? negation side handler.price
      cases found : side.levels.find? handler.price with
      | none =>
          rw [found] at levelEq
          simp [OrderHandler.mirror, levelEq, found]
      | some level =>
          rw [found] at levelEq
          have orderEq := L3PriceLevel.mirror_order? negation level handler
          simp only [OrderHandler.mirror] at orderEq
          simp [OrderHandler.mirror, levelEq, found, orderEq]

theorem mirror_l2View :
    (side.mirror negation).l2View = side.l2View.map (L2PriceLevel.mirror negation) := by
  simp [l2View, mirror, mirrorSorted, SortedMap.rekey, L2PriceLevel.mirror, L3PriceLevel.mirror,
    PriceNegation.rename_apply, Function.comp_def]

theorem mirror_save :
    side.saveL2SnapshoSide.mirror negation = (side.mirror negation).saveL2SnapshoSide := by
  simp only [saveL2SnapshoSide, mirror_l2View]
  simp [mirror]

theorem mirror_bookCrossedWithPrice (price : P) :
    (side.mirror negation).bookCrossedWithPrice (negation.neg price) =
      side.bookCrossedWithPrice price := by
  rw [bookCrossedWithPrice, bookCrossedWithPrice, mirror_begin?]
  cases side.levels.begin? with
  | none => rfl
  | some entry =>
      cases isSell with
      | false => exact decide_eq_decide.mpr negation.le_iff
      | true => exact decide_eq_decide.mpr negation.le_iff

/-! ### Updates of orders -/

theorem mirror_addOrder (order : Order P) :
    (side.mirror negation).addOrder (order.mirror negation) =
      (side.addOrder order).map (mirror negation) := by
  apply simulate_bind (simulate_assert Bool.not_inj_iff)
  intro _
  have levelEq := L3PriceLevel.mirror_addOrder negation (side.getL3Level order.price) order
  rw [← mirror_getL3Level] at levelEq
  simp only [Order.mirror_odid, Order.mirror_price, mirror_existOrder]
  split
  · rfl
  · apply congrArg Except.ok
    rw [← levelEq]
    simp only [mirror, mirrorSorted_insert, mirrorHandlers_insert]
    rfl

theorem mirror_removeOrder (id : ℤ) :
    (side.removeOrder id).mirror negation = (side.mirror negation).removeOrder id := by
  have handlerEq : (side.mirror negation).orderMap.find? id =
      (side.orderMap.find? id).map (OrderHandler.mirror negation) :=
    find?_mirrorHandlers negation side.orderMap id
  rw [removeOrder, removeOrder, handlerEq]
  cases side.orderMap.find? id with
  | none => rfl
  | some handler =>
      have levelEq :=
        L3PriceLevel.mirror_removeOrder negation (side.getL3Level handler.price) handler
      rw [← mirror_getL3Level] at levelEq
      simp only [Option.map_some, OrderHandler.mirror] at levelEq ⊢
      rw [← levelEq]
      generalize (side.getL3Level handler.price).removeOrder handler = level
      by_cases none : level.numOrders = 0
      · have mirroredNone : (level.mirror negation).numOrders = 0 := none
        simp only [if_pos none, if_pos mirroredNone, mirror, mirrorSorted_erase,
          mirrorSorted_insert, mirrorHandlers_erase]
        rfl
      · have mirroredSome : (level.mirror negation).numOrders ≠ 0 := none
        simp only [if_neg none, if_neg mirroredSome, mirror, mirrorSorted_insert,
          mirrorHandlers_erase]

theorem mirror_fillLevelOrder (key : P) (order : Order P) (qty : ℤ) :
    (side.mirror negation).fillLevelOrder (negation.neg key) (order.mirror negation) qty =
      (side.fillLevelOrder key order qty).map (mirror negation) := by
  rw [fillLevelOrder, fillLevelOrder, mirror_getL3Level]
  refine simulate_bind (L3PriceLevel.mirror_fillOrder ..) fun level => congrArg Except.ok ?_
  simp only [mirror, mirrorSorted_insert]

theorem mirror_foldl_removeOrder (removed : List ℤ) :
    (removed.foldl removeOrder side).mirror negation =
      removed.foldl removeOrder (side.mirror negation) := by
  induction removed generalizing side with
  | nil => rfl
  | cons id removed ih =>
      rw [List.foldl_cons, List.foldl_cons, ih, mirror_removeOrder]

theorem mirror_foldl_removeAndSave (removed : List ℤ) :
    (removed.foldl removeAndSave side).mirror negation =
      removed.foldl removeAndSave (side.mirror negation) := by
  induction removed generalizing side with
  | nil => rfl
  | cons id removed ih =>
      rw [List.foldl_cons, List.foldl_cons, ih, removeAndSave, removeAndSave, mirror_save,
        mirror_removeOrder]

/-! ### Pending ledgers -/

theorem mirrorRemovals_credit (pending : SortedMap P ℤ (· < ·)) (price : P) (qty : ℤ) :
    mirrorRemovals negation (credit pending price qty) =
      credit (mirrorRemovals negation pending) (negation.neg price) qty := by
  rw [credit, credit, mirrorRemovals_insert, find?_mirrorRemovals]

theorem mirrorSorted_credit (pending : SortedMap P ℤ (PriceComparator isSell)) (price : P)
    (qty : ℤ) :
    mirrorSorted negation id (credit pending price qty) =
      credit (mirrorSorted negation id pending) (negation.neg price) qty := by
  rw [credit, credit, mirrorSorted_insert, find?_mirrorSorted, Option.map_id]
  rfl

theorem mirror_creditRemoval (price : P) (qty : ℤ) :
    ({ side with pendingLiqRemoveQty := credit side.pendingLiqRemoveQty price qty } :
        BookSide P isSell).mirror negation =
      { side.mirror negation with
        pendingLiqRemoveQty := credit (side.mirror negation).pendingLiqRemoveQty
          (negation.neg price) qty } := by
  simp only [mirror, mirrorRemovals_credit]

theorem mirror_creditAdd (price : P) (qty : ℤ) :
    ({ side with pendingLiqAddQty := credit side.pendingLiqAddQty price qty } :
        BookSide P isSell).mirror negation =
      { side.mirror negation with
        pendingLiqAddQty := credit (side.mirror negation).pendingLiqAddQty
          (negation.neg price) qty } := by
  simp only [mirror, mirrorSorted_credit]

theorem mirror_matchPendingLiqRemove (quantity : ℤ) (price : P) :
    (side.mirror negation).matchPendingLiqRemove quantity (negation.neg price) =
      ((side.matchPendingLiqRemove quantity price).1.mirror negation,
        (side.matchPendingLiqRemove quantity price).2) := by
  have ledgerEq : (side.mirror negation).pendingLiqRemoveQty.find? (negation.neg price) =
      side.pendingLiqRemoveQty.find? price :=
    find?_mirrorRemovals negation side.pendingLiqRemoveQty price
  rw [matchPendingLiqRemove, matchPendingLiqRemove, ledgerEq]
  cases side.pendingLiqRemoveQty.find? price with
  | none => rfl
  | some pending =>
      simp only
      split
      · simp only [mirror, mirrorRemovals_erase, mirrorRemovals_insert]
      · simp only [mirror, mirrorRemovals_insert]

theorem mirror_addPendingLiqRemoveQty (events : OrderInfoVec P) :
    (side.addPendingLiqRemoveQty events).mirror negation =
      (side.mirror negation).addPendingLiqRemoveQty (events.map (OrderInfo.mirror negation)) := by
  have ledgerEq : ∀ pending : SortedMap P ℤ (· < ·),
      mirrorRemovals negation (events.foldl (fun pending e =>
        if e.event = OrderEvent.exec then credit pending e.price e.quantity else pending)
          pending) =
      (events.map (OrderInfo.mirror negation)).foldl (fun pending e =>
        if e.event = OrderEvent.exec then credit pending e.price e.quantity else pending)
          (mirrorRemovals negation pending) := by
    induction events with
    | nil => exact fun _ => rfl
    | cons e events ih =>
        intro pending
        rw [List.foldl_cons, ih, List.map_cons, List.foldl_cons]
        by_cases executed : e.event = OrderEvent.exec
        · have mirroredExecuted : (e.mirror negation).event = OrderEvent.exec := executed
          rw [if_pos executed, if_pos mirroredExecuted, mirrorRemovals_credit]
          rfl
        · have mirroredOther : (e.mirror negation).event ≠ OrderEvent.exec := executed
          rw [if_neg executed, if_neg mirroredOther]
  simp only [addPendingLiqRemoveQty, mirror, ledgerEq]

theorem mirror_matchPendingLiqAddBody (quantity : ℤ) (price : P)
    (state : SortedMap P ℤ (PriceComparator isSell) × ℤ) :
    matchPendingLiqAddBody (!isSell) quantity (negation.neg price)
        (mirrorSorted negation id state.1, state.2) =
      (matchPendingLiqAddBody isSell quantity price state).map
        (Flow.map fun state => (mirrorSorted negation id state.1, state.2)) := by
  obtain ⟨pending, matched⟩ := state
  simp only [matchPendingLiqAddBody, begin?_mirrorSorted]
  cases pending.begin? with
  | none => rfl
  | some entry =>
      have reaches : (if (!isSell) = true then decide (negation.neg price ≤ negation.neg entry.1)
            else decide (negation.neg price ≥ negation.neg entry.1)) =
          if isSell = true then decide (price ≤ entry.1) else decide (price ≥ entry.1) := by
        cases isSell with
        | false => exact decide_eq_decide.mpr negation.le_iff
        | true => exact decide_eq_decide.mpr negation.le_iff
      have lowered : ∀ taken : ℤ,
          (if entry.2 - taken = 0 then
            ((mirrorSorted negation id pending).insert (negation.neg entry.1)
              (entry.2 - taken)).erase (negation.neg price)
          else (mirrorSorted negation id pending).insert (negation.neg entry.1)
            (entry.2 - taken)) =
          mirrorSorted negation id
            (if entry.2 - taken = 0 then (pending.insert entry.1 (entry.2 - taken)).erase price
            else pending.insert entry.1 (entry.2 - taken)) := by
        intro taken
        rw [apply_ite (mirrorSorted negation id), mirrorSorted_erase, mirrorSorted_insert]
        rfl
      simp only [Option.map_some, reaches, id_eq, lowered]
      exact simulate_ite Iff.rfl (simulate_ite Iff.rfl rfl rfl) rfl

theorem mirror_matchPendingLiqAdd (fuel : Nat) (quantity : ℤ) (price : P) :
    (side.mirror negation).matchPendingLiqAdd fuel quantity (negation.neg price) =
      (side.matchPendingLiqAdd fuel quantity price).map fun result =>
        (result.1.mirror negation, result.2) :=
  simulate_bind
    (simulate_loop (mirror_matchPendingLiqAddBody negation quantity price) fuel
      (side.pendingLiqAddQty, 0)) fun _ => rfl

/-! ### Crossing orders, cancels and trades -/

def CrossState.mirror (state : CrossState P isSell) : CrossState P (!isSell) where
  side := state.side.mirror negation
  order := state.order.mirror negation
  remainingQuantity := state.remainingQuantity
  orderEvents := state.orderEvents.map (OrderInfo.mirror negation)
  ordersToRemove := state.ordersToRemove

theorem mirror_crossFill (key : P) (state : CrossState P isSell) (curOrder : Order P) :
    crossFill (negation.neg key) (state.mirror negation) (curOrder.mirror negation) =
      (crossFill key state curOrder).map (CrossState.mirror negation) := by
  refine simulate_ite Iff.rfl rfl ?_
  apply simulate_bind (mirror_fillLevelOrder negation state.side key curOrder _)
  intro filled
  apply congrArg Except.ok
  simp only [CrossState.mirror, List.map_append, ← mirror_save]
  rw [mirror_creditRemoval]
  rfl

theorem mirror_processCrossedOrderBody (state : CrossState P isSell) :
    processCrossedOrderBody (state.mirror negation) =
      (processCrossedOrderBody state).map (Flow.map (CrossState.mirror negation)) := by
  have crosses : (state.mirror negation).side.bookCrossedWithPrice
      (state.mirror negation).order.price = state.side.bookCrossedWithPrice state.order.price :=
    mirror_bookCrossedWithPrice negation state.side state.order.price
  refine simulate_ite (by rw [crosses]; exact Iff.rfl) ?_ rfl
  have first := mirror_begin? negation state.side
  cases begins : state.side.levels.begin? with
  | none =>
      rw [begins] at first
      simp only [CrossState.mirror, first]
      rfl
  | some entry =>
      rw [begins] at first
      simp only [CrossState.mirror, first, Option.map_some]
      refine simulate_bind (simulate_foldlM (mirror_crossFill negation entry.1)
        entry.2.orders { state with ordersToRemove := [] }) fun filled => ?_
      apply congrArg (fun next => Except.ok (Flow.next next))
      simp only [CrossState.mirror, mirror_foldl_removeOrder]

theorem mirror_processCrossedOrder (fuel : Nat) (order : Order P) :
    (side.mirror negation).processCrossedOrder fuel (order.mirror negation) =
      (side.processCrossedOrder fuel order).map fun result =>
        (result.1.mirror negation, result.2.1.mirror negation,
          result.2.2.map (OrderInfo.mirror negation)) := by
  apply simulate_bind (simulate_assert (not_congr Bool.not_inj_iff))
  intro _
  exact simulate_bind (simulate_loop (mirror_processCrossedOrderBody negation) fuel
    ⟨side, order, order.getRemainingQuantity, [], []⟩) fun _ => rfl

theorem mirror_processOrderCancel (id quantity : ℤ) (price : P) :
    (side.mirror negation).processOrderCancel id quantity (negation.neg price) =
      ((side.processOrderCancel id quantity price).1.mirror negation,
        (side.processOrderCancel id quantity price).2.map (OrderInfo.mirror negation)) := by
  simp only [processOrderCancel, mirror_matchPendingLiqRemove, mirror_existOrder]
  split
  · rw [← mirror_removeOrder]
    rfl
  · rfl

theorem mirror_implicitCancelBody (price : P) (state : BookSide P isSell × OrderInfoVec P) :
    implicitCancelBody (negation.neg price)
        (state.1.mirror negation, state.2.map (OrderInfo.mirror negation)) =
      (implicitCancelBody price state).map (Flow.map fun state =>
        (state.1.mirror negation, state.2.map (OrderInfo.mirror negation))) := by
  obtain ⟨side, events⟩ := state
  simp only [implicitCancelBody, mirror_begin?]
  cases side.levels.begin? with
  | none => rfl
  | some entry =>
      have better : (if (!isSell) = true then decide (negation.neg entry.1 < negation.neg price)
            else decide (negation.neg entry.1 > negation.neg price)) =
          if isSell = true then decide (entry.1 < price) else decide (entry.1 > price) := by
        cases isSell with
        | false => exact decide_eq_decide.mpr negation.lt_iff
        | true => exact decide_eq_decide.mpr negation.lt_iff
      simp only [Option.map_some, better]
      refine simulate_ite Iff.rfl ?_ rfl
      apply congrArg (fun next => Except.ok (Flow.next next))
      simp only [mirror_foldl_removeAndSave, L3PriceLevel.mirror, List.map_map, List.map_append]
      rfl

def TradeState.mirror (state : TradeState P isSell) : TradeState P (!isSell) where
  side := state.side.mirror negation
  curTradeQty := state.curTradeQty
  orderEvents := state.orderEvents.map (OrderInfo.mirror negation)
  ordersToRemove := state.ordersToRemove

theorem mirror_tradeFill (key : P) (state : TradeState P isSell) (curOrder : Order P) :
    tradeFill (negation.neg key) (state.mirror negation) (curOrder.mirror negation) =
      (tradeFill key state curOrder).map (TradeState.mirror negation) := by
  refine simulate_ite Iff.rfl rfl ?_
  apply simulate_bind (mirror_fillLevelOrder negation state.side key curOrder _)
  intro filled
  apply congrArg Except.ok
  simp only [TradeState.mirror, List.map_append, ← mirror_save]
  rfl

theorem mirror_tradeLevel (price : P) (qty : ℤ) (events : OrderInfoVec P) :
    (side.mirror negation).tradeLevel (negation.neg price) qty
        (events.map (OrderInfo.mirror negation)) =
      (side.tradeLevel price qty events).map fun result =>
        (result.1.mirror negation, result.2.1, result.2.2.map (OrderInfo.mirror negation)) := by
  rw [tradeLevel, tradeLevel, mirror_find?]
  cases side.levels.find? price with
  | none => rfl
  | some level =>
      refine simulate_bind (simulate_foldlM (mirror_tradeFill negation price) level.orders
        ⟨side, qty, events, []⟩) fun filled => ?_
      apply congrArg Except.ok
      simp only [TradeState.mirror, mirror_foldl_removeAndSave]

theorem mirror_processTrade (fuel : Nat) (trade : Trade P) :
    (side.mirror negation).processTrade fuel (trade.mirror negation) =
      (side.processTrade fuel trade).map fun result =>
        (result.1.mirror negation, result.2.map (OrderInfo.mirror negation)) := by
  simp only [processTrade, Trade.mirror, mirror_matchPendingLiqRemove]
  refine simulate_bind (simulate_loop (mirror_implicitCancelBody negation trade.price) fuel
    ((side.matchPendingLiqRemove trade.quantity trade.price).1, [])) fun cancelled => ?_
  refine simulate_bind (mirror_tradeLevel negation cancelled.1 trade.price _ cancelled.2)
    fun matched => ?_
  refine simulate_ite Iff.rfl ?_ rfl
  apply congrArg Except.ok
  simp only [mirror_creditAdd, List.map_append]
  rfl

/-! ### Snapshots -/

/-- An order waiting for its removal, with the quantity to remove. -/
def mirrorPending (entry : Order P × ℤ) : Order P × ℤ :=
  Prod.map (Order.mirror negation) id entry

def ReconcileState.mirror (state : ReconcileState P isSell) : ReconcileState P (!isSell) where
  side := state.side.mirror negation
  orderEvents := state.orderEvents.map (OrderInfo.mirror negation)
  pendingOrders := state.pendingOrders.map (mirrorPending negation)
  fakeOrderId := state.fakeOrderId

def RemovalState.mirror (state : RemovalState P isSell) : RemovalState P (!isSell) where
  side := state.side.mirror negation
  orderEvents := state.orderEvents.map (OrderInfo.mirror negation)
  filled := state.filled

theorem mirror_addLiquidity (state : ReconcileState P isSell) (qty : ℤ) (price : P) :
    addLiquidity (state.mirror negation) qty (negation.neg price) =
      (addLiquidity state qty price).map (ReconcileState.mirror negation) := by
  have added := mirror_addOrder negation
    { state.side with pendingLiqAddQty := credit state.side.pendingLiqAddQty price qty }
    (Order.new state.fakeOrderId isSell qty price)
  rw [mirror_creditAdd] at added
  refine simulate_bind added fun side => congrArg Except.ok ?_
  simp only [ReconcileState.mirror, List.map_append]
  rfl

theorem mirror_frontOrders (qty : ℤ) (orders : List (Order P)) :
    frontOrders qty (orders.map (Order.mirror negation)) =
      (frontOrders qty orders).map (mirrorPending negation) :=
  QueueFill.pieces_map (Order.mirror_remaining negation) qty orders

theorem mirror_reconcileLevel (state : ReconcileState P isSell) (l2Level : L2PriceLevel P) :
    reconcileLevel (state.mirror negation) (l2Level.mirror negation) =
      (reconcileLevel state l2Level).map (ReconcileState.mirror negation) := by
  have levelEq : (state.mirror negation).side.levels.find? (l2Level.mirror negation).price =
      (state.side.levels.find? l2Level.price).map (L3PriceLevel.mirror negation) :=
    mirror_find? negation state.side l2Level.price
  rw [reconcileLevel, reconcileLevel, levelEq]
  cases state.side.levels.find? l2Level.price with
  | none => exact mirror_addLiquidity negation state l2Level.quantity l2Level.price
  | some level =>
      refine simulate_ite Iff.rfl ?_ (simulate_ite Iff.rfl ?_ rfl)
      · apply congrArg Except.ok
        simp only [ReconcileState.mirror, List.map_append]
        rw [← mirror_frontOrders]
        rfl
      · exact mirror_addLiquidity negation state _ l2Level.price

theorem mirror_missingOrders (snapshot : L2SnapshotSide P) :
    (side.mirror negation).missingOrders (snapshot.map (L2PriceLevel.mirror negation)) =
      (side.missingOrders snapshot).map (mirrorPending negation) := by
  have inSnapshot : ∀ key : P,
      negation.neg key ∈ (snapshot.map (L2PriceLevel.mirror negation)).map L2PriceLevel.price ↔
        key ∈ snapshot.map L2PriceLevel.price := by
    intro key
    rw [List.map_map,
      show L2PriceLevel.price ∘ L2PriceLevel.mirror negation =
        negation.neg ∘ L2PriceLevel.price from rfl,
      ← List.map_map, List.mem_map_of_injective negation.involutive.injective]
  have entriesEq : (side.mirror negation).levels.entries =
      side.levels.entries.map fun entry => (negation.neg entry.1, entry.2.mirror negation) := rfl
  rw [missingOrders, missingOrders, entriesEq, List.flatMap_map, List.map_flatMap]
  apply List.flatMap_congr
  intro entry _
  simp only [inSnapshot]
  split
  · rfl
  · simp only [L3PriceLevel.mirror, List.map_map]
    rfl

theorem mirror_removePending (executedNum : Nat) (state : RemovalState P isSell)
    (entry : (Order P × ℤ) × Nat) :
    removePending executedNum (state.mirror negation)
        (Prod.map (mirrorPending negation) id entry) =
      (removePending executedNum state entry).map (RemovalState.mirror negation) := by
  obtain ⟨⟨pending, qty⟩, index⟩ := entry
  let order := pending.fill (state.filled pending.odid)
  have levelEq := mirror_existLevel negation state.side order.price
  have filledEq := mirror_fillLevelOrder negation state.side order.price order qty
  refine simulate_ite Iff.rfl ?_ (simulate_ite (by rw [← levelEq]; exact Iff.rfl) ?_ ?_)
  · apply congrArg Except.ok
    simp only [RemovalState.mirror, mirror_removeOrder, List.map_append]
    rfl
  · apply simulate_bind filledEq
    intro filled
    apply congrArg Except.ok
    simp only [RemovalState.mirror, List.map_append]
    rfl
  · apply congrArg Except.ok
    simp only [RemovalState.mirror, List.map_append]
    rfl

theorem mirror_reconcile (snapshot : L2SnapshotSide P) :
    (side.mirror negation).reconcile (snapshot.map (L2PriceLevel.mirror negation)) =
      (side.reconcile snapshot).map fun result =>
        (result.1.mirror negation, result.2.map (OrderInfo.mirror negation)) := by
  refine simulate_bind (simulate_foldlM (mirror_reconcileLevel negation) snapshot
    ⟨side, [], [], 100⟩) fun compared => ?_
  have pendingEq : (compared.mirror negation).pendingOrders ++
        (compared.mirror negation).side.missingOrders
          (snapshot.map (L2PriceLevel.mirror negation)) =
      (compared.pendingOrders ++ compared.side.missingOrders snapshot).map
        (mirrorPending negation) := by
    rw [List.map_append, ← mirror_missingOrders]
    rfl
  simp only [pendingEq, List.length_map, List.zipIdx_map]
  exact simulate_bind (simulate_foldlM (mirror_removePending negation _) _
    ⟨compared.side, compared.orderEvents, fun _ => 0⟩) fun _ => rfl

theorem mirror_processL2Snapshot (snapshot : L2SnapshotSide P) :
    (side.mirror negation).processL2Snapshot (snapshot.map (L2PriceLevel.mirror negation)) =
      (side.processL2Snapshot snapshot).map fun result =>
        (result.1.mirror negation, result.2.map (OrderInfo.mirror negation)) := by
  have queueEq : (side.mirror negation).l2SnapQueue =
    side.l2SnapQueue.map (List.map (L2PriceLevel.mirror negation)) := rfl
  rw [processL2Snapshot, processL2Snapshot, queueEq]
  cases side.l2SnapQueue with
  | nil => exact mirror_reconcile negation side snapshot
  | cons expected later =>
      have same : expected.map (L2PriceLevel.mirror negation) =
          snapshot.map (L2PriceLevel.mirror negation) ↔ expected = snapshot :=
        (List.map_injective_iff.mpr (L2PriceLevel.mirror_injective negation)).eq_iff
      exact simulate_ite same rfl rfl

end BookSide

end OrderBook
