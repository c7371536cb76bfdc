import OrderBook.DistinctSnapshot
import OrderBook.StoredSide

/-!
# Bounded quantities

`Bounded` keeps every quantity of a side in a range from zero on and every level equal to
the sum of its orders.  It holds between any two updates, also in the middle of a loop when
an order is used up and not yet removed.  On a bounded side an operation that stores its
quantities does what the exact one does and leaves a bounded side.
-/

namespace OrderBook

open FueledLoop

/-- A store that keeps the quantities of `[0, bound]`. -/
def Stored.Keeps (store : ℤ → Except Halt ℤ) (bound : ℤ) : Prop :=
  ∀ qty, 0 ≤ qty → qty ≤ bound → store qty = .ok qty

theorem Stored.Keeps.mono {store : ℤ → Except Halt ℤ} {bound smaller : ℤ}
    (keeps : Stored.Keeps store bound) (le : smaller ≤ bound) : Stored.Keeps store smaller :=
  fun qty nonneg small => keeps qty nonneg (small.trans le)

/-- The quantities of an order are in `[0, bound]`, and it is not filled beyond its size. -/
structure Order.Fits {P : Type} (bound : ℤ) (order : Order P) : Prop where
  filled_nonneg : 0 ≤ order.filledQuantity
  filled_le : order.filledQuantity ≤ order.quantity
  quantity_le : order.quantity ≤ bound

namespace BookSide

variable {P : Type} [LinearOrder P] {isSell : Bool}

structure Bounded (bound : ℤ) (side : BookSide P isSell) : Prop where
  linked : side.Linked
  fits : ∀ {key : P} {order : Order P}, order ∈ side.ordersAt key → order.Fits bound
  counted : ∀ key, side.quantityAt key = totalRemaining (side.ordersAt key)
  level_le : ∀ key, side.quantityAt key ≤ bound
  add_nonneg : ∀ price, 0 ≤ qtyAt side.pendingLiqAddQty price
  add_le : ∀ price, qtyAt side.pendingLiqAddQty price ≤ bound
  remove_nonneg : ∀ price, 0 ≤ qtyAt side.pendingLiqRemoveQty price
  remove_le : ∀ price, qtyAt side.pendingLiqRemoveQty price ≤ bound

/-- What an update of one order leaves alone. -/
structure Touches (id : ℤ) (side next : BookSide P isSell) : Prop where
  others : ∀ {key : P} {order : Order P}, order ∈ side.ordersAt key → order.odid ≠ id →
    order ∈ next.ordersAt key
  add_eq : next.pendingLiqAddQty = side.pendingLiqAddQty
  remove_eq : next.pendingLiqRemoveQty = side.pendingLiqRemoveQty

end BookSide

section Orders

variable {P : Type} {store : ℤ → Except Halt ℤ} {bound : ℤ} {order : Order P}

theorem Order.Fits.remaining_nonneg (fits : order.Fits bound) : 0 ≤ order.getRemainingQuantity := by
  have filledLe := fits.filled_le
  unfold Order.getRemainingQuantity
  omega

theorem Order.Fits.remaining_le (fits : order.Fits bound) : order.getRemainingQuantity ≤ bound := by
  have nonneg := fits.filled_nonneg
  have small := fits.quantity_le
  unfold Order.getRemainingQuantity
  omega

theorem Order.Fits.fill (fits : order.Fits bound) {qty : ℤ} (nonneg : 0 ≤ qty)
    (covered : qty ≤ order.getRemainingQuantity) : (order.fill qty).Fits bound where
  filled_nonneg := add_nonneg fits.filled_nonneg nonneg
  filled_le := by
    unfold Order.getRemainingQuantity at covered
    rw [Order.fill_filledQuantity, Order.fill_quantity]
    omega
  quantity_le := fits.quantity_le

theorem Order.Fits.mono {larger : ℤ} (fits : order.Fits bound) (le : bound ≤ larger) :
    order.Fits larger :=
  ⟨fits.filled_nonneg, fits.filled_le, fits.quantity_le.trans le⟩

theorem totalRemaining_nonneg {orders : List (Order P)}
    (fits : ∀ order ∈ orders, order.Fits bound) : 0 ≤ totalRemaining orders :=
  QueueFill.sum_map_nonneg fun order mem => (fits order mem).remaining_nonneg

theorem Stored.Keeps.remaining (keeps : Stored.Keeps store bound) (fits : order.Fits bound) :
    Stored.getRemainingQuantity store order = .ok order.getRemainingQuantity :=
  keeps _ fits.remaining_nonneg fits.remaining_le

theorem Stored.Keeps.fill (keeps : Stored.Keeps store bound) (fits : order.Fits bound) {qty : ℤ}
    (nonneg : 0 ≤ qty) (covered : qty ≤ order.getRemainingQuantity) :
    Stored.fill store order qty = .ok (order.fill qty) := by
  have filled := fits.fill nonneg covered
  have stored : store (order.filledQuantity + qty) = .ok (order.filledQuantity + qty) :=
    keeps _ filled.filled_nonneg (filled.filled_le.trans filled.quantity_le)
  rw [Stored.fill, stored]
  rfl

end Orders

/-! ### Ledgers -/

section Ledgers

variable {P : Type} [LinearOrder P] {before : P → P → Prop} [DecidableRel before]
  [IsStrictTotalOrder P before] {store : ℤ → Except Halt ℤ} {bound : ℤ}

theorem Stored.Keeps.credit (keeps : Stored.Keeps store bound) {pending : SortedMap P ℤ before}
    {price : P} {qty : ℤ} (nonneg : 0 ≤ qtyAt pending price) (qtyNonneg : 0 ≤ qty)
    (small : qtyAt pending price + qty ≤ bound) :
    Stored.credit store pending price qty = .ok (OrderBook.credit pending price qty) := by
  have stored := keeps (qtyAt pending price + qty) (add_nonneg nonneg qtyNonneg) small
  unfold qtyAt at stored
  rw [Stored.credit, stored]
  rfl

end Ledgers

namespace BookSide

variable {P : Type} [LinearOrder P] {isSell : Bool} {bound : ℤ} {side : BookSide P isSell}

theorem bounded_empty (nonneg : 0 ≤ bound) : (empty : BookSide P isSell).Bounded bound where
  linked := linked_empty
  fits mem := by simp [empty, ordersAt] at mem
  counted key := by simp [empty, ordersAt, quantityAt]
  level_le key := by simpa [empty, quantityAt] using nonneg
  add_nonneg price := by simp [empty, qtyAt]
  add_le price := by simpa [empty, qtyAt] using nonneg
  remove_nonneg price := by simp [empty, qtyAt]
  remove_le price := by simpa [empty, qtyAt] using nonneg

/-- Filling an order leaves the other orders of its level where they are. -/
theorem touches_filled {key : P} {front back : List (Order P)} {order : Order P}
    (split : side.ordersAt key = front ++ order :: back) (quantity qty : ℤ) :
    Touches order.odid side { side with
      levels := putOrders side.levels key quantity (front ++ order.fill qty :: back) } := by
  refine ⟨?_, rfl, rfl⟩
  intro other resting restingMem different
  rw [ordersAt_putOrders rfl]
  by_cases same : other = key
  · rw [same, split] at restingMem
    rw [if_pos same]
    simp only [List.mem_append, List.mem_cons] at restingMem ⊢
    rcases restingMem with inFront | rfl | inBack
    · exact .inl inFront
    · exact (different rfl).elim
    · exact .inr (.inr inBack)
  · rwa [if_neg same]

theorem Linked.touches_removeOrder [Zero P] (linked : side.Linked) (id : ℤ) :
    Touches id side (side.removeOrder id) where
  others mem different := linked.mem_removeOrder.mpr ⟨mem, different⟩
  add_eq := removeOrder_addLedger side id
  remove_eq := removeOrder_frame side id

namespace Bounded

theorem mono (bounded : side.Bounded bound) {larger : ℤ} (le : bound ≤ larger) :
    side.Bounded larger where
  linked := bounded.linked
  fits mem := (bounded.fits mem).mono le
  counted := bounded.counted
  level_le key := (bounded.level_le key).trans le
  add_nonneg := bounded.add_nonneg
  add_le price := (bounded.add_le price).trans le
  remove_nonneg := bounded.remove_nonneg
  remove_le price := (bounded.remove_le price).trans le

theorem level_nonneg (bounded : side.Bounded bound) (key : P) : 0 ≤ side.quantityAt key := by
  rw [bounded.counted]
  exact totalRemaining_nonneg fun _ mem => bounded.fits mem

theorem bound_nonneg (bounded : side.Bounded bound) (key : P) : 0 ≤ bound :=
  (bounded.level_nonneg key).trans (bounded.level_le key)

/-- Other ledgers in the same range. -/
theorem withLedgers (bounded : side.Bounded bound) {next : BookSide P isSell}
    (levelsEq : next.levels = side.levels) (mapEq : next.orderMap = side.orderMap)
    (add : ∀ price, 0 ≤ qtyAt next.pendingLiqAddQty price ∧
      qtyAt next.pendingLiqAddQty price ≤ bound)
    (remove : ∀ price, 0 ≤ qtyAt next.pendingLiqRemoveQty price ∧
      qtyAt next.pendingLiqRemoveQty price ≤ bound) : next.Bounded bound where
  linked := bounded.linked.congr levelsEq mapEq
  fits mem := bounded.fits (by simpa [ordersAt, levelsEq] using mem)
  counted key := by simpa [ordersAt, quantityAt, levelsEq] using bounded.counted key
  level_le key := by simpa [quantityAt, levelsEq] using bounded.level_le key
  add_nonneg price := (add price).1
  add_le price := (add price).2
  remove_nonneg price := (remove price).1
  remove_le price := (remove price).2

theorem add (bounded : side.Bounded bound) (price : P) :
    0 ≤ qtyAt side.pendingLiqAddQty price ∧ qtyAt side.pendingLiqAddQty price ≤ bound :=
  ⟨bounded.add_nonneg price, bounded.add_le price⟩

theorem remove (bounded : side.Bounded bound) (price : P) :
    0 ≤ qtyAt side.pendingLiqRemoveQty price ∧ qtyAt side.pendingLiqRemoveQty price ≤ bound :=
  ⟨bounded.remove_nonneg price, bounded.remove_le price⟩

theorem save (bounded : side.Bounded bound) : side.saveL2SnapshoSide.Bounded bound :=
  bounded.withLedgers rfl rfl bounded.add bounded.remove

/-- Replacing the orders of one level. -/
theorem put (bounded : side.Bounded bound) {next : BookSide P isSell} (linked : next.Linked)
    {key : P} {quantity : ℤ} {orders : List (Order P)}
    (levelsEq : next.levels = putOrders side.levels key quantity orders)
    (fits : ∀ order ∈ orders, order.Fits bound) (counted : quantity = totalRemaining orders)
    (small : quantity ≤ bound) (addEq : next.pendingLiqAddQty = side.pendingLiqAddQty)
    (removeEq : next.pendingLiqRemoveQty = side.pendingLiqRemoveQty) : next.Bounded bound := by
  have quantityEq : ∀ other, next.quantityAt other =
      if other = key then quantity else side.quantityAt other := by
    intro other
    rw [quantityAt, levelsEq, find?_putOrders]
    by_cases same : other = key
    · rw [if_pos same, if_pos same]
      by_cases none : orders = []
      · rw [if_pos none, counted, none]
        rfl
      · rw [if_neg none]
        rfl
    · rw [if_neg same, if_neg same]
      rfl
  refine ⟨linked, ?_, ?_, ?_, ?_, ?_, ?_, ?_⟩
  · intro other order mem
    rw [ordersAt_putOrders levelsEq] at mem
    split at mem
    · exact fits order mem
    · exact bounded.fits mem
  · intro other
    rw [quantityEq, ordersAt_putOrders levelsEq]
    by_cases same : other = key
    · rw [if_pos same, if_pos same, counted]
    · rw [if_neg same, if_neg same]
      exact bounded.counted other
  · intro other
    rw [quantityEq]
    split
    · exact small
    · exact bounded.level_le other
  · exact fun price => addEq ▸ bounded.add_nonneg price
  · exact fun price => addEq ▸ bounded.add_le price
  · exact fun price => removeEq ▸ bounded.remove_nonneg price
  · exact fun price => removeEq ▸ bounded.remove_le price

/-! ### One order -/

variable [Zero P] {store : ℤ → Except Halt ℤ}

omit [Zero P] in
/-- The place of an order in its level. -/
theorem place (bounded : side.Bounded bound) {key : P} {order : Order P}
    (mem : order ∈ side.ordersAt key) :
    ∃ front back, side.ordersAt key = front ++ order :: back ∧
      (ids (front ++ order :: back)).Nodup ∧
      side.levels.find? key =
        some (.ofOrders key (side.quantityAt key) (front ++ order :: back)) ∧
      order.getRemainingQuantity ≤ side.quantityAt key := by
  obtain ⟨quantity, found⟩ := bounded.linked.exists_level mem
  obtain ⟨front, back, split⟩ := List.append_of_mem mem
  have nodup := bounded.linked.nodup key
  have quantityEq : side.quantityAt key = quantity := quantityAt_of_find? found
  have counted := bounded.counted key
  rw [split] at found nodup counted
  refine ⟨front, back, split, nodup, by rw [quantityEq, found], ?_⟩
  have frontNonneg : 0 ≤ totalRemaining front :=
    totalRemaining_nonneg fun other otherMem => bounded.fits (by
      rw [split]
      exact List.mem_append_left _ otherMem)
  have backNonneg : 0 ≤ totalRemaining back :=
    totalRemaining_nonneg fun other otherMem => bounded.fits (by
      rw [split]
      exact List.mem_append_right _ (List.mem_cons_of_mem _ otherMem))
  rw [counted, totalRemaining_append, totalRemaining_cons]
  omega

theorem fillLevelOrder (bounded : side.Bounded bound) (keeps : Stored.Keeps store bound)
    {key : P} {order : Order P} (mem : order ∈ side.ordersAt key) {qty : ℤ} (nonneg : 0 ≤ qty)
    (covered : qty ≤ order.getRemainingQuantity) :
    Agrees (Stored.Side.fillLevelOrder store side key order qty)
      (side.fillLevelOrder key order qty) fun next =>
        next.Bounded bound ∧ Touches order.odid side next := by
  obtain ⟨front, back, split, nodup, found, atMost⟩ := bounded.place mem
  have fits := bounded.fits mem
  have levelLe := bounded.level_le key
  have exactEq := fillLevelOrder_eq found nodup covered
  have levelEq : Stored.Level.fillOrder store (side.getL3Level key) order qty =
      .ok (.ofOrders key (side.quantityAt key - qty) (front ++ order.fill qty :: back)) := by
    rw [getL3Level_of_find? found, Stored.Level.fillOrder, keeps.remaining fits, ok_bind,
      assertThat_of covered, ok_bind, keeps.fill fits nonneg covered, ok_bind,
      L3PriceLevel.ofOrders_quantity, keeps _ (by omega) (by omega), ok_bind,
      L3PriceLevel.ofOrders_orders, L3PriceLevel.map_atId nodup fun _ => order.fill qty]
    simp [L3PriceLevel.ofOrders]
  constructor
  · rw [exactEq, Stored.Side.fillLevelOrder, levelEq, ok_bind, putOrders, if_neg (by simp)]
    rfl
  · intro next filled
    rw [exactEq, Except.ok.injEq] at filled
    subst filled
    refine ⟨bounded.put ?_ rfl ?_ ?_ (by omega) rfl rfl, touches_filled split _ _⟩
    · exact bounded.linked.put_replaced split rfl rfl (by simp) (by simp) (by simp)
    · intro other otherMem
      rcases mem_ordersAt_of_replaced split otherMem with rfl | resting
      · exact fits.fill nonneg covered
      · exact bounded.fits resting
    · have counted := bounded.counted key
      rw [split, totalRemaining_append, totalRemaining_cons] at counted
      rw [totalRemaining_append, totalRemaining_cons, Order.remaining_fill]
      omega

theorem removeOrder (bounded : side.Bounded bound) (keeps : Stored.Keeps store bound) (id : ℤ) :
    Agrees (Stored.Side.removeOrder store side id) (.ok (side.removeOrder id)) fun next =>
      next.Bounded bound ∧ Touches id side next := by
  cases exists_ : side.existOrder id with
  | false =>
      have absent : side.orderMap.find? id = none := by
        simpa [existOrder] using exists_
      rw [removeOrder_of_not_exist exists_, Stored.Side.removeOrder, absent]
      exact .ok ⟨bounded, fun mem _ => mem, rfl, rfl⟩
  | true =>
      obtain ⟨key, idMem⟩ := bounded.linked.existOrder_iff.mp exists_
      obtain ⟨order, mem, rfl⟩ := List.mem_map.mp idMem
      obtain ⟨front, back, split, nodup, found, atMost⟩ := bounded.place mem
      have fits := bounded.fits mem
      have levelLe := bounded.level_le key
      have exactEq := bounded.linked.removeOrder_eq found
      have remainingNonneg := fits.remaining_nonneg
      have linkedAfter := bounded.linked.removeOrder_linked order.odid
      have handlerEq := bounded.linked.orderMap_of_mem mem
      have levelEq : Stored.Level.removeOrder store (side.getL3Level key) ⟨key, order.odid⟩ =
          .ok ((side.getL3Level key).removeOrder ⟨key, order.odid⟩) := by
        rw [getL3Level_of_find? found, Stored.Level.removeOrder, L3PriceLevel.removeOrder,
          L3PriceLevel.order?_ofOrders nodup]
        simp only
        rw [keeps.remaining fits, ok_bind, L3PriceLevel.ofOrders_quantity,
          keeps _ (by omega) (by omega), ok_bind]
        rfl
      constructor
      · rw [Stored.Side.removeOrder, BookSide.removeOrder, handlerEq]
        simp only [levelEq, ok_bind]
        rfl
      · intro next removed
        rw [Except.ok.injEq] at removed
        subst removed
        refine ⟨?_, bounded.linked.touches_removeOrder order.odid⟩
        rw [exactEq] at linkedAfter ⊢
        have counted := bounded.counted key
        rw [split, totalRemaining_append, totalRemaining_cons] at counted
        refine bounded.put linkedAfter rfl ?_ ?_ (by omega) rfl rfl
        · intro other otherMem
          exact bounded.fits (mem_ordersAt_of_erased split otherMem)
        · rw [totalRemaining_append]
          omega

theorem addOrder (bounded : side.Bounded bound) (keeps : Stored.Keeps store bound)
    {order : Order P} (fits : order.Fits bound)
    (small : side.quantityAt order.price + order.getRemainingQuantity ≤ bound) :
    Agrees (Stored.Side.addOrder store side order) (side.addOrder order) fun next =>
      next.Bounded bound ∧ next.pendingLiqAddQty = side.pendingLiqAddQty ∧
        next.pendingLiqRemoveQty = side.pendingLiqRemoveQty := by
  have levelNonneg := bounded.level_nonneg order.price
  have remainingNonneg := fits.remaining_nonneg
  have quantityEq : (side.getL3Level order.price).quantity = side.quantityAt order.price := by
    unfold getL3Level quantityAt
    cases side.levels.find? order.price with
    | none => rfl
    | some level => rfl
  have levelEq : Stored.Level.addOrder store (side.getL3Level order.price) order =
      .ok ((side.getL3Level order.price).addOrder order) := by
    rw [Stored.Level.addOrder, keeps.remaining fits, ok_bind, quantityEq,
      keeps _ (by omega) small, ok_bind, ← quantityEq]
    rfl
  constructor
  · rw [Stored.Side.addOrder, BookSide.addOrder, levelEq]
    rfl
  · intro next added
    have linkedAfter := bounded.linked.addOrder_linked added
    have isSellEq := isSell_of_addOrder added
    cases exists_ : side.existOrder order.odid with
    | true =>
        rw [addOrder_of_exist isSellEq exists_, Except.ok.injEq] at added
        subst added
        exact ⟨bounded, rfl, rfl⟩
    | false =>
        rw [bounded.linked.addOrder_eq isSellEq exists_, Except.ok.injEq] at added
        subst added
        refine ⟨bounded.put linkedAfter rfl ?_ ?_ small rfl rfl, rfl, rfl⟩
        · intro other otherMem
          rcases List.mem_append.mp otherMem with old | new
          · exact bounded.fits old
          · rw [List.mem_singleton.mp new]
            exact fits
        · rw [totalRemaining_append, totalRemaining_cons, ← bounded.counted]
          simp [totalRemaining]

theorem removeAll (bounded : side.Bounded bound) (keeps : Stored.Keeps store bound)
    (removed : List ℤ) :
    Agrees (removed.foldlM (Stored.Side.removeOrder store) side)
      (.ok (removed.foldl BookSide.removeOrder side)) fun next =>
        next.Bounded bound ∧ next.pendingLiqAddQty = side.pendingLiqAddQty ∧
          next.pendingLiqRemoveQty = side.pendingLiqRemoveQty := by
  refine Agrees.foldl (fun _ (state : BookSide P isSell) => state.Bounded bound ∧
    state.pendingLiqAddQty = side.pendingLiqAddQty ∧
      state.pendingLiqRemoveQty = side.pendingLiqRemoveQty) ?_ ⟨bounded, rfl, rfl⟩
  rintro id later state ⟨stateBounded, addEq, removeEq⟩
  apply (stateBounded.removeOrder keeps id).mono
  rintro next ⟨nextBounded, touches⟩
  exact ⟨nextBounded, touches.add_eq.trans addEq, touches.remove_eq.trans removeEq⟩

theorem removeAndSaveAll (bounded : side.Bounded bound) (keeps : Stored.Keeps store bound)
    (removed : List ℤ) :
    Agrees (removed.foldlM (Stored.Side.removeAndSave store) side)
      (.ok (removed.foldl BookSide.removeAndSave side)) fun next => next.Bounded bound := by
  refine Agrees.foldl (fun _ (state : BookSide P isSell) => state.Bounded bound) ?_ bounded
  intro id later state stateBounded
  exact (stateBounded.removeOrder keeps id).bind_ok fun removedOk => .ok removedOk.1.save

end Bounded

end BookSide

end OrderBook
