import OrderBook.PendingAdd

/-!
# Modifications and cancels on one side

`modifyOrder` rewrites an order in place or moves it to another level, and
`processOrderCancel` lets expected removals absorb a cancel before it reaches
the book.
-/

namespace OrderBook.BookSide

open FueledLoop

variable {P : Type} [LinearOrder P] {isSell : Bool} {slack : Set ℤ}

theorem Linked.getOrder?_of_mem {side : BookSide P isSell} (linked : side.Linked) {key : P}
    {order : Order P} (mem : order ∈ side.ordersAt key) :
    side.getOrder? order.odid = some order := by
  obtain ⟨quantity, found⟩ := linked.exists_level mem
  obtain ⟨front, back, split⟩ := List.append_of_mem mem
  have nodup := linked.nodup key
  have notFront : ∀ other ∈ front, ¬ other.odid = order.odid := by
    intro other otherMem same
    rw [split] at nodup
    simp only [ids, List.map_append, List.map_cons] at nodup
    exact (List.disjoint_of_nodup_append nodup) (List.mem_map_of_mem otherMem) (by simp [same])
  simp only [getOrder?, linked.orderMap_of_mem mem, found, Option.bind_eq_bind,
    Option.bind_some, L3PriceLevel.order?, L3PriceLevel.ofOrders_orders, split,
    List.find?_append]
  rw [List.find?_eq_none.mpr (by simpa using notFront)]
  simp

theorem Linked.getOrder?_eq_some {side : BookSide P isSell} (linked : side.Linked) {id : ℤ}
    {order : Order P} (found : side.getOrder? id = some order) :
    order.odid = id ∧ order ∈ side.ordersAt order.price := by
  have present : side.existOrder id = true := by
    cases handler : side.orderMap.find? id with
    | none => simp [getOrder?, handler] at found
    | some _ => simp [existOrder, handler]
  obtain ⟨key, mem⟩ := linked.existOrder_iff.mp present
  obtain ⟨resting, restingMem, rfl⟩ := List.mem_map.mp mem
  rw [linked.getOrder?_of_mem restingMem] at found
  cases found
  rw [linked.order_price restingMem]
  exact ⟨rfl, restingMem⟩

theorem existOrder_of_getOrder? {side : BookSide P isSell} {id : ℤ} {order : Order P}
    (found : side.getOrder? id = some order) : side.existOrder id = true := by
  obtain ⟨handler, mapped, -⟩ := Option.bind_eq_some_iff.mp found
  rw [existOrder, mapped]
  rfl

/-- The side with the expected removals lowered by a cancel or a trade. -/
def matchedRemoval (side : BookSide P isSell) (quantity : ℤ) (price : P) : BookSide P isSell :=
  { side with
    pendingLiqRemoveQty := debit side.pendingLiqRemoveQty price
      (min (qtyAt side.pendingLiqRemoveQty price) quantity) }

theorem Valid.matchedRemoval {side : BookSide P isSell} (valid : side.Valid slack)
    (quantity : ℤ) (price : P) : (side.matchedRemoval quantity price).Valid slack :=
  valid.debited (min_le_left _ _)

variable [Zero P]

/-- A modification at the same price rewrites the order where it is. -/
theorem Linked.modifyOrder_samePrice {side : BookSide P isSell} (linked : side.Linked)
    {key : P} {quantity newQuantity : ℤ} {front back : List (Order P)} {order : Order P}
    (found : side.levels.find? key =
      some (.ofOrders key quantity (front ++ order :: back))) :
    side.modifyOrder order.odid newQuantity key = .ok { side with
      levels := putOrders side.levels key (quantity + (newQuantity - order.quantity))
        (front ++ { order with quantity := newQuantity } :: back) } := by
  have mem : order ∈ side.ordersAt key := by simp [ordersAt_of_find? found]
  have priceEq := linked.order_price mem
  simp only [modifyOrder, linked.getOrder?_of_mem mem, if_pos priceEq,
    getL3Level_of_find? found]
  rw [L3PriceLevel.modifyOrder_ofOrders (linked.level found).nodup priceEq.symm, ok_bind]
  simp [putOrders]

namespace Valid

variable {side : BookSide P isSell}

omit [Zero P] in
/-- Replacing one order by another state of the same order. -/
theorem replaceOrder (valid : side.Valid slack) {next : BookSide P isSell} {key : P}
    {quantity newQuantity : ℤ} {front back : List (Order P)} {order new : Order P}
    (found : side.levels.find? key = some (.ofOrders key quantity (front ++ order :: back)))
    (levelsEq : next.levels = putOrders side.levels key newQuantity (front ++ new :: back))
    (mapEq : next.orderMap = side.orderMap) (sameId : new.odid = order.odid)
    (samePrice : new.price = order.price) (sameSide : new.isSell = order.isSell)
    (isOpen : new.IsOpen)
    (sameGap : new.getRemainingQuantity - newQuantity = order.getRemainingQuantity - quantity)
    (ledgers : next.Ledgers) : next.Valid slack := by
  have split : side.ordersAt key = front ++ order :: back := ordersAt_of_find? found
  have linked := valid.linked.put_replaced split levelsEq mapEq sameId samePrice sameSide
  refine valid.put linked levelsEq ?_ ?_ ledgers
  · intro other otherMem
    rcases mem_ordersAt_of_replaced split otherMem with rfl | resting
    · exact isOpen
    · exact valid.isOpen resting
  · intro _
    have counted := valid.counted_ofOrders found
    have gapEq : totalRemaining (front ++ new :: back) - newQuantity =
        totalRemaining (front ++ order :: back) - quantity := by
      simp only [totalRemaining_append, totalRemaining_cons]
      omega
    rwa [gapEq]

theorem modifyOrder (valid : side.Valid slack) (zeroMem : 0 ∈ slack) {id newQuantity : ℤ}
    {price : P} (larger : ∀ {order : Order P}, side.getOrder? id = some order →
      order.filledQuantity < newQuantity) {next : BookSide P isSell}
    (modified : side.modifyOrder id newQuantity price = .ok next) : next.Valid slack := by
  cases found : side.getOrder? id with
  | none =>
      simp only [BookSide.modifyOrder, found, pure_eq_ok, Except.ok.injEq] at modified
      rwa [← modified]
  | some order =>
      obtain ⟨rfl, mem⟩ := valid.linked.getOrder?_eq_some found
      have isOpen := valid.isOpen mem
      have enough := larger found
      by_cases same : order.price = price
      · subst same
        obtain ⟨quantity, level⟩ := valid.linked.exists_level mem
        obtain ⟨front, back, split⟩ := List.append_of_mem mem
        rw [split] at level
        rw [valid.linked.modifyOrder_samePrice level, Except.ok.injEq] at modified
        subst modified
        refine valid.replaceOrder level rfl rfl rfl rfl rfl ⟨isOpen.1, enough⟩ ?_
          (valid.ledgers.congr rfl rfl)
        simp only [Order.getRemainingQuantity]
        omega
      · simp only [BookSide.modifyOrder, found, if_neg same] at modified
        refine (valid.removeOrder order.odid).addOrder zeroMem ?_ modified
        have := isOpen.1
        simp only [Order.IsOpen, Order.new, Order.fill]
        omega

end Valid

/-! ### Cancels -/

theorem processOrderCancel_eq {side : BookSide P isSell}
    (positive : PositiveLedger side.pendingLiqRemoveQty) (id : ℤ) {quantity : ℤ}
    (nonneg : 0 ≤ quantity) (price : P) :
    side.processOrderCancel id quantity price =
      if 0 < side.restQty ⟨quantity, price⟩ ∧ side.existOrder id then
        ((side.matchedRemoval quantity price).removeOrder id,
          [⟨.cancel, id, isSell, side.restQty ⟨quantity, price⟩, price⟩])
      else (side.matchedRemoval quantity price, []) := by
  simp only [processOrderCancel, matchPendingLiqRemove_eq positive nonneg price]
  rfl

theorem Valid.processOrderCancel {side : BookSide P isSell} (valid : side.Valid slack)
    (id : ℤ) {quantity : ℤ} (nonneg : 0 ≤ quantity) (price : P) :
    (side.processOrderCancel id quantity price).1.Valid slack := by
  rw [processOrderCancel_eq valid.ledgers.remove_pos id nonneg price]
  split
  · exact (valid.matchedRemoval quantity price).removeOrder id
  · exact valid.matchedRemoval quantity price

/-! ### What removing orders leaves -/

theorem Linked.mem_removeOrder {side : BookSide P isSell} (linked : side.Linked) {id : ℤ}
    {key : P} {order : Order P} :
    order ∈ (side.removeOrder id).ordersAt key ↔
      order ∈ side.ordersAt key ∧ order.odid ≠ id := by
  cases exists_ : side.existOrder id with
  | false =>
      rw [removeOrder_of_not_exist exists_]
      constructor
      · intro mem
        refine ⟨mem, ?_⟩
        rintro rfl
        rw [linked.existOrder_iff.mpr ⟨key, List.mem_map_of_mem mem⟩] at exists_
        cases exists_
      · exact fun both => both.1
  | true =>
      obtain ⟨home, mem⟩ := linked.existOrder_iff.mp exists_
      obtain ⟨gone, goneMem, rfl⟩ := List.mem_map.mp mem
      obtain ⟨quantity, found⟩ := linked.exists_level goneMem
      obtain ⟨front, back, split⟩ := List.append_of_mem goneMem
      have nodup := linked.nodup home
      rw [split] at found nodup
      rw [linked.removeOrder_eq found]
      rw [ordersAt_putOrders rfl]
      by_cases same : key = home
      · subst same
        rw [if_pos rfl, split]
        simp only [ids, List.map_append, List.map_cons] at nodup
        have distinct := List.nodup_middle.mp nodup
        rw [List.nodup_cons, ← List.map_append] at distinct
        constructor
        · intro stays
          refine ⟨by simp only [List.mem_append, List.mem_cons] at stays ⊢; tauto, ?_⟩
          intro sameId
          exact distinct.1 (sameId ▸ List.mem_map_of_mem stays)
        · rintro ⟨resting, different⟩
          simp only [List.mem_append, List.mem_cons] at resting ⊢
          rcases resting with front | rfl | back
          · exact Or.inl front
          · exact (different rfl).elim
          · exact Or.inr back
      · rw [if_neg same]
        constructor
        · intro resting
          refine ⟨resting, ?_⟩
          intro sameId
          exact same (linked.price_unique (sameId ▸ List.mem_map_of_mem resting) mem)
        · exact fun both => both.1

/-- The level of a removed order loses its quantity, and the last order takes the level
with it. -/
theorem Linked.quantityAt_removeOrder {side : BookSide P isSell} (linked : side.Linked) {key : P}
    {order : Order P} (mem : order ∈ side.ordersAt key) (other : P) :
    (side.removeOrder order.odid).quantityAt other =
      if other = key then
        if side.ordersAt key = [order] then 0
        else side.quantityAt key - order.getRemainingQuantity
      else side.quantityAt other := by
  obtain ⟨front, back, split⟩ := List.append_of_mem mem
  obtain ⟨quantity, found⟩ := linked.exists_level mem
  have alone : side.ordersAt key = [order] ↔ front ++ back = [] := by
    rw [split, List.append_eq_nil_iff, List.append_eq_cons_iff]
    simp
  have quantityEq : side.quantityAt key = quantity := quantityAt_of_find? found
  rw [split] at found
  rw [linked.removeOrder_eq found, quantityAt, find?_putOrders, quantityEq]
  by_cases same : other = key
  · rw [if_pos same, if_pos same]
    by_cases last : front ++ back = []
    · rw [if_pos last, if_pos (alone.mpr last)]
      rfl
    · rw [if_neg last, if_neg (mt alone.mp last)]
      rfl
  · rw [if_neg same, if_neg same]
    rfl

end OrderBook.BookSide
