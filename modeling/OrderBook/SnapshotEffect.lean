import OrderBook.DistinctSnapshot
import OrderBook.PriceTimePriority

/-!
# The effect of a snapshot on one side

Reconciliation turns the levels of a side into those of the snapshot.  Where the
snapshot shows more it appends one invented order, where it shows less it takes the
difference from the front of the queue, and each change is accounted for by events.
-/

namespace OrderBook

open FueledLoop

variable {P : Type} [LinearOrder P] {isSell : Bool} {slack : Set ℤ}

/-- The quantity that the `ADD` events of a list bring to a price. -/
def addQtyAt (events : OrderInfoVec P) (price : P) : ℤ :=
  (events.map fun e =>
    if e.event = OrderEvent.add ∧ e.price = price then e.quantity else 0).sum

/-- The quantity that the `EXEC` and `CANCEL` events of a list take from a price. -/
def removedQtyAt (events : OrderInfoVec P) (price : P) : ℤ :=
  (events.map fun e =>
    if (e.event = OrderEvent.exec ∨ e.event = OrderEvent.cancel) ∧ e.price = price
      then e.quantity else 0).sum

/-- What a list of amounts per price holds at a price. -/
abbrev amountAt (amounts : List (P × ℤ)) (price : P) : ℤ :=
  QueueFill.takenFrom id amounts price

omit [LinearOrder P] in
theorem exists_amount {amounts : List (P × ℤ)} {price : P}
    (mem : price ∈ amounts.map Prod.fst) : ∃ qty, (price, qty) ∈ amounts := by
  simpa using mem

theorem amountAt_of_mem {amounts : List (P × ℤ)} {price : P} {qty : ℤ}
    (distinct : (amounts.map Prod.fst).Nodup) (mem : (price, qty) ∈ amounts) :
    amountAt amounts price = qty :=
  QueueFill.takenFrom_of_mem distinct mem

theorem amountAt_of_not_mem {amounts : List (P × ℤ)} {price : P}
    (elsewhere : price ∉ amounts.map Prod.fst) : amountAt amounts price = 0 :=
  QueueFill.takenFrom_eq_zero fun piece mem same =>
    elsewhere (List.mem_map.mpr ⟨piece, mem, same⟩)

namespace BookSide

variable {side : BookSide P isSell} {snapshot : L2SnapshotSide P} {key price : P} {qty : ℤ}

/-! ### Invented orders -/

/-- With free ids and distinct prices, each amount becomes one order at the end of
its level. -/
theorem find?_inventAll_of_mem {added : List (P × ℤ)} (distinct : (added.map Prod.fst).Nodup)
    {id : ℤ} (free : ∀ other, id ≤ other → other < id + added.length →
      side.existOrder other = false) (mem : (key, qty) ∈ added) :
    ∃ inventedId, id ≤ inventedId ∧ inventedId < id + added.length ∧
      (side.inventAll id added).levels.find? key =
        some (.ofOrders key (side.quantityAt key + qty)
          (side.ordersAt key ++ [Order.new inventedId isSell qty key])) := by
  induction added generalizing side id with
  | nil => cases mem
  | cons piece added ih =>
      rw [List.map_cons, List.nodup_cons] at distinct
      rw [List.length_cons, Nat.cast_succ] at free ⊢
      rcases List.mem_cons.mp mem with rfl | later
      · have elsewhere : ∀ other ∈ added, key ≠ other.1 := fun other otherMem same =>
          distinct.1 (List.mem_map.mpr ⟨other, otherMem, same.symm⟩)
        refine ⟨id, le_rfl, by omega, ?_⟩
        rw [inventAll, find?_inventAll_of_ne elsewhere, invent_of_free (free id le_rfl (by omega)),
          find?_putOrders, if_pos rfl, if_neg (by simp)]
      · have different : key ≠ piece.1 := by
          rintro rfl
          exact distinct.1 (List.mem_map.mpr ⟨_, later, rfl⟩)
        have same := find?_invent_of_ne side id piece.2 different
        have laterFree : ∀ other, id + 1 ≤ other → other < id + 1 + added.length →
            (side.invent id piece.1 piece.2).existOrder other = false := by
          intro other above below
          rw [← Bool.not_eq_true, existOrder_invent, not_or, Bool.not_eq_true]
          exact ⟨free other (by omega) (by omega), by omega⟩
        obtain ⟨inventedId, above, below, found⟩ := ih distinct.2 laterFree later
        refine ⟨inventedId, by omega, by omega, ?_⟩
        rw [inventAll, found, quantityAt_congr same, ordersAt_congr same]

theorem addQtyAt_addEvents (added : List (P × ℤ)) (price : P) :
    addQtyAt (addEvents isSell added) price = amountAt added price := by
  simp [addQtyAt, addEvents, amountAt, QueueFill.takenFrom, Function.comp_def]

theorem qtyAt_inventAll (side : BookSide P isSell) (id : ℤ) (added : List (P × ℤ)) (price : P) :
    qtyAt (side.inventAll id added).pendingLiqAddQty price =
      qtyAt side.pendingLiqAddQty price + amountAt added price := by
  induction added generalizing side id with
  | nil => simp [inventAll]
  | cons piece added ih =>
      rw [inventAll, ih, pendingLiqAddQty_invent, qtyAt_credit, add_assoc]
      simp only [amountAt, QueueFill.takenFrom_cons, id_eq, eq_comm]

/-! ### Amounts per price -/

theorem inventions_nodup (distinct : (snapshot.map L2PriceLevel.price).Nodup) :
    ((side.inventions snapshot).map Prod.fst).Nodup :=
  distinct.sublist (keys_filterMap_ite (fun _ => rfl) snapshot)

theorem find?_comparedSide_of_not_mem
    (elsewhere : key ∉ (side.inventions snapshot).map Prod.fst) :
    (side.comparedSide snapshot).levels.find? key = side.levels.find? key :=
  find?_inventAll_of_ne (fun piece mem same =>
    elsewhere (List.mem_map.mpr ⟨piece, mem, same.symm⟩)) 100

theorem shown_of_mem_inventions (mem : key ∈ (side.inventions snapshot).map Prod.fst) :
    key ∈ snapshot.map L2PriceLevel.price := by
  obtain ⟨piece, pieceMem, rfl⟩ := List.mem_map.mp mem
  obtain ⟨l2Level, shown, -, rfl⟩ := mem_inventions.mp pieceMem
  exact List.mem_map_of_mem shown

theorem not_mem_inventions {l2Level : L2PriceLevel P}
    (distinct : (snapshot.map L2PriceLevel.price).Nodup) (mem : l2Level ∈ snapshot)
    (enough : l2Level.quantity ≤ side.quantityAt l2Level.price) :
    l2Level.price ∉ (side.inventions snapshot).map Prod.fst := by
  intro keyMem
  obtain ⟨piece, pieceMem, keyEq⟩ := List.mem_map.mp keyMem
  obtain ⟨other, otherMem, more, rfl⟩ := mem_inventions.mp pieceMem
  obtain rfl := List.inj_on_of_nodup_map distinct otherMem mem keyEq
  omega

/-- What is removed at a price comes from the old level of that price. -/
theorem Valid.removal_fits (valid : side.Valid {0})
    (positive : ∀ l2Level ∈ snapshot, 0 < l2Level.quantity)
    (distinct : (snapshot.map L2PriceLevel.price).Nodup)
    (mem : (key, qty) ∈ side.removals snapshot) :
    key ∉ (side.inventions snapshot).map Prod.fst ∧
      0 ≤ qty ∧ qty ≤ totalRemaining (side.ordersAt key) := by
  rcases List.mem_append.mp mem with lowered | missing
  · obtain ⟨l2Level, shown, less, pairEq⟩ := mem_lowerings.mp lowered
    obtain ⟨rfl, rfl⟩ := Prod.mk.inj pairEq
    refine ⟨not_mem_inventions distinct shown less.le, (sub_pos.mpr less).le, ?_⟩
    rw [← valid.quantityAt_eq]
    exact sub_le_self _ (positive l2Level shown).le
  · obtain ⟨entry, entryMem, absent, pairEq⟩ := mem_dropped.mp missing
    obtain ⟨rfl, rfl⟩ := Prod.mk.inj pairEq
    have elsewhere : entry.1 ∉ (side.inventions snapshot).map Prod.fst :=
      fun invented => absent (shown_of_mem_inventions invented)
    have found := SortedMap.find?_eq_some_iff.mpr entryMem
    rw [find?_comparedSide_of_not_mem elsewhere] at found
    rw [ordersAt_of_find? found]
    have remain := valid.allRemain entry.1
    rw [ordersAt_of_find? found] at remain
    exact ⟨elsewhere, remain.total_nonneg, le_rfl⟩

/-! ### The reconciled side -/

theorem find?_reconciled_untouched
    (notInvented : key ∉ (side.inventions snapshot).map Prod.fst)
    (notRemoved : key ∉ (side.removals snapshot).map Prod.fst) :
    (side.reconciled snapshot).levels.find? key = side.levels.find? key := by
  rw [reconciled, find?_fillGroups_of_not_mem _ notRemoved,
    find?_comparedSide_of_not_mem notInvented]

theorem find?_reconciled_removed (distinct : (snapshot.map L2PriceLevel.price).Nodup)
    (notInvented : key ∉ (side.inventions snapshot).map Prod.fst)
    (mem : (key, qty) ∈ side.removals snapshot) :
    (side.reconciled snapshot).levels.find? key =
      if fillFront qty (side.ordersAt key) = [] then none
      else some (.ofOrders key
        (side.quantityAt key - min qty (totalRemaining (side.ordersAt key)))
        (fillFront qty (side.ordersAt key))) := by
  have same := find?_comparedSide_of_not_mem notInvented
  rw [reconciled, find?_fillGroups_of_mem _ (removals_nodup distinct) mem, find?_fillLevel_self,
    ordersAt_congr same, quantityAt_congr same]

/-- The ids that a reconciliation may invent. -/
def InventedId (snapshot : L2SnapshotSide P) (id : ℤ) : Prop :=
  100 ≤ id ∧ id < 100 + snapshot.length

theorem find?_reconciled_invented (distinct : (snapshot.map L2PriceLevel.price).Nodup)
    (free : ∀ id, InventedId snapshot id → side.existOrder id = false)
    (mem : (key, qty) ∈ side.inventions snapshot) :
    ∃ id, InventedId snapshot id ∧
      (side.reconciled snapshot).levels.find? key =
        some (.ofOrders key (side.quantityAt key + qty)
          (side.ordersAt key ++ [Order.new id isSell qty key])) := by
  have fewer : (side.inventions snapshot).length ≤ snapshot.length := List.length_filterMap_le ..
  obtain ⟨l2Level, shown, more, pairEq⟩ := mem_inventions.mp mem
  obtain ⟨rfl, rfl⟩ := Prod.mk.inj pairEq
  obtain ⟨id, above, below, found⟩ := find?_inventAll_of_mem (inventions_nodup distinct)
    (fun other above below => free other ⟨above, by omega⟩) mem
  refine ⟨id, ⟨above, by omega⟩, ?_⟩
  rw [reconciled, find?_fillGroups_of_not_mem _ (not_mem_removals distinct shown more.le)]
  exact found

/-- What reconciliation leaves at a price: the old queue without what is removed from its
front, and at most one invented order behind it. -/
theorem Valid.reconciled_at (valid : side.Valid {0})
    (positive : ∀ l2Level ∈ snapshot, 0 < l2Level.quantity)
    (distinct : (snapshot.map L2PriceLevel.price).Nodup)
    (free : ∀ id, InventedId snapshot id → side.existOrder id = false) (key : P) :
    ∃ invented, (∀ order ∈ invented, InventedId snapshot order.odid) ∧
      0 ≤ amountAt (side.removals snapshot) key ∧
      (side.reconciled snapshot).ordersAt key =
        fillFront (amountAt (side.removals snapshot) key) (side.ordersAt key) ++ invented ∧
      (side.reconciled snapshot).quantityAt key = side.quantityAt key +
        amountAt (side.inventions snapshot) key - amountAt (side.removals snapshot) key := by
  have whole := fillFront_zero (valid.allRemain key)
  by_cases invents : key ∈ (side.inventions snapshot).map Prod.fst
  · have notRemoved : key ∉ (side.removals snapshot).map Prod.fst := by
      intro removed
      obtain ⟨taken, takenMem⟩ := exists_amount removed
      exact (valid.removal_fits positive distinct takenMem).1 invents
    obtain ⟨qty, mem⟩ := exists_amount invents
    obtain ⟨id, idInvented, found⟩ := find?_reconciled_invented distinct free mem
    rw [amountAt_of_mem (inventions_nodup distinct) mem, amountAt_of_not_mem notRemoved, whole]
    refine ⟨[_], ?_, le_rfl, ordersAt_of_find? found, ?_⟩
    · simpa [Order.new] using idInvented
    · rw [quantityAt_of_find? found, sub_zero]
      rfl
  · rw [amountAt_of_not_mem invents]
    by_cases removes : key ∈ (side.removals snapshot).map Prod.fst
    · obtain ⟨qty, mem⟩ := exists_amount removes
      obtain ⟨-, nonneg, fits⟩ := valid.removal_fits positive distinct mem
      have found := find?_reconciled_removed distinct invents mem
      rw [amountAt_of_mem (removals_nodup distinct) mem]
      refine ⟨[], by simp, nonneg, ?_, ?_⟩
      · rw [ordersAt, found, List.append_nil]
        split
        · next nothing => exact nothing.symm
        · rfl
      · rw [quantityAt, found, min_eq_left fits]
        split
        · next nothing =>
            have left := totalRemaining_fillFront (valid.allRemain key) nonneg
            rw [nothing, min_eq_left fits] at left
            rw [valid.quantityAt_eq, add_zero]
            exact left
        · rw [add_zero]
          rfl
    · have same := find?_reconciled_untouched invents removes
      rw [amountAt_of_not_mem removes, whole]
      exact ⟨[], by simp, le_rfl, by rw [ordersAt_congr same, List.append_nil],
        by rw [quantityAt_congr same, add_zero, sub_zero]⟩

/-- A level of the snapshot is a level of the reconciled side, with its quantity. -/
theorem Valid.reconciled_shown (valid : side.Valid {0})
    (positive : ∀ l2Level ∈ snapshot, 0 < l2Level.quantity)
    (distinct : (snapshot.map L2PriceLevel.price).Nodup)
    (free : ∀ id, InventedId snapshot id → side.existOrder id = false)
    {l2Level : L2PriceLevel P} (shown : l2Level ∈ snapshot) :
    ∃ level, (side.reconciled snapshot).levels.find? l2Level.price = some level ∧
      level.quantity = l2Level.quantity := by
  have pos := positive l2Level shown
  have held := valid.quantityAt_eq l2Level.price
  rcases lt_trichotomy l2Level.quantity (side.quantityAt l2Level.price) with less | same | more
  · have mem : (l2Level.price, side.quantityAt l2Level.price - l2Level.quantity) ∈
        side.removals snapshot :=
      List.mem_append_left _ (mem_lowerings.mpr ⟨l2Level, shown, less, rfl⟩)
    have found := find?_reconciled_removed distinct (not_mem_inventions distinct shown less.le) mem
    have left : fillFront (side.quantityAt l2Level.price - l2Level.quantity)
        (side.ordersAt l2Level.price) ≠ [] :=
      fillFront_ne_nil (sub_pos.mpr less).le (held ▸ sub_lt_self _ pos)
    rw [if_neg left] at found
    refine ⟨_, found, ?_⟩
    rw [L3PriceLevel.ofOrders_quantity, ← held, min_eq_left (sub_le_self _ pos.le), sub_sub_cancel]
  · have untouched := find?_reconciled_untouched (not_mem_inventions distinct shown same.le)
      (not_mem_removals distinct shown same.ge)
    cases found : side.levels.find? l2Level.price with
    | none =>
        rw [quantityAt_of_none found] at same
        omega
    | some level =>
        refine ⟨level, untouched.trans found, ?_⟩
        rw [same, quantityAt_of_find? found]
  · obtain ⟨id, -, found⟩ := find?_reconciled_invented distinct free
      (mem_inventions.mpr ⟨l2Level, shown, more, rfl⟩)
    refine ⟨_, found, ?_⟩
    rw [L3PriceLevel.ofOrders_quantity, add_sub_cancel]

/-- The reconciled side shows the snapshot. -/
theorem Valid.reconciled_view [Zero P] (valid : side.Valid {0})
    (positive : ∀ l2Level ∈ snapshot, 0 < l2Level.quantity)
    (distinct : (snapshot.map L2PriceLevel.price).Nodup)
    (free : ∀ id, InventedId snapshot id → side.existOrder id = false) :
    (∃ level, (side.reconciled snapshot).levels.find? key = some level ∧ level.quantity = qty) ↔
      ⟨key, qty⟩ ∈ snapshot := by
  constructor
  · rintro ⟨level, found, rfl⟩
    have wider : side.Valid {gap | 0 ≤ gap} :=
      { valid with counted := fun at_ => (valid.counted at_).symm ▸ zero_mem_nonneg }
    have present : (side.reconciled snapshot).existLevel key = true := by
      rw [existLevel, found, Option.isSome_some]
    obtain ⟨l2Level, shown, rfl⟩ :=
      List.mem_map.mp ((wider.existLevel_reconciled positive distinct).mp present).1
    obtain ⟨other, otherFound, quantityEq⟩ :=
      valid.reconciled_shown positive distinct free shown
    obtain rfl := Option.some.inj (found.symm.trans otherFound)
    rwa [quantityEq]
  · exact fun shown => valid.reconciled_shown positive distinct free shown

/-! ### Events -/

/-- The events of a reconciliation. -/
def reconcileEvents (side : BookSide P isSell) (snapshot : L2SnapshotSide P) : OrderInfoVec P :=
  addEvents isSell (side.inventions snapshot) ++
    ((side.comparedSide snapshot).groupFills (side.removals snapshot)).zipIdx.map
      (pendingEvent isSell (executedOrderNum
        ((side.comparedSide snapshot).groupFills (side.removals snapshot)).length))

theorem qtyAt_pendingEvents (isSell : Bool) (pieces : List (Order P × ℤ)) (num : Nat)
    (price : P) :
    addQtyAt (pieces.zipIdx.map (pendingEvent isSell num)) price = 0 ∧
      removedQtyAt (pieces.zipIdx.map (pendingEvent isSell num)) price = takenAt pieces price := by
  have kinds : ∀ entry : (Order P × ℤ) × Nat,
      (pendingEvent isSell num entry).event = .exec ∨
        (pendingEvent isSell num entry).event = .cancel := by
    intro entry
    simp only [pendingEvent]
    split
    · exact .inl rfl
    · exact .inr rfl
  have notAdd : ∀ entry : (Order P × ℤ) × Nat,
      (pendingEvent isSell num entry).event ≠ .add := by
    intro entry isAdd
    have kind := kinds entry
    simp [isAdd] at kind
  constructor
  · simp [addQtyAt, Function.comp_def, notAdd]
  · have dropIndex : pieces = pieces.zipIdx.map Prod.fst := (List.zipIdx_map_fst ..).symm
    rw [takenAt, QueueFill.takenFrom, removedQtyAt, List.map_map]
    nth_rewrite 2 [dropIndex]
    rw [List.map_map]
    refine congrArg List.sum (List.map_congr_left fun entry _ => ?_)
    simp only [Function.comp_apply, kinds entry, true_and]
    rfl

theorem Valid.takenAt_groupFills (valid : side.Valid slack) {groups : List (P × ℤ)}
    (fits : ∀ group ∈ groups, 0 ≤ group.2 ∧ group.2 ≤ totalRemaining (side.ordersAt group.1))
    (price : P) : takenAt (side.groupFills groups) price = amountAt groups price := by
  induction groups with
  | nil => rfl
  | cons group groups ih =>
      obtain ⟨nonneg, most⟩ := fits group List.mem_cons_self
      have first : takenAt (fills group.2 (side.ordersAt group.1)) price =
          if price = group.1 then min group.2 (totalRemaining (side.ordersAt group.1)) else 0 := by
        have executed := valid.linked.execQtyAt_fills (valid.allRemain group.1) nonneg price
        rwa [execQtyAt_execEvents] at executed
      have others := ih fun other mem => fits other (List.mem_cons_of_mem _ mem)
      have split : takenAt (side.groupFills (group :: groups)) price =
          takenAt (fills group.2 (side.ordersAt group.1)) price +
            takenAt (side.groupFills groups) price := by
        rw [groupFills, List.flatMap_cons]
        exact QueueFill.takenFrom_append ..
      rw [split, first, others, min_eq_left most]
      simp only [amountAt, QueueFill.takenFrom_cons, id_eq, eq_comm]

theorem addQtyAt_append (first second : OrderInfoVec P) (price : P) :
    addQtyAt (first ++ second) price = addQtyAt first price + addQtyAt second price := by
  simp [addQtyAt]

theorem removedQtyAt_append (first second : OrderInfoVec P) (price : P) :
    removedQtyAt (first ++ second) price =
      removedQtyAt first price + removedQtyAt second price := by
  simp [removedQtyAt]

/-- The events account for the amounts that are invented and removed at each price. -/
theorem Valid.qtyAt_reconcileEvents [Zero P] (valid : side.Valid {0})
    (positive : ∀ l2Level ∈ snapshot, 0 < l2Level.quantity)
    (distinct : (snapshot.map L2PriceLevel.price).Nodup) (price : P) :
    addQtyAt (side.reconcileEvents snapshot) price = amountAt (side.inventions snapshot) price ∧
      removedQtyAt (side.reconcileEvents snapshot) price =
        amountAt (side.removals snapshot) price := by
  have comparedValid := valid.comparedSide (Set.mem_singleton 0) snapshot
  have fits : ∀ group ∈ side.removals snapshot, 0 ≤ group.2 ∧
      group.2 ≤ totalRemaining ((side.comparedSide snapshot).ordersAt group.1) := by
    intro group mem
    obtain ⟨notInvented, nonneg, most⟩ := valid.removal_fits positive distinct mem
    rw [ordersAt_congr (find?_comparedSide_of_not_mem notInvented)]
    exact ⟨nonneg, most⟩
  have pending := qtyAt_pendingEvents isSell
    ((side.comparedSide snapshot).groupFills (side.removals snapshot))
    (executedOrderNum ((side.comparedSide snapshot).groupFills (side.removals snapshot)).length)
    price
  have noneRemoved : removedQtyAt (addEvents isSell (side.inventions snapshot)) price = 0 := by
    simp [removedQtyAt, addEvents, Function.comp_def]
  rw [reconcileEvents, addQtyAt_append, removedQtyAt_append, pending.1, pending.2, noneRemoved,
    addQtyAt_addEvents, add_zero, zero_add, comparedValid.takenAt_groupFills fits]
  exact ⟨rfl, rfl⟩

/-- What remains of an order on a side, nothing if it does not rest there. -/
def restingQty (side : BookSide P isSell) (id : ℤ) : ℤ :=
  ((side.getOrder? id).map Order.getRemainingQuantity).getD 0

theorem Linked.restingQty_of_mem (linked : side.Linked) {order : Order P}
    (mem : order ∈ side.ordersAt key) :
    side.restingQty order.odid = order.getRemainingQuantity := by
  rw [restingQty, linked.getOrder?_of_mem mem]
  rfl

theorem Linked.restingQty_of_absent (linked : side.Linked) {id : ℤ}
    (absent : ∀ key, id ∉ ids (side.ordersAt key)) : side.restingQty id = 0 := by
  cases found : side.getOrder? id with
  | none =>
      rw [restingQty, found]
      rfl
  | some order =>
      obtain ⟨rfl, mem⟩ := linked.getOrder?_eq_some found
      exact (absent order.price (List.mem_map_of_mem mem)).elim

/-- Each order that reconciliation takes from loses just what is taken. -/
theorem Valid.removed_lost [Zero P] (valid : side.Valid {0})
    (positive : ∀ l2Level ∈ snapshot, 0 < l2Level.quantity)
    (distinct : (snapshot.map L2PriceLevel.price).Nodup)
    (free : ∀ id, InventedId snapshot id → side.existOrder id = false)
    (finalLinked : (side.reconciled snapshot).Linked) {piece : Order P × ℤ}
    (mem : piece ∈ (side.comparedSide snapshot).groupFills (side.removals snapshot)) :
    piece.1 ∈ side.ordersAt piece.1.price ∧
      piece.2 = side.restingQty piece.1.odid -
        (side.reconciled snapshot).restingQty piece.1.odid := by
  obtain ⟨⟨key, qty⟩, groupMem, taken⟩ := List.mem_flatMap.mp mem
  obtain ⟨notInvented, nonneg, -⟩ := valid.removal_fits positive distinct groupMem
  rw [ordersAt_congr (find?_comparedSide_of_not_mem notInvented)] at taken
  have rests := (QueueFill.mem_pieces (valid.allRemain key) nonneg taken).1
  have amountEq := amountAt_of_mem (removals_nodup distinct) groupMem
  rw [valid.linked.order_price rests, valid.linked.restingQty_of_mem rests]
  refine ⟨rests, ?_⟩
  rcases QueueFill.mem_pieces_cases Order.fill nonneg taken with ⟨whole, used⟩ | kept
  · -- the order is used up, and no other order carries its id
    have gone : (side.reconciled snapshot).getOrder? piece.1.odid = none := by
      by_contra found
      obtain ⟨other, found⟩ := Option.ne_none_iff_exists'.mp found
      obtain ⟨sameId, otherMem⟩ := finalLinked.getOrder?_eq_some found
      obtain ⟨invented, areInvented, -, ordersEq, -⟩ :=
        valid.reconciled_at positive distinct free other.price
      rw [ordersEq, List.mem_append] at otherMem
      rcases otherMem with survivor | new
      · have oldMem : other.odid ∈ ids (side.ordersAt other.price) := by
          rw [ids_eq_append (amountAt (side.removals snapshot) other.price)]
          exact List.mem_append_right _ (List.mem_map_of_mem survivor)
        rw [sameId] at oldMem
        obtain rfl := valid.linked.price_unique oldMem (List.mem_map_of_mem rests)
        rw [amountEq] at survivor
        have nodup := valid.linked.nodup other.price
        rw [ids_eq_append qty, List.nodup_append] at nodup
        exact nodup.2.2 _ (List.mem_map_of_mem used) _ (List.mem_map_of_mem survivor) sameId.symm
      · have absent := free _ (areInvented other new)
        rw [sameId, ← Bool.not_eq_true, valid.linked.existOrder_iff] at absent
        exact absent ⟨key, List.mem_map_of_mem rests⟩
    rw [whole, restingQty, gone]
    exact (sub_zero _).symm
  · obtain ⟨invented, -, -, ordersEq, -⟩ := valid.reconciled_at positive distinct free key
    rw [amountEq] at ordersEq
    have left : piece.1.fill piece.2 ∈ (side.reconciled snapshot).ordersAt key := by
      rw [ordersEq]
      exact List.mem_append_left _ kept
    have lost := finalLinked.restingQty_of_mem left
    rw [Order.fill_odid, Order.remaining_fill] at lost
    omega

/-- A removing event of a reconciliation names an order and the quantity it loses. -/
theorem Valid.event_names_order [Zero P] (valid : side.Valid {0})
    (positive : ∀ l2Level ∈ snapshot, 0 < l2Level.quantity)
    (distinct : (snapshot.map L2PriceLevel.price).Nodup)
    (free : ∀ id, InventedId snapshot id → side.existOrder id = false)
    (finalLinked : (side.reconciled snapshot).Linked) {e : OrderInfo P}
    (mem : e ∈ side.reconcileEvents snapshot) (removes : e.event = .exec ∨ e.event = .cancel) :
    (∃ order ∈ side.ordersAt e.price, order.odid = e.odid) ∧
      e.quantity = side.restingQty e.odid - (side.reconciled snapshot).restingQty e.odid := by
  rcases List.mem_append.mp mem with added | pending
  · obtain ⟨piece, -, rfl⟩ := List.mem_map.mp added
    simp at removes
  · obtain ⟨entry, entryMem, rfl⟩ := List.mem_map.mp pending
    have lost := valid.removed_lost positive distinct free finalLinked
      (fst_mem_of_mem_zipIdx entryMem)
    exact ⟨⟨entry.1.1, lost.1, rfl⟩, lost.2⟩

end BookSide

/-- A snapshot that no one expects is reached exactly, from the front of the queues, and
accounted for by the events. -/
theorem processL2Snapshot_effect [Zero P] {side : BookSide P isSell} (rep : side.RepInvariant)
    (idle : side.l2SnapQueue = []) {snapshot : L2SnapshotSide P}
    (positive : ∀ l2Level ∈ snapshot, 0 < l2Level.quantity)
    (distinct : (snapshot.map L2PriceLevel.price).Nodup)
    (free : ∀ id, BookSide.InventedId snapshot id → side.existOrder id = false) :
    ∃ (final : BookSide P isSell) (events : OrderInfoVec P),
      side.processL2Snapshot snapshot = .ok (final, events) ∧ final.RepInvariant ∧
      (∀ price qty, (∃ level, final.levels.find? price = some level ∧ level.quantity = qty) ↔
        ⟨price, qty⟩ ∈ snapshot) ∧
      (∀ price, ∃ gone kept filled invented, side.ordersAt price = gone ++ kept ∧
        final.ordersAt price = QueueFill.cutFirst Order.fill filled kept ++ invented ∧
        0 ≤ filled ∧ (∀ first ∈ kept.head?, filled < first.getRemainingQuantity) ∧
        ∀ order ∈ invented, BookSide.InventedId snapshot order.odid) ∧
      (∀ l2Level ∈ snapshot, ∀ level, side.levels.find? l2Level.price = some level →
        level.quantity = l2Level.quantity → final.levels.find? l2Level.price = some level) ∧
      (∀ price, addQtyAt events price - removedQtyAt events price =
        final.quantityAt price - side.quantityAt price) ∧
      (∀ e ∈ events, e.event = .exec ∨ e.event = .cancel →
        (∃ order ∈ side.ordersAt e.price, order.odid = e.odid) ∧
          e.quantity = side.restingQty e.odid - final.restingQty e.odid) ∧
      ∀ price, qtyAt final.pendingLiqAddQty price =
        qtyAt side.pendingLiqAddQty price + addQtyAt events price := by
  have valid := BookSide.repInvariant_iff_valid.mp rep
  have comparedValid := valid.comparedSide (Set.mem_singleton 0) snapshot
  have finalValid : (side.reconciled snapshot).Valid {0} :=
    comparedValid.fillGroups comparedValid.removals_nonneg
  have accounted := valid.qtyAt_reconcileEvents positive distinct
  refine ⟨side.reconciled snapshot, side.reconcileEvents snapshot, ?_,
    BookSide.repInvariant_iff_valid.mpr finalValid,
    fun price qty => valid.reconciled_view positive distinct free, ?_, ?_, ?_,
    fun e mem removes =>
      valid.event_names_order positive distinct free finalValid.linked mem removes, ?_⟩
  · rw [BookSide.processL2Snapshot_reconciles idle,
      valid.reconcile_eq (Set.mem_singleton 0) positive distinct]
    rfl
  · intro price
    obtain ⟨invented, areInvented, nonneg, ordersEq, -⟩ :=
      valid.reconciled_at positive distinct free price
    obtain ⟨kept, filled, split, shape, fits⟩ := QueueFill.exhausted_append nonneg
    exact ⟨_, kept, filled, invented, split, shape ▸ ordersEq, fits.1, fits.2, areInvented⟩
  · intro l2Level shown level found same
    have held : side.quantityAt l2Level.price = l2Level.quantity := by
      rw [BookSide.quantityAt_of_find? found, same]
    rw [BookSide.find?_reconciled_untouched
      (BookSide.not_mem_inventions distinct shown held.ge)
      (BookSide.not_mem_removals distinct shown held.le), found]
  · intro price
    obtain ⟨-, -, -, -, quantityEq⟩ := valid.reconciled_at positive distinct free price
    rw [(accounted price).1, (accounted price).2, quantityEq]
    omega
  · intro price
    have frame := (side.comparedSide snapshot).fillGroups_frame (side.removals snapshot)
    rw [BookSide.reconciled, frame.2.2, BookSide.comparedSide, BookSide.qtyAt_inventAll,
      (accounted price).1]

/-- A snapshot that lowers the best level, drops the other one and brings a new one. -/
theorem twoPrice_snapshotEffect :
    ∃ (final : BookSide ℤ true) (events : OrderInfoVec ℤ),
      twoPriceSide.processL2Snapshot [⟨102, 4⟩, ⟨100, 7⟩] = .ok (final, events) ∧
      (∀ price qty, (∃ level, final.levels.find? price = some level ∧ level.quantity = qty) ↔
        ⟨price, qty⟩ ∈ ([⟨102, 4⟩, ⟨100, 7⟩] : L2SnapshotSide ℤ)) ∧
      ∀ price, addQtyAt events price - removedQtyAt events price =
        final.quantityAt price - twoPriceSide.quantityAt price := by
  have free : ∀ id, BookSide.InventedId ([⟨102, 4⟩, ⟨100, 7⟩] : L2SnapshotSide ℤ) id →
      twoPriceSide.existOrder id = false := by
    rintro id ⟨above, below⟩
    obtain rfl | rfl : id = 100 ∨ id = 101 := by
      simp only [List.length_cons, List.length_nil] at below
      omega
    · rfl
    · rfl
  obtain ⟨final, events, processed, -, view, -, -, accounted, -⟩ :=
    processL2Snapshot_effect (BookSide.repInvariant_iff_valid.mpr twoPriceSide_valid) rfl
      (by decide) (by decide) free
  exact ⟨final, events, processed, view, accounted⟩

end OrderBook
