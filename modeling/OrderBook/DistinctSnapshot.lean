import OrderBook.Reconcile

/-!
# Snapshots with distinct prices

With distinct prices the passes of the reconciliation do not interfere: the first
pass invents orders at some levels, and the third one fills some other levels
from the front.
-/

namespace OrderBook.BookSide

open FueledLoop

variable {P : Type} [LinearOrder P] {isSell : Bool} {slack : Set ℤ}

/-- The liquidity that the snapshot shows and the book lacks, in snapshot order. -/
def inventions (side : BookSide P isSell) (snapshot : L2SnapshotSide P) : List (P × ℤ) :=
  snapshot.filterMap fun l2Level =>
    if side.quantityAt l2Level.price < l2Level.quantity then
      some (l2Level.price, l2Level.quantity - side.quantityAt l2Level.price)
    else none

/-- The quantities that the book shows and the snapshot lacks, at its prices. -/
def lowerings (side : BookSide P isSell) (snapshot : L2SnapshotSide P) : List (P × ℤ) :=
  snapshot.filterMap fun l2Level =>
    if l2Level.quantity < side.quantityAt l2Level.price then
      some (l2Level.price, side.quantityAt l2Level.price - l2Level.quantity)
    else none

/-- The levels that the snapshot lacks, with all they hold. -/
def dropped (side : BookSide P isSell) (snapshot : L2SnapshotSide P) : List (P × ℤ) :=
  side.levels.entries.filterMap fun entry =>
    if entry.1 ∉ snapshot.map L2PriceLevel.price then
      some (entry.1, totalRemaining entry.2.orders)
    else none

/-- Invent orders under successive ids. -/
def inventAll (side : BookSide P isSell) : ℤ → List (P × ℤ) → BookSide P isSell
  | _, [] => side
  | id, (price, qty) :: others => inventAll (side.invent id price qty) (id + 1) others

/-- The fills that take the given quantities from the front of the levels. -/
def groupFills (side : BookSide P isSell) (groups : List (P × ℤ)) : List (Order P × ℤ) :=
  groups.flatMap fun group => fills group.2 (side.ordersAt group.1)

def addEvents (isSell : Bool) (added : List (P × ℤ)) : OrderInfoVec P :=
  added.map fun piece => ⟨.add, -1, isSell, piece.2, piece.1⟩

/-! ### The first pass -/

section FirstPass

variable {side : BookSide P isSell}

theorem find?_invent_of_ne (side : BookSide P isSell) (id qty : ℤ) {price key : P}
    (different : key ≠ price) :
    (side.invent id price qty).levels.find? key = side.levels.find? key := by
  unfold invent withOrder
  split
  · rfl
  · exact (find?_putOrders _ _ _ _ _).trans (if_neg different)

theorem find?_inventAll_of_ne {key : P} {added : List (P × ℤ)}
    (elsewhere : ∀ piece ∈ added, key ≠ piece.1) (id : ℤ) :
    (side.inventAll id added).levels.find? key = side.levels.find? key := by
  induction added generalizing side id with
  | nil => rfl
  | cons piece added ih =>
      exact (ih (fun other mem => elsewhere other (List.mem_cons_of_mem _ mem)) (id + 1)).trans
        (find?_invent_of_ne _ _ _ (elsewhere piece List.mem_cons_self))

theorem quantityAt_congr {first second : BookSide P isSell} {key : P}
    (same : first.levels.find? key = second.levels.find? key) :
    first.quantityAt key = second.quantityAt key := by
  rw [quantityAt, same, quantityAt]

theorem ordersAt_congr {first second : BookSide P isSell} {key : P}
    (same : first.levels.find? key = second.levels.find? key) :
    first.ordersAt key = second.ordersAt key := by
  rw [ordersAt, same, ordersAt]

theorem inventions_congr {first second : BookSide P isSell} {snapshot : L2SnapshotSide P}
    (same : ∀ l2Level ∈ snapshot,
      first.levels.find? l2Level.price = second.levels.find? l2Level.price) :
    first.inventions snapshot = second.inventions snapshot := by
  apply List.filterMap_congr
  intro l2Level mem
  rw [quantityAt_congr (same l2Level mem)]

theorem lowerings_congr {first second : BookSide P isSell} {snapshot : L2SnapshotSide P}
    (same : ∀ l2Level ∈ snapshot,
      first.levels.find? l2Level.price = second.levels.find? l2Level.price) :
    first.lowerings snapshot = second.lowerings snapshot := by
  apply List.filterMap_congr
  intro l2Level mem
  rw [quantityAt_congr (same l2Level mem)]

theorem groupFills_congr {first second : BookSide P isSell} {groups : List (P × ℤ)}
    (same : ∀ group ∈ groups, first.ordersAt group.1 = second.ordersAt group.1) :
    first.groupFills groups = second.groupFills groups := by
  apply List.flatMap_congr
  intro group mem
  rw [same group mem]

theorem mem_filterMap_ite {α β : Type*} {test : α → Prop} [DecidablePred test] {make : α → β}
    {items : List α} {made : β} :
    made ∈ items.filterMap (fun item => if test item then some (make item) else none) ↔
      ∃ item ∈ items, test item ∧ made = make item := by
  rw [List.mem_filterMap]
  constructor
  · rintro ⟨item, mem, produced⟩
    split at produced
    · next holds =>
        cases produced
        exact ⟨item, mem, holds, rfl⟩
    · cases produced
  · rintro ⟨item, mem, holds, rfl⟩
    exact ⟨item, mem, if_pos holds⟩

theorem keys_filterMap_ite {α β γ : Type*} {test : α → Prop} [DecidablePred test]
    {make : α → β} {key : α → γ} {madeKey : β → γ}
    (sameKey : ∀ item, madeKey (make item) = key item)
    (items : List α) :
    ((items.filterMap fun item => if test item then some (make item) else none).map madeKey).Sublist
      (items.map key) := by
  induction items with
  | nil => exact List.Sublist.slnil
  | cons item items ih =>
      by_cases holds : test item
      · simp only [List.filterMap_cons, if_pos holds, List.map_cons, sameKey]
        exact ih.cons_cons (key item)
      · simp only [List.filterMap_cons, if_neg holds, List.map_cons]
        exact ih.cons (key item)

theorem mem_inventions {snapshot : L2SnapshotSide P} {piece : P × ℤ} :
    piece ∈ side.inventions snapshot ↔ ∃ l2Level ∈ snapshot,
      side.quantityAt l2Level.price < l2Level.quantity ∧
      piece = (l2Level.price, l2Level.quantity - side.quantityAt l2Level.price) :=
  mem_filterMap_ite

theorem mem_lowerings {snapshot : L2SnapshotSide P} {group : P × ℤ} :
    group ∈ side.lowerings snapshot ↔ ∃ l2Level ∈ snapshot,
      l2Level.quantity < side.quantityAt l2Level.price ∧
      group = (l2Level.price, side.quantityAt l2Level.price - l2Level.quantity) :=
  mem_filterMap_ite

theorem mem_dropped {snapshot : L2SnapshotSide P} {group : P × ℤ} :
    group ∈ side.dropped snapshot ↔ ∃ entry ∈ side.levels.entries,
      entry.1 ∉ snapshot.map L2PriceLevel.price ∧
      group = (entry.1, totalRemaining entry.2.orders) :=
  mem_filterMap_ite

variable [Zero P]

/-- The whole first pass. -/
theorem Valid.firstPass_eq (valid : side.Valid slack) (zeroMem : 0 ∈ slack)
    {snapshot : L2SnapshotSide P} (positive : ∀ l2Level ∈ snapshot, 0 < l2Level.quantity)
    (distinct : (snapshot.map L2PriceLevel.price).Nodup) (events : OrderInfoVec P)
    (pending : List (Order P × ℤ)) (id : ℤ) :
    snapshot.foldlM reconcileLevel ⟨side, events, pending, id⟩ = .ok
      ⟨side.inventAll id (side.inventions snapshot),
        events ++ addEvents isSell (side.inventions snapshot),
        pending ++ side.groupFills (side.lowerings snapshot),
        id + (side.inventions snapshot).length⟩ := by
  induction snapshot generalizing side events pending id with
  | nil => simp [inventions, lowerings, inventAll, groupFills, addEvents]
  | cons l2Level snapshot ih =>
      have pos := positive l2Level (by simp)
      rw [List.map_cons, List.nodup_cons] at distinct
      have otherPrice : ∀ other ∈ snapshot, other.price ≠ l2Level.price := by
        intro other mem same
        exact distinct.1 (same ▸ List.mem_map_of_mem mem)
      rw [List.foldlM_cons, valid.linked.reconcileLevel_eq pos, ok_bind]
      by_cases more : side.quantityAt l2Level.price < l2Level.quantity
      · have same : ∀ other ∈ snapshot,
            (side.invent id l2Level.price
              (l2Level.quantity - side.quantityAt l2Level.price)).levels.find? other.price =
                side.levels.find? other.price :=
          fun other mem => find?_invent_of_ne _ _ _ (otherPrice other mem)
        have sameFills : (side.invent id l2Level.price
            (l2Level.quantity - side.quantityAt l2Level.price)).groupFills
              (side.lowerings snapshot) = side.groupFills (side.lowerings snapshot) := by
          apply groupFills_congr
          intro group mem
          obtain ⟨other, otherMem, -, rfl⟩ := mem_lowerings.mp mem
          rw [ordersAt_congr (same other otherMem)]
        have split : side.inventions (l2Level :: snapshot) =
            (l2Level.price, l2Level.quantity - side.quantityAt l2Level.price) ::
              side.inventions snapshot := by
          simp [inventions, more]
        have notLower : side.lowerings (l2Level :: snapshot) = side.lowerings snapshot := by
          simp [lowerings, more.le]
        rw [if_pos more, ih (valid.invent zeroMem id l2Level.price (sub_pos.mpr more))
          (fun other mem => positive other (by simp [mem])) distinct.2,
          inventions_congr same, lowerings_congr same, sameFills, split, notLower]
        simp [inventAll, addEvents, add_assoc, add_comm]
      · have notMore : side.inventions (l2Level :: snapshot) = side.inventions snapshot := by
          simp [inventions, more]
        have split : side.groupFills (side.lowerings (l2Level :: snapshot)) =
            fills (side.quantityAt l2Level.price - l2Level.quantity)
              (side.ordersAt l2Level.price) ++ side.groupFills (side.lowerings snapshot) := by
          by_cases less : l2Level.quantity < side.quantityAt l2Level.price
          · simp [lowerings, groupFills, less]
          · have same : side.quantityAt l2Level.price - l2Level.quantity = 0 := by omega
            rw [same, fills_zero]
            simp [lowerings, groupFills, less]
        rw [if_neg more, ih valid (fun other mem => positive other (by simp [mem])) distinct.2,
          notMore, split, List.append_assoc]

end FirstPass

/-! ### The third pass -/

section ThirdPass

variable {side : BookSide P isSell}

theorem Valid.missingOrders_eq (valid : side.Valid slack) (snapshot : L2SnapshotSide P) :
    side.missingOrders snapshot = side.groupFills (side.dropped snapshot) := by
  have remain : ∀ entry ∈ side.levels.entries,
      side.ordersAt entry.1 = entry.2.orders ∧ AllRemain entry.2.orders := by
    intro entry mem
    have orders := ordersAt_of_find? (SortedMap.find?_eq_some_iff.mpr mem)
    exact ⟨orders, orders ▸ valid.allRemain entry.1⟩
  simp only [missingOrders, groupFills, dropped]
  generalize side.levels.entries = entries at remain
  induction entries with
  | nil => rfl
  | cons entry entries ih =>
      have later := ih fun other mem => remain other (List.mem_cons_of_mem _ mem)
      obtain ⟨orders, entryRemain⟩ := remain entry List.mem_cons_self
      rw [List.flatMap_cons, later, List.filterMap_cons]
      by_cases kept : entry.1 ∈ snapshot.map L2PriceLevel.price
      · simp only [if_pos kept, if_neg (not_not.mpr kept), List.nil_append]
      · simp only [if_neg kept, if_pos kept, List.flatMap_cons, orders, fills_total entryRemain]

theorem Linked.fillLevel_of_nil (linked : side.Linked) {key : P}
    (none : side.ordersAt key = []) (qty : ℤ) : side.fillLevel key qty = side := by
  have absent := linked.ordersAt_eq_nil_iff.mp none
  simp [fillLevel, none, putOrders, fillFront, QueueFill.remaining, usedUp,
    QueueFill.exhausted, SortedMap.erase_of_find?_none absent]

theorem Valid.fillLevel_zero (valid : side.Valid slack) (key : P) :
    side.fillLevel key 0 = side := by
  have remain := valid.allRemain key
  have totalNonneg : 0 ≤ totalRemaining (side.ordersAt key) := remain.total_nonneg
  by_cases none : side.ordersAt key = []
  · exact valid.linked.fillLevel_of_nil none 0
  · obtain ⟨order, mem⟩ := List.exists_mem_of_ne_nil _ none
    obtain ⟨quantity, found⟩ := valid.linked.exists_level mem
    have unchanged := putOrders_self (find?_ofOrders valid.linked found) none
    rw [BookSide.fillLevel, fillFront_zero remain, usedUp_zero remain,
      min_eq_left totalNonneg, sub_zero, unchanged]
    rfl

/-- Taking a part of the first order. -/
theorem fillLevel_cut {key : P} {quantity qty : ℤ} {order : Order P}
    {others : List (Order P)} (remain : AllRemain (order :: others))
    (found : side.levels.find? key = some (.ofOrders key quantity (order :: others)))
    (short : qty < order.getRemainingQuantity) :
    side.fillLevel key qty =
      { side with
        levels := putOrders side.levels key (quantity - qty) (order.fill qty :: others) } := by
  have ordersEq : side.ordersAt key = order :: others := ordersAt_of_find? found
  have quantityEq : side.quantityAt key = quantity := quantityAt_of_find? found
  have othersNonneg : 0 ≤ totalRemaining others := remain.tail.total_nonneg
  have takenEq : min qty (totalRemaining (order :: others)) = qty := by
    rw [totalRemaining_cons]
    omega
  have frontEq : fillFront qty (order :: others) = order.fill qty :: others := by
    simp [fillFront, QueueFill.remaining, short]
  have usedEq : usedUp qty (order :: others) = [] := by
    simp [usedUp, QueueFill.exhausted, short]
  rw [fillLevel, ordersEq, quantityEq, takenEq, frontEq, usedEq]
  rfl

variable [Zero P]

/-- Taking the first order whole and then the rest of a quantity. -/
theorem Linked.fillLevel_removeFirst (linked : side.Linked) {key : P} {quantity qty : ℤ}
    {order : Order P} {others : List (Order P)}
    (found : side.levels.find? key = some (.ofOrders key quantity (order :: others)))
    (covers : order.getRemainingQuantity ≤ qty) :
    (side.removeOrder order.odid).fillLevel key (qty - order.getRemainingQuantity) =
      side.fillLevel key qty := by
  have ordersEq : side.ordersAt key = order :: others := ordersAt_of_find? found
  have quantityEq : side.quantityAt key = quantity := quantityAt_of_find? found
  have takenEq : min qty (totalRemaining (order :: others)) = order.getRemainingQuantity +
      min (qty - order.getRemainingQuantity) (totalRemaining others) := by
    rw [totalRemaining_cons]
    omega
  have frontEq : fillFront qty (order :: others) =
      fillFront (qty - order.getRemainingQuantity) others := by
    simp [fillFront, QueueFill.remaining, covers]
  have usedEq : usedUp qty (order :: others) =
      order :: usedUp (qty - order.getRemainingQuantity) others := by
    simp [usedUp, QueueFill.exhausted, covers]
  have laterOrders : (side.removeOrder order.odid).ordersAt key = others := by
    rw [linked.removeFirst_eq found, ordersAt_putOrders rfl, if_pos rfl]
  rw [fillLevel, fillLevel, laterOrders, ordersEq, quantityEq, takenEq, frontEq, usedEq]
  by_cases last : others = []
  · subst last
    rw [linked.removeFirst_eq found]
    simp [putOrders, fillFront, QueueFill.remaining, SortedMap.erase_of_find?_none]
  · have laterQuantity : (side.removeOrder order.odid).quantityAt key =
        quantity - order.getRemainingQuantity := by
      rw [linked.removeFirst_eq found]
      simp [quantityAt, find?_putOrders, last]
    rw [laterQuantity, linked.removeFirst_eq found]
    simp [putOrders_putOrders, sub_sub]

/-- The third pass on the fills of one level. -/
theorem Valid.removeGroup (valid : side.Valid slack) (num : Nat) (key : P) {qty : ℤ}
    (nonneg : 0 ≤ qty) (index : Nat) (events : OrderInfoVec P) (filled : ℤ → ℤ)
    (untouched : ∀ id ∈ ids (side.ordersAt key), filled id = 0) :
    ∃ filledAfter,
      ((fills qty (side.ordersAt key)).zipIdx index).foldlM (removePending num)
          ⟨side, events, filled⟩ = .ok
        ⟨side.fillLevel key qty,
          events ++ ((fills qty (side.ordersAt key)).zipIdx index).map
            (pendingEvent isSell num),
          filledAfter⟩ ∧
      ∀ id ∉ ids (side.ordersAt key), filledAfter id = filled id := by
  generalize ordersEq : side.ordersAt key = orders at untouched
  induction orders generalizing side qty index events with
  | nil =>
      refine ⟨filled, ?_, fun _ _ => rfl⟩
      rw [valid.linked.fillLevel_of_nil ordersEq]
      simp [fills, QueueFill.pieces]
  | cons order others ih =>
      have remain : AllRemain (order :: others) := ordersEq ▸ valid.allRemain key
      have orderPos := remain.head
      have mem : order ∈ side.ordersAt key := by simp [ordersEq]
      obtain ⟨quantity, found⟩ := valid.linked.exists_level mem
      rw [ordersEq] at found
      have priceEq := valid.linked.order_price mem
      have unfilled : order.fill (filled order.odid) = order := by
        rw [untouched order.odid (by simp), Order.fill_zero]
      by_cases empty : qty = 0
      · subst empty
        refine ⟨filled, ?_, fun _ _ => rfl⟩
        rw [valid.fillLevel_zero, fills_zero]
        simp
      · rw [fills_cons order others empty, List.zipIdx_cons, List.foldlM_cons,
          removePending_eq, unfilled]
        by_cases covers : order.getRemainingQuantity ≤ qty
        · rw [min_eq_right covers, if_pos rfl, ok_bind]
          have laterOrders : (side.removeOrder order.odid).ordersAt key = others := by
            rw [valid.linked.removeFirst_eq found, ordersAt_putOrders rfl, if_pos rfl]
          obtain ⟨filledAfter, folded, kept⟩ := ih (valid.removeOrder order.odid)
            (sub_nonneg.mpr covers) (index + 1)
            (events ++ [pendingEvent isSell num ((order, order.getRemainingQuantity), index)])
            laterOrders (fun id idMem => untouched id (by simp_all))
          refine ⟨filledAfter, ?_, fun id notMem => kept id (by simp_all)⟩
          rw [folded, valid.linked.fillLevel_removeFirst found covers]
          simp
        · have short : qty < order.getRemainingQuantity := by omega
          have present : side.existLevel order.price = true := by
            rw [priceEq, existLevel, found]
            rfl
          have atFront : side.levels.find? key =
              some (.ofOrders key quantity ([] ++ order :: others)) := found
          have step := fillLevelOrder_eq atFront (valid.linked.level found).nodup short.le
          rw [min_eq_left short.le, if_neg (by omega), if_pos present, priceEq, step]
          refine ⟨Function.update filled order.odid (filled order.odid + qty), ?_, ?_⟩
          · rw [fillLevel_cut remain found short, sub_self, fills_zero]
            rfl
          · intro id notMem
            exact Function.update_of_ne (by simp_all) _ _

/-- Fill several levels from the front. -/
def fillGroups (side : BookSide P isSell) (groups : List (P × ℤ)) : BookSide P isSell :=
  groups.foldl (fun filled group => filled.fillLevel group.1 group.2) side

theorem Valid.fillLevel_nonneg (valid : side.Valid slack) (key : P) {qty : ℤ}
    (nonneg : 0 ≤ qty) : (side.fillLevel key qty).Valid slack := by
  cases found : side.levels.find? key with
  | none =>
      rw [valid.linked.fillLevel_of_nil (ordersAt_of_none found)]
      exact valid
  | some level => exact valid.fillLevel found nonneg

theorem Valid.fillGroups (valid : side.Valid slack) {groups : List (P × ℤ)}
    (nonneg : ∀ group ∈ groups, 0 ≤ group.2) : (side.fillGroups groups).Valid slack := by
  induction groups generalizing side with
  | nil => exact valid
  | cons group groups ih =>
      exact ih (valid.fillLevel_nonneg group.1 (nonneg group List.mem_cons_self))
        fun other mem => nonneg other (List.mem_cons_of_mem _ mem)

/-- The third pass on the fills of several levels. -/
theorem Valid.removeGroups (valid : side.Valid slack) (num : Nat) {groups : List (P × ℤ)}
    (nonneg : ∀ group ∈ groups, 0 ≤ group.2) (distinct : (groups.map Prod.fst).Nodup)
    (index : Nat) (events : OrderInfoVec P) (filled : ℤ → ℤ)
    (untouched : ∀ group ∈ groups, ∀ id ∈ ids (side.ordersAt group.1), filled id = 0) :
    ∃ filledAfter,
      ((side.groupFills groups).zipIdx index).foldlM (removePending num)
          ⟨side, events, filled⟩ = .ok
        ⟨side.fillGroups groups,
          events ++ ((side.groupFills groups).zipIdx index).map (pendingEvent isSell num),
          filledAfter⟩ := by
  induction groups generalizing side index events filled with
  | nil => exact ⟨filled, by simp [groupFills, BookSide.fillGroups]⟩
  | cons group groups ih =>
      rw [List.map_cons, List.nodup_cons] at distinct
      obtain ⟨filledAfter, folded, kept⟩ := valid.removeGroup num group.1
        (nonneg group List.mem_cons_self) index events filled
        (untouched group List.mem_cons_self)
      have otherOrders : ∀ other ∈ groups,
          (side.fillLevel group.1 group.2).ordersAt other.1 = side.ordersAt other.1 := by
        intro other mem
        rw [ordersAt_fillLevel, if_neg]
        intro same
        exact distinct.1 (same ▸ List.mem_map_of_mem mem)
      have otherUntouched : ∀ other ∈ groups,
          ∀ id ∈ ids ((side.fillLevel group.1 group.2).ordersAt other.1),
            filledAfter id = 0 := by
        intro other mem id idMem
        rw [otherOrders other mem] at idMem
        rw [kept id, untouched other (List.mem_cons_of_mem _ mem) id idMem]
        intro here
        exact distinct.1 (valid.linked.price_unique here idMem ▸ List.mem_map_of_mem mem)
      obtain ⟨filledLast, foldedLast⟩ := ih
        (valid.fillLevel_nonneg group.1 (nonneg group List.mem_cons_self))
        (fun other mem => nonneg other (List.mem_cons_of_mem _ mem)) distinct.2
        (index + (fills group.2 (side.ordersAt group.1)).length) _ filledAfter otherUntouched
      refine ⟨filledLast, ?_⟩
      have splitFills : side.groupFills (group :: groups) =
          fills group.2 (side.ordersAt group.1) ++ side.groupFills groups := by
        simp [groupFills]
      rw [splitFills, List.zipIdx_append, List.foldlM_append, folded, ok_bind,
        ← groupFills_congr otherOrders, foldedLast, List.map_append, List.append_assoc]
      rfl

end ThirdPass

/-! ### The whole reconciliation -/

section Whole

variable {side : BookSide P isSell} {snapshot : L2SnapshotSide P}

/-- The side after the first pass. -/
def comparedSide (side : BookSide P isSell) (snapshot : L2SnapshotSide P) : BookSide P isSell :=
  side.inventAll 100 (side.inventions snapshot)

/-- What the third pass takes from the front of the levels. -/
def removals (side : BookSide P isSell) (snapshot : L2SnapshotSide P) : List (P × ℤ) :=
  side.lowerings snapshot ++ (side.comparedSide snapshot).dropped snapshot

/-- Levels that the snapshot lowers are not touched by the first pass. -/
theorem find?_comparedSide_of_le (distinct : (snapshot.map L2PriceLevel.price).Nodup)
    {l2Level : L2PriceLevel P} (mem : l2Level ∈ snapshot)
    (enough : l2Level.quantity ≤ side.quantityAt l2Level.price) :
    (side.comparedSide snapshot).levels.find? l2Level.price =
      side.levels.find? l2Level.price := by
  refine find?_inventAll_of_ne ?_ 100
  intro piece pieceMem same
  obtain ⟨other, otherMem, more, rfl⟩ := mem_inventions.mp pieceMem
  obtain rfl := List.inj_on_of_nodup_map distinct mem otherMem same
  omega

theorem removals_nodup (distinct : (snapshot.map L2PriceLevel.price).Nodup) :
    ((side.removals snapshot).map Prod.fst).Nodup := by
  rw [removals, List.map_append, List.nodup_append]
  refine ⟨?_, ?_, ?_⟩
  · exact distinct.sublist (keys_filterMap_ite (fun _ => rfl) snapshot)
  · have keysNodup : ((side.comparedSide snapshot).levels.entries.map Prod.fst).Nodup :=
      List.pairwise_map.mpr (SortedMap.keys_ne _)
    exact keysNodup.sublist (keys_filterMap_ite (fun _ => rfl) _)
  · rintro _ loweredMem _ droppedMem rfl
    obtain ⟨group, groupMem, keyEq⟩ := List.mem_map.mp loweredMem
    obtain ⟨l2Level, mem, -, rfl⟩ := mem_lowerings.mp groupMem
    obtain ⟨other, otherMem, otherEq⟩ := List.mem_map.mp droppedMem
    obtain ⟨entry, -, missing, rfl⟩ := mem_dropped.mp otherMem
    exact missing (otherEq ▸ keyEq ▸ List.mem_map_of_mem mem)

theorem Valid.removals_nonneg (valid : (side.comparedSide snapshot).Valid slack) :
    ∀ group ∈ side.removals snapshot, 0 ≤ group.2 := by
  intro group mem
  rcases List.mem_append.mp mem with lowered | missing
  · obtain ⟨l2Level, -, less, rfl⟩ := mem_lowerings.mp lowered
    exact (sub_pos.mpr less).le
  · obtain ⟨entry, entryMem, -, rfl⟩ := mem_dropped.mp missing
    have remain := valid.allRemain entry.1
    rw [ordersAt_of_find? (SortedMap.find?_eq_some_iff.mpr entryMem)] at remain
    exact remain.total_nonneg

/-- The listed orders are those of the levels that are lowered or dropped. -/
theorem Valid.pendingOrders_eq (valid : (side.comparedSide snapshot).Valid slack)
    (distinct : (snapshot.map L2PriceLevel.price).Nodup) :
    side.groupFills (side.lowerings snapshot) ++
        (side.comparedSide snapshot).missingOrders snapshot =
      (side.comparedSide snapshot).groupFills (side.removals snapshot) := by
  have sameFills : side.groupFills (side.lowerings snapshot) =
      (side.comparedSide snapshot).groupFills (side.lowerings snapshot) := by
    apply groupFills_congr
    intro group mem
    obtain ⟨l2Level, levelMem, less, rfl⟩ := mem_lowerings.mp mem
    exact (ordersAt_congr (find?_comparedSide_of_le distinct levelMem less.le)).symm
  rw [sameFills, valid.missingOrders_eq, removals, groupFills, groupFills, groupFills,
    List.flatMap_append]

variable [Zero P]

theorem Valid.inventAll (valid : side.Valid slack) (zeroMem : 0 ∈ slack)
    {added : List (P × ℤ)} (positive : ∀ piece ∈ added, 0 < piece.2) (id : ℤ) :
    (side.inventAll id added).Valid slack := by
  induction added generalizing side id with
  | nil => exact valid
  | cons piece added ih =>
      exact ih (valid.invent zeroMem id piece.1 (positive piece List.mem_cons_self))
        (fun other mem => positive other (List.mem_cons_of_mem _ mem)) (id + 1)

theorem Valid.comparedSide (valid : side.Valid slack) (zeroMem : 0 ∈ slack)
    (snapshot : L2SnapshotSide P) :
    (side.comparedSide snapshot).Valid slack := by
  refine valid.inventAll zeroMem ?_ 100
  intro piece mem
  obtain ⟨l2Level, -, more, rfl⟩ := mem_inventions.mp mem
  exact sub_pos.mpr more

/-- With positive quantities and distinct prices the reconciliation always returns. -/
theorem Valid.reconcile_eq (valid : side.Valid slack) (zeroMem : 0 ∈ slack)
    (positive : ∀ l2Level ∈ snapshot, 0 < l2Level.quantity)
    (distinct : (snapshot.map L2PriceLevel.price).Nodup) :
    side.reconcile snapshot = .ok ((side.comparedSide snapshot).fillGroups
        (side.removals snapshot),
      addEvents isSell (side.inventions snapshot) ++
        ((side.comparedSide snapshot).groupFills (side.removals snapshot)).zipIdx.map
          (pendingEvent isSell (executedOrderNum
            ((side.comparedSide snapshot).groupFills (side.removals snapshot)).length))) := by
  have comparedValid := valid.comparedSide zeroMem snapshot
  have passed := valid.firstPass_eq zeroMem positive distinct [] [] 100
  obtain ⟨filled, removed⟩ := comparedValid.removeGroups
    (executedOrderNum ((side.comparedSide snapshot).groupFills (side.removals snapshot)).length)
    comparedValid.removals_nonneg (removals_nodup distinct) 0
    (addEvents isSell (side.inventions snapshot)) (fun _ => 0) (fun _ _ _ _ => rfl)
  simp only [BookSide.reconcile, passed, ok_bind, List.nil_append]
  rw [show side.inventAll 100 (side.inventions snapshot) = side.comparedSide snapshot from rfl,
    comparedValid.pendingOrders_eq distinct, removed, ok_bind]
  rfl

end Whole

/-! ### Reading the reconciled side -/

section Reading

variable {side : BookSide P isSell} {groups : List (P × ℤ)} {key : P}

theorem find?_fillLevel_of_ne (side : BookSide P isSell) {other : P} (different : key ≠ other)
    (qty : ℤ) : (side.fillLevel other qty).levels.find? key = side.levels.find? key :=
  (find?_putOrders _ _ _ _ _).trans (if_neg different)

theorem find?_fillLevel_self (side : BookSide P isSell) (key : P) (qty : ℤ) :
    (side.fillLevel key qty).levels.find? key =
      if fillFront qty (side.ordersAt key) = [] then none
      else some (.ofOrders key
        (side.quantityAt key - min qty (totalRemaining (side.ordersAt key)))
        (fillFront qty (side.ordersAt key))) :=
  (find?_putOrders _ _ _ _ _).trans (if_pos rfl)

theorem find?_fillGroups_of_not_mem (side : BookSide P isSell)
    (elsewhere : key ∉ groups.map Prod.fst) :
    (side.fillGroups groups).levels.find? key = side.levels.find? key := by
  induction groups generalizing side with
  | nil => rfl
  | cons group groups ih =>
      rw [List.map_cons, List.mem_cons, not_or] at elsewhere
      exact (ih _ elsewhere.2).trans (find?_fillLevel_of_ne side elsewhere.1 group.2)

theorem find?_fillGroups_of_mem (side : BookSide P isSell)
    (distinct : (groups.map Prod.fst).Nodup) {qty : ℤ}
    (mem : (key, qty) ∈ groups) :
    (side.fillGroups groups).levels.find? key = (side.fillLevel key qty).levels.find? key := by
  induction groups generalizing side with
  | nil => cases mem
  | cons group groups ih =>
      rw [List.map_cons, List.nodup_cons] at distinct
      rcases List.mem_cons.mp mem with rfl | later
      · exact find?_fillGroups_of_not_mem _ distinct.1
      · have different : key ≠ group.1 := by
          intro same
          exact distinct.1 (same ▸ List.mem_map.mpr ⟨_, later, rfl⟩)
        apply (ih _ distinct.2 later).trans
        have same := find?_fillLevel_of_ne side different group.2
        rw [find?_fillLevel_self, find?_fillLevel_self, ordersAt_congr same,
          quantityAt_congr same]

theorem fillGroups_frame (side : BookSide P isSell) (groups : List (P × ℤ)) :
    (side.fillGroups groups).l2SnapQueue = side.l2SnapQueue ∧
      (side.fillGroups groups).pendingLiqRemoveQty = side.pendingLiqRemoveQty ∧
      (side.fillGroups groups).pendingLiqAddQty = side.pendingLiqAddQty := by
  induction groups generalizing side with
  | nil => exact ⟨rfl, rfl, rfl⟩
  | cons group groups ih => exact ih (side.fillLevel group.1 group.2)

theorem existOrder_invent (side : BookSide P isSell) (id : ℤ) (price : P) (qty other : ℤ) :
    (side.invent id price qty).existOrder other = true ↔
      side.existOrder other = true ∨ other = id := by
  cases rests : side.existOrder id with
  | true =>
      rw [invent_of_exist rests]
      constructor
      · exact Or.inl
      · rintro (old | rfl)
        · exact old
        · exact rests
  | false =>
      rw [invent_of_free rests]
      by_cases same : other = id
      · simp [existOrder, same]
      · simp [existOrder, SortedMap.find?_insert, same]

theorem existLevel_invent (side : BookSide P isSell) (id : ℤ) (price : P) (qty : ℤ) (key : P) :
    (side.invent id price qty).existLevel key = true ↔
      side.existLevel key = true ∨ key = price ∧ side.existOrder id = false := by
  cases rests : side.existOrder id with
  | true =>
      rw [invent_of_exist rests]
      simp [existLevel]
  | false =>
      rw [invent_of_free rests]
      by_cases same : key = price
      · simp [existLevel, find?_putOrders, same]
      · simp [existLevel, find?_putOrders, same]

theorem existOrder_inventAll (side : BookSide P isSell) (id : ℤ) (added : List (P × ℤ))
    (other : ℤ) :
    (side.inventAll id added).existOrder other = true ↔
      side.existOrder other = true ∨ id ≤ other ∧ other < id + added.length := by
  induction added generalizing side id with
  | nil => simp [inventAll]
  | cons piece added ih =>
      rw [inventAll, ih, existOrder_invent, List.length_cons, or_assoc]
      push_cast
      apply or_congr_right
      omega

/-- A level comes with the first pass when the invented id is free. -/
theorem existLevel_inventAll (side : BookSide P isSell) (id : ℤ) (added : List (P × ℤ))
    (key : P) :
    (side.inventAll id added).existLevel key = true ↔ side.existLevel key = true ∨
      ∃ (i : Nat) (qty : ℤ), added[i]? = some (key, qty) ∧ side.existOrder (id + i) = false := by
  induction added generalizing side id with
  | nil => simp [inventAll]
  | cons piece added ih =>
      obtain ⟨price, amount⟩ := piece
      rw [inventAll, ih, existLevel_invent, or_assoc]
      apply or_congr_right
      constructor
      · rintro (⟨rfl, free⟩ | ⟨i, qty, at?, free⟩)
        · exact ⟨0, amount, rfl, by simpa using free⟩
        · refine ⟨i + 1, qty, at?, ?_⟩
          have shifted : id + ((i + 1 : Nat) : ℤ) = id + 1 + i := by
            push_cast
            omega
          rw [shifted, Bool.eq_false_iff]
          exact fun rests => Bool.eq_false_iff.mp free
            ((existOrder_invent side id price amount _).mpr (Or.inl rests))
      · rintro ⟨i, qty, at?, free⟩
        cases i with
        | zero =>
            cases at?
            exact Or.inl ⟨rfl, by simpa using free⟩
        | succ i =>
            refine Or.inr ⟨i, qty, at?, ?_⟩
            have shifted : id + ((i + 1 : Nat) : ℤ) = id + 1 + i := by
              push_cast
              omega
            rw [shifted, Bool.eq_false_iff] at free
            rw [Bool.eq_false_iff, Ne, existOrder_invent]
            rintro (rests | same)
            · exact free rests
            · omega

theorem existOrder_of_fillGroups {id : ℤ}
    (rests : (side.fillGroups groups).existOrder id = true) : side.existOrder id = true := by
  induction groups generalizing side with
  | nil => exact rests
  | cons group groups ih => exact SortedMap.isSome_of_foldl_erase (ih rests)

/-- The side after a reconciliation with a snapshot of distinct prices. -/
def reconciled (side : BookSide P isSell) (snapshot : L2SnapshotSide P) : BookSide P isSell :=
  (side.comparedSide snapshot).fillGroups (side.removals snapshot)

/-- A price of the snapshot that is not lowered is left to the first pass. -/
theorem not_mem_removals {snapshot : L2SnapshotSide P} {l2Level : L2PriceLevel P}
    (distinct : (snapshot.map L2PriceLevel.price).Nodup) (mem : l2Level ∈ snapshot)
    (notLess : side.quantityAt l2Level.price ≤ l2Level.quantity) :
    l2Level.price ∉ (side.removals snapshot).map Prod.fst := by
  intro keyMem
  obtain ⟨group, groupMem, keyEq⟩ := List.mem_map.mp keyMem
  rcases List.mem_append.mp groupMem with lowered | missing
  · obtain ⟨other, otherMem, less, rfl⟩ := mem_lowerings.mp lowered
    obtain rfl := List.inj_on_of_nodup_map distinct otherMem mem keyEq
    omega
  · obtain ⟨entry, -, absent, rfl⟩ := mem_dropped.mp missing
    exact absent (keyEq ▸ List.mem_map_of_mem mem)

/-- A lowered level stays: less is taken from it than it holds. -/
theorem Valid.existLevel_lowered {snapshot : L2SnapshotSide P}
    (valid : side.Valid {gap | 0 ≤ gap}) (distinct : (snapshot.map L2PriceLevel.price).Nodup)
    {l2Level : L2PriceLevel P} (mem : l2Level ∈ snapshot) (pos : 0 < l2Level.quantity)
    (less : l2Level.quantity < side.quantityAt l2Level.price) :
    (side.reconciled snapshot).existLevel l2Level.price = true := by
  have group : (l2Level.price, side.quantityAt l2Level.price - l2Level.quantity) ∈
      side.removals snapshot :=
    List.mem_append_left _ (mem_lowerings.mpr ⟨l2Level, mem, less, rfl⟩)
  have same := find?_comparedSide_of_le distinct mem less.le
  have kept := find?_fillGroups_of_mem (side.comparedSide snapshot) (removals_nodup distinct) group
  cases found : side.levels.find? l2Level.price with
  | none =>
      have nothing := quantityAt_of_none found
      omega
  | some level =>
      have counted := valid.counted_ofOrders (find?_ofOrders valid.linked found)
      have left : fillFront (side.quantityAt l2Level.price - l2Level.quantity)
          (side.ordersAt l2Level.price) ≠ [] := by
        apply fillFront_ne_nil (sub_pos.mpr less).le
        rw [Set.mem_ofPred_eq] at counted
        omega
      rw [find?_fillLevel_self, ordersAt_congr same, if_neg left] at kept
      rw [existLevel, reconciled, kept]
      rfl

/-- A level that the snapshot does not show is gone. -/
theorem Valid.existLevel_missing {snapshot : L2SnapshotSide P}
    (valid : (side.comparedSide snapshot).Valid slack)
    (distinct : (snapshot.map L2PriceLevel.price).Nodup)
    (missing : key ∉ snapshot.map L2PriceLevel.price) :
    (side.reconciled snapshot).existLevel key = false := by
  cases found : (side.comparedSide snapshot).levels.find? key with
  | none =>
      have elsewhere : key ∉ (side.removals snapshot).map Prod.fst := by
        intro keyMem
        obtain ⟨group, groupMem, keyEq⟩ := List.mem_map.mp keyMem
        rcases List.mem_append.mp groupMem with lowered | dropped
        · obtain ⟨l2Level, mem, -, rfl⟩ := mem_lowerings.mp lowered
          exact missing (keyEq ▸ List.mem_map_of_mem mem)
        · obtain ⟨entry, entryMem, -, rfl⟩ := mem_dropped.mp dropped
          have present : (side.comparedSide snapshot).levels.find? key = some entry.2 :=
            keyEq ▸ SortedMap.find?_eq_some_iff.mpr entryMem
          rw [found] at present
          cases present
      simp [existLevel, reconciled, find?_fillGroups_of_not_mem _ elsewhere, found]
  | some level =>
      have group : (key, totalRemaining level.orders) ∈ side.removals snapshot :=
        List.mem_append_right _ (mem_dropped.mpr
          ⟨_, SortedMap.find?_eq_some_iff.mp found, missing, rfl⟩)
      have kept := find?_fillGroups_of_mem (side.comparedSide snapshot) (removals_nodup distinct)
        group
      have emptied : fillFront (totalRemaining level.orders)
          ((side.comparedSide snapshot).ordersAt key) = [] := by
        apply fillFront_eq_nil (valid.allRemain key)
        rw [ordersAt_of_find? found]
      rw [find?_fillLevel_self, if_pos emptied] at kept
      rw [existLevel, reconciled, kept]
      rfl

/-- The levels after a reconciliation are those of the snapshot, as far as the
first pass could add them. -/
theorem Valid.existLevel_reconciled [Zero P] {snapshot : L2SnapshotSide P}
    (valid : side.Valid {gap | 0 ≤ gap})
    (positive : ∀ l2Level ∈ snapshot, 0 < l2Level.quantity)
    (distinct : (snapshot.map L2PriceLevel.price).Nodup) :
    (side.reconciled snapshot).existLevel key = true ↔
      key ∈ snapshot.map L2PriceLevel.price ∧
        (side.comparedSide snapshot).existLevel key = true := by
  by_cases shown : key ∈ snapshot.map L2PriceLevel.price
  · obtain ⟨l2Level, mem, rfl⟩ := List.mem_map.mp shown
    by_cases less : l2Level.quantity < side.quantityAt l2Level.price
    · have stays := valid.existLevel_lowered distinct mem (positive l2Level mem) less
      have same := find?_comparedSide_of_le distinct mem less.le
      have stood : (side.comparedSide snapshot).existLevel l2Level.price = true := by
        rw [existLevel, same]
        cases found : side.levels.find? l2Level.price with
        | none =>
            have nothing := quantityAt_of_none found
            have pos := positive l2Level mem
            omega
        | some level => rfl
      exact iff_of_true stays ⟨shown, stood⟩
    · have untouched := find?_fillGroups_of_not_mem (side.comparedSide snapshot)
        (not_mem_removals distinct mem (not_lt.mp less))
      simp [existLevel, reconciled, untouched, shown]
  · have gone := (valid.comparedSide zero_mem_nonneg snapshot).existLevel_missing distinct shown
    simp [gone, shown]

end Reading

/-! ### The whole call -/

section Call

variable [Zero P] {side : BookSide P isSell} {snapshot : L2SnapshotSide P}

/-- While snapshots are expected, only the queue can change. -/
theorem processL2Snapshot_expecting (expecting : side.l2SnapQueue ≠ [])
    (snapshot : L2SnapshotSide P) :
    ∃ queue, side.processL2Snapshot snapshot = .ok ({ side with l2SnapQueue := queue }, []) := by
  cases queueEq : side.l2SnapQueue with
  | nil => exact (expecting queueEq).elim
  | cons expected later =>
      by_cases arrived : expected = snapshot
      · exact ⟨later, by simp [processL2Snapshot, queueEq, arrived]⟩
      · refine ⟨side.l2SnapQueue, ?_⟩
        have unchanged : side.processL2Snapshot snapshot = .ok (side, []) := by
          simp [processL2Snapshot, queueEq, arrived]
        exact unchanged

theorem processL2Snapshot_reconciles (idle : side.l2SnapQueue = []) :
    side.processL2Snapshot snapshot = side.reconcile snapshot := by
  simp [processL2Snapshot, idle]

theorem Valid.processL2Snapshot_distinct (valid : side.Valid slack) (zeroMem : 0 ∈ slack)
    (positive : ∀ l2Level ∈ snapshot, 0 < l2Level.quantity)
    (distinct : (snapshot.map L2PriceLevel.price).Nodup) :
    ∃ final events, side.processL2Snapshot snapshot = .ok (final, events) ∧
      final.Valid slack := by
  by_cases idle : side.l2SnapQueue = []
  · have comparedValid := valid.comparedSide zeroMem snapshot
    exact ⟨_, _, (processL2Snapshot_reconciles idle).trans
      (valid.reconcile_eq zeroMem positive distinct),
      comparedValid.fillGroups comparedValid.removals_nonneg⟩
  · obtain ⟨queue, returned⟩ := processL2Snapshot_expecting idle snapshot
    exact ⟨_, _, returned, valid.congr rfl rfl (valid.ledgers.congr rfl rfl)⟩

theorem Valid.processL2Snapshot (valid : side.Valid slack) (zeroMem : 0 ∈ slack)
    (widens : Widens slack) (positive : ∀ l2Level ∈ snapshot, 0 < l2Level.quantity)
    {final : BookSide P isSell} {events : OrderInfoVec P}
    (returned : side.processL2Snapshot snapshot = .ok (final, events)) : final.Valid slack := by
  by_cases idle : side.l2SnapQueue = []
  · rw [processL2Snapshot_reconciles idle] at returned
    exact valid.reconcile zeroMem widens positive returned
  · obtain ⟨queue, expected⟩ := processL2Snapshot_expecting idle snapshot
    rw [expected] at returned
    cases returned
    exact valid.congr rfl rfl (valid.ledgers.congr rfl rfl)

end Call

end OrderBook.BookSide
