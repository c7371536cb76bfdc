import OrderBook.SideUpdates

/-!
# Reconciling a side with a snapshot

The first pass of `processL2Snapshot` invents orders where the snapshot shows
more than the book and lists front orders where it shows less, the second one
lists the orders of levels that the snapshot lacks, and the third one removes
what is listed.  The first part follows the passes for any snapshot.  When the
prices of the snapshot are distinct, no order is listed twice, and the passes
can be written down: invented orders are appended to their levels, and each
level with too much is filled from the front.
-/

namespace OrderBook.BookSide

open FueledLoop

variable {P : Type} [LinearOrder P] {isSell : Bool} {slack : Set ℤ}

/-! ### Inventing orders -/

/-- The effect of `addOrder` on an order of this side. -/
def withOrder (side : BookSide P isSell) (order : Order P) : BookSide P isSell :=
  if side.existOrder order.odid then side
  else
    { side with
      levels := putOrders side.levels order.price
        (side.quantityAt order.price + order.getRemainingQuantity)
        (side.ordersAt order.price ++ [order])
      orderMap := side.orderMap.insert order.odid ⟨order.price, order.odid⟩ }

theorem existOrder_withOrder {side : BookSide P isSell} {order : Order P} {id : ℤ}
    (rests : (side.withOrder order).existOrder id = true) :
    side.existOrder id = true ∨ id = order.odid := by
  unfold withOrder at rests
  split at rests
  · exact Or.inl rests
  · by_cases same : id = order.odid
    · exact Or.inr same
    · rw [existOrder, SortedMap.find?_insert, if_neg same] at rests
      exact Or.inl rests

theorem ordersAt_withOrder (side : BookSide P isSell) (order : Order P) (key : P) :
    (side.withOrder order).ordersAt key =
      if key = order.price ∧ side.existOrder order.odid = false then
        side.ordersAt key ++ [order]
      else side.ordersAt key := by
  cases exists_ : side.existOrder order.odid with
  | true => simp [withOrder, exists_]
  | false =>
      rw [withOrder, if_neg (by rw [exists_]; exact Bool.false_ne_true),
        ordersAt_putOrders rfl]
      by_cases same : key = order.price
      · simp [same]
      · simp [same]

/-- Expect liquidity at a price and invent an order for it. -/
def invent (side : BookSide P isSell) (id : ℤ) (price : P) (qty : ℤ) : BookSide P isSell :=
  ({ side with pendingLiqAddQty := credit side.pendingLiqAddQty price qty } :
    BookSide P isSell).withOrder (Order.new id isSell qty price)

/-- Under an id that rests nothing is added, but the liquidity is expected. -/
theorem invent_of_exist {side : BookSide P isSell} {id : ℤ}
    (rests : side.existOrder id = true) (price : P) (qty : ℤ) :
    side.invent id price qty =
      { side with pendingLiqAddQty := credit side.pendingLiqAddQty price qty } :=
  if_pos rests

theorem invent_of_free {side : BookSide P isSell} {id : ℤ}
    (free : side.existOrder id = false) (price : P) (qty : ℤ) :
    side.invent id price qty =
      { side with
        levels := putOrders side.levels price (side.quantityAt price + qty)
          (side.ordersAt price ++ [Order.new id isSell qty price])
        orderMap := side.orderMap.insert id ⟨price, id⟩
        pendingLiqAddQty := credit side.pendingLiqAddQty price qty } := by
  have notRests : ¬ side.existOrder id = true := by simp [free]
  apply (if_neg notRests).trans
  rw [Order.remaining_new]
  rfl

theorem pendingLiqAddQty_invent (side : BookSide P isSell) (id : ℤ) (price : P) (qty : ℤ) :
    (side.invent id price qty).pendingLiqAddQty = credit side.pendingLiqAddQty price qty := by
  unfold invent withOrder
  split
  · rfl
  · rfl

theorem mem_ordersAt_invent {side : BookSide P isSell} {id qty : ℤ} {price key : P}
    {order : Order P} (mem : order ∈ side.ordersAt key) :
    order ∈ (side.invent id price qty).ordersAt key := by
  rw [invent, ordersAt_withOrder]
  split
  · exact List.mem_append_left _ mem
  · exact mem

/-! ### Listing orders -/

/-- Every listed entry names a resting order and a positive quantity. -/
def Listed (side : BookSide P isSell) (pending : List (Order P × ℤ)) : Prop :=
  ∀ entry ∈ pending, entry.1 ∈ side.ordersAt entry.1.price ∧ 0 < entry.2

theorem Valid.listed_fills {side : BookSide P isSell} (valid : side.Valid slack) {key : P}
    {qty : ℤ} (nonneg : 0 ≤ qty) : side.Listed (fills qty (side.ordersAt key)) := by
  rintro ⟨order, piece⟩ mem
  obtain ⟨orderMem, pos, -⟩ := QueueFill.mem_pieces (valid.allRemain key) nonneg mem
  exact ⟨by rwa [valid.linked.order_price orderMem], pos⟩

theorem Valid.listed_missing {side : BookSide P isSell} (valid : side.Valid slack)
    (snapshot : L2SnapshotSide P) : side.Listed (side.missingOrders snapshot) := by
  intro entry mem
  obtain ⟨⟨key, level⟩, levelMem, listed⟩ := List.mem_flatMap.mp mem
  split at listed
  · cases listed
  · obtain ⟨order, orderMem, rfl⟩ := List.mem_map.mp listed
    have atKey : order ∈ side.ordersAt key := by
      rwa [ordersAt_of_find? (SortedMap.find?_eq_some_iff.mpr levelMem)]
    exact ⟨by rwa [valid.linked.order_price atKey], valid.allRemain key order atKey⟩

/-! ### What the third pass keeps -/

/-- A slack that may be widened. -/
def Widens (slack : Set ℤ) : Prop := ∀ gap ∈ slack, ∀ qty : ℤ, 0 ≤ qty → gap + qty ∈ slack

theorem zero_mem_nonneg : (0 : ℤ) ∈ {gap : ℤ | 0 ≤ gap} := by simp

theorem widens_nonneg : Widens {gap | 0 ≤ gap} := by
  intro gap gapNonneg qty qtyNonneg
  simp only [Set.mem_ofPred_eq] at gapNonneg ⊢
  omega

theorem Valid.lowerQuantity {side : BookSide P isSell} (valid : side.Valid slack)
    (widens : Widens slack) {key : P} (nonempty : side.ordersAt key ≠ []) {qty : ℤ}
    (nonneg : 0 ≤ qty) :
    ({ side with
        levels := putOrders side.levels key (side.quantityAt key - qty) (side.ordersAt key) } :
      BookSide P isSell).Valid slack := by
  refine valid.put (valid.linked.put_sameIds rfl rfl
    (fun other mem => valid.linked.order_price mem)
    (fun other mem => valid.linked.order_isSell mem) rfl) rfl
    (fun other mem => valid.isOpen mem) ?_ (valid.ledgers.congr rfl rfl)
  intro _
  have wider : totalRemaining (side.ordersAt key) - (side.quantityAt key - qty) =
      totalRemaining (side.ordersAt key) - side.quantityAt key + qty := by
    omega
  obtain ⟨order, mem⟩ := List.exists_mem_of_ne_nil _ nonempty
  obtain ⟨quantity, found⟩ := valid.linked.exists_level mem
  have counted := valid.counted_ofOrders (find?_ofOrders valid.linked found)
  rw [wider]
  exact widens _ counted qty nonneg

/-- Between two steps of the third pass: an order that still rests and is still
listed is the listed order with what the pass has filled of it so far. -/
structure RemovalInvariant (slack : Set ℤ) (later : List ((Order P × ℤ) × Nat))
    (state : RemovalState P isSell) : Prop where
  valid : state.side.Valid slack
  positive : ∀ entry ∈ later, 0 < entry.1.2
  current : ∀ entry ∈ later, ∀ {key : P} {order : Order P}, order ∈ state.side.ordersAt key →
    order.odid = entry.1.1.odid → order = entry.1.1.fill (state.filled order.odid)

namespace RemovalInvariant

variable {later : List ((Order P × ℤ) × Nat)} {state : RemovalState P isSell} {key : P}
  {qty : ℤ}

theorem tail {entry : (Order P × ℤ) × Nat}
    (holds : RemovalInvariant slack (entry :: later) state) :
    RemovalInvariant slack later state where
  valid := holds.valid
  positive other mem := holds.positive other (List.mem_cons_of_mem _ mem)
  current other mem := holds.current other (List.mem_cons_of_mem _ mem)

/-- Filling an order that has left the book. -/
theorem fillAbsent (holds : RemovalInvariant slack later state) (widens : Widens slack)
    {id : ℤ} (absent : ∀ key, id ∉ ids (state.side.ordersAt key))
    (nonempty : state.side.ordersAt key ≠ []) (nonneg : 0 ≤ qty) (events : OrderInfoVec P)
    (amount : ℤ) :
    RemovalInvariant slack later
      ⟨{ state.side with
          levels := putOrders state.side.levels key (state.side.quantityAt key - qty)
            (state.side.ordersAt key) },
        events, Function.update state.filled id amount⟩ where
  valid := holds.valid.lowerQuantity widens nonempty nonneg
  positive := holds.positive
  current := by
    intro entry mem other order orderMem sameId
    have resting : order ∈ state.side.ordersAt other := by
      rw [ordersAt_putOrders rfl] at orderMem
      split at orderMem
      · next same => rwa [same]
      · exact orderMem
    have different : order.odid ≠ id := by
      rintro rfl
      exact absent other (List.mem_map_of_mem resting)
    simp only [Function.update_of_ne different]
    exact holds.current entry mem resting sameId

end RemovalInvariant

/-! ### The first pass -/

variable [Zero P]

theorem removeOrder_frame (side : BookSide P isSell) (id : ℤ) :
    (side.removeOrder id).pendingLiqRemoveQty = side.pendingLiqRemoveQty := by
  unfold removeOrder
  split <;> rfl

theorem removeOrder_addLedger (side : BookSide P isSell) (id : ℤ) :
    (side.removeOrder id).pendingLiqAddQty = side.pendingLiqAddQty := by
  unfold removeOrder
  split <;> rfl

theorem Linked.addOrder_eq_withOrder {side : BookSide P isSell} (linked : side.Linked)
    {order : Order P} (isSellEq : order.isSell = isSell) :
    side.addOrder order = .ok (side.withOrder order) := by
  cases exists_ : side.existOrder order.odid with
  | true => rw [addOrder_of_exist isSellEq exists_, withOrder, if_pos exists_]
  | false =>
      rw [linked.addOrder_eq isSellEq exists_, withOrder,
        if_neg (by rw [exists_]; exact Bool.false_ne_true)]

theorem Valid.withOrder {side : BookSide P isSell} (valid : side.Valid slack)
    (zeroMem : 0 ∈ slack) {order : Order P} (isSellEq : order.isSell = isSell)
    (isOpen : order.IsOpen) : (side.withOrder order).Valid slack :=
  valid.addOrder zeroMem isOpen (valid.linked.addOrder_eq_withOrder isSellEq)

theorem Valid.invent {side : BookSide P isSell} (valid : side.Valid slack)
    (zeroMem : 0 ∈ slack) (id : ℤ) (price : P) {qty : ℤ} (pos : 0 < qty) :
    (side.invent id price qty).Valid slack :=
  (valid.creditAdd price pos.le).withOrder zeroMem rfl ⟨le_refl 0, pos⟩

theorem Linked.addLiquidity_eq {state : ReconcileState P isSell} (linked : state.side.Linked)
    (qty : ℤ) (price : P) :
    addLiquidity state qty price = .ok { state with
      side := state.side.invent state.fakeOrderId price qty
      orderEvents := state.orderEvents ++ [⟨.add, -1, isSell, qty, price⟩]
      fakeOrderId := state.fakeOrderId + 1 } := by
  have creditedLinked : ({ state.side with
      pendingLiqAddQty := credit state.side.pendingLiqAddQty price qty } :
        BookSide P isSell).Linked := linked.congr rfl rfl
  simp only [addLiquidity, creditedLinked.addOrder_eq_withOrder
    (show (Order.new state.fakeOrderId isSell qty price).isSell = isSell from rfl), ok_bind]
  rfl

/-- One step of the first pass, by the quantity that the book shows at the price. -/
theorem Linked.reconcileLevel_eq {state : ReconcileState P isSell} (linked : state.side.Linked)
    {l2Level : L2PriceLevel P} (pos : 0 < l2Level.quantity) :
    reconcileLevel state l2Level = .ok
      (if state.side.quantityAt l2Level.price < l2Level.quantity then
        { state with
          side := state.side.invent state.fakeOrderId l2Level.price
            (l2Level.quantity - state.side.quantityAt l2Level.price)
          orderEvents := state.orderEvents ++ [⟨.add, -1, isSell,
            l2Level.quantity - state.side.quantityAt l2Level.price, l2Level.price⟩]
          fakeOrderId := state.fakeOrderId + 1 }
      else
        { state with
          pendingOrders := state.pendingOrders ++
            fills (state.side.quantityAt l2Level.price - l2Level.quantity)
              (state.side.ordersAt l2Level.price) }) := by
  cases found : state.side.levels.find? l2Level.price with
  | none =>
      have nothing := quantityAt_of_none found
      simp only [reconcileLevel, found, linked.addLiquidity_eq, nothing, if_pos pos, sub_zero]
  | some level =>
      have quantityEq : state.side.quantityAt l2Level.price = level.quantity := by
        simp [quantityAt, found]
      simp only [reconcileLevel, found, quantityEq, linked.addLiquidity_eq]
      by_cases more : level.quantity < l2Level.quantity
      · rw [if_neg (by omega), if_pos more, if_pos more]
      · rw [if_neg more, if_neg more]
        by_cases less : l2Level.quantity < level.quantity
        · rw [if_pos less, ordersAt_of_find? found]
          rfl
        · have same : level.quantity - l2Level.quantity = 0 := by omega
          rw [if_neg less, same, fills_zero, List.append_nil]
          rfl

/-! ### Any snapshot -/

/-- The first pass keeps the invariant. -/
theorem Valid.firstPass {side : BookSide P isSell} (valid : side.Valid slack)
    (zeroMem : 0 ∈ slack) {snapshot : L2SnapshotSide P}
    (positive : ∀ l2Level ∈ snapshot, 0 < l2Level.quantity)
    {compared : ReconcileState P isSell}
    (passed : snapshot.foldlM reconcileLevel ⟨side, [], [], 100⟩ = .ok compared) :
    compared.side.Valid slack ∧ compared.side.Listed compared.pendingOrders := by
  have kept := foldlM_invariant (fun (later : L2SnapshotSide P) (state : ReconcileState P isSell) =>
    (∀ l2Level ∈ later, 0 < l2Level.quantity) ∧ state.side.Valid slack ∧
      state.side.Listed state.pendingOrders) ?_
    ⟨positive, valid, by simp [Listed]⟩ passed
  · exact kept.2
  · rintro l2Level later state following ⟨positive, valid, listed⟩ stepped
    have pos := positive l2Level (by simp)
    refine ⟨fun other mem => positive other (by simp [mem]), ?_⟩
    rw [valid.linked.reconcileLevel_eq pos, Except.ok.injEq] at stepped
    subst stepped
    split
    · refine ⟨valid.invent zeroMem _ _ (by omega), ?_⟩
      intro entry mem
      exact ⟨mem_ordersAt_invent (listed entry mem).1, (listed entry mem).2⟩
    · refine ⟨valid, ?_⟩
      intro entry mem
      rcases List.mem_append.mp mem with old | new
      · exact listed entry old
      · exact valid.listed_fills (by omega) entry new

/-! ### The third pass -/

/-- What a fill that passes its assertion writes. -/
theorem Linked.fillLevelOrder_ok {side next : BookSide P isSell} (linked : side.Linked)
    {key : P} {order : Order P} {qty : ℤ} (present : side.existLevel key = true)
    (filled : side.fillLevelOrder key order qty = .ok next) :
    side.ordersAt key ≠ [] ∧ next = { side with
      levels := putOrders side.levels key (side.quantityAt key - qty)
        ((side.ordersAt key).map fun other =>
          if other.odid = order.odid then other.fill qty else other) } := by
  obtain ⟨level, found⟩ := Option.isSome_iff_exists.mp present
  have atKey := find?_ofOrders linked found
  have nonempty : side.ordersAt key ≠ [] := by
    simpa [ordersAt_of_find? found] using (linked.level found).nonempty
  simp only [fillLevelOrder, getL3Level_of_find? atKey, L3PriceLevel.fillOrder, bind_eq_ok,
    L3PriceLevel.ofOrders_orders, L3PriceLevel.ofOrders_quantity, pure_eq_ok,
    Except.ok.injEq] at filled
  obtain ⟨_, ⟨_, _, rfl⟩, rfl⟩ := filled
  refine ⟨nonempty, ?_⟩
  rw [putOrders, if_neg (by simpa using nonempty)]
  simp only [L3PriceLevel.ofOrders, List.length_map]

/-- Filling an order that has already left its level only lowers the quantity
field of the level. -/
theorem Linked.fillLevelOrder_absent {side next : BookSide P isSell} (linked : side.Linked)
    {key : P} {order : Order P} {qty : ℤ} (present : side.existLevel key = true)
    (absent : order.odid ∉ ids (side.ordersAt key))
    (filled : side.fillLevelOrder key order qty = .ok next) :
    side.ordersAt key ≠ [] ∧ next = { side with
      levels := putOrders side.levels key (side.quantityAt key - qty) (side.ordersAt key) } := by
  obtain ⟨nonempty, nextEq⟩ := linked.fillLevelOrder_ok present filled
  have nobody : ((side.ordersAt key).map fun other =>
      if other.odid = order.odid then other.fill qty else other) = side.ordersAt key := by
    conv_rhs => rw [← List.map_id (side.ordersAt key)]
    apply List.map_congr_left
    intro other otherMem
    have different : other.odid ≠ order.odid :=
      fun same => absent (same ▸ List.mem_map_of_mem otherMem)
    rw [if_neg different, id]
  rw [nobody] at nextEq
  exact ⟨nonempty, nextEq⟩

namespace RemovalInvariant

variable {later : List ((Order P × ℤ) × Nat)} {state : RemovalState P isSell} {key : P}
  {qty : ℤ}

theorem removeOrder (holds : RemovalInvariant slack later state) (id : ℤ)
    (events : OrderInfoVec P) :
    RemovalInvariant slack later ⟨state.side.removeOrder id, events, state.filled⟩ where
  valid := holds.valid.removeOrder id
  positive := holds.positive
  current entry mem _ _ orderMem sameId :=
    holds.current entry mem (holds.valid.linked.mem_removeOrder.mp orderMem).1 sameId

/-- Filling a part of an order that rests. -/
theorem fillResting (holds : RemovalInvariant slack later state) {order : Order P}
    (orderMem : order ∈ state.side.ordersAt key) (nonneg : 0 ≤ qty)
    (short : qty < order.getRemainingQuantity) (events : OrderInfoVec P) :
    ∃ side, state.side.fillLevelOrder key order qty = .ok side ∧
      RemovalInvariant slack later ⟨side, events,
        Function.update state.filled order.odid (state.filled order.odid + qty)⟩ := by
  have linked := holds.valid.linked
  obtain ⟨quantity, found⟩ := linked.exists_level orderMem
  obtain ⟨front, back, split⟩ := List.append_of_mem orderMem
  have nodup := linked.nodup key
  rw [split] at found nodup
  have valid : ({ state.side with
      levels := putOrders state.side.levels key (quantity - qty)
        (front ++ order.fill qty :: back) } : BookSide P isSell).Valid slack := by
    refine holds.valid.replaceOrder found rfl rfl rfl rfl rfl
      ((holds.valid.isOpen orderMem).fill nonneg (Or.inr short)) ?_
      (holds.valid.ledgers.congr rfl rfl)
    rw [Order.remaining_fill]
    omega
  refine ⟨_, fillLevelOrder_eq found nodup short.le, valid, holds.positive, ?_⟩
  intro entry mem other resting restingMem sameId
  have filledMem : order.fill qty ∈ BookSide.ordersAt ({ state.side with
      levels := putOrders state.side.levels key (quantity - qty)
        (front ++ order.fill qty :: back) } : BookSide P isSell) key := by
    rw [ordersAt_putOrders rfl, if_pos rfl]
    simp
  by_cases same : resting.odid = order.odid
  · obtain rfl := valid.linked.order_eq restingMem filledMem same
    have current := holds.current entry mem orderMem sameId
    simp only [Order.fill_odid, Function.update_self]
    rw [← Order.fill_fill, ← current]
  · have old : resting ∈ state.side.ordersAt other := by
      rw [ordersAt_putOrders rfl] at restingMem
      split at restingMem
      · next sameKey =>
          rw [sameKey, split]
          simp only [List.mem_append, List.mem_cons] at restingMem ⊢
          rcases restingMem with front | rfl | back
          · exact Or.inl front
          · exact (same rfl).elim
          · exact Or.inr (Or.inr back)
      · exact restingMem
    simp only [Function.update_of_ne same]
    exact holds.current entry mem old sameId

end RemovalInvariant

/-- The event of one entry of the third pass. -/
def pendingEvent (isSell : Bool) (num : Nat) (entry : (Order P × ℤ) × Nat) : OrderInfo P :=
  ⟨if entry.2 < num then .exec else .cancel, entry.1.1.odid, isSell, entry.1.2,
    entry.1.1.price⟩

theorem removePending_eq (num : Nat) (state : RemovalState P isSell) (listed : Order P)
    (qty : ℤ) (index : Nat) :
    removePending num state ((listed, qty), index) =
      if (listed.fill (state.filled listed.odid)).getRemainingQuantity = qty then
        .ok { state with
          side := state.side.removeOrder listed.odid
          orderEvents := state.orderEvents ++ [pendingEvent isSell num ((listed, qty), index)] }
      else if state.side.existLevel listed.price then do
        let side ← state.side.fillLevelOrder listed.price
          (listed.fill (state.filled listed.odid)) qty
        return {
          side := side
          orderEvents := state.orderEvents ++ [pendingEvent isSell num ((listed, qty), index)]
          filled := Function.update state.filled listed.odid
            (state.filled listed.odid + qty) }
      else .ok { state with
        orderEvents := state.orderEvents ++
          [pendingEvent isSell num ((listed, qty), index)] } :=
  rfl

theorem RemovalInvariant.step {num : Nat} (widens : Widens slack)
    {entry : (Order P × ℤ) × Nat} {later : List ((Order P × ℤ) × Nat)}
    {state following : RemovalState P isSell}
    (holds : RemovalInvariant slack (entry :: later) state)
    (stepped : removePending num state entry = .ok following) :
    RemovalInvariant slack later following := by
  obtain ⟨⟨listed, qty⟩, index⟩ := entry
  have pos : 0 < qty := holds.positive _ List.mem_cons_self
  rw [removePending_eq] at stepped
  by_cases whole : (listed.fill (state.filled listed.odid)).getRemainingQuantity = qty
  · rw [if_pos whole] at stepped
    cases stepped
    exact holds.tail.removeOrder _ _
  · rw [if_neg whole] at stepped
    by_cases present : state.side.existLevel listed.price = true
    · rw [if_pos present] at stepped
      simp only [bind_eq_ok, pure_eq_ok, Except.ok.injEq] at stepped
      obtain ⟨side, filled, rfl⟩ := stepped
      have restsHere : ∀ {key : P} {order : Order P}, order ∈ state.side.ordersAt key →
          order.odid = listed.odid →
            order = listed.fill (state.filled listed.odid) ∧ key = listed.price := by
        intro key order mem sameId
        have orderEq := holds.current _ List.mem_cons_self mem sameId
        rw [sameId] at orderEq
        refine ⟨orderEq, ?_⟩
        rw [← holds.valid.linked.order_price mem, orderEq]
        rfl
      by_cases rests : listed.odid ∈ ids (state.side.ordersAt listed.price)
      · obtain ⟨order, orderMem, sameId⟩ := List.mem_map.mp rests
        obtain ⟨rfl, -⟩ := restsHere orderMem sameId
        have fits : qty ≤ (listed.fill (state.filled listed.odid)).getRemainingQuantity := by
          simp only [fillLevelOrder, L3PriceLevel.fillOrder, bind_eq_ok,
            assertThat_eq_ok] at filled
          obtain ⟨_, ⟨_, fits, _⟩, _⟩ := filled
          exact fits
        obtain ⟨next, filledNext, kept⟩ :=
          holds.tail.fillResting orderMem pos.le (by omega) _
        rw [filled, Except.ok.injEq] at filledNext
        rw [filledNext]
        exact kept
      · have absent : ∀ key, listed.odid ∉ ids (state.side.ordersAt key) := by
          intro key mem
          obtain ⟨order, orderMem, sameId⟩ := List.mem_map.mp mem
          obtain ⟨-, rfl⟩ := restsHere orderMem sameId
          exact rests mem
        obtain ⟨nonempty, rfl⟩ :=
          holds.valid.linked.fillLevelOrder_absent present (by simpa using rests) filled
        exact holds.tail.fillAbsent widens absent nonempty pos.le _ _
    · rw [if_neg present] at stepped
      cases stepped
      exact ⟨holds.tail.valid, holds.tail.positive, holds.tail.current⟩

theorem fst_mem_of_mem_zipIdx {α : Type*} {items : List α} {item : α × Nat}
    (mem : item ∈ items.zipIdx) : item.1 ∈ items := by
  have mapped := List.mem_map_of_mem (f := Prod.fst) mem
  rwa [List.zipIdx_map_fst] at mapped

/-- Reconciliation keeps the invariant, up to a slack that may widen, whatever
positive snapshot it meets. -/
theorem Valid.reconcile {side final : BookSide P isSell} (valid : side.Valid slack)
    (zeroMem : 0 ∈ slack) (widens : Widens slack) {snapshot : L2SnapshotSide P}
    (positive : ∀ l2Level ∈ snapshot, 0 < l2Level.quantity) {events : OrderInfoVec P}
    (returned : side.reconcile snapshot = .ok (final, events)) : final.Valid slack := by
  simp only [BookSide.reconcile, bind_eq_ok, pure_eq_ok, Except.ok.injEq] at returned
  obtain ⟨compared, passed, removed, removals, finalEq⟩ := returned
  cases finalEq
  obtain ⟨comparedValid, listed⟩ := valid.firstPass zeroMem positive passed
  have allListed : compared.side.Listed
      (compared.pendingOrders ++ compared.side.missingOrders snapshot) := by
    intro entry mem
    rcases List.mem_append.mp mem with lowered | missing
    · exact listed entry lowered
    · exact comparedValid.listed_missing snapshot entry missing
  have start : RemovalInvariant slack
      (compared.pendingOrders ++ compared.side.missingOrders snapshot).zipIdx
      ⟨compared.side, compared.orderEvents, fun _ => 0⟩ := by
    refine ⟨comparedValid, ?_, ?_⟩
    · intro entry mem
      exact (allListed entry.1 (fst_mem_of_mem_zipIdx mem)).2
    · intro entry mem key order orderMem sameId
      have listedMem := (allListed entry.1 (fst_mem_of_mem_zipIdx mem)).1
      rw [Order.fill_zero]
      exact comparedValid.linked.order_eq orderMem listedMem sameId
  exact (foldlM_invariant _ (fun _ _ _ _ holds stepped => holds.step widens stepped) start
    removals).valid

end OrderBook.BookSide
