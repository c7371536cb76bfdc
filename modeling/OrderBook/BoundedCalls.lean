import OrderBook.QuantityBounds

/-!
# Calls on a bounded side

Every call of a message handler on a bounded side stores only quantities in the range:
what it adds to a level or to a ledger is bounded by the quantity of the message, and it
never takes more than there is.
-/

namespace OrderBook.BookSide

open FueledLoop

variable {P : Type} [LinearOrder P] {isSell : Bool} {bound : ℤ} {side : BookSide P isSell}
  {store : ℤ → Except Halt ℤ}

/-! ### Ledgers -/

/-- Writing a smaller entry keeps a ledger in its range, also where the entry is erased. -/
theorem lowered_within {before : P → P → Prop} [DecidableRel before]
    [IsStrictTotalOrder P before] {pending : SortedMap P ℤ before}
    (within : ∀ price, 0 ≤ qtyAt pending price ∧ qtyAt pending price ≤ bound) (rest : ℤ)
    (nonneg : 0 ≤ rest) (small : rest ≤ bound) (key erased price : P) :
    0 ≤ qtyAt (if rest = 0 then (pending.insert key rest).erase erased
        else pending.insert key rest) price ∧
      qtyAt (if rest = 0 then (pending.insert key rest).erase erased
        else pending.insert key rest) price ≤ bound := by
  have inserted : 0 ≤ qtyAt (pending.insert key rest) price ∧
      qtyAt (pending.insert key rest) price ≤ bound := by
    rw [qtyAt_insert]
    split
    · exact ⟨nonneg, small⟩
    · exact within price
  by_cases none : rest = 0
  · rw [if_pos none, qtyAt_erase]
    split
    · exact ⟨le_rfl, nonneg.trans small⟩
    · exact inserted
  · rw [if_neg none]
    exact inserted

theorem Bounded.matchPendingLiqRemove (bounded : side.Bounded bound)
    (keeps : Stored.Keeps store bound) {quantity : ℤ} (nonneg : 0 ≤ quantity) (price : P) :
    Agrees (Stored.Side.matchPendingLiqRemove store side quantity price)
      (.ok (side.matchPendingLiqRemove quantity price)) fun result =>
        result.1.Bounded bound ∧ 0 ≤ result.2 ∧ result.2 ≤ quantity := by
  unfold Stored.Side.matchPendingLiqRemove BookSide.matchPendingLiqRemove
  cases found : side.pendingLiqRemoveQty.find? price with
  | none => exact .ok ⟨bounded, le_rfl, nonneg⟩
  | some pending =>
      have pendingEq := qtyAt_of_find? found
      have pendingWithin := bounded.remove price
      rw [pendingEq] at pendingWithin
      have restNonneg : 0 ≤ pending - min pending quantity := by omega
      have restSmall : pending - min pending quantity ≤ bound := by omega
      simp only
      rw [keeps _ restNonneg restSmall, ok_bind]
      refine .ok ⟨bounded.withLedgers rfl rfl bounded.add fun other => ?_, ?_, ?_⟩
      · exact lowered_within bounded.remove _ restNonneg restSmall price price other
      · exact le_min pendingWithin.1 nonneg
      · exact min_le_right _ _

/-- The events still to come fit on top of every entry. -/
theorem creditEvents_agrees (keeps : Stored.Keeps store bound) {events : OrderInfoVec P}
    (nonneg : ∀ e ∈ events, 0 ≤ e.quantity) {pending : SortedMap P ℤ (· < ·)}
    (within : ∀ price, 0 ≤ qtyAt pending price ∧
      qtyAt pending price + (events.map OrderInfo.quantity).sum ≤ bound) :
    Agrees (events.foldlM (fun pending e =>
        if e.event = OrderEvent.exec then Stored.credit store pending e.price e.quantity
        else return pending) pending)
      (.ok (creditEvents pending events)) fun final =>
        ∀ price, 0 ≤ qtyAt final price ∧ qtyAt final price ≤ bound := by
  induction events generalizing pending with
  | nil => exact .ok fun price => by simpa using within price
  | cons e later ih =>
      have qtyNonneg := nonneg e List.mem_cons_self
      have restNonneg : ∀ other ∈ later, 0 ≤ other.quantity :=
        fun other mem => nonneg other (List.mem_cons_of_mem e mem)
      have sumNonneg := QueueFill.sum_map_nonneg restNonneg
      simp only [List.map_cons, List.sum_cons] at within
      rw [List.foldlM_cons, creditEvents_cons]
      by_cases executed : e.event = OrderEvent.exec
      · have atPrice := within e.price
        rw [if_pos executed, if_pos executed, keeps.credit atPrice.1 qtyNonneg (by omega), ok_bind]
        apply ih restNonneg
        intro price
        have atOther := within price
        rw [qtyAt_credit]
        split
        · omega
        · omega
      · rw [if_neg executed, if_neg executed, pure_eq_ok, ok_bind]
        apply ih restNonneg
        intro price
        have atOther := within price
        omega

theorem Bounded.addPendingLiqRemoveQty (bounded : side.Bounded bound)
    (keeps : Stored.Keeps store bound) {events : OrderInfoVec P}
    (nonneg : ∀ e ∈ events, 0 ≤ e.quantity)
    (small : ∀ price, qtyAt side.pendingLiqRemoveQty price +
      (events.map OrderInfo.quantity).sum ≤ bound) :
    Agrees (Stored.Side.addPendingLiqRemoveQty store side events)
      (.ok (side.addPendingLiqRemoveQty events)) fun next => next.Bounded bound :=
  (creditEvents_agrees keeps nonneg fun price =>
    ⟨bounded.remove_nonneg price, small price⟩).bind_ok
      fun kept => .ok (bounded.withLedgers rfl rfl bounded.add kept)

theorem matchPendingLiqAddBody_agrees {held : ℤ} (keeps : Stored.Keeps store bound)
    (le : held ≤ bound) {quantity : ℤ} (small : quantity ≤ bound) (price : P)
    {state : SortedMap P ℤ (PriceComparator isSell) × ℤ}
    (within : ∀ price, 0 ≤ qtyAt state.1 price ∧ qtyAt state.1 price ≤ held)
    (nonneg : 0 ≤ state.2) (covered : state.2 ≤ quantity) :
    Agrees (Stored.Side.matchPendingLiqAddBody store isSell quantity price state)
      (matchPendingLiqAddBody isSell quantity price state) fun flow =>
        (∀ price, 0 ≤ qtyAt flow.state.1 price ∧ qtyAt flow.state.1 price ≤ held) ∧
          0 ≤ flow.state.2 ∧ flow.state.2 ≤ quantity := by
  obtain ⟨pending, matched⟩ := state
  rw [Stored.Side.matchPendingLiqAddBody, matchPendingLiqAddBody]
  cases begins : pending.begin? with
  | none => exact .ok ⟨within, nonneg, covered⟩
  | some entry =>
      obtain ⟨first, entryQty⟩ := entry
      have atFirst := within first
      rw [qtyAt_of_find? (SortedMap.find?_of_begin? begins)] at atFirst
      simp only at nonneg covered ⊢
      refine .ite (fun _ => ?_) fun _ => .ok ⟨within, nonneg, covered⟩
      have taken : 0 ≤ min entryQty (quantity - matched) := le_min atFirst.1 (by omega)
      have restWithin := lowered_within within (entryQty - min entryQty (quantity - matched))
        (by omega) (by omega) first price
      rw [keeps _ (by omega) (by omega), ok_bind, keeps _ (by omega) (by omega), ok_bind,
        keeps _ (by omega) (by omega), ok_bind]
      refine .ite (fun _ => .ok ⟨restWithin, ?_, ?_⟩) fun _ => .ok ⟨restWithin, ?_, ?_⟩
      · exact add_nonneg nonneg taken
      · simp only [Flow.state]
        omega
      · exact add_nonneg nonneg taken
      · simp only [Flow.state]
        omega

theorem Bounded.matchPendingLiqAdd {held : ℤ} (bounded : side.Bounded held)
    (keeps : Stored.Keeps store bound) (le : held ≤ bound) (fuel : Nat) {quantity : ℤ}
    (nonneg : 0 ≤ quantity) (small : quantity ≤ bound) (price : P) :
    Agrees (Stored.Side.matchPendingLiqAdd store fuel side quantity price)
      (side.matchPendingLiqAdd fuel quantity price) fun result =>
        result.1.Bounded held ∧ 0 ≤ result.2 ∧ result.2 ≤ quantity := by
  refine Agrees.bind (Agrees.loop (fun state : SortedMap P ℤ (PriceComparator isSell) × ℤ =>
    (∀ price, 0 ≤ qtyAt state.1 price ∧ qtyAt state.1 price ≤ held) ∧
      0 ≤ state.2 ∧ state.2 ≤ quantity) ?_ fuel ⟨bounded.add, le_rfl, nonneg⟩) ?_
  · rintro state ⟨within, matchedNonneg, covered⟩
    exact matchPendingLiqAddBody_agrees keeps le small price within matchedNonneg covered
  · rintro last - ⟨within, matchedNonneg, covered⟩
    exact .ok ⟨bounded.withLedgers rfl rfl within bounded.remove, matchedNonneg, covered⟩

theorem Bounded.creditAdd (bounded : side.Bounded bound) {price : P} {qty : ℤ}
    (nonneg : 0 ≤ qty) (small : qtyAt side.pendingLiqAddQty price + qty ≤ bound) :
    ({ side with pendingLiqAddQty := credit side.pendingLiqAddQty price qty } :
      BookSide P isSell).Bounded bound := by
  refine bounded.withLedgers rfl rfl (fun other => ?_) bounded.remove
  have within := bounded.add other
  simp only [qtyAt_credit]
  split
  · next same =>
      subst same
      omega
  · omega

/-- A level is filled order by order: the orders still to come rest there unchanged. -/
theorem agrees_alongLevel {σ : Type} (sideOf : σ → BookSide P isSell)
    {firstStep secondStep : σ → Order P → Except Halt σ} {holds : σ → Prop} {key : P}
    (step : ∀ state order, holds state → order ∈ (sideOf state).ordersAt key →
      Agrees (firstStep state order) (secondStep state order) fun next => holds next ∧
        ∀ other ∈ (sideOf state).ordersAt key, other.odid ≠ order.odid →
          other ∈ (sideOf next).ordersAt key)
    {state : σ} (start : holds state) {orders : List (Order P)} (distinct : (ids orders).Nodup)
    (resting : ∀ order ∈ orders, order ∈ (sideOf state).ordersAt key) :
    Agrees (orders.foldlM firstStep state) (orders.foldlM secondStep state) holds := by
  refine (Agrees.foldlM (fun (later : List (Order P)) (state : σ) =>
    holds state ∧ (ids later).Nodup ∧ ∀ order ∈ later, order ∈ (sideOf state).ordersAt key) ?_
    ⟨start, distinct, resting⟩).mono fun _ kept => kept.1
  rintro order later filling ⟨fillingHolds, fillingDistinct, fillingResting⟩
  obtain ⟨fresh, laterDistinct⟩ := List.nodup_cons.mp fillingDistinct
  apply (step filling order fillingHolds (fillingResting order List.mem_cons_self)).mono
  rintro next ⟨nextHolds, others⟩
  refine ⟨nextHolds, laterDistinct, fun other mem => ?_⟩
  apply others other (fillingResting other (List.mem_cons_of_mem order mem))
  intro same
  exact fresh (same ▸ List.mem_map_of_mem mem)

/-! ### Crossing orders -/

variable [Zero P]

/-- The aggressor, the ledger and the events in the middle of an uncrossing: what remains to
be filled fits on top of every entry, and with what is filled it makes up the total. -/
structure CrossBounded (bound total : ℤ) (state : CrossState P isSell) : Prop where
  side : state.side.Bounded bound
  nonneg : 0 ≤ state.remainingQuantity
  ledger : ∀ price,
    qtyAt state.side.pendingLiqRemoveQty price + state.remainingQuantity ≤ bound
  order : state.order.Fits bound
  remaining : state.order.getRemainingQuantity = state.remainingQuantity
  events_nonneg : ∀ e ∈ state.orderEvents, 0 ≤ e.quantity
  events_sum : (state.orderEvents.map OrderInfo.quantity).sum + state.remainingQuantity = total

theorem CrossBounded.crossFill {total : ℤ} {state : CrossState P isSell}
    (holds : CrossBounded bound total state) (keeps : Stored.Keeps store bound) {key : P}
    {curOrder : Order P} (mem : curOrder ∈ state.side.ordersAt key) :
    Agrees (Stored.Side.crossFill store key state curOrder) (crossFill key state curOrder)
      fun next => CrossBounded bound total next ∧
        ∀ other ∈ state.side.ordersAt key, other.odid ≠ curOrder.odid →
          other ∈ next.side.ordersAt key := by
  refine .ite (fun _ => .ok ⟨holds, fun other otherMem _ => otherMem⟩) fun _ => ?_
  have fits := holds.side.fits mem
  have nonneg := holds.nonneg
  have curNonneg := fits.remaining_nonneg
  have room := holds.ledger curOrder.price
  have entryNonneg := holds.side.remove_nonneg curOrder.price
  have orderLe := holds.order.remaining_le
  rw [holds.remaining] at orderLe
  set qty := min state.remainingQuantity curOrder.getRemainingQuantity with qtyEq
  have qtyNonneg : 0 ≤ qty := le_min nonneg curNonneg
  have qtyLe : qty ≤ curOrder.getRemainingQuantity := min_le_right _ _
  have qtyLeRest : qty ≤ state.remainingQuantity := min_le_left _ _
  have aggressorLe : qty ≤ state.order.getRemainingQuantity := by rwa [holds.remaining]
  have filledFits := fits.fill qtyNonneg qtyLe
  rw [keeps.remaining fits, ok_bind, ← qtyEq]
  apply (holds.side.fillLevelOrder keeps mem qtyNonneg qtyLe).bind
  rintro next - ⟨nextBounded, touches⟩
  have ledgerEq : next.saveL2SnapshoSide.pendingLiqRemoveQty = state.side.pendingLiqRemoveQty :=
    touches.remove_eq
  rw [keeps _ (by omega) (by omega), ok_bind, keeps.fill fits qtyNonneg qtyLe, ok_bind,
    keeps.remaining filledFits, ok_bind, ledgerEq, keeps.credit entryNonneg qtyNonneg (by omega),
    ok_bind, keeps.fill holds.order qtyNonneg aggressorLe, ok_bind]
  simp only [ledgerEq]
  refine .ok ⟨⟨?_, ?_, ?_, ?_, ?_, ?_, ?_⟩, ?_⟩
  · refine nextBounded.withLedgers rfl rfl nextBounded.add fun price => ?_
    have within := holds.side.remove price
    have fitsAbove := holds.ledger price
    rw [qtyAt_credit]
    split
    · omega
    · omega
  · simp only
    omega
  · intro price
    have fitsAbove := holds.ledger price
    simp only [qtyAt_credit]
    split
    · omega
    · omega
  · exact holds.order.fill qtyNonneg aggressorLe
  · simp only [Order.remaining_fill, holds.remaining]
  · intro e eMem
    rcases List.mem_append.mp eMem with old | new
    · exact holds.events_nonneg e old
    · rw [List.mem_singleton.mp new]
      exact qtyNonneg
  · have sumEq := holds.events_sum
    simp only [List.map_append, List.map_cons, List.map_nil, List.sum_append, List.sum_cons,
      List.sum_nil]
    omega
  · intro other otherMem different
    exact touches.others otherMem different

theorem CrossBounded.body {total : ℤ} {state : CrossState P isSell}
    (holds : CrossBounded bound total state) (keeps : Stored.Keeps store bound) :
    Agrees (Stored.Side.processCrossedOrderBody store state) (processCrossedOrderBody state)
      fun flow => CrossBounded bound total flow.state := by
  refine .ite (fun _ => ?_) fun _ => .ok holds
  cases begins : state.side.levels.begin? with
  | none => exact .ok holds
  | some entry =>
      obtain ⟨key, level⟩ := entry
      have ordersEq := ordersAt_of_find? (SortedMap.find?_of_begin? begins)
      have nodup := holds.side.linked.nodup key
      rw [ordersEq] at nodup
      have start : CrossBounded bound total { state with ordersToRemove := [] } :=
        ⟨holds.side, holds.nonneg, holds.ledger, holds.order, holds.remaining,
          holds.events_nonneg, holds.events_sum⟩
      refine (agrees_alongLevel CrossState.side (fun _ _ holds => holds.crossFill keeps) start
        nodup fun order mem => ordersEq ▸ mem).bind ?_
      intro last _ lastHolds
      apply (lastHolds.side.removeAll keeps last.ordersToRemove).bind_ok
      rintro ⟨removed, -, removeEq⟩
      exact .ok ⟨removed, lastHolds.nonneg, fun price => removeEq ▸ lastHolds.ledger price,
        lastHolds.order, lastHolds.remaining, lastHolds.events_nonneg, lastHolds.events_sum⟩

theorem Bounded.processCrossedOrder (bounded : side.Bounded bound)
    (keeps : Stored.Keeps store bound) (fuel : Nat) {order : Order P} (fits : order.Fits bound)
    (room : ∀ price, qtyAt side.pendingLiqRemoveQty price + order.getRemainingQuantity ≤ bound) :
    Agrees (Stored.Side.processCrossedOrder store fuel side order)
      (side.processCrossedOrder fuel order) fun result =>
        result.1.Bounded bound ∧ result.2.1.Fits bound ∧
        (∀ e ∈ result.2.2, 0 ≤ e.quantity) ∧
        (result.2.2.map OrderInfo.quantity).sum + result.2.1.getRemainingQuantity =
          order.getRemainingQuantity := by
  apply Agrees.assert.bind
  intro _ _ _
  rw [keeps.remaining fits, ok_bind]
  have start : CrossBounded bound order.getRemainingQuantity
      (⟨side, order, order.getRemainingQuantity, [], []⟩ : CrossState P isSell) :=
    ⟨bounded, fits.remaining_nonneg, room, fits, rfl, (fun _ mem => nomatch mem), by simp⟩
  refine (Agrees.loop (CrossBounded bound order.getRemainingQuantity)
    (fun _ holds => holds.body keeps) fuel start).bind ?_
  intro last _ lastHolds
  refine .ok ⟨lastHolds.side, lastHolds.order, lastHolds.events_nonneg, ?_⟩
  simp only [lastHolds.remaining]
  exact lastHolds.events_sum

/-! ### Cancels -/

theorem Bounded.processOrderCancel {held : ℤ} (bounded : side.Bounded held)
    (keeps : Stored.Keeps store bound) (le : held ≤ bound) (id : ℤ) {quantity : ℤ}
    (nonneg : 0 ≤ quantity) (small : quantity ≤ bound) (price : P) :
    Agrees (Stored.Side.processOrderCancel store side id quantity price)
      (.ok (side.processOrderCancel id quantity price)) fun result => result.1.Bounded held := by
  have keepsHeld := keeps.mono le
  apply (bounded.matchPendingLiqRemove keepsHeld nonneg price).bind_ok
  rintro ⟨matchedBounded, matchedNonneg, matchedLe⟩
  unfold BookSide.processOrderCancel
  simp only
  rw [keeps _ (by omega) (by omega), ok_bind]
  split
  · exact (matchedBounded.removeOrder keepsHeld id).bind_ok fun removed => .ok removed.1
  · exact .ok matchedBounded

/-! ### Trades -/

theorem Bounded.implicitCancelBody {state : BookSide P isSell × OrderInfoVec P}
    (bounded : state.1.Bounded bound) (keeps : Stored.Keeps store bound) (price : P) :
    Agrees (Stored.Side.implicitCancelBody store price state) (implicitCancelBody price state)
      fun flow => flow.state.1.Bounded bound := by
  obtain ⟨side, events⟩ := state
  rw [Stored.Side.implicitCancelBody, BookSide.implicitCancelBody]
  cases side.levels.begin? with
  | none => exact .ok bounded
  | some entry =>
      refine .ite (fun _ => ?_) fun _ => .ok bounded
      exact (bounded.removeAndSaveAll keeps _).bind_ok fun cancelled => .ok cancelled

structure TradeBounded (held total : ℤ) (state : TradeState P isSell) : Prop where
  side : state.side.Bounded held
  nonneg : 0 ≤ state.curTradeQty
  small : state.curTradeQty ≤ total

theorem TradeBounded.tradeFill {held total : ℤ} {state : TradeState P isSell}
    (holds : TradeBounded held total state) (keeps : Stored.Keeps store bound)
    (le : held ≤ bound) (totalLe : total ≤ bound) {key : P} {curOrder : Order P}
    (mem : curOrder ∈ state.side.ordersAt key) :
    Agrees (Stored.Side.tradeFill store key state curOrder) (tradeFill key state curOrder)
      fun next => TradeBounded held total next ∧
        ∀ other ∈ state.side.ordersAt key, other.odid ≠ curOrder.odid →
          other ∈ next.side.ordersAt key := by
  refine .ite (fun _ => .ok ⟨holds, fun other otherMem _ => otherMem⟩) fun _ => ?_
  have keepsHeld := keeps.mono le
  have fits := holds.side.fits mem
  have nonneg := holds.nonneg
  have small := holds.small
  have curNonneg := fits.remaining_nonneg
  set qty := min state.curTradeQty curOrder.getRemainingQuantity with qtyEq
  have qtyNonneg : 0 ≤ qty := le_min nonneg curNonneg
  have qtyLe : qty ≤ curOrder.getRemainingQuantity := min_le_right _ _
  have qtyLeRest : qty ≤ state.curTradeQty := min_le_left _ _
  rw [keepsHeld.remaining fits, ok_bind, ← qtyEq]
  apply (holds.side.fillLevelOrder keepsHeld mem qtyNonneg qtyLe).bind
  rintro next - ⟨nextBounded, touches⟩
  rw [keeps _ (by omega) (by omega), ok_bind, keepsHeld.fill fits qtyNonneg qtyLe, ok_bind,
    keepsHeld.remaining (fits.fill qtyNonneg qtyLe), ok_bind]
  refine .ok ⟨⟨nextBounded.save, ?_, ?_⟩, fun other otherMem => touches.others otherMem⟩
  · simp only
    omega
  · simp only
    omega

theorem Bounded.tradeLevel {held : ℤ} (bounded : side.Bounded held)
    (keeps : Stored.Keeps store bound) (le : held ≤ bound) (price : P) {qty : ℤ}
    (nonneg : 0 ≤ qty) (small : qty ≤ bound) (events : OrderInfoVec P) :
    Agrees (Stored.Side.tradeLevel store side price qty events)
      (side.tradeLevel price qty events) fun result =>
        result.1.Bounded held ∧ 0 ≤ result.2.1 ∧ result.2.1 ≤ qty := by
  unfold Stored.Side.tradeLevel BookSide.tradeLevel
  cases found : side.levels.find? price with
  | none => exact .ok ⟨bounded, nonneg, le_rfl⟩
  | some level =>
      have ordersEq := ordersAt_of_find? found
      have nodup := bounded.linked.nodup price
      rw [ordersEq] at nodup
      have start : TradeBounded held qty ⟨side, qty, events, []⟩ := ⟨bounded, nonneg, le_rfl⟩
      refine (agrees_alongLevel TradeState.side (fun _ _ holds => holds.tradeFill keeps le small)
        start nodup fun order mem => ordersEq ▸ mem).bind ?_
      intro last _ lastHolds
      exact (lastHolds.side.removeAndSaveAll (keeps.mono le) last.ordersToRemove).bind_ok
        fun removed => .ok ⟨removed, lastHolds.nonneg, lastHolds.small⟩

theorem Bounded.processTrade {held : ℤ} (bounded : side.Bounded held)
    (keeps : Stored.Keeps store bound) (fuel : Nat) (trade : Trade P)
    (nonneg : 0 ≤ trade.quantity) (room : held + trade.quantity ≤ bound) :
    Agrees (Stored.Side.processTrade store fuel side trade) (side.processTrade fuel trade)
      fun result => result.1.Bounded bound := by
  have heldNonneg := bounded.bound_nonneg trade.price
  have le : held ≤ bound := by omega
  have keepsHeld := keeps.mono le
  apply (bounded.matchPendingLiqRemove keepsHeld nonneg trade.price).bind_ok
  rintro ⟨matchedBounded, matchedNonneg, matchedLe⟩
  unfold BookSide.processTrade
  simp only
  rw [keeps _ (by omega) (by omega), ok_bind]
  refine (Agrees.loop (fun state : BookSide P isSell × OrderInfoVec P => state.1.Bounded held)
    (fun _ holds => holds.implicitCancelBody keepsHeld trade.price) fuel matchedBounded).bind ?_
  intro cancelled _ cancelledBounded
  apply (cancelledBounded.tradeLevel keeps le trade.price (by omega) (by omega) cancelled.2).bind
  rintro ⟨matched, curTradeQty, events⟩ - ⟨tradedBounded, restNonneg, restLe⟩
  simp only at tradedBounded restNonneg restLe ⊢
  refine .ite (fun _ => ?_) fun _ => .ok (tradedBounded.mono le)
  have within := tradedBounded.add trade.price
  rw [keeps.credit within.1 restNonneg (by omega), ok_bind]
  exact .ok ((tradedBounded.mono le).creditAdd restNonneg (by omega))

end OrderBook.BookSide
