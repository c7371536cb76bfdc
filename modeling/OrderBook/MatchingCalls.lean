import OrderBook.BoundedSnapshot
import OrderBook.PriceTimePriority

/-!
# The calls that the matching loops make

The loops of `processCrossedOrder` and `processTrade` test a map that they do not shrink
themselves: they collect ids, and only `removeOrder` erases a level.  This module follows the
loops state by state.  Every iteration that goes on uses up the aggressor or erases the best
level, so the loops end, and every `fillOrder` is called with an order that rests in the
level and has the quantity left, so no `assert` fails.
-/

namespace OrderBook.BookSide

open FueledLoop

variable {P : Type} [LinearOrder P] {isSell : Bool} {slack : Set ℤ}

/-! ### Calls of `fillOrder` -/

/-- A call `fillOrder(order, qty)` on the level that `side` has under `key`. -/
structure FillCall (P : Type) [LinearOrder P] (isSell : Bool) where
  side : BookSide P isSell
  key : P
  order : Order P
  qty : ℤ

/-- The order rests in the level and has the quantity left. -/
structure FillCall.Fits (call : FillCall P isSell) : Prop where
  rests : call.order ∈ call.side.ordersAt call.key
  covered : call.qty ≤ call.order.getRemainingQuantity

section Calls

variable [Zero P]

/-- The variables of `processCrossedOrder` before its loop. -/
def crossStart (side : BookSide P isSell) (order : Order P) : CrossState P isSell :=
  ⟨side, order, order.getRemainingQuantity, [], []⟩

/-- The calls of `processCrossedOrder`: its loop stands at `state`, and the `for` over the
best level has passed `front` and goes on with `curOrder`. -/
inductive CrossedFillCall (side : BookSide P isSell) (order : Order P) :
    FillCall P isSell → Prop where
  | fills {state passed : CrossState P isSell} {key : P} {curLevel : L3PriceLevel P}
      {front back : List (Order P)} {curOrder : Order P}
      (visited : Visits processCrossedOrderBody (side.crossStart order) state)
      (enters : 0 < state.remainingQuantity ∧
        state.side.bookCrossedWithPrice state.order.price)
      (best : state.side.levels.begin? = some (key, curLevel))
      (split : curLevel.orders = front ++ curOrder :: back)
      (passes : front.foldlM (crossFill key) { state with ordersToRemove := [] } = .ok passed)
      (goesOn : passed.remainingQuantity ≠ 0) :
      CrossedFillCall side order ⟨passed.side, key, curOrder,
        min passed.remainingQuantity curOrder.getRemainingQuantity⟩

/-- The variables of `processTrade` before step 1. -/
def tradeStart (side : BookSide P isSell) (trade : Trade P) :
    BookSide P isSell × OrderInfoVec P :=
  ((side.matchPendingLiqRemove trade.quantity trade.price).1, [])

/-- The calls of `processTrade`: step 1 has left `cancelled`, and the `for` of step 2 has
passed `front` and goes on with `curOrder`. -/
inductive TradeFillCall (side : BookSide P isSell) (trade : Trade P) :
    FillCall P isSell → Prop where
  | fills {cancelled : BookSide P isSell} {cancelEvents : OrderInfoVec P}
      {passed : TradeState P isSell} {curLevel : L3PriceLevel P}
      {front back : List (Order P)} {curOrder : Order P}
      (cancels : Returns (fun fuel => loop (implicitCancelBody trade.price) fuel
        (side.tradeStart trade)) (cancelled, cancelEvents))
      (found : cancelled.levels.find? trade.price = some curLevel)
      (split : curLevel.orders = front ++ curOrder :: back)
      (passes : front.foldlM (tradeFill trade.price) ⟨cancelled,
        trade.quantity - (side.matchPendingLiqRemove trade.quantity trade.price).2,
        cancelEvents, []⟩ = .ok passed)
      (goesOn : passed.curTradeQty ≠ 0) :
      TradeFillCall side trade ⟨passed.side, trade.price, curOrder,
        min passed.curTradeQty curOrder.getRemainingQuantity⟩

/-- What the first two loops of `processL2Snapshot` list for removal. -/
def listedOrders (compared : ReconcileState P isSell) (snapshot : L2SnapshotSide P) :
    List (Order P × ℤ) :=
  compared.pendingOrders ++ compared.side.missingOrders snapshot

/-- The calls of `processL2Snapshot`: no snapshot is expected, the first loop has left
`compared`, and the third loop has passed `front` and goes on with `listed`. -/
inductive SnapshotFillCall (side : BookSide P isSell) (snapshot : L2SnapshotSide P) :
    FillCall P isSell → Prop where
  | fills {compared : ReconcileState P isSell} {passed : RemovalState P isSell}
      {front back : List ((Order P × ℤ) × Nat)} {listed : Order P} {qty : ℤ} {index : Nat}
      (idle : side.l2SnapQueue = [])
      (compares : snapshot.foldlM reconcileLevel ⟨side, [], [], 100⟩ = .ok compared)
      (split : (listedOrders compared snapshot).zipIdx = front ++ ((listed, qty), index) :: back)
      (passes : front.foldlM
        (removePending (executedOrderNum (listedOrders compared snapshot).length))
        ⟨compared.side, compared.orderEvents, fun _ => 0⟩ = .ok passed)
      (partly : (listed.fill (passed.filled listed.odid)).getRemainingQuantity ≠ qty)
      (stands : passed.side.existLevel listed.price) :
      SnapshotFillCall side snapshot ⟨passed.side, listed.price,
        listed.fill (passed.filled listed.odid), qty⟩

/-- What an iteration of `processCrossedOrder` achieves: `removeOrder` erases the best level
unless the aggressor has nothing left. -/
def CrossProgress (state following : CrossState P isSell) : Prop :=
  ∃ key curLevel filled,
    state.side.levels.begin? = some (key, curLevel) ∧
    curLevel.orders.foldlM (crossFill key) { state with ordersToRemove := [] } = .ok filled ∧
    following.side = filled.ordersToRemove.foldl removeOrder filled.side ∧
    (following.remainingQuantity = 0 ∨
      filled.side.existLevel key ∧ following.side.levels = state.side.levels.erase key)

/-- What an iteration of step 1 of `processTrade` achieves: the removal of its orders erases
the best level. -/
def CancelProgress (state following : BookSide P isSell × OrderInfoVec P) : Prop :=
  ∃ key level, state.1.levels.begin? = some (key, level) ∧
    following.1 = (ids level.orders).foldl removeAndSave state.1 ∧
    following.1.levels = state.1.levels.erase key

/-- The matching of an aggressor ends without a failed `assert`. -/
structure CrossingSafe (side : BookSide P isSell) (order : Order P) : Prop where
  returns : ∃ result, Returns (fun fuel => side.processCrossedOrder fuel order) result
  ne_assertFailed : ∀ fuel, side.processCrossedOrder fuel order ≠ .error .assertFailed
  progress : ∀ state following,
    Visits processCrossedOrderBody (side.crossStart order) state →
    processCrossedOrderBody state = .ok (.next following) → CrossProgress state following
  fits : ∀ call, CrossedFillCall side order call → call.Fits

/-- The processing of a trade ends without a failed `assert`. -/
structure TradeSafe (side : BookSide P isSell) (trade : Trade P) : Prop where
  returns : ∃ result, Returns (fun fuel => side.processTrade fuel trade) result
  ne_assertFailed : ∀ fuel, side.processTrade fuel trade ≠ .error .assertFailed
  progress : ∀ state following,
    Visits (implicitCancelBody trade.price) (side.tradeStart trade) state →
    implicitCancelBody trade.price state = .ok (.next following) →
    CancelProgress state following
  fits : ∀ call, TradeFillCall side trade call → call.Fits

/-- The reconciliation with a snapshot ends without a failed `assert`. -/
structure SnapshotSafe (side : BookSide P isSell) (snapshot : L2SnapshotSide P) : Prop where
  returns : ∃ result, side.processL2Snapshot snapshot = .ok result
  fits : ∀ call, SnapshotFillCall side snapshot call → call.Fits

end Calls

/-! ### The orders of a level still to come -/

/-- The level under `key` ends with the orders that a `for` over it has still to come to. -/
def QueuedAt (key : P) (later : List (Order P))
    (levels : SortedMap P (L3PriceLevel P) (PriceComparator isSell)) : Prop :=
  ∃ quantity done, levels.find? key = some (.ofOrders key quantity (done ++ later)) ∧
    (ids (done ++ later)).Nodup

section Queued

variable {key : P} {order : Order P} {later : List (Order P)} {side next : BookSide P isSell}

theorem Linked.queuedAt (linked : side.Linked) {level : L3PriceLevel P}
    (found : side.levels.find? key = some level) : QueuedAt key level.orders side.levels := by
  have ordersEq := ordersAt_of_find? found
  have nodup := linked.nodup key
  have levelEq := linked.find?_eq found
  rw [ordersEq] at nodup levelEq
  exact ⟨level.quantity, [], levelEq, nodup⟩

theorem QueuedAt.rests (queued : QueuedAt key (order :: later) side.levels) :
    order ∈ side.ordersAt key := by
  obtain ⟨quantity, done, found, -⟩ := queued
  rw [ordersAt_of_find? found]
  exact List.mem_append_right done List.mem_cons_self

theorem QueuedAt.skip (queued : QueuedAt key (order :: later) side.levels) :
    QueuedAt key later side.levels := by
  obtain ⟨quantity, done, found, nodup⟩ := queued
  rw [List.append_cons] at found nodup
  exact ⟨quantity, done ++ [order], found, nodup⟩

variable [Zero P]

theorem QueuedAt.fill (queued : QueuedAt key (order :: later) side.levels) {qty : ℤ}
    (covered : qty ≤ order.getRemainingQuantity)
    (filled : side.fillLevelOrder key order qty = .ok next) : QueuedAt key later next.levels := by
  obtain ⟨quantity, done, found, nodup⟩ := queued
  rw [fillLevelOrder_eq found nodup covered, Except.ok.injEq] at filled
  subst filled
  refine ⟨quantity - qty, done ++ [order.fill qty], ?_, ?_⟩
  · rw [find?_putOrders, if_pos rfl, if_neg (by simp), List.append_cons]
  · simpa [ids] using nodup

theorem QueuedAt.crossFill {state following : CrossState P isSell}
    (queued : QueuedAt key (order :: later) state.side.levels)
    (stepped : crossFill key state order = .ok following) :
    QueuedAt key later following.side.levels := by
  unfold BookSide.crossFill at stepped
  split at stepped
  · cases stepped
    exact queued.skip
  · obtain ⟨filled, fills, rest⟩ := bind_eq_ok.mp stepped
    cases rest
    have kept := queued.fill (min_le_right _ _) fills
    exact kept

/-- The `for` of `processCrossedOrder` leaves the orders that it has not come to as they are. -/
theorem QueuedAt.of_crossed {front : List (Order P)} {state passed : CrossState P isSell}
    (passes : front.foldlM (BookSide.crossFill key) state = .ok passed)
    (queued : QueuedAt key (front ++ later) state.side.levels) :
    QueuedAt key later passed.side.levels := by
  have last := foldlM_invariant
    (fun items (reached : CrossState P isSell) => QueuedAt key (items ++ later) reached.side.levels)
    (fun _ _ _ _ kept stepped => kept.crossFill stepped) queued passes
  exact last

/-- The `for` of `processTrade` does the same to the levels. -/
theorem QueuedAt.of_traded {front : List (Order P)} {state passed : TradeState P isSell}
    (passes : front.foldlM (BookSide.tradeFill key) state = .ok passed)
    (queued : QueuedAt key (front ++ later) state.side.levels) :
    QueuedAt key later passed.side.levels := by
  have forgets := foldlM_tradeFill_forget key state.side.pendingLiqRemoveQty
    ⟨state.side, Order.new 0 isSell 0 key, state.curTradeQty, state.orderEvents,
      state.ordersToRemove⟩ front
  change front.foldlM (BookSide.tradeFill key) state = _ at forgets
  rw [passes] at forgets
  cases crosses : front.foldlM (BookSide.crossFill key)
      ⟨state.side, Order.new 0 isSell 0 key, state.curTradeQty, state.orderEvents,
        state.ordersToRemove⟩ with
  | error halt =>
      rw [crosses] at forgets
      cases forgets
  | ok reached =>
      rw [crosses] at forgets
      cases forgets
      exact QueuedAt.of_crossed crosses queued

end Queued

/-! ### Crossing orders -/

variable [Zero P]

section Crossing

variable {side : BookSide P isSell} {order : Order P}

/-- An iteration that goes on starts from a best level that the aggressor crosses. -/
theorem Valid.crossing {state following : CrossState P isSell} (valid : state.side.Valid slack)
    (continued : processCrossedOrderBody state = .ok (.next following)) :
    ∃ key level, state.side.levels.begin? = some (key, level) ∧
      0 < state.remainingQuantity ∧ Crosses isSell state.order.price key := by
  unfold processCrossedOrderBody at continued
  split at continued
  · next enters =>
      cases first : state.side.levels.begin? with
      | none => simp [first] at continued
      | some entry =>
          obtain ⟨key, level⟩ := entry
          have crosses := (valid.linked.bookCrossedWithPrice_iff first _).mp enters.2
          exact ⟨key, level, rfl, enters.1, crosses⟩
  · simp at continued

theorem Valid.crossStep {state following : CrossState P isSell} (valid : state.side.Valid slack)
    (continued : processCrossedOrderBody state = .ok (.next following)) :
    following.side.Valid slack := by
  obtain ⟨key, level, first, pos, crosses⟩ := valid.crossing continued
  have bodyEq := valid.crossBody_eq first pos crosses state.orderEvents state.ordersToRemove
  rw [bodyEq, Except.ok.injEq, Flow.next.injEq] at continued
  subst continued
  exact valid.crossLevel (SortedMap.find?_of_begin? first) pos.le

theorem Valid.visited_cross (valid : side.Valid slack) {state : CrossState P isSell}
    (visited : Visits processCrossedOrderBody (side.crossStart order) state) :
    state.side.Valid slack :=
  visited.invariant (fun state => state.side.Valid slack) valid
    fun _ _ kept continued => kept.crossStep continued

theorem Valid.crossProgress {state following : CrossState P isSell}
    (valid : state.side.Valid slack)
    (continued : processCrossedOrderBody state = .ok (.next following)) :
    CrossProgress state following := by
  obtain ⟨key, level, first, pos, crosses⟩ := valid.crossing continued
  have found := SortedMap.find?_of_begin? first
  have bodyEq := valid.crossBody_eq first pos crosses state.orderEvents state.ordersToRemove
  have enters : 0 < state.remainingQuantity ∧
      state.side.bookCrossedWithPrice state.order.price = true :=
    ⟨pos, (valid.linked.bookCrossedWithPrice_iff first _).mpr crosses⟩
  have followingEq := continued
  rw [bodyEq, Except.ok.injEq, Flow.next.injEq] at followingEq
  simp only [processCrossedOrderBody, if_pos enters, first] at continued
  obtain ⟨filled, fills, rest⟩ := bind_eq_ok.mp continued
  rw [pure_eq_ok, Except.ok.injEq, Flow.next.injEq] at rest
  refine ⟨key, level, filled, first, fills, by rw [← rest], ?_⟩
  by_cases covers : totalRemaining (state.side.ordersAt key) ≤ state.remainingQuantity
  · right
    -- the `for` fills the orders of the level and erases nothing
    have queued : QueuedAt key (level.orders ++ []) state.side.levels := by
      simpa using valid.linked.queuedAt found
    obtain ⟨quantity, done, stands, -⟩ := QueuedAt.of_crossed fills queued
    constructor
    · simp [existLevel, stands]
    · rw [← followingEq]
      exact valid.levels_crossLevel covers
  · left
    rw [← followingEq]
    simp only
    omega

theorem Valid.crossedFill_fits (valid : side.Valid slack) {call : FillCall P isSell}
    (called : CrossedFillCall side order call) : call.Fits := by
  obtain ⟨visited, -, best, split, passes, -⟩ := called
  have stateValid := valid.visited_cross visited
  have queued := stateValid.linked.queuedAt (SortedMap.find?_of_begin? best)
  rw [split] at queued
  exact ⟨(QueuedAt.of_crossed passes queued).rests, min_le_right _ _⟩

theorem processCrossedOrder_stable (side : BookSide P isSell) (order : Order P) :
    FuelStable fun fuel => side.processCrossedOrder fuel order :=
  (FuelStable.const _).bind fun _ => (loop_stable _ _).bind fun _ => FuelStable.const _

theorem Valid.crossing_returns (valid : side.Valid slack) (opposite : order.isSell ≠ isSell) :
    ∃ result, Returns (fun fuel => side.processCrossedOrder fuel order) result := by
  by_cases nothing : order.getRemainingQuantity ≤ 0
  · exact ⟨_, valid.linked.processCrossedOrder_idle opposite nothing⟩
  · obtain ⟨final, events, returns, -⟩ :=
      valid.processCrossedOrder_returns opposite (by omega)
    exact ⟨_, returns⟩

theorem Valid.crossingSafe (valid : side.Valid slack) (opposite : order.isSell ≠ isSell) :
    CrossingSafe side order := by
  obtain ⟨result, returns⟩ := valid.crossing_returns opposite
  refine ⟨⟨result, returns⟩, ?_, ?_, ?_⟩
  · exact returns.ne_assertFailed (processCrossedOrder_stable side order)
  · intro state following visited continued
    exact (valid.visited_cross visited).crossProgress continued
  · intro call called
    exact valid.crossedFill_fits called

end Crossing

/-! ### Trades -/

section Trades

variable {side : BookSide P isSell} {trade : Trade P}

/-- An iteration that goes on starts from a best level that is better than the trade. -/
theorem implicitCancelBody_better {price : P}
    {state following : BookSide P isSell × OrderInfoVec P}
    (continued : implicitCancelBody price state = .ok (.next following)) :
    ∃ key level, state.1.levels.begin? = some (key, level) ∧
      PriceComparator isSell key price := by
  by_contra nowhere
  have stops : implicitCancelBody price (state.1, state.2) = .ok (.done (state.1, state.2)) :=
    implicitCancelBody_done (fun first better => nowhere ⟨_, _, first, better⟩) state.2
  rw [stops] at continued
  cases continued

theorem Valid.cancelStep {price : P} {state following : BookSide P isSell × OrderInfoVec P}
    (valid : state.1.Valid slack)
    (continued : implicitCancelBody price state = .ok (.next following)) :
    following.1.Valid slack ∧ CancelProgress state following := by
  obtain ⟨key, level, first, better⟩ := implicitCancelBody_better continued
  have found := SortedMap.find?_of_begin? first
  have bodyEq := valid.linked.implicitCancelBody_next first better state.2
  rw [bodyEq, Except.ok.injEq, Flow.next.injEq] at continued
  subst continued
  exact ⟨valid.cancelLevel found, key, level, first, (valid.linked.removeLevel found).symm, rfl⟩

omit [Zero P] in
theorem Valid.tradeStart (valid : side.Valid slack) (nonneg : 0 ≤ trade.quantity) :
    (side.tradeStart trade).1.Valid slack := by
  have matched := matchPendingLiqRemove_eq valid.ledgers.remove_pos nonneg trade.price
  rw [BookSide.tradeStart, matched]
  exact valid.debited (min_le_left (qtyAt side.pendingLiqRemoveQty trade.price) trade.quantity)

theorem Valid.tradeFill_fits (valid : side.Valid slack) (nonneg : 0 ≤ trade.quantity)
    {call : FillCall P isSell} (called : TradeFillCall side trade call) : call.Fits := by
  obtain ⟨cancels, found, split, passes, -⟩ := called
  obtain ⟨final, returns, outcome⟩ :=
    (valid.tradeStart nonneg).implicitCancel_returns trade.price []
  have same := Returns.unique (loop_monotone _) cancels returns
  obtain ⟨rfl, -⟩ := Prod.mk.inj same
  have queued := outcome.valid.linked.queuedAt found
  rw [split] at queued
  exact ⟨(QueuedAt.of_traded passes queued).rests, min_le_right _ _⟩

theorem processTrade_stable (side : BookSide P isSell) (trade : Trade P) :
    FuelStable fun fuel => side.processTrade fuel trade :=
  (loop_stable _ _).bind fun _ => FuelStable.const _

theorem Valid.tradeSafe (valid : side.Valid slack) (nonneg : 0 ≤ trade.quantity) :
    TradeSafe side trade := by
  obtain ⟨final, events, returns, -⟩ := valid.processTrade_returns trade nonneg
  refine ⟨⟨_, returns⟩, ?_, ?_, ?_⟩
  · exact returns.ne_assertFailed (processTrade_stable side trade)
  · intro state following visited continued
    have stateValid := visited.invariant (fun state => state.1.Valid slack)
      (valid.tradeStart nonneg) fun _ _ kept step => (kept.cancelStep step).1
    exact (stateValid.cancelStep continued).2
  · intro call called
    exact valid.tradeFill_fits nonneg called

end Trades

/-! ### Snapshots -/

section Snapshots

variable {side : BookSide P isSell} {snapshot : L2SnapshotSide P}

theorem Linked.fillLevelOrder_touches (linked : side.Linked) {key : P} {order : Order P}
    (mem : order ∈ side.ordersAt key) {qty : ℤ} (covered : qty ≤ order.getRemainingQuantity) :
    ∃ next, side.fillLevelOrder key order qty = .ok next ∧ next.Linked ∧
      Touches order.odid side next := by
  obtain ⟨quantity, found⟩ := linked.exists_level mem
  obtain ⟨front, back, split⟩ := List.append_of_mem mem
  have nodup := linked.nodup key
  rw [split] at found nodup
  refine ⟨_, fillLevelOrder_eq found nodup covered, ?_, touches_filled split _ _⟩
  exact linked.put_replaced split rfl rfl (by simp) (by simp) (by simp)

/-- A pass of the third loop leaves what it has not come to outstanding. -/
theorem Outstanding.removePending {num : Nat} {entry : (Order P × ℤ) × Nat}
    {later : List ((Order P × ℤ) × Nat)} {state following : RemovalState P isSell}
    (linked : state.side.Linked) (holds : Outstanding (entry :: later) state)
    (stepped : removePending num state entry = .ok following) :
    following.side.Linked ∧ Outstanding later following := by
  have resting := holds.resting _ List.mem_cons_self
  have covered := (holds.fits _ List.mem_cons_self).2
  unfold BookSide.removePending at stepped
  simp only [holds.current] at stepped
  split at stepped
  · cases stepped
    exact ⟨linked.removeOrder_linked _,
      holds.tail (linked.touches_removeOrder _) _ fun _ _ => rfl⟩
  · split at stepped
    · obtain ⟨next, filled, nextLinked, touches⟩ := linked.fillLevelOrder_touches resting covered
      rw [filled, ok_bind] at stepped
      cases stepped
      exact ⟨nextLinked, holds.tail touches _ fun id other => Function.update_of_ne other _ _⟩
    · cases stepped
      exact ⟨linked, holds.tail ⟨fun mem _ => mem, rfl, rfl⟩ _ fun _ _ => rfl⟩

theorem Outstanding.passed {num : Nat} {front later : List ((Order P × ℤ) × Nat)}
    {state passed : RemovalState P isSell} (linked : state.side.Linked)
    (holds : Outstanding (front ++ later) state)
    (passes : front.foldlM (BookSide.removePending num) state = .ok passed) :
    Outstanding later passed := by
  have last := foldlM_invariant
    (fun items (reached : RemovalState P isSell) =>
      reached.side.Linked ∧ Outstanding (items ++ later) reached)
    (fun _ _ _ _ kept stepped => kept.2.removePending kept.1 stepped) ⟨linked, holds⟩ passes
  exact last.2

/-- What the first two loops list is outstanding before the third one. -/
theorem Valid.compared_outstanding (valid : side.Valid slack) (zeroMem : 0 ∈ slack)
    (positive : ∀ l2Level ∈ snapshot, 0 < l2Level.quantity)
    (distinct : (snapshot.map L2PriceLevel.price).Nodup) {compared : ReconcileState P isSell}
    (compares : snapshot.foldlM reconcileLevel ⟨side, [], [], 100⟩ = .ok compared) :
    compared.side.Linked ∧ Outstanding (listedOrders compared snapshot).zipIdx
      (⟨compared.side, compared.orderEvents, fun _ => 0⟩ : RemovalState P isSell) := by
  rw [valid.firstPass_eq zeroMem positive distinct, Except.ok.injEq] at compares
  subst compares
  have comparedValid := valid.comparedSide zeroMem snapshot
  have pendingEq := comparedValid.pendingOrders_eq distinct
  refine ⟨comparedValid.linked, ?_⟩
  change Outstanding (side.groupFills (side.lowerings snapshot) ++
    (side.comparedSide snapshot).missingOrders snapshot).zipIdx
      ⟨side.comparedSide snapshot, _, fun _ => 0⟩
  rw [pendingEq]
  exact comparedValid.outstanding_groupFills (Valid.removals_nonneg comparedValid)
    (removals_nodup distinct) _

theorem Valid.snapshotFill_fits (valid : side.Valid slack) (zeroMem : 0 ∈ slack)
    (positive : ∀ l2Level ∈ snapshot, 0 < l2Level.quantity)
    (distinct : (snapshot.map L2PriceLevel.price).Nodup) {call : FillCall P isSell}
    (called : SnapshotFillCall side snapshot call) : call.Fits := by
  obtain ⟨-, compares, split, passes, -, -⟩ := called
  obtain ⟨linked, outstanding⟩ := valid.compared_outstanding zeroMem positive distinct compares
  rw [split] at outstanding
  have reached := outstanding.passed linked passes
  rw [reached.current]
  exact ⟨reached.resting _ List.mem_cons_self, (reached.fits _ List.mem_cons_self).2⟩

theorem Valid.snapshotSafe (valid : side.Valid slack) (zeroMem : 0 ∈ slack)
    (positive : ∀ l2Level ∈ snapshot, 0 < l2Level.quantity)
    (distinct : (snapshot.map L2PriceLevel.price).Nodup) : SnapshotSafe side snapshot := by
  obtain ⟨final, events, returned, -⟩ :=
    valid.processL2Snapshot_distinct zeroMem positive distinct
  refine ⟨⟨_, returned⟩, ?_⟩
  intro call called
  exact valid.snapshotFill_fits zeroMem positive distinct called

end Snapshots

/-- On a side with the representation invariant the matching of every opposite aggressor,
of every trade and of every snapshot with distinct prices ends, and none of their calls of
`fillOrder` or `addOrder` fails an `assert`. -/
theorem matching_safe {side : BookSide P isSell} (rep : side.RepInvariant) :
    (∀ order : Order P, order.isSell ≠ isSell → CrossingSafe side order) ∧
    (∀ trade : Trade P, 0 < trade.quantity → TradeSafe side trade) ∧
    ∀ snapshot : L2SnapshotSide P, (∀ l2Level ∈ snapshot, 0 < l2Level.quantity) →
      (snapshot.map L2PriceLevel.price).Nodup → SnapshotSafe side snapshot := by
  have valid := rep.valid
  refine ⟨?_, ?_, ?_⟩
  · intro order opposite
    exact valid.crossingSafe opposite
  · intro trade pos
    exact valid.tradeSafe pos.le
  · intro snapshot positive distinct
    exact valid.snapshotSafe (Set.mem_singleton 0) positive distinct

/-- A buy order over both prices, a trade at the better one and a snapshot that lowers it, each
with a call of `fillOrder` that it makes. -/
theorem twoPrice_safe :
    (CrossingSafe twoPriceSide ⟨3, false, 12, 101, 0⟩ ∧
      CrossedFillCall twoPriceSide ⟨3, false, 12, 101, 0⟩
        ⟨twoPriceSide, 100, ⟨1, true, 10, 100, 0⟩, 10⟩) ∧
    (TradeSafe twoPriceSide ⟨3, 100⟩ ∧
      TradeFillCall twoPriceSide ⟨3, 100⟩ ⟨twoPriceSide, 100, ⟨1, true, 10, 100, 0⟩, 3⟩) ∧
    SnapshotSafe twoPriceSide [⟨100, 4⟩, ⟨101, 5⟩] ∧
      SnapshotFillCall twoPriceSide [⟨100, 4⟩, ⟨101, 5⟩]
        ⟨twoPriceSide, 100, ⟨1, true, 10, 100, 0⟩, 6⟩ := by
  obtain ⟨crossing, trade, snapshot⟩ :=
    matching_safe (BookSide.repInvariant_iff_valid.mpr twoPriceSide_valid)
  refine ⟨⟨crossing _ (by decide), ?_⟩, ⟨trade _ (by decide), ?_⟩,
    snapshot _ (by decide) (by decide), ?_⟩
  · exact .fills .start (by decide) rfl (show _ = [] ++ _ :: [] from rfl) rfl (by decide)
  · exact .fills ⟨1, rfl⟩ rfl (show _ = [] ++ _ :: [] from rfl) rfl (by decide)
  · exact @SnapshotFillCall.fills ℤ _ true _ _ _
      ⟨twoPriceSide, [], [(⟨1, true, 10, 100, 0⟩, 6)], 100⟩
      ⟨twoPriceSide, [], fun _ => 0⟩ [] [] ⟨1, true, 10, 100, 0⟩ 6 0 rfl rfl rfl rfl
      (by decide) (by decide)

end OrderBook.BookSide
