import OrderBook.BookRuns
import OrderBook.InsertionLog

/-!
# Time priority over whole runs

Number every insertion of `addOrder` in a run of calls on a side.  Orders leave
their level from the front, from the middle and in batches, are modified in place or
inserted anew, and snapshots append invented orders.  None of this depends on the
quantities: every call thins the queues of ids and appends its insertions, so the
orders of a level always stand in the order of their insertion.
-/

namespace OrderBook

open FueledLoop InputRun

variable {P : Type} [LinearOrder P] {isSell : Bool}

namespace BookSide

variable {side next : BookSide P isSell}

/-! ### Thinning -/

/-- The queues of a side lose ids and keep their order. -/
structure Thins (next side : BookSide P isSell) : Prop where
  linked : next.Linked
  sublist : ∀ key, (ids (next.ordersAt key)).Sublist (ids (side.ordersAt key))

theorem Linked.thins_self (linked : side.Linked) : side.Thins side :=
  ⟨linked, fun _ => List.Sublist.refl _⟩

theorem Thins.trans {first second third : BookSide P isSell} (later : third.Thins second)
    (earlier : second.Thins first) : third.Thins first :=
  ⟨later.linked, fun key => (later.sublist key).trans (earlier.sublist key)⟩

/-- Ledgers and expected snapshots do not matter. -/
theorem Thins.congr {other : BookSide P isSell} (thins : next.Thins side)
    (levelsEq : other.levels = next.levels) (mapEq : other.orderMap = next.orderMap) :
    other.Thins side := by
  refine ⟨thins.linked.congr levelsEq mapEq, fun key => ?_⟩
  rw [ordersAt, levelsEq]
  exact thins.sublist key

/-- Writing a queue with the same ids. -/
theorem Linked.thins_put (linked : side.Linked) {key : P} {quantity : ℤ} {orders : List (Order P)}
    (levelsEq : next.levels = putOrders side.levels key quantity orders)
    (mapEq : next.orderMap = side.orderMap) (priceEq : ∀ order ∈ orders, order.price = key)
    (isSellEq : ∀ order ∈ orders, order.isSell = isSell)
    (idsEq : ids orders = ids (side.ordersAt key)) : next.Thins side := by
  refine ⟨linked.put_sameIds levelsEq mapEq priceEq isSellEq idsEq, fun other => ?_⟩
  rw [ordersAt_putOrders levelsEq]
  split
  · next same => rw [same, idsEq]
  · exact List.Sublist.refl _

variable [Zero P]

theorem Linked.removeOrder_thins (linked : side.Linked) (id : ℤ) :
    (side.removeOrder id).Thins side := by
  cases rests : side.existOrder id with
  | false =>
      rw [removeOrder_of_not_exist rests]
      exact linked.thins_self
  | true =>
      obtain ⟨key, mem⟩ := linked.existOrder_iff.mp rests
      obtain ⟨order, orderMem, rfl⟩ := List.mem_map.mp mem
      obtain ⟨quantity, found⟩ := linked.exists_level orderMem
      obtain ⟨front, back, split⟩ := List.append_of_mem orderMem
      refine ⟨linked.removeOrder_linked _, fun other => ?_⟩
      rw [split] at found
      rw [linked.removeOrder_eq found, ordersAt_putOrders rfl]
      split
      · next same =>
          rw [same, split, ids, ids]
          exact ((List.Sublist.refl front).append (List.sublist_cons_self ..)).map _
      · exact List.Sublist.refl _

theorem Linked.foldl_removeOrder_thins (linked : side.Linked) (removed : List ℤ) :
    (removed.foldl removeOrder side).Thins side := by
  induction removed generalizing side with
  | nil => exact linked.thins_self
  | cons id removed ih =>
      have first := linked.removeOrder_thins id
      exact (ih first.linked).trans first

theorem Linked.foldl_removeAndSave_thins (linked : side.Linked) (removed : List ℤ) :
    (removed.foldl removeAndSave side).Thins side := by
  induction removed generalizing side with
  | nil => exact linked.thins_self
  | cons id removed ih =>
      have first : (side.removeAndSave id).Thins side :=
        (linked.removeOrder_thins id).congr rfl rfl
      exact (ih first.linked).trans first

/-- A fill changes quantities only. -/
theorem Linked.fillLevelOrder_thins (linked : side.Linked) {key : P} {order : Order P} {qty : ℤ}
    (present : side.existLevel key = true)
    (filled : side.fillLevelOrder key order qty = .ok next) :
    next.Thins side ∧ next.existLevel key = true := by
  obtain ⟨nonempty, rfl⟩ := linked.fillLevelOrder_ok present filled
  have same : ∀ new ∈ (side.ordersAt key).map
      (fun other => if other.odid = order.odid then other.fill qty else other),
      new.price = key ∧ new.isSell = isSell := by
    intro new newMem
    obtain ⟨other, otherMem, rfl⟩ := List.mem_map.mp newMem
    have price := linked.order_price otherMem
    have sell := linked.order_isSell otherMem
    split
    · exact ⟨price, sell⟩
    · exact ⟨price, sell⟩
  constructor
  · refine linked.thins_put rfl rfl (fun new mem => (same new mem).1)
      (fun new mem => (same new mem).2) ?_
    rw [ids, List.map_map]
    apply List.map_congr_left
    intro other _
    rw [Function.comp_apply]
    split
    · rfl
    · rfl
  · simp [existLevel, find?_putOrders, nonempty]

/-- A modification without a new price changes quantities only. -/
theorem Linked.modifyOrder_thins (linked : side.Linked) {order : Order P} {quantity : ℤ}
    (mem : order ∈ side.ordersAt order.price)
    (modified : side.modifyOrder order.odid quantity order.price = .ok next) :
    next.Thins side := by
  obtain ⟨held, found⟩ := linked.exists_level mem
  obtain ⟨front, back, split⟩ := List.append_of_mem mem
  rw [split] at found
  rw [linked.modifyOrder_samePrice found] at modified
  cases modified
  have old : ∀ other ∈ front ++ { order with quantity := quantity } :: back,
      ∃ resting ∈ side.ordersAt order.price,
        other.price = resting.price ∧ other.isSell = resting.isSell := by
    intro other otherMem
    rw [split]
    simp only [List.mem_append, List.mem_cons] at otherMem ⊢
    rcases otherMem with ahead | rfl | behind
    · exact ⟨other, .inl ahead, rfl, rfl⟩
    · exact ⟨order, .inr (.inl rfl), rfl, rfl⟩
    · exact ⟨other, .inr (.inr behind), rfl, rfl⟩
  refine linked.thins_put rfl rfl ?_ ?_ (by simp [ids, split])
  · intro other otherMem
    obtain ⟨resting, restingMem, priceEq, -⟩ := old other otherMem
    rw [priceEq, linked.order_price restingMem]
  · intro other otherMem
    obtain ⟨resting, restingMem, -, sideEq⟩ := old other otherMem
    rw [sideEq, linked.order_isSell restingMem]

/-! ### Calls that only thin -/

theorem crossFill_thins {key : P} {state following : CrossState P isSell} {order : Order P}
    (linked : state.side.Linked) (present : state.side.existLevel key = true)
    (stepped : crossFill key state order = .ok following) :
    following.side.Thins state.side ∧ following.side.existLevel key = true := by
  unfold crossFill at stepped
  split at stepped
  · cases stepped
    exact ⟨linked.thins_self, present⟩
  · obtain ⟨filled, filledEq, stepped⟩ := bind_eq_ok.mp stepped
    cases stepped
    obtain ⟨thins, stays⟩ := linked.fillLevelOrder_thins present filledEq
    exact ⟨thins.congr rfl rfl, stays⟩

theorem foldlM_crossFill_thins {key : P} {orders : List (Order P)}
    {state filled : CrossState P isSell}
    (folded : orders.foldlM (crossFill key) state = .ok filled) (linked : state.side.Linked)
    (present : state.side.existLevel key = true) :
    filled.side.Thins state.side := by
  have kept : filled.side.Thins state.side ∧ filled.side.existLevel key = true :=
    foldlM_invariant
      (fun _ (middle : CrossState P isSell) =>
        middle.side.Thins state.side ∧ middle.side.existLevel key = true)
      (fun _ _ _ _ holds stepped =>
        have next := crossFill_thins holds.1.linked holds.2 stepped
        ⟨next.1.trans holds.1, next.2⟩)
      ⟨linked.thins_self, present⟩ folded
  exact kept.1

theorem crossBody_thins {state following : CrossState P isSell} (linked : state.side.Linked)
    (stepped : processCrossedOrderBody state = .ok (.next following) ∨
      processCrossedOrderBody state = .ok (.done following)) :
    following.side.Thins state.side := by
  unfold processCrossedOrderBody at stepped
  split at stepped
  · split at stepped
    · rcases stepped with stepped | stepped
      · cases stepped
      · cases stepped
        exact linked.thins_self
    · next key level first =>
        have present : state.side.existLevel key = true := by
          rw [existLevel, SortedMap.find?_of_begin? first, Option.isSome_some]
        rcases stepped with stepped | stepped
        · obtain ⟨filled, folded, stepped⟩ := bind_eq_ok.mp stepped
          cases stepped
          have thins := foldlM_crossFill_thins folded linked present
          exact (thins.linked.foldl_removeOrder_thins _).trans thins
        · obtain ⟨_, _, stepped⟩ := bind_eq_ok.mp stepped
          cases stepped
  · rcases stepped with stepped | stepped
    · cases stepped
    · cases stepped
      exact linked.thins_self

theorem Linked.processCrossedOrder_thins (linked : side.Linked) {fuel : Nat}
    {order filled : Order P} {events : OrderInfoVec P}
    (returned : side.processCrossedOrder fuel order = .ok (next, filled, events)) :
    next.Thins side := by
  obtain ⟨_, _, returned⟩ := bind_eq_ok.mp returned
  obtain ⟨last, looped, returned⟩ := bind_eq_ok.mp returned
  cases returned
  obtain ⟨before, thins, finished⟩ := loop_invariant
    (fun state : CrossState P isSell => state.side.Thins side)
    (fun state following holds stepped =>
      (crossBody_thins holds.linked (.inl stepped)).trans holds) linked.thins_self looped
  exact (crossBody_thins thins.linked (.inr finished)).trans thins

omit [Zero P] in
theorem Linked.matchPendingLiqRemove_thins (linked : side.Linked) (quantity : ℤ) (price : P) :
    (side.matchPendingLiqRemove quantity price).1.Thins side := by
  unfold matchPendingLiqRemove
  split
  · exact linked.thins_self
  · exact linked.thins_self.congr rfl rfl

theorem Linked.processOrderCancel_thins (linked : side.Linked) (id quantity : ℤ) (price : P) :
    (side.processOrderCancel id quantity price).1.Thins side := by
  have matched := linked.matchPendingLiqRemove_thins quantity price
  simp only [processOrderCancel]
  split
  · exact (matched.linked.removeOrder_thins id).trans matched
  · exact matched

theorem implicitCancelBody_thins {price : P}
    {state following : BookSide P isSell × OrderInfoVec P} (linked : state.1.Linked)
    (stepped : implicitCancelBody price state = .ok (.next following) ∨
      implicitCancelBody price state = .ok (.done following)) :
    following.1.Thins state.1 := by
  obtain ⟨side, events⟩ := state
  cases first : side.levels.begin? with
  | none =>
      simp only [implicitCancelBody, first] at stepped
      rcases stepped with stepped | stepped
      · cases stepped
      · cases stepped
        exact linked.thins_self
  | some entry =>
      simp only [implicitCancelBody, first] at stepped
      generalize (if isSell = true then decide (entry.1 < price)
        else decide (entry.1 > price)) = shouldCancel at stepped
      cases shouldCancel with
      | true =>
          rcases stepped with stepped | stepped
          · cases stepped
            exact linked.foldl_removeAndSave_thins _
          · cases stepped
      | false =>
          rcases stepped with stepped | stepped
          · cases stepped
          · cases stepped
            exact linked.thins_self

theorem tradeFill_thins {key : P} {state following : TradeState P isSell} {order : Order P}
    (linked : state.side.Linked) (present : state.side.existLevel key = true)
    (stepped : tradeFill key state order = .ok following) :
    following.side.Thins state.side ∧ following.side.existLevel key = true := by
  unfold tradeFill at stepped
  split at stepped
  · cases stepped
    exact ⟨linked.thins_self, present⟩
  · obtain ⟨filled, filledEq, stepped⟩ := bind_eq_ok.mp stepped
    cases stepped
    obtain ⟨thins, stays⟩ := linked.fillLevelOrder_thins present filledEq
    exact ⟨thins.congr rfl rfl, stays⟩

theorem Linked.tradeLevel_thins (linked : side.Linked) {price : P} {qty left : ℤ}
    {events laterEvents : OrderInfoVec P}
    (matched : side.tradeLevel price qty events = .ok (next, left, laterEvents)) :
    next.Thins side := by
  unfold tradeLevel at matched
  split at matched
  · cases matched
    exact linked.thins_self
  · next level found =>
      have present : side.existLevel price = true := by
        rw [existLevel, found, Option.isSome_some]
      obtain ⟨filled, folded, matched⟩ := bind_eq_ok.mp matched
      cases matched
      have thins : filled.side.Thins side ∧ filled.side.existLevel price = true :=
        foldlM_invariant
          (fun _ (middle : TradeState P isSell) =>
            middle.side.Thins side ∧ middle.side.existLevel price = true)
          (fun _ _ _ _ holds filledEq =>
            have next := tradeFill_thins holds.1.linked holds.2 filledEq
            ⟨next.1.trans holds.1, next.2⟩)
          ⟨linked.thins_self, present⟩ folded
      exact (thins.1.linked.foldl_removeAndSave_thins _).trans thins.1

theorem Linked.processTrade_thins (linked : side.Linked) {fuel : Nat} {trade : Trade P}
    {events : OrderInfoVec P} (returned : side.processTrade fuel trade = .ok (next, events)) :
    next.Thins side := by
  have matched := linked.matchPendingLiqRemove_thins trade.quantity trade.price
  obtain ⟨⟨cancelled, cancelEvents⟩, looped, returned⟩ := bind_eq_ok.mp returned
  obtain ⟨⟨filled, left, orderEvents⟩, levelled, returned⟩ := bind_eq_ok.mp returned
  obtain ⟨before, thins, finished⟩ := loop_invariant
    (fun state : BookSide P isSell × OrderInfoVec P => state.1.Thins side)
    (fun state following holds stepped =>
      (implicitCancelBody_thins holds.linked (.inl stepped)).trans holds) matched looped
  have cancelledThins := (implicitCancelBody_thins thins.linked (.inr finished)).trans thins
  have filledThins :=
    (cancelledThins.linked.tradeLevel_thins levelled).trans cancelledThins
  simp only at returned
  split at returned
  · cases returned
    exact filledThins.congr rfl rfl
  · cases returned
    exact filledThins

theorem removePending_thins {num : Nat} {state following : RemovalState P isSell}
    {entry : (Order P × ℤ) × Nat} (linked : state.side.Linked)
    (stepped : removePending num state entry = .ok following) :
    following.side.Thins state.side := by
  obtain ⟨⟨listed, qty⟩, index⟩ := entry
  rw [removePending_eq] at stepped
  split at stepped
  · cases stepped
    exact linked.removeOrder_thins listed.odid
  · split at stepped
    · next present =>
        obtain ⟨_, filled, stepped⟩ := bind_eq_ok.mp stepped
        cases stepped
        exact (linked.fillLevelOrder_thins present filled).1
    · cases stepped
      exact linked.thins_self

end BookSide

namespace BookSide

/-! ### Insertions -/

/-- What `addOrder` inserts: nothing if the id already rests. -/
def inserted (side : BookSide P isSell) (order : Order P) : List (Order P) :=
  if side.existOrder order.odid then [] else [order]

/-- The order that one pass of the first loop of a reconciliation hands to `addOrder`. -/
def offered (state : ReconcileState P isSell) (l2Level : L2PriceLevel P) : List (Order P) :=
  match state.side.levels.find? l2Level.price with
  | none => [Order.new state.fakeOrderId isSell l2Level.quantity l2Level.price]
  | some level =>
      if l2Level.quantity > level.quantity then
        [Order.new state.fakeOrderId isSell (l2Level.quantity - level.quantity) l2Level.price]
      else []

variable [Zero P]

/-- The insertions of the first loop of a reconciliation. -/
def firstPassInsertions : ReconcileState P isSell → L2SnapshotSide P → List (Order P)
  | _, [] => []
  | state, l2Level :: later =>
      match reconcileLevel state l2Level with
      | .error _ => []
      | .ok following =>
          (offered state l2Level).flatMap state.side.inserted ++
            firstPassInsertions following later

/-- The effective insertions of a call, in their order.  Only `addOrder` inserts, and
besides the caller `modifyOrder` and `processL2Snapshot` call it. -/
def insertions (side : BookSide P isSell) : SideCall P → List (Order P)
  | .addOrder order => side.inserted order
  | .modifyOrder odid quantity price =>
      match side.getOrder? odid with
      | none => []
      | some order =>
          if order.price = price then []
          else (side.removeOrder odid).inserted
            ((Order.new order.odid order.isSell quantity price).fill order.filledQuantity)
  | .processL2Snapshot snapshot =>
      if side.l2SnapQueue = [] then firstPassInsertions ⟨side, [], [], 100⟩ snapshot else []
  | _ => []

/-- A returning call, with the log of all insertions so far. -/
def LoggedStep (state : BookSide P isSell × List (Order P)) (sideCall : SideCall P)
    (next : BookSide P isSell × List (Order P)) : Prop :=
  Returns (fun fuel => state.1.call fuel sideCall) next.1 ∧
    next.2 = state.2 ++ state.1.insertions sideCall

end BookSide

namespace BookSide

open InsertionLog

variable {side next : BookSide P isSell} {log : List (Order P)}

/-- The queue of every level is in the order of insertion, and every id was last inserted
with the price of its level and the side of the book. -/
structure Fifo (log : List (Order P)) (side : BookSide P isSell) : Prop where
  linked : side.Linked
  inOrder : ∀ key, InOrder Order.odid log
    (fun order => order.price = key ∧ order.isSell = isSell) (ids (side.ordersAt key))

theorem fifo_empty : (empty : BookSide P isSell).Fifo [] :=
  ⟨linked_empty, fun _ => InOrder.nil []⟩

theorem Fifo.thin (fifo : side.Fifo log) (thins : next.Thins side) : next.Fifo log :=
  ⟨thins.linked, fun key => (fifo.inOrder key).sublist (thins.sublist key)⟩

variable [Zero P]

/-- `addOrder` keeps the order of insertion. -/
theorem Fifo.addOrder (fifo : side.Fifo log) {order : Order P}
    (added : side.addOrder order = .ok next) : next.Fifo (log ++ side.inserted order) := by
  have isSellEq := isSell_of_addOrder added
  have linked := fifo.linked.addOrder_linked added
  rw [fifo.linked.addOrder_eq_withOrder isSellEq] at added
  cases added
  refine ⟨linked, fun key => ?_⟩
  rw [ordersAt_withOrder, inserted]
  cases rests : side.existOrder order.odid with
  | true => simpa using fifo.inOrder key
  | false =>
      have fresh : ∀ id ∈ ids (side.ordersAt key), order.odid ≠ id := by
        rintro _ mem rfl
        rw [fifo.linked.existOrder_iff.mpr ⟨key, mem⟩] at rests
        cases rests
      by_cases same : key = order.price
      · rw [if_neg Bool.false_ne_true, if_pos ⟨same, rfl⟩, ids, List.map_append]
        exact (fifo.inOrder key).insert_last fresh ⟨same.symm, isSellEq⟩
      · rw [if_neg Bool.false_ne_true, if_neg (fun both => same both.1)]
        exact (fifo.inOrder key).insert_elsewhere fresh

theorem Fifo.modifyOrder (fifo : side.Fifo log) {id quantity : ℤ} {price : P}
    (modified : side.modifyOrder id quantity price = .ok next) :
    next.Fifo (log ++ side.insertions (.modifyOrder id quantity price)) := by
  rw [insertions]
  cases found : side.getOrder? id with
  | none =>
      simp only [BookSide.modifyOrder, found, pure_eq_ok, Except.ok.injEq] at modified
      subst modified
      simpa using fifo
  | some order =>
      obtain ⟨rfl, mem⟩ := fifo.linked.getOrder?_eq_some found
      by_cases same : order.price = price
      · obtain rfl := same
        have thins := fifo.linked.modifyOrder_thins mem modified
        simpa [found] using fifo.thin thins
      · simp only [BookSide.modifyOrder, found, if_neg same] at modified ⊢
        exact (fifo.thin (fifo.linked.removeOrder_thins order.odid)).addOrder modified

theorem Fifo.addLiquidity {state following : ReconcileState P isSell} (fifo : state.side.Fifo log)
    {qty : ℤ} {price : P} (added : addLiquidity state qty price = .ok following) :
    following.side.Fifo
      (log ++ state.side.inserted (Order.new state.fakeOrderId isSell qty price)) := by
  obtain ⟨side, creditedAdded, added⟩ := bind_eq_ok.mp added
  cases added
  have credited : ({ state.side with
      pendingLiqAddQty := credit state.side.pendingLiqAddQty price qty } :
        BookSide P isSell).Fifo log :=
    fifo.thin (fifo.linked.thins_self.congr rfl rfl)
  exact credited.addOrder creditedAdded

theorem Fifo.reconcileLevel {state following : ReconcileState P isSell}
    (fifo : state.side.Fifo log) {l2Level : L2PriceLevel P}
    (stepped : reconcileLevel state l2Level = .ok following) :
    following.side.Fifo (log ++ (offered state l2Level).flatMap state.side.inserted) := by
  cases found : state.side.levels.find? l2Level.price with
  | none =>
      simp only [BookSide.reconcileLevel, found] at stepped
      simp only [offered, found, List.flatMap_singleton]
      exact fifo.addLiquidity stepped
  | some level =>
      simp only [BookSide.reconcileLevel, found] at stepped
      simp only [offered, found]
      by_cases more : l2Level.quantity > level.quantity
      · rw [if_neg (by omega), if_pos more] at stepped
        rw [if_pos more, List.flatMap_singleton]
        exact fifo.addLiquidity stepped
      · rw [if_neg more] at stepped
        rw [if_neg more, List.flatMap_nil, List.append_nil]
        split at stepped
        · cases stepped
          exact fifo
        · cases stepped
          exact fifo

/-- The first loop of a reconciliation appends its insertions to the log. -/
theorem Fifo.firstPass {state compared : ReconcileState P isSell} {snapshot : L2SnapshotSide P}
    (passed : snapshot.foldlM BookSide.reconcileLevel state = .ok compared)
    (fifo : state.side.Fifo log) :
    compared.side.Fifo (log ++ firstPassInsertions state snapshot) := by
  induction snapshot generalizing state log with
  | nil =>
      cases passed
      simpa [firstPassInsertions] using fifo
  | cons l2Level later ih =>
      rw [List.foldlM_cons] at passed
      obtain ⟨following, stepped, passed⟩ := bind_eq_ok.mp passed
      rw [firstPassInsertions, stepped, ← List.append_assoc]
      exact ih passed (fifo.reconcileLevel stepped)

theorem Fifo.processL2Snapshot (fifo : side.Fifo log) {snapshot : L2SnapshotSide P}
    {events : OrderInfoVec P}
    (returned : side.processL2Snapshot snapshot = .ok (next, events)) :
    next.Fifo (log ++ side.insertions (.processL2Snapshot snapshot)) := by
  rw [insertions]
  by_cases idle : side.l2SnapQueue = []
  · rw [processL2Snapshot_reconciles idle] at returned
    rw [if_pos idle]
    obtain ⟨compared, passed, returned⟩ := bind_eq_ok.mp returned
    obtain ⟨removed, emptied, returned⟩ := bind_eq_ok.mp returned
    cases returned
    have comparedFifo := Fifo.firstPass passed fifo
    have thins : removed.side.Thins compared.side :=
      foldlM_invariant (fun _ (state : RemovalState P isSell) => state.side.Thins compared.side)
        (fun _ _ _ _ holds stepped => (removePending_thins holds.linked stepped).trans holds)
        comparedFifo.linked.thins_self emptied
    exact comparedFifo.thin thins
  · rw [if_neg idle, List.append_nil]
    obtain ⟨queue, kept⟩ := processL2Snapshot_expecting idle snapshot
    rw [kept] at returned
    cases returned
    exact fifo.thin (fifo.linked.thins_self.congr rfl rfl)

theorem Fifo.loggedStep (fifo : side.Fifo log) {sideCall : SideCall P} {later : List (Order P)}
    (stepped : LoggedStep (side, log) sideCall (next, later)) : next.Fifo later := by
  obtain ⟨⟨fuel, returned⟩, logged⟩ := stepped
  simp only at logged
  have stays : ∀ {thinner : BookSide P isSell}, thinner.Thins side → thinner.Fifo (log ++ []) :=
    fun thins => (List.append_nil log).symm ▸ fifo.thin thins
  rw [logged]
  cases sideCall with
  | addOrder order => exact fifo.addOrder returned
  | removeOrder id =>
      obtain rfl := Except.ok.inj returned
      exact stays (fifo.linked.removeOrder_thins id)
  | modifyOrder odid quantity price => exact fifo.modifyOrder returned
  | processCrossedOrder order =>
      obtain ⟨⟨crossed, filled, events⟩, crossedEq, returned⟩ := bind_eq_ok.mp returned
      cases returned
      exact stays (fifo.linked.processCrossedOrder_thins crossedEq)
  | processOrderCancel id quantity price =>
      obtain rfl := Except.ok.inj returned
      exact stays (fifo.linked.processOrderCancel_thins id quantity price)
  | processTrade trade =>
      obtain ⟨⟨traded, events⟩, tradedEq, returned⟩ := bind_eq_ok.mp returned
      cases returned
      exact stays (fifo.linked.processTrade_thins tradedEq)
  | processL2Snapshot snapshot =>
      obtain ⟨⟨reconciled, events⟩, processed, returned⟩ := bind_eq_ok.mp returned
      cases returned
      exact fifo.processL2Snapshot processed

end BookSide

open InsertionLog in
/-- After every run of a side, levels are iterated best price first, the orders of a level
stand in the order of their insertion, and each has the price and the side it was inserted
with. -/
theorem timePriority_of_run [Zero P] {calls : List (SideCall P)} {side : BookSide P isSell}
    {log : List (Order P)}
    (run : Run BookSide.LoggedStep ((.empty : BookSide P isSell), []) calls (side, log)) :
    (side.levels.entries.Pairwise fun first second =>
      PriceComparator isSell first.2.price second.2.price) ∧
    ∀ entry ∈ side.levels.entries,
      (∀ order ∈ entry.2.orders, ∃ number inserted,
        Inserted Order.odid log order.odid number inserted ∧
        inserted.price = order.price ∧ inserted.isSell = order.isSell) ∧
      entry.2.orders.Pairwise fun first second => ∀ number inserted other otherInserted,
        Inserted Order.odid log first.odid number inserted →
        Inserted Order.odid log second.odid other otherInserted → number < other := by
  have fifo : side.Fifo log :=
    run.invariant (fun _ => True) (fun state => state.1.Fifo state.2) BookSide.fifo_empty
      (fun _ fifo stepped => fifo.loggedStep stepped) (fun _ _ => trivial)
  constructor
  · apply side.levels.sorted.imp_of_mem
    intro first second firstMem secondMem ordered
    rw [(fifo.linked.level (SortedMap.find?_eq_some_iff.mpr firstMem)).price_eq,
      (fifo.linked.level (SortedMap.find?_eq_some_iff.mpr secondMem)).price_eq]
    exact ordered
  · rintro ⟨key, level⟩ mem
    have found := SortedMap.find?_eq_some_iff.mpr mem
    have inOrder := fifo.inOrder key
    have linked := fifo.linked.level found
    rw [BookSide.ordersAt_of_find? found] at inOrder
    constructor
    · intro order orderMem
      obtain ⟨number, inserted, isInserted, priceEq, sideEq⟩ :=
        inOrder.numbered order.odid (List.mem_map_of_mem orderMem)
      refine ⟨number, inserted, isInserted, ?_, ?_⟩
      · rw [priceEq, linked.order_price order orderMem]
      · rw [sideEq, linked.order_isSell order orderMem]
    · exact List.pairwise_map.mp inOrder.increasing

/-- The first order comes back to its level after it has left for another price. -/
def returningCalls : List (SideCall ℤ) :=
  [.addOrder ⟨1, true, 10, 100, 0⟩, .addOrder ⟨2, true, 5, 100, 0⟩,
    .modifyOrder 1 10 101, .modifyOrder 1 10 100, .processTrade ⟨2, 100⟩]

open InsertionLog in
theorem timePriority_of_returningCalls :
    ∃ (side : BookSide ℤ true) (log : List (Order ℤ)),
      Run BookSide.LoggedStep ((.empty : BookSide ℤ true), []) returningCalls (side, log) ∧
      ids (side.ordersAt 100) = [2, 1] ∧ ids log = [1, 2, 1, 1] ∧
      (side.levels.entries.Pairwise fun first second =>
        PriceComparator true first.2.price second.2.price) ∧
      ∀ entry ∈ side.levels.entries,
        (∀ order ∈ entry.2.orders, ∃ number inserted,
          Inserted Order.odid log order.odid number inserted ∧
          inserted.price = order.price ∧ inserted.isSell = order.isSell) ∧
        entry.2.orders.Pairwise fun first second => ∀ number inserted other otherInserted,
          Inserted Order.odid log first.odid number inserted →
          Inserted Order.odid log second.odid other otherInserted → number < other := by
  have run : ∃ (side : BookSide ℤ true) (log : List (Order ℤ)),
      Run BookSide.LoggedStep ((.empty : BookSide ℤ true), []) returningCalls (side, log) ∧
      ids (side.ordersAt 100) = [2, 1] ∧ ids log = [1, 2, 1, 1] := by
    refine ⟨?side, ?log, ?run, ?queue, ?numbers⟩
    case run =>
      iterate 5 refine Run.cons (show BookSide.LoggedStep _ _ (_, _) from ⟨⟨5, rfl⟩, rfl⟩) ?_
      exact Run.start
    case queue => rfl
    case numbers => rfl
  obtain ⟨side, log, run, queue, numbers⟩ := run
  exact ⟨side, log, run, queue, numbers, timePriority_of_run run⟩

end OrderBook
