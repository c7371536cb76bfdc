import OrderBook.AddConserves

/-!
# The two ledgers of expected trades agree

An execution is expected as a trade on both sides: the passive side credits its
ledger fill by fill, the aggressor's side reads the same quantities off the events.
A trade message debits both ledgers, and a snapshot touches neither.  As long as
nothing is cancelled, the two ledgers stay equal as maps.
-/

namespace OrderBook

open FueledLoop InputRun

variable {P : Type} [LinearOrder P] {slack : Set ℤ}

/-- The messages that book or settle a trade on both sides, or on neither. -/
def Message.BothSided {P : Type} : Message P → Prop
  | .cancel _ => False
  | .modify _ => False
  | _ => True

instance (message : Message P) : Decidable message.BothSided :=
  match message with
  | .add _ => isTrue trivial
  | .cancel _ => isFalse id
  | .modify _ => isFalse id
  | .trade _ => isTrue trivial
  | .snapshot _ => isTrue trivial

namespace BookSide

variable {isSell : Bool} {side next : BookSide P isSell}

/-- What a trade matches depends on the ledger alone. -/
theorem matchPendingLiqRemove_congr {other : BookSide P (!isSell)}
    (same : side.pendingLiqRemoveQty = other.pendingLiqRemoveQty) (quantity : ℤ) (price : P) :
    (side.matchPendingLiqRemove quantity price).2 =
      (other.matchPendingLiqRemove quantity price).2 := by
  simp only [matchPendingLiqRemove, same]
  split
  · rfl
  · rfl

variable [Zero P]

theorem addOrder_remove_eq {order : Order P} (added : side.addOrder order = .ok next) :
    next.pendingLiqRemoveQty = side.pendingLiqRemoveQty := by
  obtain ⟨_, _, added⟩ := bind_eq_ok.mp added
  split at added
  · cases added
    rfl
  · cases added
    rfl

theorem fillLevelOrder_remove_eq {key : P} {order : Order P} {qty : ℤ}
    (filled : side.fillLevelOrder key order qty = .ok next) :
    next.pendingLiqRemoveQty = side.pendingLiqRemoveQty := by
  obtain ⟨_, _, filled⟩ := bind_eq_ok.mp filled
  cases filled
  rfl

theorem addLiquidity_remove_eq {state following : ReconcileState P isSell} {qty : ℤ} {price : P}
    (added : addLiquidity state qty price = .ok following) :
    following.side.pendingLiqRemoveQty = state.side.pendingLiqRemoveQty := by
  obtain ⟨credited, creditedAdded, added⟩ := bind_eq_ok.mp added
  cases added
  have same := addOrder_remove_eq creditedAdded
  exact same

theorem reconcileLevel_remove_eq {state following : ReconcileState P isSell}
    {l2Level : L2PriceLevel P} (stepped : reconcileLevel state l2Level = .ok following) :
    following.side.pendingLiqRemoveQty = state.side.pendingLiqRemoveQty := by
  unfold reconcileLevel at stepped
  split at stepped
  · exact addLiquidity_remove_eq stepped
  · split at stepped
    · cases stepped
      rfl
    · split at stepped
      · exact addLiquidity_remove_eq stepped
      · cases stepped
        rfl

theorem removePending_remove_eq {num : Nat} {state following : RemovalState P isSell}
    {entry : (Order P × ℤ) × Nat} (stepped : removePending num state entry = .ok following) :
    following.side.pendingLiqRemoveQty = state.side.pendingLiqRemoveQty := by
  obtain ⟨⟨listed, qty⟩, index⟩ := entry
  rw [removePending_eq] at stepped
  split at stepped
  · cases stepped
    exact removeOrder_frame state.side listed.odid
  · split at stepped
    · obtain ⟨_, filled, stepped⟩ := bind_eq_ok.mp stepped
      cases stepped
      exact fillLevelOrder_remove_eq filled
    · cases stepped
      rfl

/-- Reconciliation expects no trade for the liquidity it removes. -/
theorem reconcile_remove_eq {snapshot : L2SnapshotSide P} {events : OrderInfoVec P}
    (returned : side.reconcile snapshot = .ok (next, events)) :
    next.pendingLiqRemoveQty = side.pendingLiqRemoveQty := by
  obtain ⟨compared, passed, returned⟩ := bind_eq_ok.mp returned
  obtain ⟨removed, emptied, returned⟩ := bind_eq_ok.mp returned
  cases returned
  have first : compared.side.pendingLiqRemoveQty = side.pendingLiqRemoveQty :=
    foldlM_invariant
      (fun _ state => state.side.pendingLiqRemoveQty = side.pendingLiqRemoveQty)
      (fun _ _ _ _ same stepped => (reconcileLevel_remove_eq stepped).trans same) rfl passed
  exact foldlM_invariant
    (fun _ state => state.side.pendingLiqRemoveQty = side.pendingLiqRemoveQty)
    (fun _ _ _ _ same stepped => (removePending_remove_eq stepped).trans same) first emptied

theorem processL2Snapshot_remove_eq {snapshot : L2SnapshotSide P} {events : OrderInfoVec P}
    (returned : side.processL2Snapshot snapshot = .ok (next, events)) :
    next.pendingLiqRemoveQty = side.pendingLiqRemoveQty := by
  by_cases idle : side.l2SnapQueue = []
  · rw [processL2Snapshot_reconciles idle] at returned
    exact reconcile_remove_eq returned
  · obtain ⟨queue, kept⟩ := processL2Snapshot_expecting idle snapshot
    rw [kept] at returned
    cases returned
    rfl

end BookSide

namespace SmartOrderBook

variable {book next : SmartOrderBook P}

/-- Both sides expect the same trades. -/
def RemovalsAgree (book : SmartOrderBook P) : Prop :=
  (book.sides false).pendingLiqRemoveQty = (book.sides true).pendingLiqRemoveQty

variable [Zero P]

theorem RemovalsAgree.processOrderAddMessage (agree : book.RemovalsAgree)
    (valid : book.Valid slack) {msg : OrderMessage P} (pos : 0 < msg.quantity)
    {events : OrderInfoVec P}
    (returns : Returns (fun fuel => book.processOrderAddMessage fuel msg) (next, events)) :
    next.RemovalsAgree := by
  obtain ⟨own, matched, ⟨fuel, absorbed⟩, outcome⟩ := valid.addOutcome pos returns
  obtain ⟨-, -, -, ownEq⟩ := (valid msg.isSell).matchPendingLiqAdd pos.le absorbed
  have ownRemove : own.pendingLiqRemoveQty = (book.sides msg.isSell).pendingLiqRemoveQty := by
    rw [ownEq]
  have credited := outcome.removals ownRemove
  rw [RemovalsAgree, credited false, credited true, show _ = _ from agree]

theorem RemovalsAgree.processTradeMessage (agree : book.RemovalsAgree)
    (valid : book.Valid slack) {msg : TradeMessage P} (pos : 0 < msg.quantity)
    {events : OrderInfoVec P}
    (returns : Returns (fun fuel => book.processTradeMessage fuel msg) (next, events)) :
    next.RemovalsAgree := by
  obtain ⟨_, -, outcome⟩ := valid.tradeOutcome pos.le returns
  rw [RemovalsAgree, (outcome false).remove_eq, (outcome true).remove_eq, show _ = _ from agree]

theorem RemovalsAgree.processSnapshotMessage (agree : book.RemovalsAgree)
    {msg : SnapshotMessage P} {events : OrderInfoVec P}
    (returned : book.processSnapshotMessage msg = .ok (next, events)) : next.RemovalsAgree := by
  obtain ⟨_, -, sidesReturned⟩ := processSnapshotMessage_eq_ok.mp returned
  rw [RemovalsAgree, BookSide.processL2Snapshot_remove_eq (sidesReturned false),
    BookSide.processL2Snapshot_remove_eq (sidesReturned true), show _ = _ from agree]

theorem RemovalsAgree.messageStep (agree : book.RemovalsAgree) (valid : book.Valid slack)
    {message : Message P} (positive : message.Positive) (bothSided : message.BothSided)
    (stepped : book.MessageStep message next) : next.RemovalsAgree := by
  obtain ⟨events, returns⟩ := stepped
  cases message with
  | add msg => exact agree.processOrderAddMessage valid positive returns
  | cancel msg => exact bothSided.elim
  | modify msg => exact bothSided.elim
  | trade msg => exact agree.processTradeMessage valid positive returns
  | snapshot msg =>
      obtain ⟨_, returned⟩ := returns
      exact agree.processSnapshotMessage returned

end SmartOrderBook

/-- In every run of `ADD`, `TRADE` and snapshot messages both sides expect the same
trades, so both match the same part of any trade. -/
theorem removalsAgree_of_run [Zero P] {messages : List (Message P)} {book : SmartOrderBook P}
    (run : Run SmartOrderBook.MessageStep .empty messages book)
    (allowed : ∀ message ∈ messages, message.Positive ∧ message.BothSided) :
    (book.sides false).pendingLiqRemoveQty = (book.sides true).pendingLiqRemoveQty ∧
      ∀ trade : Trade P,
        ((book.sides false).matchPendingLiqRemove trade.quantity trade.price).2 =
          ((book.sides true).matchPendingLiqRemove trade.quantity trade.price).2 := by
  have agree : book.Valid {gap | 0 ≤ gap} ∧ book.RemovalsAgree :=
    run.invariant (fun message => message.Positive ∧ message.BothSided)
      (fun state => state.Valid {gap | 0 ≤ gap} ∧ state.RemovalsAgree)
      ⟨SmartOrderBook.valid_empty, rfl⟩
      (fun ⟨positive, bothSided⟩ ⟨valid, agree⟩ stepped =>
        ⟨valid.messageStep BookSide.zero_mem_nonneg positive (Or.inr BookSide.widens_nonneg)
          stepped, agree.messageStep valid positive bothSided stepped⟩) allowed
  exact ⟨agree.2, fun trade =>
    BookSide.matchPendingLiqRemove_congr agree.2 trade.quantity trade.price⟩

/-- A bid sweeps two asks, one of the two trades arrives, and so does a snapshot. -/
def sweptMessages : List (Message ℤ) :=
  [.add ⟨.add, 1, true, 10, 100⟩, .add ⟨.add, 2, true, 5, 101⟩,
    .add ⟨.add, 3, false, 15, 101⟩, .trade ⟨10, 100⟩, .snapshot ⟨[⟨99, 4⟩], []⟩]

theorem removalsAgree_of_sweptMessages :
    ∃ book, Run SmartOrderBook.MessageStep .empty sweptMessages book ∧
      (book.sides false).pendingLiqRemoveQty = (book.sides true).pendingLiqRemoveQty ∧
      qtyAt (book.sides true).pendingLiqRemoveQty 101 = 5 := by
  have processed : ∃ book, SmartOrderBook.empty.processAll 9 sweptMessages = .ok book ∧
      qtyAt (book.sides true).pendingLiqRemoveQty 101 = 5 := ⟨_, rfl, rfl⟩
  obtain ⟨book, processed, expected⟩ := processed
  have run := SmartOrderBook.run_of_processAll 9 processed
  have agree := removalsAgree_of_run run (by decide)
  exact ⟨book, run, agree.1, expected⟩

end OrderBook
