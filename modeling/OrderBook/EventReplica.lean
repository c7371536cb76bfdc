import OrderBook.BookManager
import OrderBook.MirrorBook
import OrderBook.SnapshotLeads
import OrderBook.TradeAccounts

/-!
# A replica that follows the events

A subscriber of the manager keeps the L2 view of both sides and changes it by the
events it is given, whenever the manager flushes them.  What it holds is right as
long as the events of each message sum up, at each price, to what the quantity
there changes by.  The messages whose events do are described by what the book
holds when they arrive.
-/

namespace OrderBook

open FueledLoop InputRun

variable {P : Type} [LinearOrder P]

/-! ### Views without empty prices -/

section Tight

variable {before : P → P → Prop} [DecidableRel before] [IsStrictTotalOrder P before]

/-- A view that holds no price with nothing left. -/
def TightView (view : SortedMap P ℤ before) : Prop :=
  ∀ price, view.find? price = if qtyAt view price = 0 then none else some (qtyAt view price)

omit [DecidableRel before] in
theorem TightView.ext {first second : SortedMap P ℤ before} (firstTight : TightView first)
    (secondTight : TightView second) (same : ∀ price, qtyAt first price = qtyAt second price) :
    first = second := by
  apply SortedMap.ext_find?
  intro price
  rw [firstTight price, secondTight price, same]

theorem qtyAt_followEvents (view : SortedMap P ℤ before) (events : OrderInfoVec P) (price : P) :
    qtyAt (followEvents view events) price = qtyAt view price + changeOf events price := by
  induction events generalizing view with
  | nil => simp [followEvents, changeOf]
  | cons e events ih =>
      have changeEq : changeOf (e :: events) price =
          (if e.price = price then e.change else 0) + changeOf events price := by
        simp [changeOf]
      refine (ih (followEvent view e)).trans ?_
      rw [changeEq, ← add_assoc]
      congr 1
      by_cases modifies : e.event = .modif
      · simp [followEvent, OrderInfo.change, modifies]
      · exact qtyAt_followEvent modifies view price

theorem TightView.followEvents {view : SortedMap P ℤ before} (tight : TightView view)
    (events : OrderInfoVec P) : TightView (followEvents view events) := by
  induction events generalizing view with
  | nil => exact tight
  | cons e events ih =>
      refine ih ?_
      by_cases modifies : e.event = .modif
      · simpa [followEvent, modifies] using tight
      · intro price
        rw [find?_followEvent modifies, qtyAt_followEvent modifies]
        by_cases here : price = e.price
        · simp [here]
        · rw [if_neg here, if_neg (Ne.symm here), add_zero]
          exact tight price

end Tight

/-- The L2 views that a subscriber keeps of the two sides. -/
abbrev L2Replica (P : Type) [LinearOrder P] :=
  (isSell : Bool) → SortedMap P ℤ (PriceComparator isSell)

namespace L2Replica

/-- The replica of an empty book. -/
def empty : L2Replica P := fun _ => .empty

/-- Follow one event on the side it names. -/
def follow (replica : L2Replica P) (e : OrderInfo P) : L2Replica P :=
  Function.update replica e.isSell (followEvent (replica e.isSell) e)

/-- A side of the replica follows the events of that side. -/
theorem foldl_follow (events : OrderInfoVec P) (replica : L2Replica P) (isSell : Bool) :
    events.foldl follow replica isSell =
      followEvents (replica isSell) (sideBlock isSell events) := by
  induction events generalizing replica with
  | nil => rfl
  | cons e events ih =>
      rw [List.foldl_cons, ih]
      by_cases here : e.isSell = isSell
      · subst here
        simp [follow, followEvents, sideBlock]
      · simp [follow, followEvents, sideBlock, here, Function.update_of_ne (Ne.symm here)]

end L2Replica

namespace BookSide

variable {isSell : Bool} {side : BookSide P isSell}

theorem qtyAt_l2Levels (side : BookSide P isSell) (price : P) :
    qtyAt side.l2Levels price = side.quantityAt price := by
  rw [qtyAt, find?_l2Levels]
  cases found : side.levels.find? price with
  | none => simp [quantityAt_of_none found]
  | some level => simp [quantityAt_of_find? found]

theorem Valid.tight_l2Levels (valid : side.Valid {0}) : TightView side.l2Levels := by
  intro price
  rw [qtyAt_l2Levels, find?_l2Levels]
  cases found : side.levels.find? price with
  | none => simp [quantityAt_of_none found]
  | some level =>
      have pos := valid.quantityAt_pos (existLevel_iff.mpr ⟨level, found⟩)
      rw [if_neg (by omega), quantityAt_of_find? found]
      rfl

end BookSide

/-! ### Events that sum up -/

namespace BookSide

variable {isSell : Bool} {side final : BookSide P isSell} {events : OrderInfoVec P}

/-- The events sum up, at each price, to what the quantity there changes by. -/
def Accounts (side : BookSide P isSell) (events : OrderInfoVec P) (final : BookSide P isSell) :
    Prop :=
  ∀ price, changeOf events price = final.quantityAt price - side.quantityAt price

theorem accounts_nil (levelsEq : final.levels = side.levels) : side.Accounts [] final := by
  intro price
  simp [changeOf, quantityAt, levelsEq]

theorem Accounts.of_levels {other : BookSide P isSell} (levelsEq : other.levels = side.levels)
    (accounts : other.Accounts events final) : side.Accounts events final := by
  intro price
  simpa [quantityAt, levelsEq] using accounts price

theorem changeOf_execEvents_at (taken : List (Order P × ℤ)) (price : P) :
    changeOf (execEvents isSell taken) price = -takenAt taken price := by
  induction taken with
  | nil => rfl
  | cons piece taken ih =>
      have first : changeOf (execEvents isSell (piece :: taken)) price =
          (if piece.1.price = price then -piece.2 else 0) +
            changeOf (execEvents isSell taken) price := by
        simp [changeOf, execEvents, OrderInfo.change]
      have taking : takenAt (piece :: taken) price =
          (if piece.1.price = price then piece.2 else 0) + takenAt taken price := rfl
      rw [first, ih, taking]
      split <;> omega

theorem changeOf_eq (events : OrderInfoVec P) (price : P) :
    changeOf events price = addQtyAt events price - removedQtyAt events price := by
  induction events with
  | nil => rfl
  | cons e events ih =>
      have changes : changeOf (e :: events) price =
          (if e.price = price then e.change else 0) + changeOf events price := by
        simp [changeOf]
      have adds := addQtyAt_append [e] events price
      have removes := removedQtyAt_append [e] events price
      rw [List.singleton_append] at adds removes
      rw [changes, adds, removes, ih]
      by_cases here : e.price = price
      · cases kind : e.event <;>
          simp [addQtyAt, removedQtyAt, OrderInfo.change, kind, here] <;> omega
      · simp [addQtyAt, removedQtyAt, here]

/-- Crossing lowers the quantity at each price by what is taken there. -/
theorem CrossOutcome.quantityAt_eq {price : P} {qty : ℤ} (valid : side.Valid {0})
    (nonneg : 0 ≤ qty) (outcome : CrossOutcome {0} side price qty final events) (key : P) :
    final.quantityAt key =
      side.quantityAt key - takenAt (fills qty (side.crossingOrders price)) key := by
  have taken : totalRemaining ((fillFront qty (side.crossingOrders price)).filter
      fun order => order.price = key) =
        totalRemaining ((side.crossingOrders price).filter fun order => order.price = key) -
          takenAt (fills qty (side.crossingOrders price)) key :=
    QueueFill.total_filter_remaining Order.lawful (fun _ _ => rfl) (valid.crossing_remain price)
      nonneg key
  rw [outcome.valid.quantityAt_eq, valid.quantityAt_eq,
    outcome.valid.linked.ordersAt_eq_filter, valid.linked.ordersAt_eq_filter, outcome.resting_eq,
    restingOrders_eq side price, List.filter_append, List.filter_append, totalRemaining_append,
    totalRemaining_append, taken]
  omega

theorem CrossOutcome.accounts {price : P} {qty : ℤ} (valid : side.Valid {0}) (nonneg : 0 ≤ qty)
    (outcome : CrossOutcome {0} side price qty final events) : side.Accounts events final := by
  intro key
  have quantityEq := outcome.quantityAt_eq valid nonneg key
  rw [outcome.events_eq, changeOf_execEvents_at]
  omega

/-- A new order raises the quantity at its price. -/
theorem accounts_withOrder (side : BookSide P isSell) (order : Order P)
    (fresh : side.existOrder order.odid = false) :
    side.Accounts [⟨.add, order.odid, isSell, order.getRemainingQuantity, order.price⟩]
      (side.withOrder order) := by
  intro price
  by_cases here : order.price = price
  · subst here
    rw [quantityAt_withOrder order fresh]
    simp [changeOf, OrderInfo.change]
  · have elsewhere : (side.withOrder order).quantityAt price = side.quantityAt price := by
      simp [withOrder, fresh, quantityAt, find?_putOrders, Ne.symm here]
    simp [changeOf, here, elsewhere]

variable {trade : Trade P}

theorem TradeOutcome.onSide {slack : Set ℤ} (outcome : TradeOutcome slack side trade final events) :
    OnSide isSell events := by
  intro e mem
  rcases outcome.event_cases mem with ⟨order, -, rfl⟩ | ⟨piece, -, rfl⟩ | ⟨-, rfl | rfl⟩
  · rfl
  · rfl
  · rfl
  · rfl

/-- The events of a trade sum up when no order that it cancels was filled before. -/
theorem TradeOutcome.accounts (valid : side.Valid {0})
    (outcome : TradeOutcome {0} side trade final events)
    (unfilled : ∀ order ∈ side.betterOrders trade.price, order.filledQuantity = 0) :
    side.Accounts events final := by
  have followed : followEvents side.l2Levels events = final.l2Levels := by
    refine (outcome.view_iff valid).mpr ⟨?_, ?_⟩
    · intro key level better found
      have counted := sub_eq_zero.mp (valid.counted found)
      rw [← counted, sum_quantity]
      intro order mem
      refine unfilled order (List.mem_flatMap.mpr ⟨(key, level), ?_, mem⟩)
      exact mem_betterLevels.mpr ⟨found, better⟩
    · intro level found rest
      have counted := sub_eq_zero.mp (valid.counted found)
      rw [← counted, eq_comm, min_eq_right_iff]
  intro price
  have sums := qtyAt_followEvents side.l2Levels events price
  rw [followed, qtyAt_l2Levels, qtyAt_l2Levels] at sums
  omega

section Snapshots

variable [Zero P] {snapshot : L2SnapshotSide P}

/-- The events of a snapshot sum up when the ids it invents are free. -/
theorem Valid.snapshot_accounts (valid : side.Valid {0})
    (positive : ∀ l2Level ∈ snapshot, 0 < l2Level.quantity)
    (distinct : (snapshot.map L2PriceLevel.price).Nodup)
    (free : side.l2SnapQueue = [] → ∀ id, InventedId snapshot id → side.existOrder id = false)
    (returned : side.processL2Snapshot snapshot = .ok (final, events)) :
    side.Accounts events final := by
  by_cases idle : side.l2SnapQueue = []
  · rw [processL2Snapshot_reconciles idle,
      valid.reconcile_eq (Set.mem_singleton 0) positive distinct] at returned
    cases returned
    intro price
    obtain ⟨-, -, -, -, quantityEq⟩ := valid.reconciled_at positive distinct (free idle) price
    obtain ⟨adds, removes⟩ := valid.qtyAt_reconcileEvents positive distinct price
    have sums := changeOf_eq (side.reconcileEvents snapshot) price
    rw [adds, removes] at sums
    refine sums.trans ?_
    rw [← reconciled, quantityEq]
    omega
  · obtain ⟨queue, kept⟩ := processL2Snapshot_expecting idle snapshot
    rw [kept] at returned
    cases returned
    exact accounts_nil rfl

end Snapshots

theorem inventedIds_free_iff (side : BookSide P isSell) (snapshot : L2SnapshotSide P) :
    (∀ index ∈ List.range snapshot.length, side.existOrder (100 + index) = false) ↔
      ∀ id, InventedId snapshot id → side.existOrder id = false := by
  constructor
  · rintro free id ⟨least, most⟩
    have shifted := free (id - 100).toNat (by rw [List.mem_range]; omega)
    rwa [Int.toNat_of_nonneg (by omega), add_sub_cancel] at shifted
  · intro free index mem
    rw [List.mem_range] at mem
    exact free _ ⟨by omega, by omega⟩

/-- What a cancel may find: an order that it removes lies at its price, with as much left as
the expected removals do not cover. -/
def FitsCancel (side : BookSide P isSell) (id quantity : ℤ) (price : P) : Prop :=
  ∀ order ∈ side.getOrder? id, 0 < side.restQty ⟨quantity, price⟩ →
    order.price = price ∧ order.getRemainingQuantity = side.restQty ⟨quantity, price⟩

instance (side : BookSide P isSell) (id quantity : ℤ) (price : P) :
    Decidable (side.FitsCancel id quantity price) :=
  inferInstanceAs (Decidable (∀ order ∈ side.getOrder? id,
    0 < side.restQty ⟨quantity, price⟩ →
      order.price = price ∧ order.getRemainingQuantity = side.restQty ⟨quantity, price⟩))

theorem Valid.cancel_accounts [Zero P] (valid : side.Valid {0}) {id quantity : ℤ} {price : P}
    (pos : 0 < quantity) (fits : side.FitsCancel id quantity price) :
    OnSide isSell (side.processOrderCancel id quantity price).2 ∧
      side.Accounts (side.processOrderCancel id quantity price).2
        (side.processOrderCancel id quantity price).1 := by
  rw [processOrderCancel_eq valid.ledgers.remove_pos id pos.le price]
  split
  · next removes =>
      obtain ⟨rest, exists_⟩ := removes
      obtain ⟨key, mem⟩ := valid.linked.existOrder_iff.mp exists_
      obtain ⟨order, orderMem, rfl⟩ := List.mem_map.mp mem
      obtain ⟨priceEq, restEq⟩ := fits order (valid.linked.getOrder?_of_mem orderMem) rest
      have keyEq := valid.linked.order_price orderMem
      subst priceEq keyEq
      refine ⟨by simp [OnSide], fun other => ?_⟩
      have same : (side.matchedRemoval quantity order.price).quantityAt other =
          side.quantityAt other := rfl
      have stays : order ∈ (side.matchedRemoval quantity order.price).ordersAt order.price :=
        orderMem
      rw [(valid.matchedRemoval quantity order.price).quantityAt_removeOrder stays, same, restEq]
      by_cases here : other = order.price
      · simp [changeOf, OrderInfo.change, here]
      · simp [changeOf, here, Ne.symm here]
  · exact ⟨by simp [OnSide], accounts_nil rfl⟩

end BookSide

namespace SmartOrderBook

/-- The events of a message sum up to what it changes, on each side. -/
def Accounts (book : SmartOrderBook P) (events : OrderInfoVec P) (final : SmartOrderBook P) :
    Prop :=
  ∀ isSell, (book.sides isSell).Accounts (sideBlock isSell events) (final.sides isSell)

/-- The replica that shows a book. -/
def replica (book : SmartOrderBook P) : L2Replica P := fun isSell => (book.sides isSell).l2Levels

/-- What each side accounts for, both together account for. -/
theorem accounts_of_sides {book final : SmartOrderBook P} {sideEvents : Bool → OrderInfoVec P}
    (onSide : ∀ isSell, OnSide isSell (sideEvents isSell))
    (accounts : ∀ isSell, (book.sides isSell).Accounts (sideEvents isSell) (final.sides isSell)) :
    book.Accounts (sideEvents false ++ sideEvents true) final := by
  intro isSell
  cases isSell with
  | false =>
      rw [sideBlock_bids (onSide false) (onSide true)]
      exact accounts false
  | true =>
      rw [sideBlock_asks (onSide false) (onSide true)]
      exact accounts true

theorem Accounts.follow {book final : SmartOrderBook P} {events : OrderInfoVec P}
    (accounts : book.Accounts events final) (valid : book.Valid {0})
    (finalValid : final.Valid {0}) :
    events.foldl L2Replica.follow book.replica = final.replica := by
  funext isSell
  rw [L2Replica.foldl_follow]
  apply ((valid isSell).tight_l2Levels.followEvents _).ext (finalValid isSell).tight_l2Levels
  intro price
  have changed := accounts isSell price
  have held := (book.sides isSell).qtyAt_l2Levels price
  have holds := (final.sides isSell).qtyAt_l2Levels price
  rw [qtyAt_followEvents, changed, holds]
  exact (congrArg (· + _) held).trans (by omega)

variable [Zero P] {book final : SmartOrderBook P} {events : OrderInfoVec P}

/-- An `ADD` message of a new id accounts for the executions and for the rest. -/
theorem Valid.add_accounts (valid : book.Valid {0}) {msg : OrderMessage P}
    (pos : 0 < msg.quantity) (fresh : (book.sides msg.isSell).existOrder msg.id = false)
    (returns : Returns (fun fuel => book.processOrderAddMessage fuel msg) (final, events)) :
    book.Accounts events final := by
  obtain ⟨own, matched, ⟨fuel, absorbed⟩, outcome⟩ := valid.addOutcome pos returns
  obtain ⟨-, -, matchedLe, ownEq⟩ := (valid msg.isSell).matchPendingLiqAdd pos.le absorbed
  have crossing := outcome.crossed.accounts (valid (!msg.isSell)) (by omega)
  have onSide : OnSide (!msg.isSell) (book.crossEvents msg (msg.quantity - matched)) := by
    intro e mem
    obtain ⟨piece, -, rfl⟩ := List.mem_map.mp mem
    rfl
  have noOwn : sideBlock msg.isSell (book.crossEvents msg (msg.quantity - matched)) = [] := by
    simpa using onSide.block_not
  by_cases enough : msg.quantity - matched ≤ book.crossingTotal msg
  · obtain ⟨finalEq, eventsEq⟩ := outcome.filled enough
    rw [eventsEq]
    refine forall_side msg.isSell ?_ ?_
    · rw [noOwn]
      apply BookSide.accounts_nil
      rw [finalEq, ownEq]
      rfl
    · rw [onSide.block]
      exact crossing
  · obtain ⟨finalEq, eventsEq⟩ := outcome.rests (by omega)
    rw [eventsEq]
    refine forall_side msg.isSell ?_ ?_
    · have rest := BookSide.accounts_withOrder
        (own.addPendingLiqRemoveQty (book.crossEvents msg (msg.quantity - matched)))
        (msg.toOrder.fill (matched + book.crossingTotal msg)) (by rw [ownEq]; exact fresh)
      have left : (msg.toOrder.fill (matched + book.crossingTotal msg)).getRemainingQuantity =
          msg.quantity - matched - book.crossingTotal msg := by
        simp only [Order.getRemainingQuantity, Order.fill, OrderMessage.toOrder, Order.new]
        omega
      rw [sideBlock_append, noOwn, finalEq]
      rw [left] at rest
      simpa [sideBlock, OrderMessage.toOrder, Order.new] using rest.of_levels (by rw [ownEq]; rfl)
    · rw [sideBlock_append, onSide.block]
      simpa [sideBlock] using crossing

theorem Valid.trade_accounts (valid : book.Valid {0}) {msg : TradeMessage P}
    (pos : 0 < msg.quantity)
    (unfilled : ∀ isSell, ∀ order ∈ (book.sides isSell).betterOrders msg.price,
      order.filledQuantity = 0)
    (returns : Returns (fun fuel => book.processTradeMessage fuel msg) (final, events)) :
    book.Accounts events final := by
  obtain ⟨sideEvents, rfl, outcome⟩ := valid.tradeOutcome pos.le returns
  exact accounts_of_sides (fun isSell => (outcome isSell).onSide) fun isSell =>
    (outcome isSell).accounts (valid isSell) (unfilled isSell)

theorem Valid.snapshot_accounts (valid : book.Valid {0}) {msg : SnapshotMessage P}
    (positive : ∀ isSell, ∀ l2Level ∈ msg.levels isSell, 0 < l2Level.quantity)
    (distinct : ∀ isSell, ((msg.levels isSell).map L2PriceLevel.price).Nodup)
    (free : ∀ isSell, (book.sides isSell).l2SnapQueue = [] →
      ∀ id, BookSide.InventedId (msg.levels isSell) id → (book.sides isSell).existOrder id = false)
    (returned : book.processSnapshotMessage msg = .ok (final, events)) :
    book.Accounts events final := by
  obtain ⟨sideEvents, rfl, done⟩ := processSnapshotMessage_eq_ok.mp returned
  exact accounts_of_sides (fun isSell => BookSide.processL2Snapshot_onSide (done isSell))
    fun isSell => (valid isSell).snapshot_accounts (positive isSell) (distinct isSell)
      (free isSell) (done isSell)

/-- A `CANCEL` message accounts for the order it removes. -/
theorem Valid.cancel_accounts (valid : book.Valid {0}) {msg : OrderMessage P}
    (pos : 0 < msg.quantity)
    (fits : (book.sides msg.isSell).FitsCancel msg.id msg.quantity msg.price) :
    book.Accounts (book.processOrderCancelMessage msg).2
      (book.processOrderCancelMessage msg).1 := by
  obtain ⟨onSide, accounts⟩ := (valid msg.isSell).cancel_accounts pos fits
  refine forall_side msg.isSell ?_ ?_
  · simpa [SmartOrderBook.processOrderCancelMessage, onSide.block] using accounts
  · have events := onSide.block_not
    simpa [SmartOrderBook.processOrderCancelMessage, events] using BookSide.accounts_nil rfl

/-- A message whose events sum up, by what the book holds when it arrives.  The events
of a modification never do: they tell no quantity. -/
def Traceable (book : SmartOrderBook P) : Message P → Prop
  | .add msg => (book.sides msg.isSell).existOrder msg.id = false
  | .cancel msg => (book.sides msg.isSell).FitsCancel msg.id msg.quantity msg.price
  | .modify msg => book.existOrder msg.id = false
  | .trade msg => ∀ isSell, ∀ order ∈ (book.sides isSell).betterOrders msg.price,
      order.filledQuantity = 0
  | .snapshot msg => ∀ isSell, (book.sides isSell).l2SnapQueue = [] →
      ∀ id, BookSide.InventedId (msg.levels isSell) id → (book.sides isSell).existOrder id = false

instance (book : SmartOrderBook P) (message : Message P) : Decidable (book.Traceable message) :=
  match message with
  | .add msg => inferInstanceAs (Decidable ((book.sides msg.isSell).existOrder msg.id = false))
  | .cancel msg => inferInstanceAs
      (Decidable ((book.sides msg.isSell).FitsCancel msg.id msg.quantity msg.price))
  | .modify msg => inferInstanceAs (Decidable (book.existOrder msg.id = false))
  | .trade msg => inferInstanceAs (Decidable (∀ isSell,
      ∀ order ∈ (book.sides isSell).betterOrders msg.price, order.filledQuantity = 0))
  | .snapshot msg => decidable_of_iff (∀ isSell, (book.sides isSell).l2SnapQueue = [] →
      ∀ index ∈ List.range (msg.levels isSell).length,
        (book.sides isSell).existOrder (100 + index) = false)
      (forall_congr' fun isSell => imp_congr_right fun _ =>
        (book.sides isSell).inventedIds_free_iff (msg.levels isSell))

theorem Valid.process_accounts (valid : book.Valid {0}) {message : Message P}
    (positive : message.Positive) (distinct : message.DistinctPrices)
    (traceable : book.Traceable message) {fuel : Nat}
    (returned : book.process fuel message = .ok (final, events)) :
    book.Accounts events final := by
  cases message with
  | add msg => exact valid.add_accounts positive traceable ⟨fuel, returned⟩
  | cancel msg =>
      cases returned
      exact valid.cancel_accounts positive traceable
  | modify msg =>
      have unknown : book.existOrder msg.id = false := traceable
      have absent : book.getOrder? msg.id = none :=
        SharedBook.getOrder?_of_not_exist (by simp [unknown])
      simp only [process, processOrderModifyMessage, absent, pure_eq_ok] at returned
      cases returned
      intro isSell price
      by_cases here : msg.isSell = isSell
      · simp [here, sideBlock, changeOf, OrderInfo.change]
      · simp [here, sideBlock, changeOf]
  | trade msg => exact valid.trade_accounts positive traceable ⟨fuel, returned⟩
  | snapshot msg => exact valid.snapshot_accounts positive distinct traceable returned

/-- Messages that are traceable in the states in which they arrive. -/
def TraceableStream (fuel : Nat) : SmartOrderBook P → List (Message P) → Prop
  | _, [] => True
  | book, message :: messages =>
      message.Positive ∧ message.DistinctPrices ∧ book.Traceable message ∧
        match book.process fuel message with
        | .error _ => True
        | .ok (next, _) => next.TraceableStream fuel messages

instance decidableTraceableStream (fuel : Nat) : (messages : List (Message P)) →
    (book : SmartOrderBook P) → Decidable (book.TraceableStream fuel messages)
  | [], _ => .isTrue trivial
  | message :: messages, book =>
      match processed : book.process fuel message with
      | .error _ => decidable_of_iff
          (message.Positive ∧ message.DistinctPrices ∧ book.Traceable message)
          (by simp [TraceableStream, processed])
      | .ok (next, _) =>
          have := decidableTraceableStream fuel messages next
          decidable_of_iff (message.Positive ∧ message.DistinctPrices ∧ book.Traceable message ∧
            next.TraceableStream fuel messages) (by simp [TraceableStream, processed])

/-- A replica that shows a book shows it again after any traceable messages. -/
theorem Valid.stream_replica (valid : book.Valid {0}) {fuel : Nat} {messages : List (Message P)}
    (traceable : book.TraceableStream fuel messages)
    (streamed : book.processStream fuel messages = .ok (final, events)) :
    final.Valid {0} ∧ events.foldl L2Replica.follow book.replica = final.replica := by
  induction messages generalizing book events with
  | nil =>
      cases streamed
      exact ⟨valid, rfl⟩
  | cons message messages ih =>
      obtain ⟨positive, distinct, fits, later⟩ := traceable
      rw [processStream_cons] at streamed
      obtain ⟨⟨next, first⟩, processed, rest⟩ := bind_eq_ok.mp streamed
      obtain ⟨⟨last, others⟩, continued, outcome⟩ := bind_eq_ok.mp rest
      cases outcome
      rw [processed] at later
      have nextValid := valid.messageStep (Set.mem_singleton 0) positive (Or.inl distinct)
        ⟨first, fuel, processed⟩
      have accounts := valid.process_accounts positive distinct fits processed
      rw [List.foldl_append, accounts.follow valid nextValid]
      exact ih nextValid later continued

end SmartOrderBook

/-- A subscriber that follows the events from an empty view on, whenever the manager hands
them out, holds the L2 view of both sides after the last flush, provided every message
was traceable when it arrived. -/
theorem replica_follows_manager [Zero P] {fuel : Nat} {calls : List (ManagerCall P)}
    {final : Service P (L2Replica P)}
    (ran : (Service.start L2Replica.empty).calls fuel
      (.listening fun _ replica e => replica.follow e) (calls ++ [.flushEvents]) = .ok final)
    (traceable : SmartOrderBook.empty.TraceableStream fuel
      (calls.filterMap ManagerCall.message?)) :
    ∀ isSell, final.world isSell = (final.manager.book.sides isSell).l2Levels ∧
      (final.manager.book.sides isSell).l2View =
        (final.world isSell).entries.map fun entry => ⟨entry.1, entry.2⟩ := by
  rw [Service.calls_flush_listening, Service.calls_listening] at ran
  cases streamed : (SmartOrderBook.empty (P := P)).processStream fuel
      (calls.filterMap ManagerCall.message?) with
  | error halt => simp [Service.start, BookManager.new, streamed, Except.map] at ran
  | ok result =>
      have shown := (SmartOrderBook.valid_empty.stream_replica traceable streamed).2
      simp only [Service.start, BookManager.new, streamed, Except.map, Except.ok.injEq] at ran
      subst ran
      intro isSell
      have sameLevels := congrFun shown isSell
      refine ⟨sameLevels, (BookSide.l2View_eq_l2Levels _).trans ?_⟩
      exact (congrArg (fun levels : SortedMap P ℤ (PriceComparator isSell) =>
        levels.entries.map fun entry => (⟨entry.1, entry.2⟩ : L2PriceLevel P)) sameLevels).symm

/-- Two asks, a bid that takes a part of the first one, the trade of that execution, and the
cancel of the second ask, with flushes in between. -/
def followedCalls : List (ManagerCall ℤ) :=
  [.processOrderMessage ⟨.add, 1, true, 10, 100⟩, .flushEvents,
    .processOrderMessage ⟨.add, 2, true, 5, 102⟩, .processOrderMessage ⟨.add, 3, false, 4, 100⟩,
    .processTradeMessage ⟨4, 100⟩, .flushEvents,
    .processOrderMessage ⟨.cancel, 2, true, 5, 102⟩]

theorem replica_follows_followedCalls :
    ∃ final, (Service.start L2Replica.empty).calls 9
        (.listening fun _ replica e => replica.follow e) (followedCalls ++ [.flushEvents]) =
          .ok final ∧ (final.world true).entries = [(100, 6)] ∧
      (final.manager.book.sides true).l2View = [⟨100, 6⟩] := by
  have ran : ∃ final, (Service.start L2Replica.empty).calls 9
      (.listening fun _ replica e => replica.follow e) (followedCalls ++ [.flushEvents]) =
        .ok final ∧ (final.world true).entries = [(100, 6)] := ⟨_, rfl, rfl⟩
  obtain ⟨final, ran, shown⟩ := ran
  have view := (replica_follows_manager ran (by decide) true).2
  rw [shown] at view
  exact ⟨final, ran, shown, view⟩

end OrderBook
