import OrderBook.DistinctSnapshot
import OrderBook.SmartOrderBook

/-!
# The handlers of the two-sided book

What each message handler does to the two sides, from what the operations of a
side do.  An `ADD` message is absorbed by the expected liquidity of its side,
then crosses the other side, and its rest joins its side.
-/

namespace OrderBook

open FueledLoop

namespace SmartOrderBook

variable {P : Type} [LinearOrder P] {slack : Set ℤ}

/-- Both sides satisfy the invariant. -/
def Valid (slack : Set ℤ) (book : SmartOrderBook P) : Prop :=
  ∀ isSell, (book.sides isSell).Valid slack

@[simp]
theorem sides_setSide_self (book : SmartOrderBook P) (isSell : Bool)
    (side : BookSide P isSell) : (book.setSide isSell side).sides isSell = side :=
  Function.update_self ..

@[simp]
theorem sides_setSide_not (book : SmartOrderBook P) (isSell : Bool)
    (side : BookSide P isSell) :
    (book.setSide isSell side).sides (!isSell) = book.sides (!isSell) :=
  Function.update_of_ne (Bool.not_ne_self isSell) ..

@[simp]
theorem sides_setSide_of_not (book : SmartOrderBook P) (isSell : Bool)
    (side : BookSide P (!isSell)) :
    (book.setSide (!isSell) side).sides isSell = book.sides isSell :=
  Function.update_of_ne (Bool.self_ne_not isSell) ..

/-- A fact about both sides is one about a side and the other one. -/
theorem forall_side {holds : Bool → Prop} (isSell : Bool) (own : holds isSell)
    (other : holds (!isSell)) : ∀ side, holds side := by
  intro side
  cases isSell <;> cases side <;> assumption

theorem ext_sides {first second : SmartOrderBook P} (isSell : Bool)
    (own : first.sides isSell = second.sides isSell)
    (other : first.sides (!isSell) = second.sides (!isSell)) : first = second := by
  have same : first.sides = second.sides :=
    funext (forall_side isSell own other)
  cases first
  cases second
  cases same
  rfl

theorem valid_empty : (empty : SmartOrderBook P).Valid slack := fun _ => BookSide.valid_empty

/-- The quantity on the other side that an `ADD` message can meet. -/
def crossingTotal (book : SmartOrderBook P) (msg : OrderMessage P) : ℤ :=
  totalRemaining ((book.sides (!msg.isSell)).crossingOrders msg.price)

/-- The executions of an `ADD` message of which `qty` is left to cross. -/
def crossEvents (book : SmartOrderBook P) (msg : OrderMessage P) (qty : ℤ) :
    OrderInfoVec P :=
  execEvents (!msg.isSell) (fills qty ((book.sides (!msg.isSell)).crossingOrders msg.price))

theorem addPendingLiqRemoveQty_valid {isSell : Bool} {side : BookSide P isSell}
    (valid : side.Valid slack) {events : OrderInfoVec P}
    (positive : ∀ e ∈ events, 0 < e.quantity) :
    (side.addPendingLiqRemoveQty events).Valid slack :=
  valid.congr rfl rfl
    ⟨valid.ledgers.remove_pos.creditEvents positive, valid.ledgers.add_nonneg⟩

theorem Valid.crossEvents_pos {book : SmartOrderBook P} (valid : book.Valid slack)
    (msg : OrderMessage P) {qty : ℤ} (nonneg : 0 ≤ qty) :
    ∀ e ∈ book.crossEvents msg qty, 0 < e.quantity :=
  execEvents_pos ((valid (!msg.isSell)).crossing_remain msg.price) nonneg

/-- The order a modification refers to rests on one of the sides. -/
theorem Valid.getOrder?_isOpen {book : SmartOrderBook P} (valid : book.Valid slack) {id : ℤ}
    {order : Order P} (found : book.getOrder? id = some order) : order.IsOpen := by
  unfold getOrder? at found
  split at found
  · obtain ⟨-, mem⟩ := (valid false).linked.getOrder?_eq_some found
    exact (valid false).isOpen mem
  · obtain ⟨-, mem⟩ := (valid true).linked.getOrder?_eq_some found
    exact (valid true).isOpen mem

variable [Zero P]

/-! ### Adds -/

/-- What an `ADD` message leaves behind once `matched` of it is absorbed, with
`own` the side it belongs to after that. -/
structure AddOutcome (slack : Set ℤ) (book : SmartOrderBook P) (msg : OrderMessage P)
    (own : BookSide P msg.isSell) (matched : ℤ) (final : SmartOrderBook P)
    (events : OrderInfoVec P) : Prop where
  crossed : BookSide.CrossOutcome slack (book.sides (!msg.isSell)) msg.price
    (msg.quantity - matched) (final.sides (!msg.isSell))
    (book.crossEvents msg (msg.quantity - matched))
  filled : msg.quantity - matched ≤ book.crossingTotal msg →
    final.sides msg.isSell =
        own.addPendingLiqRemoveQty (book.crossEvents msg (msg.quantity - matched)) ∧
      events = book.crossEvents msg (msg.quantity - matched)
  rests : book.crossingTotal msg < msg.quantity - matched →
    final.sides msg.isSell =
        (own.addPendingLiqRemoveQty
          (book.crossEvents msg (msg.quantity - matched))).withOrder
            (msg.toOrder.fill (matched + book.crossingTotal msg)) ∧
      events = book.crossEvents msg (msg.quantity - matched) ++
        [⟨.add, msg.id, msg.isSell, msg.quantity - matched - book.crossingTotal msg,
          msg.price⟩]

theorem uncross_monotone (book : SmartOrderBook P) (msg : OrderMessage P) (order : Order P) :
    FuelMonotone fun fuel => book.uncross fuel msg order :=
  FuelMonotone.ite
    ((BookSide.processCrossedOrder_monotone _ _).bind fun _ => FuelMonotone.const _)
    (FuelMonotone.const _)

theorem addUnmatched_monotone (book : SmartOrderBook P) (msg : OrderMessage P)
    (order : Order P) : FuelMonotone fun fuel => book.addUnmatched fuel msg order :=
  FuelMonotone.ite (FuelMonotone.const _)
    ((uncross_monotone _ _ _).bind fun _ => FuelMonotone.const _)

theorem processOrderAddMessage_monotone (book : SmartOrderBook P) (msg : OrderMessage P) :
    FuelMonotone fun fuel => book.processOrderAddMessage fuel msg :=
  (BookSide.matchPendingLiqAdd_monotone _ _ _).bind fun _ => addUnmatched_monotone _ _ _

/-- The uncrossing part of an `ADD` message. -/
theorem Valid.uncross_returns {book : SmartOrderBook P} (valid : book.Valid slack)
    {msg : OrderMessage P} {order : Order P} (isSellEq : order.isSell = msg.isSell)
    (priceEq : order.price = msg.price) (nonneg : 0 ≤ order.getRemainingQuantity) :
    ∃ final,
      Returns (fun fuel => book.uncross fuel msg order)
        (final, order.fill (min order.getRemainingQuantity (book.crossingTotal msg)),
          book.crossEvents msg order.getRemainingQuantity) ∧
      BookSide.CrossOutcome slack (book.sides (!msg.isSell)) msg.price
        order.getRemainingQuantity (final.sides (!msg.isSell))
        (book.crossEvents msg order.getRemainingQuantity) ∧
      final.sides msg.isSell = (book.sides msg.isSell).addPendingLiqRemoveQty
        (book.crossEvents msg order.getRemainingQuantity) := by
  have opposite : order.isSell ≠ !msg.isSell := by
    rw [isSellEq]
    exact Bool.self_ne_not msg.isSell
  by_cases crosses : (book.sides (!msg.isSell)).bookCrossedWithPrice msg.price = true
  · obtain ⟨final, events, ⟨fuel, returned⟩, outcome⟩ :=
      (valid (!msg.isSell)).processCrossedOrder_returns opposite nonneg
    rw [priceEq] at returned outcome
    obtain rfl := outcome.events_eq
    refine ⟨(book.setSide (!msg.isSell) final).setSide msg.isSell
      ((book.sides msg.isSell).addPendingLiqRemoveQty
        (book.crossEvents msg order.getRemainingQuantity)), ⟨fuel, ?_⟩, ?_, ?_⟩
    · simp only [uncross, if_pos crosses, returned, ok_bind, pure_eq_ok, sides_setSide_of_not]
      rfl
    · rw [sides_setSide_not, sides_setSide_self]
      exact outcome
    · simp
  · have stops : ∀ {key : P} {level : L3PriceLevel P},
        (book.sides (!msg.isSell)).levels.begin? = some (key, level) →
          ¬ BookSide.Crosses (!msg.isSell) msg.price key := by
      intro key level first crossing
      exact crosses
        (((valid (!msg.isSell)).linked.bookCrossedWithPrice_iff first msg.price).mpr crossing)
    obtain ⟨outcome, nothing⟩ :=
      (valid (!msg.isSell)).crossOutcome_self nonneg (Or.inr stops)
    have noEvents : book.crossEvents msg order.getRemainingQuantity = [] :=
      outcome.events_eq.symm
    refine ⟨book, ⟨0, ?_⟩, ?_, ?_⟩
    · have unfilled : min order.getRemainingQuantity (book.crossingTotal msg) = 0 := nothing
      simp [uncross, crosses, unfilled, noEvents]
    · rw [noEvents]
      exact outcome
    · rw [noEvents]
      rfl

/-- What is left of an `ADD` message after the absorption is processed. -/
theorem Valid.addUnmatched_returns {book : SmartOrderBook P} (valid : book.Valid slack)
    (msg : OrderMessage P) {matched : ℤ} (fits : matched ≤ msg.quantity) :
    ∃ final events,
      Returns (fun fuel => book.addUnmatched fuel msg (msg.toOrder.fill matched))
        (final, events) ∧
      AddOutcome slack book msg (book.sides msg.isSell) matched final events := by
  have totalNonneg : 0 ≤ book.crossingTotal msg :=
    ((valid (!msg.isSell)).crossing_remain msg.price).total_nonneg
  have restEq : (msg.toOrder.fill matched).getRemainingQuantity = msg.quantity - matched := by
    simp [OrderMessage.toOrder]
  have restNonneg : 0 ≤ (msg.toOrder.fill matched).getRemainingQuantity := by omega
  by_cases none : msg.quantity - matched = 0
  · have outcome : BookSide.CrossOutcome slack (book.sides (!msg.isSell)) msg.price
        (msg.quantity - matched) (book.sides (!msg.isSell)) [] :=
      ((valid (!msg.isSell)).crossOutcome_self none.ge (Or.inl none)).1
    have noEvents : book.crossEvents msg (msg.quantity - matched) = [] :=
      outcome.events_eq.symm
    refine ⟨book, [], ⟨0, ?_⟩, ?_, ?_, ?_⟩
    · simp [addUnmatched, restEq, none]
    · rw [noEvents]
      exact outcome
    · intro _
      rw [noEvents]
      exact ⟨rfl, rfl⟩
    · intro more
      omega
  · obtain ⟨uncrossed, ⟨fuel, returned⟩, outcome, ownEq⟩ := valid.uncross_returns
      (show (msg.toOrder.fill matched).isSell = msg.isSell from rfl) rfl restNonneg
    rw [restEq] at returned outcome ownEq
    have leftEq : ((msg.toOrder.fill matched).fill
        (min (msg.quantity - matched) (book.crossingTotal msg))).getRemainingQuantity =
          msg.quantity - matched - min (msg.quantity - matched) (book.crossingTotal msg) := by
      rw [Order.remaining_fill, restEq]
    by_cases enough : msg.quantity - matched ≤ book.crossingTotal msg
    · refine ⟨uncrossed, _, ⟨fuel, ?_⟩, outcome, fun _ => ⟨ownEq, rfl⟩, fun more => by omega⟩
      rw [min_eq_left enough] at returned leftEq
      simp only [addUnmatched, restEq, if_neg none, returned, ok_bind, leftEq, sub_self,
        if_true]
      rfl
    · have ownLinked : (uncrossed.sides msg.isSell).Linked :=
        ownEq ▸ (valid msg.isSell).linked.congr rfl rfl
      rw [min_eq_right (by omega)] at returned leftEq
      have added := ownLinked.addOrder_eq_withOrder
        (show ((msg.toOrder.fill matched).fill (book.crossingTotal msg)).isSell = msg.isSell
          from rfl)
      refine ⟨uncrossed.setSide msg.isSell ((uncrossed.sides msg.isSell).withOrder
          ((msg.toOrder.fill matched).fill (book.crossingTotal msg))),
        book.crossEvents msg (msg.quantity - matched) ++ [⟨.add, msg.id, msg.isSell,
          msg.quantity - matched - book.crossingTotal msg, msg.price⟩],
        ⟨fuel, ?_⟩, ?_, fun less => by omega, ?_⟩
      · simp only [addUnmatched, restEq, if_neg none, returned, ok_bind, leftEq]
        rw [if_neg (by omega), added]
        rfl
      · rwa [sides_setSide_not]
      · intro _
        rw [sides_setSide_self, ownEq, Order.fill_fill]
        exact ⟨rfl, rfl⟩

/-- An `ADD` message whose absorption returns is processed. -/
theorem Valid.processOrderAddMessage_returns {book : SmartOrderBook P}
    (valid : book.Valid slack) {msg : OrderMessage P} (pos : 0 < msg.quantity)
    {own : BookSide P msg.isSell} {matched : ℤ}
    (absorbed : Returns (fun fuel => (book.sides msg.isSell).matchPendingLiqAdd fuel
      msg.quantity msg.price) (own, matched)) :
    ∃ final events,
      Returns (fun fuel => book.processOrderAddMessage fuel msg) (final, events) ∧
      AddOutcome slack book msg own matched final events := by
  have ⟨ownValid, _, matchedLe, _⟩ :=
    (valid msg.isSell).matchPendingLiqAdd pos.le absorbed.choose_spec
  have bookValid : (book.setSide msg.isSell own).Valid slack :=
    forall_side msg.isSell (by simpa using ownValid) (by simpa using valid (!msg.isSell))
  obtain ⟨final, events, continued, outcome⟩ :=
    bookValid.addUnmatched_returns msg matchedLe
  refine ⟨final, events, Returns.bind (BookSide.matchPendingLiqAdd_monotone _ _ _)
    (addUnmatched_monotone _ _ _) absorbed continued, ?_⟩
  have totalEq : (book.setSide msg.isSell own).crossingTotal msg = book.crossingTotal msg := by
    simp [crossingTotal]
  have eventsEq : (book.setSide msg.isSell own).crossEvents msg (msg.quantity - matched) =
      book.crossEvents msg (msg.quantity - matched) := by
    simp [crossEvents]
  obtain ⟨crossed, filled, rests⟩ := outcome
  rw [sides_setSide_not, eventsEq] at crossed
  rw [sides_setSide_self, eventsEq, totalEq] at filled rests
  exact ⟨crossed, filled, rests⟩

/-- Every `ADD` message that returns has the outcome described. -/
theorem Valid.addOutcome {book final : SmartOrderBook P} (valid : book.Valid slack)
    {msg : OrderMessage P} (pos : 0 < msg.quantity) {events : OrderInfoVec P}
    (returns : Returns (fun fuel => book.processOrderAddMessage fuel msg) (final, events)) :
    ∃ own matched,
      Returns (fun fuel => (book.sides msg.isSell).matchPendingLiqAdd fuel msg.quantity
        msg.price) (own, matched) ∧ AddOutcome slack book msg own matched final events := by
  obtain ⟨fuel, returned⟩ := returns
  have ⟨⟨own, matched⟩, absorbed, _⟩ := bind_eq_ok.mp returned
  obtain ⟨other, otherEvents, otherReturns, outcome⟩ :=
    valid.processOrderAddMessage_returns pos ⟨fuel, absorbed⟩
  have same := Returns.unique (processOrderAddMessage_monotone book msg) ⟨fuel, returned⟩
    otherReturns
  cases same
  exact ⟨own, matched, ⟨fuel, absorbed⟩, outcome⟩

theorem Valid.processOrderAddMessage {book final : SmartOrderBook P} (valid : book.Valid slack)
    (zeroMem : 0 ∈ slack) {msg : OrderMessage P} (pos : 0 < msg.quantity)
    {events : OrderInfoVec P}
    (returns : Returns (fun fuel => book.processOrderAddMessage fuel msg) (final, events)) :
    final.Valid slack := by
  obtain ⟨own, matched, ⟨fuel, absorbed⟩, outcome⟩ := valid.addOutcome pos returns
  obtain ⟨ownValid, matchedNonneg, matchedLe, -⟩ :=
    (valid msg.isSell).matchPendingLiqAdd pos.le absorbed
  have credited := addPendingLiqRemoveQty_valid ownValid
    (valid.crossEvents_pos msg (show 0 ≤ msg.quantity - matched by omega))
  refine forall_side msg.isSell ?_ outcome.crossed.valid
  by_cases enough : msg.quantity - matched ≤ book.crossingTotal msg
  · rw [(outcome.filled enough).1]
    exact credited
  · rw [(outcome.rests (by omega)).1]
    apply credited.withOrder zeroMem rfl
    have totalNonneg : 0 ≤ book.crossingTotal msg :=
      ((valid (!msg.isSell)).crossing_remain msg.price).total_nonneg
    simp only [Order.IsOpen, OrderMessage.toOrder, Order.new, Order.fill]
    omega

/-! ### Cancels, modifications, trades and snapshots -/

theorem Valid.processOrderCancelMessage {book : SmartOrderBook P} (valid : book.Valid slack)
    {msg : OrderMessage P} (nonneg : 0 ≤ msg.quantity) :
    (book.processOrderCancelMessage msg).1.Valid slack := by
  refine forall_side msg.isSell ?_ ?_
  · simpa [SmartOrderBook.processOrderCancelMessage] using
      (valid msg.isSell).processOrderCancel msg.id nonneg msg.price
  · simpa [SmartOrderBook.processOrderCancelMessage] using valid (!msg.isSell)

/-- A modification that finds its order is a cancel and an add. -/
theorem modify_returns {book final : SmartOrderBook P} {msg : OrderMessage P}
    {events : OrderInfoVec P} {order : Order P} (found : book.getOrder? msg.id = some order)
    (returns : Returns (fun fuel => book.processOrderModifyMessage fuel msg) (final, events)) :
    ∃ addEvents, Returns (fun fuel => (book.processOrderCancelMessage
        ⟨.cancel, msg.id, msg.isSell, order.getRemainingQuantity, msg.price⟩).1.processOrderAddMessage
          fuel ⟨.add, msg.id, msg.isSell, msg.quantity, msg.price⟩) (final, addEvents) := by
  obtain ⟨fuel, returned⟩ := returns
  simp only [processOrderModifyMessage, found, bind_eq_ok, pure_eq_ok, Except.ok.injEq] at returned
  obtain ⟨⟨added, addEvents⟩, addReturned, finalEq⟩ := returned
  cases finalEq
  exact ⟨addEvents, fuel, addReturned⟩

theorem modify_absent {book final : SmartOrderBook P} {msg : OrderMessage P}
    {events : OrderInfoVec P} (absent : book.getOrder? msg.id = none)
    (returns : Returns (fun fuel => book.processOrderModifyMessage fuel msg) (final, events)) :
    final = book := by
  obtain ⟨fuel, returned⟩ := returns
  simp only [processOrderModifyMessage, absent, pure_eq_ok, Except.ok.injEq,
    Prod.mk.injEq] at returned
  exact returned.1.symm

theorem processTradeMessage_monotone (book : SmartOrderBook P) (msg : TradeMessage P) :
    FuelMonotone fun fuel => book.processTradeMessage fuel msg :=
  (BookSide.processTrade_monotone _ _).bind fun _ =>
    (BookSide.processTrade_monotone _ _).bind fun _ => FuelMonotone.const _

/-- A trade message is a trade on each side. -/
theorem Valid.processTradeMessage_returns {book : SmartOrderBook P} (valid : book.Valid slack)
    (msg : TradeMessage P) (nonneg : 0 ≤ msg.quantity) :
    ∃ (final : SmartOrderBook P) (events : Bool → OrderInfoVec P),
      Returns (fun fuel => book.processTradeMessage fuel msg)
        (final, events false ++ events true) ∧
      ∀ isSell, BookSide.TradeOutcome slack (book.sides isSell) msg.toTrade
        (final.sides isSell) (events isSell) := by
  obtain ⟨bid, bidEvents, bidReturns, bidOutcome⟩ :=
    (valid false).processTrade_returns msg.toTrade nonneg
  obtain ⟨ask, askEvents, askReturns, askOutcome⟩ :=
    (valid true).processTrade_returns msg.toTrade nonneg
  refine ⟨(book.setSide false bid).setSide true ask,
    fun isSell => if isSell then askEvents else bidEvents, ?_, ?_⟩
  · refine Returns.bind (BookSide.processTrade_monotone _ _) ?_ bidReturns ?_
    · exact (BookSide.processTrade_monotone _ _).bind fun _ => FuelMonotone.const _
    · exact Returns.bind (BookSide.processTrade_monotone _ _) (FuelMonotone.const _) askReturns
        (Returns.const rfl)
  · exact forall_side true askOutcome bidOutcome

theorem Valid.tradeOutcome {book final : SmartOrderBook P} (valid : book.Valid slack)
    {msg : TradeMessage P} (nonneg : 0 ≤ msg.quantity) {events : OrderInfoVec P}
    (returns : Returns (fun fuel => book.processTradeMessage fuel msg) (final, events)) :
    ∃ sideEvents : Bool → OrderInfoVec P, events = sideEvents false ++ sideEvents true ∧
      ∀ isSell, BookSide.TradeOutcome slack (book.sides isSell) msg.toTrade
        (final.sides isSell) (sideEvents isSell) := by
  obtain ⟨other, sideEvents, otherReturns, outcome⟩ :=
    valid.processTradeMessage_returns msg nonneg
  have same := Returns.unique (processTradeMessage_monotone book msg) returns otherReturns
  cases same
  exact ⟨sideEvents, rfl, outcome⟩

/-- A snapshot message is a snapshot on each side. -/
theorem processSnapshotMessage_eq_ok {book final : SmartOrderBook P} {msg : SnapshotMessage P}
    {events : OrderInfoVec P} :
    book.processSnapshotMessage msg = .ok (final, events) ↔
      ∃ sideEvents : Bool → OrderInfoVec P, events = sideEvents false ++ sideEvents true ∧
        ∀ isSell, (book.sides isSell).processL2Snapshot (msg.levels isSell) =
          .ok (final.sides isSell, sideEvents isSell) := by
  simp only [processSnapshotMessage, bind_eq_ok, pure_eq_ok, Except.ok.injEq]
  constructor
  · rintro ⟨⟨bid, bidEvents⟩, bidReturned, ⟨ask, askEvents⟩, askReturned, finalEq⟩
    cases finalEq
    exact ⟨fun isSell => if isSell then askEvents else bidEvents, rfl,
      forall_side true askReturned bidReturned⟩
  · rintro ⟨sideEvents, rfl, returned⟩
    refine ⟨_, returned false, _, returned true, ?_⟩
    have finalEq : (book.setSide false (final.sides false)).setSide true (final.sides true) =
        final := ext_sides true rfl rfl
    exact Prod.ext finalEq rfl

end SmartOrderBook

end OrderBook
