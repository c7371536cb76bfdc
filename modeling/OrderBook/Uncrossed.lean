import OrderBook.BookRuns

/-!
# The book stays uncrossed

Best bid below best ask is the same as every bid level below every ask level.
Cancels and trades only remove levels.  An `ADD` message leaves a level of its
own price only when it has used up everything on the other side that its price
crosses, so the order and trade streams never cross the book.
-/

namespace OrderBook

open FueledLoop InputRun

variable {P : Type}

/-- A message of the order stream or of the trade stream. -/
def Message.OrderOrTrade : Message P → Prop
  | .snapshot _ => False
  | _ => True

instance (message : Message P) : Decidable message.OrderOrTrade :=
  match message with
  | .snapshot _ => inferInstanceAs (Decidable False)
  | .add _ | .cancel _ | .modify _ | .trade _ => inferInstanceAs (Decidable True)

theorem Message.OrderOrTrade.distinctPrices {message : Message P}
    (stream : message.OrderOrTrade) : message.DistinctPrices := by
  cases message with
  | snapshot msg => exact stream.elim
  | _ => trivial

variable [LinearOrder P] {slack : Set ℤ}

namespace BookSide

variable {isSell : Bool} {side next : BookSide P isSell}

theorem existLevel_iff {price : P} :
    side.existLevel price = true ↔ ∃ level, side.levels.find? price = some level :=
  Option.isSome_iff_exists

/-- Every level of `next` is at a price where `side` has one. -/
def Narrows (next side : BookSide P isSell) : Prop :=
  ∀ price, next.existLevel price = true → side.existLevel price = true

theorem Narrows.of_levels (levelsEq : next.levels = side.levels) : next.Narrows side := by
  intro price present
  rwa [existLevel, ← levelsEq]

theorem Narrows.trans {first second third : BookSide P isSell} (later : third.Narrows second)
    (earlier : second.Narrows first) : third.Narrows first :=
  fun price present => earlier price (later price present)

theorem narrows_put {key : P} {quantity : ℤ} {orders : List (Order P)}
    (levelsEq : next.levels = putOrders side.levels key quantity orders)
    (from_ : orders ≠ [] → side.existLevel key = true) : next.Narrows side := by
  intro price present
  rw [existLevel, levelsEq, find?_putOrders] at present
  split at present
  · next same =>
      split at present
      · cases present
      · next nonempty => exact same ▸ from_ nonempty
  · exact present

theorem existLevel_withOrder {order : Order P} {price : P}
    (present : (side.withOrder order).existLevel price = true) :
    side.existLevel price = true ∨ price = order.price := by
  unfold withOrder at present
  split at present
  · exact Or.inl present
  · by_cases same : price = order.price
    · exact Or.inr same
    · rw [existLevel, find?_putOrders, if_neg same] at present
      exact Or.inl present

theorem TradeOutcome.narrows {trade : Trade P} {events : OrderInfoVec P}
    (valid : side.Valid slack) (outcome : TradeOutcome slack side trade next events) :
    next.Narrows side := by
  intro price present
  rw [existLevel, outcome.levels_eq, find?_putOrders] at present
  split at present
  · next same =>
      split at present
      · cases present
      · next left =>
          have some : side.ordersAt trade.price ≠ [] := by
            intro none
            exact left (by simp [none, fillFront, QueueFill.remaining])
          rw [Ne, valid.linked.ordersAt_eq_nil_iff] at some
          exact same ▸ Option.isSome_iff_ne_none.mpr some
  · rw [find?_retainedLevels] at present
    split at present
    · cases present
    · exact present

variable [Zero P]

theorem Linked.removeOrder_narrows (linked : side.Linked) (id : ℤ) :
    (side.removeOrder id).Narrows side := by
  cases exists_ : side.existOrder id with
  | false =>
      rw [removeOrder_of_not_exist exists_]
      exact Narrows.of_levels rfl
  | true =>
      obtain ⟨key, mem⟩ := linked.existOrder_iff.mp exists_
      obtain ⟨order, orderMem, rfl⟩ := List.mem_map.mp mem
      obtain ⟨quantity, found⟩ := linked.exists_level orderMem
      obtain ⟨front, back, split⟩ := List.append_of_mem orderMem
      have present : side.existLevel key = true := existLevel_iff.mpr ⟨_, found⟩
      rw [split] at found
      rw [linked.removeOrder_eq found]
      exact narrows_put rfl fun _ => present

theorem Valid.processOrderCancel_narrows (valid : side.Valid slack) (id : ℤ) {quantity : ℤ}
    (nonneg : 0 ≤ quantity) (price : P) :
    (side.processOrderCancel id quantity price).1.Narrows side := by
  rw [processOrderCancel_eq valid.ledgers.remove_pos id nonneg price]
  split
  · exact ((valid.matchedRemoval quantity price).linked.removeOrder_narrows id).trans
      (Narrows.of_levels rfl)
  · exact Narrows.of_levels rfl

end BookSide

namespace SmartOrderBook

/-- One side is empty, or the best bid is below the best ask. -/
def Uncrossed (book : SmartOrderBook P) : Prop :=
  ∀ bid ∈ (book.sides false).levels.begin?, ∀ ask ∈ (book.sides true).levels.begin?,
    bid.1 < ask.1

variable {book next : SmartOrderBook P}

theorem uncrossed_iff_lt :
    book.Uncrossed ↔ ∀ {bid ask : P}, (book.sides false).existLevel bid = true →
      (book.sides true).existLevel ask = true → bid < ask := by
  constructor
  · intro uncrossed bid ask bidPresent askPresent
    obtain ⟨bidLevel, bidFound⟩ := BookSide.existLevel_iff.mp bidPresent
    obtain ⟨askLevel, askFound⟩ := BookSide.existLevel_iff.mp askPresent
    obtain ⟨bestBid, bidFirst⟩ := SortedMap.exists_begin? bidFound
    obtain ⟨bestAsk, askFirst⟩ := SortedMap.exists_begin? askFound
    calc
      bid ≤ bestBid.1 := not_lt.mp (BookSide.not_better_first bidFirst bidFound)
      _ < bestAsk.1 := uncrossed bestBid bidFirst bestAsk askFirst
      _ ≤ ask := not_lt.mp (BookSide.not_better_first askFirst askFound)
  · intro apart bid bidFirst ask askFirst
    exact apart (BookSide.existLevel_iff.mpr ⟨_, SortedMap.find?_of_begin? bidFirst⟩)
      (BookSide.existLevel_iff.mpr ⟨_, SortedMap.find?_of_begin? askFirst⟩)

/-- In an uncrossed book all levels of a side are apart from those of the other. -/
theorem uncrossed_iff (isSell : Bool) :
    book.Uncrossed ↔ ∀ {own other : P}, (book.sides isSell).existLevel own = true →
      (book.sides (!isSell)).existLevel other = true →
        PriceComparator (!isSell) own other := by
  rw [uncrossed_iff_lt]
  cases isSell with
  | false => exact Iff.rfl
  | true =>
      exact ⟨fun apart _ _ own other => apart other own, fun apart _ _ bid ask => apart ask bid⟩

theorem Uncrossed.of_narrows (uncrossed : book.Uncrossed)
    (narrows : ∀ isSell, (next.sides isSell).Narrows (book.sides isSell)) : next.Uncrossed := by
  rw [uncrossed_iff_lt] at uncrossed ⊢
  intro bid ask bidPresent askPresent
  exact uncrossed (narrows false bid bidPresent) (narrows true ask askPresent)

theorem uncrossed_empty : (empty : SmartOrderBook P).Uncrossed := by
  intro bid bidFirst
  cases bidFirst

/-- An `ADD` message keeps the book uncrossed. -/
theorem Uncrossed.addOutcome (uncrossed : book.Uncrossed) {msg : OrderMessage P}
    {own : BookSide P msg.isSell} {matched : ℤ} {events : OrderInfoVec P}
    (ownLevels : own.levels = (book.sides msg.isSell).levels)
    (outcome : AddOutcome slack book msg own matched next events) : next.Uncrossed := by
  rw [uncrossed_iff msg.isSell] at uncrossed ⊢
  intro ownPrice other ownPresent otherPresent
  obtain ⟨otherLevel, otherFound⟩ := BookSide.existLevel_iff.mp otherPresent
  have otherBefore : (book.sides (!msg.isSell)).existLevel other = true :=
    BookSide.existLevel_iff.mpr (outcome.crossed.level_kept otherFound)
  have credited : ∀ {price : P}, (own.addPendingLiqRemoveQty
      (book.crossEvents msg (msg.quantity - matched))).existLevel price = true →
        (book.sides msg.isSell).existLevel price = true := by
    intro price present
    rwa [BookSide.existLevel, ← ownLevels]
  by_cases enough : msg.quantity - matched ≤ book.crossingTotal msg
  · rw [(outcome.filled enough).1] at ownPresent
    exact uncrossed (credited ownPresent) otherBefore
  · have more : book.crossingTotal msg < msg.quantity - matched := not_le.mp enough
    rw [(outcome.rests more).1] at ownPresent
    rcases BookSide.existLevel_withOrder ownPresent with old | rfl
    · exact uncrossed (credited old) otherBefore
    · -- the order rests because nothing that it crosses is left
      exact not_not.mp (outcome.crossed.uncrossed more otherFound)

variable [Zero P]

theorem Uncrossed.processOrderAddMessage (uncrossed : book.Uncrossed)
    (valid : book.Valid slack) {msg : OrderMessage P} (pos : 0 < msg.quantity)
    {events : OrderInfoVec P}
    (returns : Returns (fun fuel => book.processOrderAddMessage fuel msg) (next, events)) :
    next.Uncrossed := by
  obtain ⟨own, matched, ⟨fuel, absorbed⟩, outcome⟩ := valid.addOutcome pos returns
  obtain ⟨-, -, -, ownEq⟩ := (valid msg.isSell).matchPendingLiqAdd pos.le absorbed
  exact uncrossed.addOutcome (by rw [ownEq]) outcome

theorem Valid.cancelMessage_narrows (valid : book.Valid slack) (msg : OrderMessage P)
    (nonneg : 0 ≤ msg.quantity) :
    ∀ isSell, ((book.processOrderCancelMessage msg).1.sides isSell).Narrows
      (book.sides isSell) := by
  refine forall_side msg.isSell ?_ ?_
  · simpa [SmartOrderBook.processOrderCancelMessage] using
      (valid msg.isSell).processOrderCancel_narrows msg.id nonneg msg.price
  · apply BookSide.Narrows.of_levels
    simp [SmartOrderBook.processOrderCancelMessage]

/-- Every order or trade message keeps the book uncrossed. -/
theorem Uncrossed.messageStep (uncrossed : book.Uncrossed) (valid : book.Valid slack)
    {message : Message P} (positive : message.Positive) (stream : message.OrderOrTrade)
    (stepped : book.MessageStep message next) : next.Uncrossed := by
  cases message with
  | add msg =>
      obtain ⟨events, returns⟩ := stepped
      exact uncrossed.processOrderAddMessage valid positive returns
  | cancel msg =>
      rw [stepped.cancel_eq]
      exact uncrossed.of_narrows (valid.cancelMessage_narrows msg (le_of_lt positive))
  | modify msg =>
      rcases stepped.modify_cases with rfl | ⟨order, found, addEvents, added⟩
      · exact uncrossed
      · have remains := (valid.getOrder?_isOpen found).remaining_pos
        have cancelled := uncrossed.of_narrows (valid.cancelMessage_narrows
          ⟨.cancel, msg.id, msg.isSell, order.getRemainingQuantity, msg.price⟩ remains.le)
        exact cancelled.processOrderAddMessage (valid.processOrderCancelMessage remains.le)
          positive added
  | trade msg =>
      obtain ⟨events, returns⟩ := stepped
      obtain ⟨sideEvents, -, outcome⟩ := valid.tradeOutcome (le_of_lt positive) returns
      exact uncrossed.of_narrows fun isSell => (outcome isSell).narrows (valid isSell)
  | snapshot msg => exact stream.elim

end SmartOrderBook

/-- The order and trade streams never leave the book crossed. -/
theorem uncrossed_of_orderOrTrade_run [Zero P] {messages : List (Message P)}
    {book : SmartOrderBook P} (run : Run SmartOrderBook.MessageStep .empty messages book)
    (allowed : ∀ message ∈ messages, message.Positive ∧ message.OrderOrTrade) :
    book.Uncrossed := by
  have kept := run.invariant (fun message => message.Positive ∧ message.OrderOrTrade)
    (fun book => book.Valid {0} ∧ book.Uncrossed)
    ⟨SmartOrderBook.valid_empty, SmartOrderBook.uncrossed_empty⟩ ?_ allowed
  · exact kept.2
  · rintro state next message ⟨positive, stream⟩ ⟨valid, uncrossed⟩ stepped
    exact ⟨valid.messageStep (Set.mem_singleton 0) positive (Or.inl stream.distinctPrices)
      stepped, uncrossed.messageStep valid positive stream stepped⟩

/-- A bid uses up the first of two asks, its rest stays below the second one, and
the second one moves away. -/
def sweepMessages : List (Message ℤ) :=
  [.add ⟨.add, 1, true, 10, 100⟩, .add ⟨.add, 2, true, 5, 102⟩,
    .add ⟨.add, 3, false, 12, 101⟩, .modify ⟨.modify, 2, true, 7, 103⟩, .trade ⟨10, 100⟩]

theorem uncrossed_of_sweepMessages :
    ∃ book, Run SmartOrderBook.MessageStep .empty sweepMessages book ∧ book.Uncrossed := by
  have processed : ∃ book, SmartOrderBook.empty.processAll 9 sweepMessages = .ok book :=
    ⟨_, rfl⟩
  obtain ⟨book, processed⟩ := processed
  have run := SmartOrderBook.run_of_processAll 9 processed
  exact ⟨book, run, uncrossed_of_orderOrTrade_run run (by decide)⟩

end OrderBook
