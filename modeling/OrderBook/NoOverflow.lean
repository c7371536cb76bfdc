import OrderBook.BoundedSnapshot
import OrderBook.StoredBook

/-!
# No quantity overflows

A message adds at most its own quantity to any level, order or ledger entry, so after a run
every quantity is at most the sum of all quantities in the feed.  While that sum fits into an
`int`, the code computes what the exact model computes.
-/

namespace OrderBook

open FueledLoop InputRun

variable {P : Type}

/-- The quantities of a message: every level of a snapshot counts. -/
def Message.totalQuantity : Message P → ℤ
  | .add msg => msg.quantity
  | .cancel msg => msg.quantity
  | .modify msg => msg.quantity
  | .trade msg => msg.quantity
  | .snapshot msg => BookSide.shownQty msg.bidLevels + BookSide.shownQty msg.askLevels

def feedTotal (messages : List (Message P)) : ℤ :=
  (messages.map Message.totalQuantity).sum

theorem Message.Positive.totalQuantity_nonneg {message : Message P} (positive : message.Positive) :
    0 ≤ message.totalQuantity := by
  cases message with
  | add msg => exact positive.le
  | cancel msg => exact positive.le
  | modify msg => exact positive.le
  | trade msg => exact positive.le
  | snapshot msg =>
      exact add_nonneg (BookSide.shownQty_nonneg (positive false))
        (BookSide.shownQty_nonneg (positive true))

theorem feedTotal_append (first second : List (Message P)) :
    feedTotal (first ++ second) = feedTotal first + feedTotal second := by
  simp [feedTotal]

theorem feedTotal_nonneg {messages : List (Message P)}
    (positive : ∀ message ∈ messages, message.Positive) : 0 ≤ feedTotal messages :=
  QueueFill.sum_map_nonneg fun message mem => (positive message mem).totalQuantity_nonneg

/-- A store that keeps the total of a feed keeps the total of every part of it. -/
theorem feedTotal_le_append {earlier later : List (Message P)}
    (positive : ∀ message ∈ earlier ++ later, message.Positive) :
    feedTotal earlier ≤ feedTotal (earlier ++ later) := by
  have laterNonneg := feedTotal_nonneg fun message mem =>
    positive message (List.mem_append_right earlier mem)
  rw [feedTotal_append]
  omega

theorem Stored.keeps_int32 {bound : ℤ} (small : bound ≤ 2 ^ 31 - 1) :
    Stored.Keeps Stored.int32 bound := by
  intro qty nonneg le
  rw [Stored.int32, Int.bmod_eq_of_le (by omega) (by omega)]

theorem Stored.keeps_inRange (bound : ℤ) : Stored.Keeps (Stored.inRange bound) bound := by
  intro qty nonneg le
  rw [Stored.inRange, assertThat_of ⟨nonneg, le⟩]
  rfl

variable [LinearOrder P]

/-- Every quantity of a side is in `[0, bound]`. -/
structure BookSide.QuantitiesIn {isSell : Bool} (bound : ℤ) (side : BookSide P isSell) :
    Prop where
  level : ∀ price level, side.levels.find? price = some level →
    0 ≤ level.quantity ∧ level.quantity ≤ bound
  order : ∀ price level, side.levels.find? price = some level → ∀ order ∈ level.orders,
    (0 ≤ order.quantity ∧ order.quantity ≤ bound) ∧
      0 ≤ order.filledQuantity ∧ order.filledQuantity ≤ bound
  pendingAdd : ∀ price qty, side.pendingLiqAddQty.find? price = some qty → 0 ≤ qty ∧ qty ≤ bound
  pendingRemove : ∀ price qty, side.pendingLiqRemoveQty.find? price = some qty →
    0 ≤ qty ∧ qty ≤ bound

theorem BookSide.Bounded.quantitiesIn {isSell : Bool} {bound : ℤ} {side : BookSide P isSell}
    (bounded : side.Bounded bound) : side.QuantitiesIn bound where
  level price level found := by
    rw [← BookSide.quantityAt_of_find? found]
    exact ⟨bounded.level_nonneg price, bounded.level_le price⟩
  order price level found order mem := by
    rw [← BookSide.ordersAt_of_find? found] at mem
    have fits := bounded.fits mem
    have filledNonneg := fits.filled_nonneg
    have filledLe := fits.filled_le
    have quantityLe := fits.quantity_le
    omega
  pendingAdd price qty found := by
    rw [← qtyAt_of_find? found]
    exact bounded.add price
  pendingRemove price qty found := by
    rw [← qtyAt_of_find? found]
    exact bounded.remove price

namespace SmartOrderBook

def Bounded (bound : ℤ) (book : SmartOrderBook P) : Prop :=
  ∀ isSell, (book.sides isSell).Bounded bound

variable {book : SmartOrderBook P} {held bound : ℤ} {store : ℤ → Except Halt ℤ}

theorem Bounded.mono (bounded : book.Bounded held) (le : held ≤ bound) : book.Bounded bound :=
  fun isSell => (bounded isSell).mono le

theorem Bounded.setSide (bounded : book.Bounded bound) {isSell : Bool}
    {side : BookSide P isSell} (sideBounded : side.Bounded bound) :
    (book.setSide isSell side).Bounded bound := by
  refine forall_side isSell ?_ ?_
  · rw [sides_setSide_self]
    exact sideBounded
  · rw [sides_setSide_not]
    exact bounded (!isSell)

theorem Bounded.getOrder?_fits (bounded : book.Bounded bound) {id : ℤ} {order : Order P}
    (found : book.getOrder? id = some order) : order.Fits bound := by
  unfold getOrder? at found
  split at found
  · obtain ⟨-, mem⟩ := (bounded false).linked.getOrder?_eq_some found
    exact (bounded false).fits mem
  · obtain ⟨-, mem⟩ := (bounded true).linked.getOrder?_eq_some found
    exact (bounded true).fits mem

variable [Zero P]

theorem Bounded.processOrderCancelMessage (bounded : book.Bounded held)
    (keeps : Stored.Keeps store bound) (le : held ≤ bound) {msg : OrderMessage P}
    (nonneg : 0 ≤ msg.quantity) (small : msg.quantity ≤ bound) :
    Agrees (Stored.processOrderCancelMessage store book msg)
      (.ok (book.processOrderCancelMessage msg)) fun result => result.1.Bounded held :=
  ((bounded msg.isSell).processOrderCancel keeps le msg.id nonneg small msg.price).bind_ok
    fun cancelled => .ok (bounded.setSide cancelled)

theorem Bounded.processTradeMessage (bounded : book.Bounded held)
    (keeps : Stored.Keeps store bound) (fuel : Nat) {msg : TradeMessage P}
    (nonneg : 0 ≤ msg.quantity) (room : held + msg.quantity ≤ bound) :
    Agrees (Stored.processTradeMessage store fuel book msg) (book.processTradeMessage fuel msg)
      fun result => result.1.Bounded bound := by
  apply ((bounded false).processTrade keeps fuel msg.toTrade nonneg room).bind
  intro bid _ bidBounded
  apply ((bounded true).processTrade keeps fuel msg.toTrade nonneg room).bind
  intro ask _ askBounded
  have le : held ≤ bound := by omega
  exact .ok (((bounded.mono le).setSide bidBounded).setSide askBounded)

theorem Bounded.processSnapshotMessage (bounded : book.Bounded held) (valid : book.Valid {0})
    (keeps : Stored.Keeps store bound) {msg : SnapshotMessage P}
    (positive : ∀ isSell, ∀ l2Level ∈ msg.levels isSell, 0 < l2Level.quantity)
    (distinct : ∀ isSell, ((msg.levels isSell).map L2PriceLevel.price).Nodup)
    (le : held ≤ bound) (room : ∀ isSell, held + BookSide.shownQty (msg.levels isSell) ≤ bound) :
    Agrees (Stored.processSnapshotMessage store book msg) (book.processSnapshotMessage msg)
      fun result => result.1.Bounded bound := by
  refine ((bounded false).processL2Snapshot (valid false) keeps (positive false) (distinct false)
    le (room false)).bind ?_
  intro bid _ bidBounded
  refine ((bounded true).processL2Snapshot (valid true) keeps (positive true) (distinct true)
    le (room true)).bind ?_
  intro ask _ askBounded
  exact .ok (((bounded.mono le).setSide bidBounded).setSide askBounded)

/-- The own side only gains ledger entries, so its levels keep their room. -/
theorem Bounded.uncross (bounded : book.Bounded held) (keeps : Stored.Keeps store bound)
    (fuel : Nat) (msg : OrderMessage P) {order : Order P} (fits : order.Fits bound)
    (room : held + order.getRemainingQuantity ≤ bound) :
    Agrees (Stored.uncross store fuel book msg order) (book.uncross fuel msg order)
      fun result => result.1.Bounded bound ∧ result.2.1.Fits bound ∧
        result.2.1.getRemainingQuantity ≤ order.getRemainingQuantity ∧
        ∀ key, (result.1.sides msg.isSell).quantityAt key ≤ held := by
  have orderNonneg := fits.remaining_nonneg
  have le : held ≤ bound := by omega
  have larger := bounded.mono le
  refine .ite (fun _ => ?_) fun _ =>
    .ok ⟨larger, fits, le_rfl, fun key => (bounded msg.isSell).level_le key⟩
  have entryLe := (bounded (!msg.isSell)).remove_le
  refine ((larger (!msg.isSell)).processCrossedOrder keeps fuel fits
    (fun price => by linarith [entryLe price])).bind ?_
  rintro ⟨opposite, filled, events⟩ - ⟨oppositeBounded, filledFits, eventsNonneg, sumEq⟩
  simp only at oppositeBounded filledFits eventsNonneg sumEq ⊢
  have sumNonneg := QueueFill.sum_map_nonneg eventsNonneg
  have filledNonneg := filledFits.remaining_nonneg
  rw [sides_setSide_of_not]
  have ownLe := (bounded msg.isSell).remove_le
  refine ((larger msg.isSell).addPendingLiqRemoveQty keeps eventsNonneg
    (fun price => by linarith [ownLe price])).bind_ok fun ownBounded => .ok ⟨?_, filledFits, ?_, ?_⟩
  · exact (larger.setSide oppositeBounded).setSide ownBounded
  · simp only
    omega
  · intro key
    rw [sides_setSide_self]
    exact (bounded msg.isSell).level_le key

theorem Bounded.addUnmatched (bounded : book.Bounded held) (keeps : Stored.Keeps store bound)
    (fuel : Nat) (msg : OrderMessage P) {order : Order P} (fits : order.Fits bound)
    (room : held + order.getRemainingQuantity ≤ bound) :
    Agrees (Stored.addUnmatched store fuel book msg order) (book.addUnmatched fuel msg order)
      fun result => result.1.Bounded bound := by
  have orderNonneg := fits.remaining_nonneg
  have le : held ≤ bound := by omega
  rw [Stored.addUnmatched, SmartOrderBook.addUnmatched, keeps.remaining fits, ok_bind]
  refine .ite (fun _ => .ok (bounded.mono le)) fun _ => ?_
  apply (bounded.uncross keeps fuel msg fits room).bind
  rintro ⟨uncrossed, filled, events⟩ - ⟨uncrossedBounded, filledFits, filledLe, levelLe⟩
  simp only at uncrossedBounded filledFits filledLe levelLe ⊢
  rw [keeps.remaining filledFits, ok_bind]
  refine .ite (fun _ => .ok uncrossedBounded) fun _ => ?_
  have levelRoom := levelLe filled.price
  apply ((uncrossedBounded msg.isSell).addOrder keeps filledFits (by omega)).bind
  rintro side - ⟨sideBounded, -, -⟩
  exact .ok (uncrossedBounded.setSide sideBounded)

theorem Bounded.processOrderAddMessage (bounded : book.Bounded held)
    (keeps : Stored.Keeps store bound) (fuel : Nat) {msg : OrderMessage P}
    (nonneg : 0 ≤ msg.quantity) (room : held + msg.quantity ≤ bound) :
    Agrees (Stored.processOrderAddMessage store fuel book msg)
      (book.processOrderAddMessage fuel msg) fun result => result.1.Bounded bound := by
  have heldNonneg := (bounded msg.isSell).bound_nonneg msg.price
  have le : held ≤ bound := by omega
  apply ((bounded msg.isSell).matchPendingLiqAdd keeps le fuel nonneg (by omega) msg.price).bind
  rintro ⟨own, matched⟩ - ⟨ownBounded, matchedNonneg, matchedLe⟩
  simp only at ownBounded matchedNonneg matchedLe ⊢
  have orderFits : msg.toOrder.Fits bound := ⟨le_rfl, nonneg, show msg.quantity ≤ bound by omega⟩
  have remainingEq : msg.toOrder.getRemainingQuantity = msg.quantity := Order.remaining_new ..
  rw [keeps.fill orderFits matchedNonneg (by omega), ok_bind]
  refine (bounded.setSide ownBounded).addUnmatched keeps fuel msg
    (orderFits.fill matchedNonneg (by omega)) ?_
  rw [Order.remaining_fill, remainingEq]
  omega

theorem Bounded.processOrderModifyMessage (bounded : book.Bounded held)
    (keeps : Stored.Keeps store bound) (fuel : Nat) {msg : OrderMessage P}
    (nonneg : 0 ≤ msg.quantity) (room : held + msg.quantity ≤ bound) :
    Agrees (Stored.processOrderModifyMessage store fuel book msg)
      (book.processOrderModifyMessage fuel msg) fun result => result.1.Bounded bound := by
  have le : held ≤ bound := by omega
  unfold Stored.processOrderModifyMessage SmartOrderBook.processOrderModifyMessage
  cases found : book.getOrder? msg.id with
  | none => exact .ok (bounded.mono le)
  | some curOrder =>
      have fits := bounded.getOrder?_fits found
      simp only
      rw [(keeps.mono le).remaining fits, ok_bind]
      refine (bounded.processOrderCancelMessage keeps le fits.remaining_nonneg
        (fits.remaining_le.trans le)).bind_ok fun cancelledBounded => ?_
      apply (cancelledBounded.processOrderAddMessage keeps fuel nonneg room).bind
      intro added _ addedBounded
      exact .ok addedBounded

theorem Bounded.process (bounded : book.Bounded held) (valid : book.Valid {0})
    (keeps : Stored.Keeps store bound) (fuel : Nat) {message : Message P}
    (positive : message.Positive) (distinct : message.DistinctPrices)
    (room : held + message.totalQuantity ≤ bound) :
    Agrees (Stored.process store fuel book message) (book.process fuel message)
      fun result => result.1.Bounded bound := by
  have nonneg := positive.totalQuantity_nonneg
  have le : held ≤ bound := by omega
  cases message with
  | add msg => exact bounded.processOrderAddMessage keeps fuel positive.le room
  | cancel msg =>
      have heldNonneg := (bounded msg.isSell).bound_nonneg msg.price
      have small : msg.quantity ≤ bound := by
        simp only [Message.totalQuantity] at room
        omega
      exact (bounded.processOrderCancelMessage keeps le positive.le small).mono
        fun _ cancelled => cancelled.mono le
  | modify msg => exact bounded.processOrderModifyMessage keeps fuel positive.le room
  | trade msg => exact bounded.processTradeMessage keeps fuel positive.le room
  | snapshot msg =>
      have bidsNonneg := BookSide.shownQty_nonneg (positive false)
      have asksNonneg := BookSide.shownQty_nonneg (positive true)
      simp only [Message.totalQuantity, SnapshotMessage.levels] at room bidsNonneg asksNonneg
      apply bounded.processSnapshotMessage valid keeps positive distinct le
      exact forall_side false (show held + BookSide.shownQty msg.bidLevels ≤ bound by omega)
        (show held + BookSide.shownQty msg.askLevels ≤ bound by omega)

/-- After a run every quantity is within the total of the feed. -/
theorem bounded_of_run {messages : List (Message P)}
    (run : Run SmartOrderBook.MessageStep .empty messages book)
    (allowed : ∀ message ∈ messages, message.Positive ∧ message.DistinctPrices) :
    book.Bounded (feedTotal messages) ∧ book.Valid {0} := by
  induction run with
  | start => exact ⟨fun _ => BookSide.bounded_empty le_rfl, valid_empty⟩
  | @step messages message state next run stepped ih =>
      obtain ⟨bounded, valid⟩ := ih fun other mem => allowed other (List.mem_append_left _ mem)
      obtain ⟨positive, distinct⟩ := allowed message (by simp)
      refine ⟨?_, valid.messageStep (Set.mem_singleton 0) positive (.inl distinct) stepped⟩
      obtain ⟨events, fuel, returned⟩ := stepped
      have agrees := bounded.process valid (Stored.keeps_inRange _) fuel positive distinct le_rfl
      have total : feedTotal (messages ++ [message]) =
          feedTotal messages + message.totalQuantity := by simp [feedTotal]
      rw [total]
      exact agrees.holds returned

/-- After a run the next message is handled as in the exact model. -/
theorem stored_process_eq {earlier : List (Message P)} {message : Message P}
    (allowed : ∀ other ∈ earlier ++ [message], other.Positive ∧ other.DistinctPrices)
    (keeps : Stored.Keeps store bound) (small : feedTotal (earlier ++ [message]) ≤ bound)
    (run : Run SmartOrderBook.MessageStep .empty earlier book) (fuel : Nat) :
    Stored.process store fuel book message = book.process fuel message := by
  obtain ⟨bounded, valid⟩ := bounded_of_run run fun other mem =>
    allowed other (List.mem_append_left _ mem)
  obtain ⟨positive, distinct⟩ := allowed message (by simp)
  have room : feedTotal earlier + message.totalQuantity ≤ bound := by
    simpa [feedTotal] using small
  exact (bounded.process valid keeps fuel positive distinct room).eq

theorem stored_messageStep_iff {earlier : List (Message P)} {message : Message P}
    (allowed : ∀ other ∈ earlier ++ [message], other.Positive ∧ other.DistinctPrices)
    (keeps : Stored.Keeps store bound) (small : feedTotal (earlier ++ [message]) ≤ bound)
    (run : Run SmartOrderBook.MessageStep .empty earlier book) (next : SmartOrderBook P) :
    Stored.MessageStep store book message next ↔ book.MessageStep message next := by
  rw [Stored.MessageStep, SmartOrderBook.MessageStep,
    funext (stored_process_eq allowed keeps small run)]

theorem stored_run_iff {messages : List (Message P)}
    (allowed : ∀ message ∈ messages, message.Positive ∧ message.DistinctPrices)
    (keeps : Stored.Keeps store bound) (small : feedTotal messages ≤ bound) :
    Run (Stored.MessageStep store) .empty messages book ↔
      Run SmartOrderBook.MessageStep .empty messages book := by
  have alike : ∀ {earlier later : List (Message P)} {message : Message P}
      {state next : SmartOrderBook P}, messages = earlier ++ [message] ++ later →
        Run SmartOrderBook.MessageStep .empty earlier state →
          (Stored.MessageStep store state message next ↔ state.MessageStep message next) := by
    intro earlier later message state next split run
    subst split
    exact stored_messageStep_iff (fun other mem => allowed other (List.mem_append_left _ mem))
      keeps ((feedTotal_le_append fun other mem => (allowed other mem).1).trans small) run next
  constructor
  · intro run
    exact run.of_agreeing fun _ _ _ _ _ split _ exactRun => (alike split exactRun).mp
  · intro run
    exact run.of_agreeing fun _ _ _ _ _ split exactRun _ => (alike split exactRun).mpr

end SmartOrderBook

/-- While the quantities of a feed sum up to an `int`, every quantity stays between zero and
that sum: in the book after each message, and in each computation on the way, since a range
check never stops a handler.  So the handlers do on 32 bits what they do on exact integers. -/
theorem int32_agrees_with_exact [Zero P] (messages : List (Message P))
    (allowed : ∀ message ∈ messages, message.Positive ∧ message.DistinctPrices)
    (small : feedTotal messages ≤ 2 ^ 31 - 1) :
    (∀ book, Run (Stored.MessageStep Stored.int32) .empty messages book ↔
      Run SmartOrderBook.MessageStep .empty messages book) ∧
    (∀ book, Run (Stored.MessageStep (Stored.inRange (feedTotal messages))) .empty messages book ↔
      Run SmartOrderBook.MessageStep .empty messages book) ∧
    (∀ earlier later before, messages = earlier ++ later →
      Run (Stored.MessageStep Stored.int32) .empty earlier before →
      ∀ isSell, (before.sides isSell).QuantitiesIn (feedTotal messages)) ∧
    ∀ earlier message later before, messages = earlier ++ message :: later →
      Run (Stored.MessageStep Stored.int32) .empty earlier before → ∀ fuel,
        Stored.process Stored.int32 fuel before message = before.process fuel message ∧
        Stored.process (Stored.inRange (feedTotal messages)) fuel before message =
          before.process fuel message := by
  have keepsInt := Stored.keeps_int32 small
  have keepsRange := Stored.keeps_inRange (feedTotal messages)
  have positive : ∀ message ∈ messages, message.Positive := fun message mem =>
    (allowed message mem).1
  have exactRun : ∀ {earlier later : List (Message P)} {before : SmartOrderBook P},
      messages = earlier ++ later → Run (Stored.MessageStep Stored.int32) .empty earlier before →
      Run SmartOrderBook.MessageStep .empty earlier before := by
    rintro earlier later before rfl run
    exact (SmartOrderBook.stored_run_iff (fun other mem => allowed other
      (List.mem_append_left _ mem)) keepsInt (feedTotal_le_append positive)).mp run
  refine ⟨?_, ?_, ?_, ?_⟩
  · exact fun book => SmartOrderBook.stored_run_iff allowed keepsInt le_rfl
  · exact fun book => SmartOrderBook.stored_run_iff allowed keepsRange le_rfl
  · intro earlier later before split run isSell
    have reached := exactRun split run
    subst split
    have bounded := (SmartOrderBook.bounded_of_run reached fun other mem =>
      allowed other (List.mem_append_left _ mem)).1
    exact ((bounded isSell).mono (feedTotal_le_append positive)).quantitiesIn
  · intro earlier message later before split run fuel
    have reached := exactRun split run
    rw [List.append_cons] at split
    have next : ∀ other ∈ earlier ++ [message], other.Positive ∧ other.DistinctPrices :=
      fun other mem => allowed other (split ▸ List.mem_append_left _ mem)
    have nextLe : feedTotal (earlier ++ [message]) ≤ feedTotal messages := by
      rw [split] at positive ⊢
      exact feedTotal_le_append positive
    exact ⟨SmartOrderBook.stored_process_eq next keepsInt nextLe reached fuel,
      SmartOrderBook.stored_process_eq next keepsRange nextLe reached fuel⟩

/-- Messages of every kind, with 1,300 million in all. -/
def largeMessages : List (Message ℤ) :=
  [.add ⟨.add, 1, true, 300000000, 100⟩,
    .snapshot ⟨[⟨99, 100000000⟩], [⟨100, 300000000⟩]⟩,
    .add ⟨.add, 2, false, 200000000, 98⟩, .modify ⟨.modify, 2, false, 100000000, 98⟩,
    .cancel ⟨.cancel, 2, false, 100000000, 98⟩, .trade ⟨200000000, 100⟩]

def largeBook : SmartOrderBook ℤ :=
  ((SmartOrderBook.empty.processAll 9 largeMessages).toOption).getD .empty

theorem int32_agrees_on_largeMessages :
    Run (Stored.MessageStep Stored.int32) .empty largeMessages largeBook ∧
      Run (Stored.MessageStep (Stored.inRange 1300000000)) .empty largeMessages largeBook := by
  obtain ⟨intRuns, rangeRuns, -⟩ := int32_agrees_with_exact largeMessages (by decide) (by decide)
  have run : Run SmartOrderBook.MessageStep .empty largeMessages largeBook :=
    SmartOrderBook.run_of_processAll 9 rfl
  exact ⟨(intRuns _).mpr run, (rangeRuns _).mpr run⟩

end OrderBook
