import OrderBook.BookRuns
import OrderBook.Mirror

/-!
# The mirror image of the book

The mirror image of a book has the mirrored asks as its bids and the mirrored bids as
its asks.  Every handler commutes with it.  A trade or a snapshot is processed on the
bids first, so its mirror image reports the same two blocks of events in the other order.
-/

namespace OrderBook

open FueledLoop

variable {P : Type} [LinearOrder P] [Zero P] (negation : PriceNegation P)

def OrderMessage.mirror (msg : OrderMessage P) : OrderMessage P :=
  { msg with isSell := !msg.isSell, price := negation.neg msg.price }

def TradeMessage.mirror (msg : TradeMessage P) : TradeMessage P :=
  { msg with price := negation.neg msg.price }

def SnapshotMessage.mirror (msg : SnapshotMessage P) : SnapshotMessage P where
  bidLevels := msg.askLevels.map (L2PriceLevel.mirror negation)
  askLevels := msg.bidLevels.map (L2PriceLevel.mirror negation)

def Message.mirror : Message P → Message P
  | .add msg => .add (msg.mirror negation)
  | .cancel msg => .cancel (msg.mirror negation)
  | .modify msg => .modify (msg.mirror negation)
  | .trade msg => .trade (msg.mirror negation)
  | .snapshot msg => .snapshot (msg.mirror negation)

/-- A message that both sides process, one after the other. -/
def Message.BothSides : Message P → Prop
  | .add _ | .cancel _ | .modify _ => False
  | .trade _ | .snapshot _ => True

/-- The block of events about the bids or about the asks. -/
def sideBlock (isSell : Bool) (events : OrderInfoVec P) : OrderInfoVec P :=
  events.filter fun e => e.isSell = isSell

/-- The mirrored events, with the two blocks of a trade or a snapshot exchanged. -/
def mirrorEvents (message : Message P) (events : OrderInfoVec P) : OrderInfoVec P :=
  match message with
  | .add _ | .cancel _ | .modify _ => events.map (OrderInfo.mirror negation)
  | .trade _ | .snapshot _ =>
      (sideBlock true events ++ sideBlock false events).map (OrderInfo.mirror negation)

def SmartOrderBook.mirror (book : SmartOrderBook P) : SmartOrderBook P where
  sides
    | false => (book.sides true).mirror negation
    | true => (book.sides false).mirror negation

/-! ### Blocks of events -/

section Blocks

omit [LinearOrder P] [Zero P]

/-- Every event is about one side. -/
def OnSide (isSell : Bool) (events : OrderInfoVec P) : Prop :=
  ∀ e ∈ events, e.isSell = isSell

theorem OnSide.nil (isSell : Bool) : OnSide isSell ([] : OrderInfoVec P) :=
  fun _ mem => nomatch mem

theorem OnSide.append {isSell : Bool} {first second : OrderInfoVec P}
    (firstOn : OnSide isSell first) (secondOn : OnSide isSell second) :
    OnSide isSell (first ++ second) := by
  intro e mem
  rcases List.mem_append.mp mem with inFirst | inSecond
  · exact firstOn e inFirst
  · exact secondOn e inSecond

theorem OnSide.block {isSell : Bool} {events : OrderInfoVec P} (on : OnSide isSell events) :
    sideBlock isSell events = events :=
  List.filter_eq_self.mpr fun e mem => decide_eq_true (on e mem)

theorem OnSide.block_not {isSell : Bool} {events : OrderInfoVec P} (on : OnSide isSell events) :
    sideBlock (!isSell) events = [] := by
  apply List.filter_eq_nil_iff.mpr
  intro e mem
  rw [on e mem]
  simp

theorem sideBlock_append (isSell : Bool) (first second : OrderInfoVec P) :
    sideBlock isSell (first ++ second) = sideBlock isSell first ++ sideBlock isSell second :=
  List.filter_append ..

theorem sideBlock_bids {bids asks : OrderInfoVec P} (bidsOn : OnSide false bids)
    (asksOn : OnSide true asks) : sideBlock false (bids ++ asks) = bids := by
  rw [sideBlock_append, bidsOn.block, show sideBlock false asks = [] from asksOn.block_not,
    List.append_nil]

theorem sideBlock_asks {bids asks : OrderInfoVec P} (bidsOn : OnSide false bids)
    (asksOn : OnSide true asks) : sideBlock true (bids ++ asks) = asks := by
  rw [sideBlock_append, asksOn.block, show sideBlock true bids = [] from bidsOn.block_not,
    List.nil_append]

end Blocks

namespace BookSide

variable {isSell : Bool}

theorem tradeLevel_onSide {side : BookSide P isSell} {price : P} {qty : ℤ}
    {events : OrderInfoVec P} (on : OnSide isSell events)
    {result : BookSide P isSell × ℤ × OrderInfoVec P}
    (traded : side.tradeLevel price qty events = .ok result) : OnSide isSell result.2.2 := by
  unfold tradeLevel at traded
  cases found : side.levels.find? price with
  | none =>
      rw [found] at traded
      cases traded
      exact on
  | some level =>
      rw [found] at traded
      obtain ⟨filled, folded, resultEq⟩ := bind_eq_ok.mp traded
      cases resultEq
      refine foldlM_invariant (fun _ (state : TradeState P isSell) =>
        OnSide isSell state.orderEvents) ?_ on folded
      intro order _ state following stateOn stepped
      unfold tradeFill at stepped
      split at stepped
      · cases stepped
        exact stateOn
      · obtain ⟨_, -, followingEq⟩ := bind_eq_ok.mp stepped
        cases followingEq
        exact stateOn.append (by simp [OnSide])

theorem implicitCancelBody_cases (price : P) (state : BookSide P isSell × OrderInfoVec P) :
    implicitCancelBody price state = .ok (.done state) ∨
      ∃ side orders, implicitCancelBody price state =
        .ok (.next (side, state.2 ++ cancelEvents isSell orders)) := by
  obtain ⟨side, events⟩ := state
  rw [implicitCancelBody]
  cases side.levels.begin? with
  | none => exact .inl rfl
  | some entry =>
      simp only
      generalize (if isSell = true then decide (entry.1 < price) else decide (entry.1 > price)) =
        shouldCancel
      cases shouldCancel with
      | false => exact .inl rfl
      | true => exact .inr ⟨_, entry.2.orders, rfl⟩

theorem implicitCancel_onSide {side : BookSide P isSell} {price : P} {fuel : Nat}
    {result : BookSide P isSell × OrderInfoVec P}
    (looped : loop (implicitCancelBody price) fuel (side, []) = .ok result) :
    OnSide isSell result.2 := by
  have kept : ∀ state following : BookSide P isSell × OrderInfoVec P, OnSide isSell state.2 →
      implicitCancelBody price state = .ok (.next following) → OnSide isSell following.2 := by
    intro state following stateOn continued
    rcases implicitCancelBody_cases price state with stops | ⟨_, _, continues⟩
    · rw [stops] at continued
      cases continued
    · rw [continues] at continued
      cases continued
      exact stateOn.append (by simp [OnSide, cancelEvents])
  obtain ⟨last, lastOn, finished⟩ := loop_invariant _ kept (OnSide.nil isSell) looped
  rcases implicitCancelBody_cases price last with stops | ⟨_, _, continues⟩
  · rw [stops] at finished
    cases finished
    exact lastOn
  · rw [continues] at finished
    cases finished

theorem processTrade_onSide {side : BookSide P isSell} {trade : Trade P} {fuel : Nat}
    {result : BookSide P isSell × OrderInfoVec P}
    (processed : side.processTrade fuel trade = .ok result) : OnSide isSell result.2 := by
  obtain ⟨cancelled, looped, rest⟩ := bind_eq_ok.mp processed
  obtain ⟨⟨matched, restQty, events⟩, traded, resultEq⟩ := bind_eq_ok.mp rest
  have eventsOn : OnSide isSell events := tradeLevel_onSide (implicitCancel_onSide looped) traded
  simp only at resultEq
  split at resultEq
  · cases resultEq
    exact eventsOn.append (by simp [OnSide])
  · cases resultEq
    exact eventsOn

theorem addLiquidity_onSide {state following : ReconcileState P isSell} {qty : ℤ} {price : P}
    (on : OnSide isSell state.orderEvents) (added : addLiquidity state qty price = .ok following) :
    OnSide isSell following.orderEvents := by
  obtain ⟨side, -, followingEq⟩ := bind_eq_ok.mp added
  cases followingEq
  exact on.append (by simp [OnSide])

theorem reconcileLevel_onSide {state following : ReconcileState P isSell}
    {l2Level : L2PriceLevel P} (on : OnSide isSell state.orderEvents)
    (stepped : reconcileLevel state l2Level = .ok following) :
    OnSide isSell following.orderEvents := by
  unfold reconcileLevel at stepped
  split at stepped
  · exact addLiquidity_onSide on stepped
  · split at stepped
    · cases stepped
      exact on
    · split at stepped
      · exact addLiquidity_onSide on stepped
      · cases stepped
        exact on

theorem removePending_onSide {executedNum : Nat} {state following : RemovalState P isSell}
    {entry : (Order P × ℤ) × Nat} (on : OnSide isSell state.orderEvents)
    (stepped : removePending executedNum state entry = .ok following) :
    OnSide isSell following.orderEvents := by
  have onMore : ∀ e : OrderInfo P, e.isSell = isSell → OnSide isSell (state.orderEvents ++ [e]) :=
    fun e same => on.append (by simpa [OnSide] using same)
  simp only [removePending] at stepped
  split at stepped
  · cases stepped
    exact onMore _ rfl
  · split at stepped
    · obtain ⟨side, -, followingEq⟩ := bind_eq_ok.mp stepped
      cases followingEq
      exact onMore _ rfl
    · cases stepped
      exact onMore _ rfl

theorem processL2Snapshot_onSide {side : BookSide P isSell} {snapshot : L2SnapshotSide P}
    {result : BookSide P isSell × OrderInfoVec P}
    (processed : side.processL2Snapshot snapshot = .ok result) : OnSide isSell result.2 := by
  unfold processL2Snapshot at processed
  split at processed
  · obtain ⟨compared, firstPass, rest⟩ := bind_eq_ok.mp processed
    obtain ⟨removed, thirdPass, resultEq⟩ := bind_eq_ok.mp rest
    cases resultEq
    have comparedOn : OnSide isSell compared.orderEvents :=
      foldlM_invariant (fun _ (state : ReconcileState P isSell) =>
        OnSide isSell state.orderEvents)
        (fun _ _ _ _ stateOn stepped => reconcileLevel_onSide stateOn stepped)
        (OnSide.nil isSell) firstPass
    exact foldlM_invariant (fun _ (state : RemovalState P isSell) =>
      OnSide isSell state.orderEvents)
      (fun _ _ _ _ stateOn stepped => removePending_onSide stateOn stepped) comparedOn thirdPass
  · split at processed
    · cases processed
      exact OnSide.nil isSell
    · cases processed
      exact OnSide.nil isSell

end BookSide

/-! ### Handlers -/

namespace SmartOrderBook

variable (book : SmartOrderBook P)

theorem sides_mirror (isSell : Bool) :
    (book.mirror negation).sides (!isSell) = (book.sides isSell).mirror negation := by
  cases isSell with
  | false => rfl
  | true => rfl

theorem mirror_setSide (isSell : Bool) (side : BookSide P isSell) :
    (book.setSide isSell side).mirror negation =
      (book.mirror negation).setSide (!isSell) (side.mirror negation) := by
  refine congrArg SmartOrderBook.mk (funext fun other => ?_)
  cases isSell with
  | false =>
      cases other with
      | false => rfl
      | true => rfl
  | true =>
      cases other with
      | false => rfl
      | true => rfl

theorem mirror_uncross (fuel : Nat) (msg : OrderMessage P) (order : Order P) :
    (book.mirror negation).uncross fuel (msg.mirror negation) (order.mirror negation) =
      (book.uncross fuel msg order).map fun result =>
        (result.1.mirror negation, result.2.1.mirror negation,
          result.2.2.map (OrderInfo.mirror negation)) := by
  simp only [uncross, OrderMessage.mirror, sides_mirror]
  refine simulate_ite ?_ ?_ rfl
  · rw [BookSide.mirror_bookCrossedWithPrice]
  · refine simulate_bind (BookSide.mirror_processCrossedOrder negation _ fuel order)
      fun crossed => congrArg Except.ok ?_
    simp only [← mirror_setSide, sides_mirror, ← BookSide.mirror_addPendingLiqRemoveQty]

theorem mirror_addUnmatched (fuel : Nat) (msg : OrderMessage P) (order : Order P) :
    (book.mirror negation).addUnmatched fuel (msg.mirror negation) (order.mirror negation) =
      (book.addUnmatched fuel msg order).map fun result =>
        (result.1.mirror negation, result.2.map (OrderInfo.mirror negation)) := by
  refine simulate_ite Iff.rfl rfl ?_
  apply simulate_bind (mirror_uncross negation book fuel msg order)
  intro crossed
  refine simulate_ite Iff.rfl rfl ?_
  have added := BookSide.mirror_addOrder negation (crossed.1.sides msg.isSell) crossed.2.1
  rw [← sides_mirror] at added
  refine simulate_bind added fun side => congrArg Except.ok ?_
  simp only [mirror_setSide, List.map_append]
  rfl

theorem mirror_processOrderAddMessage (fuel : Nat) (msg : OrderMessage P) :
    (book.mirror negation).processOrderAddMessage fuel (msg.mirror negation) =
      (book.processOrderAddMessage fuel msg).map fun result =>
        (result.1.mirror negation, result.2.map (OrderInfo.mirror negation)) := by
  have matched := BookSide.mirror_matchPendingLiqAdd negation (book.sides msg.isSell) fuel
    msg.quantity msg.price
  rw [← sides_mirror] at matched
  apply simulate_bind matched
  intro own
  have unmatched := mirror_addUnmatched negation (book.setSide msg.isSell own.1) fuel msg
    (msg.toOrder.fill own.2)
  rw [mirror_setSide] at unmatched
  exact unmatched

theorem mirror_processOrderCancelMessage (msg : OrderMessage P) :
    (book.mirror negation).processOrderCancelMessage (msg.mirror negation) =
      ((book.processOrderCancelMessage msg).1.mirror negation,
        (book.processOrderCancelMessage msg).2.map (OrderInfo.mirror negation)) := by
  simp only [processOrderCancelMessage, OrderMessage.mirror, sides_mirror,
    BookSide.mirror_processOrderCancel, mirror_setSide]

/-- A modify looks for the order among the bids first, its mirror image among the asks:
they find the same order when its id does not rest on both sides. -/
theorem mirror_getOrder? {id : ℤ}
    (apart : ¬ ((book.sides false).existOrder id ∧ (book.sides true).existOrder id)) :
    (book.mirror negation).getOrder? id = (book.getOrder? id).map (Order.mirror negation) := by
  have bids : (book.mirror negation).sides false = (book.sides true).mirror negation := rfl
  have asks : (book.mirror negation).sides true = (book.sides false).mirror negation := rfl
  have unknown : ∀ isSell, (book.sides isSell).existOrder id = false →
      (book.sides isSell).getOrder? id = none := by
    intro isSell absent
    simp only [BookSide.existOrder, Option.isSome_eq_false_iff, Option.isNone_iff_eq_none]
      at absent
    simp [BookSide.getOrder?, absent]
  rw [getOrder?, getOrder?, bids, asks, BookSide.mirror_existOrder, BookSide.mirror_getOrder?,
    BookSide.mirror_getOrder?]
  cases inBids : (book.sides false).existOrder id with
  | false =>
      cases inAsks : (book.sides true).existOrder id with
      | false => simp [unknown false inBids, unknown true inAsks]
      | true => rfl
  | true =>
      have notInAsks : (book.sides true).existOrder id = false :=
        Bool.eq_false_iff.mpr fun inAsks => apart ⟨inBids, inAsks⟩
      simp [notInAsks]

theorem mirror_processOrderModifyMessage (fuel : Nat) (msg : OrderMessage P)
    (apart : ¬ ((book.sides false).existOrder msg.id ∧ (book.sides true).existOrder msg.id)) :
    (book.mirror negation).processOrderModifyMessage fuel (msg.mirror negation) =
      (book.processOrderModifyMessage fuel msg).map fun result =>
        (result.1.mirror negation, result.2.map (OrderInfo.mirror negation)) := by
  have orderEq : (book.mirror negation).getOrder? (msg.mirror negation).id =
      (book.getOrder? msg.id).map (Order.mirror negation) := mirror_getOrder? negation book apart
  rw [processOrderModifyMessage, processOrderModifyMessage, orderEq]
  cases book.getOrder? msg.id with
  | none => rfl
  | some curOrder =>
      have cancelled := mirror_processOrderCancelMessage negation book
        ⟨.cancel, msg.id, msg.isSell, curOrder.getRemainingQuantity, msg.price⟩
      simp only [OrderMessage.mirror] at cancelled
      simp only [Option.map_some, OrderMessage.mirror, Order.mirror_remaining, cancelled]
      exact simulate_bind (mirror_processOrderAddMessage negation _ fuel
        ⟨.add, msg.id, msg.isSell, msg.quantity, msg.price⟩) fun _ => rfl

/-- The two sides in turn, the bids first. -/
def eachSide (handle : (isSell : Bool) → BookSide P isSell →
    Except Halt (BookSide P isSell × OrderInfoVec P)) :
    Except Halt (SmartOrderBook P × OrderInfoVec P) := do
  let (bid, bidEvents) ← handle false (book.sides false)
  let (ask, askEvents) ← handle true (book.sides true)
  return ((book.setSide false bid).setSide true ask, bidEvents ++ askEvents)

omit [Zero P] in
theorem eachSide_eq_ok {handle : (isSell : Bool) → BookSide P isSell →
      Except Halt (BookSide P isSell × OrderInfoVec P)}
    {result : SmartOrderBook P × OrderInfoVec P} :
    book.eachSide handle = .ok result ↔ ∃ bid ask,
      handle false (book.sides false) = .ok bid ∧ handle true (book.sides true) = .ok ask ∧
      ((book.setSide false bid.1).setSide true ask.1, bid.2 ++ ask.2) = result := by
  simp only [eachSide, bind_eq_ok, pure_eq_ok, Except.ok.injEq]
  constructor
  · rintro ⟨bid, bidEq, ask, askEq, resultEq⟩
    exact ⟨bid, ask, bidEq, askEq, resultEq⟩
  · rintro ⟨bid, ask, bidEq, askEq, resultEq⟩
    exact ⟨bid, bidEq, ask, askEq, resultEq⟩

omit [Zero P] in
/-- The events come in two blocks. -/
theorem eachSide_blocks (handle : (isSell : Bool) → BookSide P isSell →
      Except Halt (BookSide P isSell × OrderInfoVec P))
    (onSide : ∀ isSell result, handle isSell (book.sides isSell) = .ok result →
      OnSide isSell result.2)
    {result : SmartOrderBook P × OrderInfoVec P} (processed : book.eachSide handle = .ok result) :
    result.2 = sideBlock false result.2 ++ sideBlock true result.2 := by
  obtain ⟨bid, ask, bidEq, askEq, rfl⟩ := (eachSide_eq_ok book).mp processed
  simp only [sideBlock_bids (onSide _ _ bidEq) (onSide _ _ askEq),
    sideBlock_asks (onSide _ _ bidEq) (onSide _ _ askEq)]

theorem mirror_eachSide (handle mirrored : (isSell : Bool) → BookSide P isSell →
      Except Halt (BookSide P isSell × OrderInfoVec P))
    (same : ∀ isSell, mirrored (!isSell) ((book.sides isSell).mirror negation) =
      (handle isSell (book.sides isSell)).map fun result =>
        (result.1.mirror negation, result.2.map (OrderInfo.mirror negation)))
    (onSide : ∀ isSell result, handle isSell (book.sides isSell) = .ok result →
      OnSide isSell result.2) :
    Follows (fun result => (result.1.mirror negation,
        (sideBlock true result.2 ++ sideBlock false result.2).map (OrderInfo.mirror negation)))
      (book.eachSide handle) ((book.mirror negation).eachSide mirrored) := by
  have imageEq : ∀ bid ask, handle false (book.sides false) = .ok bid →
      handle true (book.sides true) = .ok ask →
      (((book.mirror negation).setSide false (ask.1.mirror negation)).setSide true
          (bid.1.mirror negation),
        ask.2.map (OrderInfo.mirror negation) ++ bid.2.map (OrderInfo.mirror negation)) =
      (((book.setSide false bid.1).setSide true ask.1).mirror negation,
        (sideBlock true (bid.2 ++ ask.2) ++ sideBlock false (bid.2 ++ ask.2)).map
          (OrderInfo.mirror negation)) := by
    intro bid ask bidEq askEq
    rw [sideBlock_bids (onSide _ _ bidEq) (onSide _ _ askEq),
      sideBlock_asks (onSide _ _ bidEq) (onSide _ _ askEq), List.map_append, mirror_setSide,
      mirror_setSide]
    refine congrArg₂ Prod.mk (congrArg SmartOrderBook.mk (funext fun other => ?_)) rfl
    cases other with
    | false => rfl
    | true => rfl
  have bidsFollow := Follows.of_eq (same false)
  have asksFollow := Follows.of_eq (same true)
  intro value
  rw [eachSide_eq_ok]
  constructor
  · rintro ⟨ask, bid, askEq, bidEq, rfl⟩
    obtain ⟨originalBid, originalBidEq, rfl⟩ := (bidsFollow bid).mp bidEq
    obtain ⟨originalAsk, originalAskEq, rfl⟩ := (asksFollow ask).mp askEq
    exact ⟨_, (eachSide_eq_ok book).mpr
      ⟨originalBid, originalAsk, originalBidEq, originalAskEq, rfl⟩,
      (imageEq _ _ originalBidEq originalAskEq).symm⟩
  · rintro ⟨result, processed, rfl⟩
    obtain ⟨bid, ask, bidEq, askEq, rfl⟩ := (eachSide_eq_ok book).mp processed
    exact ⟨_, _, (asksFollow _).mpr ⟨ask, askEq, rfl⟩, (bidsFollow _).mpr ⟨bid, bidEq, rfl⟩,
      imageEq _ _ bidEq askEq⟩

theorem mirror_processTradeMessage (fuel : Nat) (msg : TradeMessage P) :
    Follows (fun result => (result.1.mirror negation,
        mirrorEvents negation (.trade msg) result.2))
      (book.processTradeMessage fuel msg)
      ((book.mirror negation).processTradeMessage fuel (msg.mirror negation)) :=
  mirror_eachSide negation book
    (fun _ side => side.processTrade fuel msg.toTrade)
    (fun _ side => side.processTrade fuel (msg.mirror negation).toTrade)
    (fun isSell => BookSide.mirror_processTrade negation (book.sides isSell) fuel msg.toTrade)
    fun _ _ => BookSide.processTrade_onSide

theorem mirror_processSnapshotMessage (msg : SnapshotMessage P) :
    Follows (fun result => (result.1.mirror negation,
        mirrorEvents negation (.snapshot msg) result.2))
      (book.processSnapshotMessage msg)
      ((book.mirror negation).processSnapshotMessage (msg.mirror negation)) := by
  have levelsEq : ∀ isSell, (msg.mirror negation).levels (!isSell) =
      (msg.levels isSell).map (L2PriceLevel.mirror negation) := by
    intro isSell
    cases isSell with
    | false => rfl
    | true => rfl
  refine mirror_eachSide negation book
    (fun isSell side => side.processL2Snapshot (msg.levels isSell))
    (fun isSell side => side.processL2Snapshot ((msg.mirror negation).levels isSell))
    (fun isSell => ?_) fun _ _ => BookSide.processL2Snapshot_onSide
  rw [levelsEq]
  exact BookSide.mirror_processL2Snapshot negation (book.sides isSell) (msg.levels isSell)

theorem process_blocks {fuel : Nat} {message : Message P} (both : message.BothSides)
    {result : SmartOrderBook P × OrderInfoVec P}
    (processed : book.process fuel message = .ok result) :
    result.2 = sideBlock false result.2 ++ sideBlock true result.2 := by
  cases message with
  | add msg => exact both.elim
  | cancel msg => exact both.elim
  | modify msg => exact both.elim
  | trade msg =>
      exact eachSide_blocks book (fun _ side => side.processTrade fuel msg.toTrade)
        (fun _ _ => BookSide.processTrade_onSide) processed
  | snapshot msg =>
      exact eachSide_blocks book
        (fun isSell side => side.processL2Snapshot (msg.levels isSell))
        (fun _ _ => BookSide.processL2Snapshot_onSide) processed

theorem mirror_process (fuel : Nat) (message : Message P)
    (apart : ∀ id, ¬ ((book.sides false).existOrder id ∧ (book.sides true).existOrder id)) :
    Follows (fun result => (result.1.mirror negation, mirrorEvents negation message result.2))
      (book.process fuel message)
      ((book.mirror negation).process fuel (message.mirror negation)) := by
  cases message with
  | add msg => exact .of_eq (mirror_processOrderAddMessage negation book fuel msg)
  | cancel msg =>
      exact .of_eq (congrArg Except.ok (mirror_processOrderCancelMessage negation book msg))
  | modify msg =>
      exact .of_eq (mirror_processOrderModifyMessage negation book fuel msg (apart msg.id))
  | trade msg => exact mirror_processTradeMessage negation book fuel msg
  | snapshot msg => exact mirror_processSnapshotMessage negation book msg

end SmartOrderBook

/-- Bids and asks are mirror images of each other: on the mirrored book the mirrored message
returns if and only if the original does, with the mirrored book and the mirrored events.  A
trade or a snapshot reports a block about the bids and then a block about the asks, and its
mirror image the mirrored blocks in the other order. -/
theorem process_mirror_symmetric (book : SmartOrderBook P) (message : Message P)
    (apart : ∀ id, ¬ ((book.sides false).existOrder id ∧ (book.sides true).existOrder id)) :
    ((∃ result, Returns (fun fuel =>
        (book.mirror negation).process fuel (message.mirror negation)) result) ↔
      ∃ result, Returns (fun fuel => book.process fuel message) result) ∧
    (∀ final events, Returns (fun fuel => book.process fuel message) (final, events) →
      Returns (fun fuel => (book.mirror negation).process fuel (message.mirror negation))
        (final.mirror negation, mirrorEvents negation message events)) ∧
    (message.BothSides →
      ∀ final events, Returns (fun fuel => book.process fuel message) (final, events) →
        events = sideBlock false events ++ sideBlock true events) := by
  obtain ⟨returnsIff, forward⟩ :=
    returns_of_follows fun fuel => book.mirror_process negation fuel message apart
  refine ⟨returnsIff, fun final events => forward (final, events), ?_⟩
  rintro both final events ⟨fuel, processed⟩
  exact book.process_blocks both processed

def intNegation : PriceNegation ℤ where
  neg := Neg.neg
  involutive := neg_neg
  lt_iff := neg_lt_neg_iff
  zero := neg_zero

/-- A bid of 10 at 99 and an ask of 5 at 101. -/
def spreadMessages : List (Message ℤ) :=
  [.add ⟨.add, 1, false, 10, 99⟩, .add ⟨.add, 2, true, 5, 101⟩]

def spreadBook : SmartOrderBook ℤ :=
  ((SmartOrderBook.empty.processAll 9 spreadMessages).toOption).getD .empty

def spreadTraded : SmartOrderBook ℤ :=
  ((spreadBook.processAll 9 [.trade ⟨7, 101⟩]).toOption).getD .empty

/-- A trade of 7 at 101 cancels nothing, takes the ask and leaves 2, while the bids, all
below 101, only report liquidity.  Mirrored, the asks are the ones to report first. -/
theorem spreadBook_mirror_trade :
    ∃ final, Returns (fun fuel =>
        (spreadBook.mirror intNegation).process fuel (.trade ⟨7, -101⟩))
      (final, [⟨.exec, 2, false, 5, -101⟩, ⟨.add, -1, false, 2, -101⟩,
        ⟨.exec, -1, false, 2, -101⟩, ⟨.add, -1, true, 7, -101⟩, ⟨.exec, -1, true, 7, -101⟩]) := by
  have apart : ∀ id, ¬ ((spreadBook.sides false).existOrder id ∧
      (spreadBook.sides true).existOrder id) := by
    rintro id ⟨bid, ask⟩
    obtain ⟨bidHandler, bidFound⟩ := Option.isSome_iff_exists.mp bid
    obtain ⟨askHandler, askFound⟩ := Option.isSome_iff_exists.mp ask
    have bidMem : (id, bidHandler) ∈ [(1, (⟨99, 1⟩ : OrderHandler ℤ))] :=
      SortedMap.find?_eq_some_iff.mp bidFound
    have askMem : (id, askHandler) ∈ [(2, (⟨101, 2⟩ : OrderHandler ℤ))] :=
      SortedMap.find?_eq_some_iff.mp askFound
    simp only [List.mem_singleton, Prod.mk.injEq] at bidMem askMem
    omega
  obtain ⟨-, forward, -⟩ := process_mirror_symmetric intNegation spreadBook (.trade ⟨7, 101⟩) apart
  have traded : Returns (fun fuel => spreadBook.process fuel (.trade ⟨7, 101⟩))
      (spreadTraded, [⟨.add, -1, false, 7, 101⟩, ⟨.exec, -1, false, 7, 101⟩,
        ⟨.exec, 2, true, 5, 101⟩, ⟨.add, -1, true, 2, 101⟩, ⟨.exec, -1, true, 2, 101⟩]) :=
    ⟨9, rfl⟩
  exact ⟨_, forward _ _ traded⟩

end OrderBook
