import OrderBook.SnapshotEffect
import OrderBook.TradeEffect
import OrderBook.BookRuns
import OrderBook.SnapshotTrace

/-!
# Rebuilding the book from the events of a trade

A subscriber keeps the L2 view of a side and changes it by every event: an `ADD`
event raises its price, an `EXEC` or `CANCEL` event lowers it, and a price with
nothing left is dropped.  The events of `processTrade` lead the subscriber to the
new view and name what each order loses exactly when no cancelled order was partly
filled before, since the implicit cancels carry the original quantity of an order.
-/

namespace OrderBook

open FueledLoop InputRun

variable {P : Type} [LinearOrder P]

/-! ### The subscriber -/

section Subscriber

variable {before : P → P → Prop} [DecidableRel before] [IsStrictTotalOrder P before]

/-- Change the quantity at a price, and drop the price when nothing is left. -/
def changeAt (view : SortedMap P ℤ before) (price : P) (change : ℤ) : SortedMap P ℤ before :=
  if qtyAt view price + change = 0 then view.erase price
  else view.insert price (qtyAt view price + change)

/-- What an event tells about the quantity at its price. -/
def OrderInfo.change (e : OrderInfo P) : ℤ :=
  match e.event with
  | .add => e.quantity
  | .exec | .cancel => -e.quantity
  | .modif => 0

/-- Follow one event.  A modification changes no quantity by itself. -/
def followEvent (view : SortedMap P ℤ before) (e : OrderInfo P) : SortedMap P ℤ before :=
  match e.event with
  | .modif => view
  | _ => changeAt view e.price e.change

/-- The view of the subscriber after a list of events. -/
def followEvents (view : SortedMap P ℤ before) (events : OrderInfoVec P) :
    SortedMap P ℤ before :=
  events.foldl followEvent view

/-- What a list of events tells about the quantity at a price. -/
def changeOf (events : OrderInfoVec P) (price : P) : ℤ :=
  (events.map fun e => if e.price = price then e.change else 0).sum

theorem changeOf_append (first second : OrderInfoVec P) (price : P) :
    changeOf (first ++ second) price = changeOf first price + changeOf second price := by
  simp [changeOf]

theorem changeOf_elsewhere {events : OrderInfoVec P} {price : P}
    (elsewhere : ∀ e ∈ events, e.price ≠ price) : changeOf events price = 0 := by
  apply List.sum_eq_zero
  intro qty mem
  obtain ⟨e, eMem, rfl⟩ := List.mem_map.mp mem
  exact if_neg (elsewhere e eMem)

theorem find?_changeAt (view : SortedMap P ℤ before) (key price : P) (change : ℤ) :
    (changeAt view key change).find? price =
      if price = key then
        if qtyAt view key + change = 0 then none else some (qtyAt view key + change)
      else view.find? price := by
  unfold changeAt
  split
  · next nothing => simp [SortedMap.find?_erase]
  · next left => simp [SortedMap.find?_insert]

theorem find?_followEvent {e : OrderInfo P} (follows : e.event ≠ .modif)
    (view : SortedMap P ℤ before) (price : P) :
    (followEvent view e).find? price =
      if price = e.price then
        if qtyAt view e.price + e.change = 0 then none else some (qtyAt view e.price + e.change)
      else view.find? price := by
  obtain ⟨event, odid, isSell, quantity, key⟩ := e
  cases event with
  | modif => exact (follows rfl).elim
  | add | exec | cancel => exact find?_changeAt view key price _

theorem qtyAt_followEvent {e : OrderInfo P} (follows : e.event ≠ .modif)
    (view : SortedMap P ℤ before) (price : P) :
    qtyAt (followEvent view e) price =
      qtyAt view price + if e.price = price then e.change else 0 := by
  rw [qtyAt, find?_followEvent follows]
  by_cases same : price = e.price
  · subst same
    rw [if_pos rfl, if_pos rfl]
    split
    · next nothing => exact nothing.symm
    · rfl
  · rw [if_neg same, if_neg (Ne.symm same), add_zero, qtyAt]

/-- Prices that no event names are kept. -/
theorem find?_followEvents_elsewhere {events : OrderInfoVec P} {price : P}
    (follows : ∀ e ∈ events, e.event ≠ .modif) (elsewhere : ∀ e ∈ events, e.price ≠ price)
    (view : SortedMap P ℤ before) : (followEvents view events).find? price = view.find? price := by
  induction events generalizing view with
  | nil => rfl
  | cons e events ih =>
      rw [List.forall_mem_cons] at follows elsewhere
      rw [followEvents, List.foldl_cons]
      apply (ih follows.2 elsewhere.2 _).trans
      rw [find?_followEvent follows.1, if_neg (Ne.symm elsewhere.1)]

/-- At a price that an event names, the view holds what the events sum up to. -/
theorem find?_followEvents {events : OrderInfoVec P} {price : P}
    (follows : ∀ e ∈ events, e.event ≠ .modif) (named : ∃ e ∈ events, e.price = price)
    (view : SortedMap P ℤ before) :
    (followEvents view events).find? price =
      if qtyAt view price + changeOf events price = 0 then none
      else some (qtyAt view price + changeOf events price) := by
  induction events generalizing view with
  | nil => simp at named
  | cons e events ih =>
      rw [List.forall_mem_cons] at follows
      have changeEq : changeOf (e :: events) price =
          (if e.price = price then e.change else 0) + changeOf events price := by
        simp [changeOf]
      rw [followEvents, List.foldl_cons, changeEq, ← add_assoc,
        ← qtyAt_followEvent follows.1 view price]
      by_cases later : ∃ other ∈ events, other.price = price
      · exact ih follows.2 later _
      · -- the event is the last one at the price
        have elsewhere : ∀ other ∈ events, other.price ≠ price :=
          fun other mem same => later ⟨other, mem, same⟩
        have here : e.price = price := by
          obtain ⟨other, mem, same⟩ := named
          rcases List.mem_cons.mp mem with rfl | mem
          · exact same
          · exact (elsewhere other mem same).elim
        rw [changeOf_elsewhere elsewhere, add_zero, qtyAt_followEvent follows.1, if_pos here]
        refine (find?_followEvents_elsewhere follows.2 elsewhere _).trans ?_
        rw [find?_followEvent follows.1, if_pos here.symm, here]

end Subscriber

namespace BookSide

variable {isSell : Bool} {side final : BookSide P isSell} {trade : Trade P}
  {events : OrderInfoVec P} {slack : Set ℤ} {key : P} {level : L3PriceLevel P}

/-- The L2 view of a side as a map from prices to quantities. -/
def l2Levels (side : BookSide P isSell) : SortedMap P ℤ (PriceComparator isSell) :=
  side.levels.rekey (Equiv.refl P) L3PriceLevel.quantity id

theorem l2View_eq_l2Levels (side : BookSide P isSell) :
    side.l2View = side.l2Levels.entries.map fun entry => ⟨entry.1, entry.2⟩ := by
  simp [l2View, l2Levels, SortedMap.rekey]

theorem find?_l2Levels (side : BookSide P isSell) (price : P) :
    side.l2Levels.find? price = (side.levels.find? price).map L3PriceLevel.quantity :=
  SortedMap.renames_rekey side.levels id price

/-- The events of a trade lead from the view before the call to the view after it, and an
event that names a resting order carries what the order loses. -/
def AccountsForTrade [Zero P] (side : BookSide P isSell) (trade : Trade P) : Prop :=
  ∃ final events, Returns (fun fuel => side.processTrade fuel trade) (final, events) ∧
    followEvents side.l2Levels events = final.l2Levels ∧
    ∀ e ∈ events, e.event = .exec ∨ e.event = .cancel → side.existOrder e.odid = true →
      e.quantity = side.restingQty e.odid - final.restingQty e.odid

/-- What the trade finds: no order at a better price was filled before, the levels it meets
count their orders, and no order carries the placeholder id of unexpected executions
(or loses by chance what the placeholder reports). -/
structure Accountable (side : BookSide P isSell) (trade : Trade P) : Prop where
  unfilled : ∀ order ∈ side.betterOrders trade.price, order.filledQuantity = 0
  counted : ∀ entry ∈ side.betterLevels trade.price,
    entry.2.quantity = totalRemaining entry.2.orders
  atPrice : ∀ level ∈ side.levels.find? trade.price, side.restQty trade ≠ 0 →
    (level.quantity = min (side.restQty trade) (totalRemaining level.orders) ↔
      totalRemaining level.orders ≤ side.restQty trade)
  placeholder : totalRemaining (side.ordersAt trade.price) < side.restQty trade →
    ∀ order ∈ side.getOrder? (-1), ¬ PriceComparator isSell trade.price order.price ∧
      order.getRemainingQuantity =
        side.restQty trade - totalRemaining (side.ordersAt trade.price)

/-! ### The view -/

theorem changeOf_cancelEvents (orders : List (Order P)) (price : P) :
    changeOf (cancelEvents isSell orders) price =
      -((orders.filter fun order => order.price = price).map Order.quantity).sum := by
  induction orders with
  | nil => rfl
  | cons order orders ih =>
      have split : changeOf (cancelEvents isSell (order :: orders)) price =
          (if order.price = price then -order.quantity else 0) +
            changeOf (cancelEvents isSell orders) price := by
        simp [changeOf, cancelEvents, OrderInfo.change]
      rw [split, ih, List.filter_cons]
      by_cases same : order.price = price
      · simp only [same, decide_true, if_true, List.map_cons, List.sum_cons]
        omega
      · simp [same]

theorem changeOf_execEvents {taken : List (Order P × ℤ)} {price : P}
    (here : ∀ e ∈ execEvents isSell taken, e.price = price) :
    changeOf (execEvents isSell taken) price = -(taken.map Prod.snd).sum := by
  induction taken with
  | nil => rfl
  | cons piece taken ih =>
      have split : changeOf (execEvents isSell (piece :: taken)) price =
          (if piece.1.price = price then -piece.2 else 0) +
            changeOf (execEvents isSell taken) price := by
        simp [changeOf, execEvents, OrderInfo.change]
      have atHead : piece.1.price = price := here _ List.mem_cons_self
      rw [split, ih fun e mem => here e (List.mem_cons_of_mem _ mem), if_pos atHead,
        List.map_cons, List.sum_cons]
      omega

/-- The orders of a better level among those that a trade cancels. -/
theorem Linked.betterOrders_filter (linked : side.Linked) {price : P}
    (better : PriceComparator isSell key price) :
    ((side.betterOrders price).filter fun order => order.price = key) = side.ordersAt key := by
  have split := side.levels.entries_split (fun other => PriceComparator isSell other price)
    (fun ordered laterBetter => Trans.trans ordered laterBetter)
  rw [linked.ordersAt_eq_filter, restingOrders]
  conv_rhs => rw [split, List.flatMap_append, List.filter_append]
  have others : ((side.levels.entries.filter fun entry =>
      ¬ PriceComparator isSell entry.1 price).flatMap fun entry => entry.2.orders).filter
        (fun order => order.price = key) = [] := by
    rw [List.filter_eq_nil_iff]
    intro order mem
    obtain ⟨entry, entryMem, orderMem⟩ := List.mem_flatMap.mp mem
    rw [List.mem_filter, decide_eq_true_eq] at entryMem
    have found := SortedMap.find?_eq_some_iff.mpr entryMem.1
    have priceEq := (linked.level found).order_price order orderMem
    simp only [decide_eq_true_eq]
    rintro rfl
    exact entryMem.2 (priceEq ▸ better)
  rw [others, List.append_nil]
  rfl

theorem Linked.betterOrders_price (linked : side.Linked) {price : P} {order : Order P}
    (mem : order ∈ side.betterOrders price) :
    PriceComparator isSell order.price price ∧ order ∈ side.ordersAt order.price := by
  obtain ⟨key, better, rests⟩ := mem_betterOrders.mp mem
  rw [← linked.order_price rests] at better rests
  exact ⟨better, rests⟩

theorem mem_betterLevels {price : P} {entry : P × L3PriceLevel P} :
    entry ∈ side.betterLevels price ↔
      side.levels.find? entry.1 = some entry.2 ∧ PriceComparator isSell entry.1 price := by
  rw [betterLevels, List.mem_filter, decide_eq_true_eq, SortedMap.find?_eq_some_iff]

/-- The three kinds of events of a trade. -/
theorem TradeOutcome.event_cases (outcome : TradeOutcome slack side trade final events)
    {e : OrderInfo P} (mem : e ∈ events) :
    (∃ order ∈ side.betterOrders trade.price,
        e = ⟨.cancel, order.odid, isSell, order.quantity, order.price⟩) ∨
      (∃ piece ∈ fills (side.restQty trade) (side.ordersAt trade.price),
        e = ⟨.exec, piece.1.odid, isSell, piece.2, piece.1.price⟩) ∨
      totalRemaining (side.ordersAt trade.price) < side.restQty trade ∧
        (e = ⟨.add, -1, isSell, side.restQty trade - totalRemaining (side.ordersAt trade.price),
            trade.price⟩ ∨
          e = ⟨.exec, -1, isSell,
            side.restQty trade - totalRemaining (side.ordersAt trade.price), trade.price⟩) := by
  rw [outcome.events_eq, List.mem_append, List.mem_append] at mem
  rcases mem with (cancelled | executed) | guessed
  · obtain ⟨order, orderMem, rfl⟩ := List.mem_map.mp cancelled
    exact Or.inl ⟨order, orderMem, rfl⟩
  · obtain ⟨piece, pieceMem, rfl⟩ := List.mem_map.mp executed
    exact Or.inr (Or.inl ⟨piece, pieceMem, rfl⟩)
  · split at guessed
    · next more => exact Or.inr (Or.inr ⟨more, by simpa using guessed⟩)
    · cases guessed

theorem TradeOutcome.follows (outcome : TradeOutcome slack side trade final events) :
    ∀ e ∈ events, e.event ≠ .modif := by
  intro e mem
  obtain ⟨order, -, rfl⟩ | ⟨piece, -, rfl⟩ | ⟨-, rfl | rfl⟩ := outcome.event_cases mem
  · exact OrderEvent.noConfusion
  · exact OrderEvent.noConfusion
  · exact OrderEvent.noConfusion
  · exact OrderEvent.noConfusion

section View

variable (valid : side.Valid slack) (outcome : TradeOutcome slack side trade final events)

include valid outcome

/-- An event is at the price of the trade, or cancels an order at a better one. -/
theorem TradeOutcome.event_price {e : OrderInfo P} (mem : e ∈ events) :
    e.price = trade.price ∨
      PriceComparator isSell e.price trade.price ∧ side.ordersAt e.price ≠ [] := by
  obtain ⟨order, better, rfl⟩ | ⟨piece, taken, rfl⟩ | ⟨-, rfl | rfl⟩ := outcome.event_cases mem
  · obtain ⟨betterPrice, rests⟩ := valid.linked.betterOrders_price better
    exact Or.inr ⟨betterPrice, List.ne_nil_of_mem rests⟩
  · have rests := (QueueFill.mem_pieces (valid.allRemain trade.price) restQty_nonneg taken).1
    exact Or.inl (valid.linked.order_price rests)
  · exact Or.inl rfl
  · exact Or.inl rfl

/-- The cancels lower a better price by the original quantities of its orders. -/
theorem TradeOutcome.changeOf_better (better : PriceComparator isSell key trade.price) :
    changeOf events key = -((side.ordersAt key).map Order.quantity).sum := by
  have different := (ne_of_better better).symm
  have nonneg : 0 ≤ side.restQty trade := restQty_nonneg
  have executed := valid.linked.execEvents_price (valid.allRemain trade.price) nonneg
  rw [outcome.events_eq, changeOf_append, changeOf_append, changeOf_cancelEvents,
    changeOf_elsewhere fun e mem same => different ((executed e mem).symm.trans same)]
  have cancelled := valid.linked.betterOrders_filter better
  rw [betterOrders] at cancelled
  rw [cancelled, add_zero]
  split
  · rw [changeOf_elsewhere (by simpa using different), add_zero]
  · simp [changeOf]

/-- The executions lower the price of the trade; the guess of an unexpected execution adds
and executes the same quantity. -/
theorem TradeOutcome.changeOf_atPrice :
    changeOf events trade.price =
      -min (side.restQty trade) (totalRemaining (side.ordersAt trade.price)) := by
  have nonneg : 0 ≤ side.restQty trade := restQty_nonneg
  have remain := valid.allRemain trade.price
  have elsewhere : ∀ e ∈ cancelEvents isSell
      ((side.betterLevels trade.price).flatMap fun entry => entry.2.orders),
        e.price ≠ trade.price := by
    intro e mem
    obtain ⟨order, orderMem, rfl⟩ := List.mem_map.mp mem
    exact ne_of_better (valid.linked.betterOrders_price orderMem).1
  rw [outcome.events_eq, changeOf_append, changeOf_append, changeOf_elsewhere elsewhere,
    changeOf_execEvents (valid.linked.execEvents_price remain nonneg),
    QueueFill.sum_pieces remain nonneg, zero_add]
  split
  · simp [changeOf, OrderInfo.change]
  · simp [changeOf]

/-- An event is at the price of the trade unless all of the trade was expected. -/
theorem TradeOutcome.named_atPrice :
    (∃ e ∈ events, e.price = trade.price) ↔ side.restQty trade ≠ 0 := by
  have remain := valid.allRemain trade.price
  have nonneg : 0 ≤ side.restQty trade := restQty_nonneg
  constructor
  · rintro ⟨e, mem, priceEq⟩ nothing
    obtain ⟨order, better, rfl⟩ | ⟨piece, taken, -⟩ | ⟨more, -⟩ := outcome.event_cases mem
    · exact ne_of_better (valid.linked.betterOrders_price better).1 priceEq
    · rw [nothing, fills_zero] at taken
      cases taken
    · have totalNonneg : 0 ≤ totalRemaining (side.ordersAt trade.price) := remain.total_nonneg
      omega
  · intro some
    cases ordersEq : side.ordersAt trade.price with
    | nil =>
        have more : totalRemaining (side.ordersAt trade.price) < side.restQty trade := by
          rw [ordersEq, totalRemaining, QueueFill.total_nil]
          omega
        rw [outcome.events_eq, if_pos more]
        exact ⟨_, List.mem_append_right _ List.mem_cons_self, rfl⟩
    | cons order later =>
        have rests : order ∈ side.ordersAt trade.price := by simp [ordersEq]
        refine ⟨⟨.exec, order.odid, isSell,
          min (side.restQty trade) order.getRemainingQuantity, order.price⟩, ?_,
          valid.linked.order_price rests⟩
        rw [outcome.events_eq, ordersEq, fills_cons order later some]
        simp [execEvents]

/-- At a better price the subscriber is right exactly when the level counts the original
quantities of its orders. -/
theorem TradeOutcome.view_better (better : PriceComparator isSell key trade.price)
    (found : side.levels.find? key = some level) :
    (followEvents side.l2Levels events).find? key = final.l2Levels.find? key ↔
      level.quantity = (level.orders.map Order.quantity).sum := by
  have ordersEq := ordersAt_of_find? found
  have named : ∃ e ∈ events, e.price = key := by
    obtain ⟨order, later, levelEq⟩ :=
      List.exists_cons_of_ne_nil (valid.linked.level found).nonempty
    have rests : order ∈ side.ordersAt key := by simp [ordersEq, levelEq]
    refine ⟨⟨.cancel, order.odid, isSell, order.quantity, order.price⟩, ?_,
      valid.linked.order_price rests⟩
    rw [outcome.events_eq]
    refine List.mem_append_left _ (List.mem_append_left _ (List.mem_map_of_mem ?_))
    exact mem_betterOrders.mpr ⟨key, better, rests⟩
  have held : qtyAt side.l2Levels key = level.quantity := by
    rw [qtyAt, find?_l2Levels, found]
    rfl
  rw [find?_followEvents outcome.follows named, find?_l2Levels, outcome.find?_better better,
    outcome.changeOf_better valid better, held, ordersEq, Option.map_none]
  constructor
  · intro dropped
    split at dropped
    · omega
    · cases dropped
  · intro counted
    rw [if_pos (by omega)]

/-- At the price of the trade it is right exactly when its quantity reaches zero just when
all orders are executed. -/
theorem TradeOutcome.view_atPrice :
    (followEvents side.l2Levels events).find? trade.price = final.l2Levels.find? trade.price ↔
      ∀ level, side.levels.find? trade.price = some level → side.restQty trade ≠ 0 →
        (level.quantity = min (side.restQty trade) (totalRemaining level.orders) ↔
          totalRemaining level.orders ≤ side.restQty trade) := by
  have remain := valid.allRemain trade.price
  have nonneg : 0 ≤ side.restQty trade := restQty_nonneg
  have usedUp_iff : fillFront (side.restQty trade) (side.ordersAt trade.price) = [] ↔
      totalRemaining (side.ordersAt trade.price) ≤ side.restQty trade :=
    ⟨fun nothing => not_lt.mp fun short => fillFront_ne_nil nonneg short nothing,
      fillFront_eq_nil remain⟩
  have finalFound : final.l2Levels.find? trade.price =
      if totalRemaining (side.ordersAt trade.price) ≤ side.restQty trade then none
      else some (side.quantityAt trade.price -
        min (side.restQty trade) (totalRemaining (side.ordersAt trade.price))) := by
    simp only [find?_l2Levels, outcome.levels_eq, find?_putOrders, if_true, usedUp_iff]
    split <;> rfl
  have held : qtyAt side.l2Levels trade.price = side.quantityAt trade.price := by
    rw [qtyAt, find?_l2Levels, quantityAt]
  rw [finalFound]
  by_cases nothing : side.restQty trade = 0
  · -- no event is at the price
    have elsewhere : ∀ e ∈ events, e.price ≠ trade.price := fun e mem same =>
      (outcome.named_atPrice valid).mp ⟨e, mem, same⟩ nothing
    rw [find?_followEvents_elsewhere outcome.follows elsewhere, find?_l2Levels, nothing]
    refine iff_of_true ?_ fun level found some => (some rfl).elim
    cases found : side.levels.find? trade.price with
    | none => simp [ordersAt_of_none found]
    | some level =>
        have totalPos := valid.totalRemaining_pos found
        rw [if_neg (by omega), quantityAt_of_find? found, min_eq_left totalPos.le, sub_zero]
        rfl
  · rw [find?_followEvents outcome.follows ((outcome.named_atPrice valid).mpr nothing),
      outcome.changeOf_atPrice valid, held, ← sub_eq_add_neg]
    cases found : side.levels.find? trade.price with
    | none =>
        have empty := ordersAt_of_none found
        have noQty : side.quantityAt trade.price = 0 := by rw [quantityAt, found]; rfl
        rw [empty, noQty, totalRemaining, QueueFill.total_nil, min_eq_right nonneg, sub_self, if_pos rfl,
          if_pos nonneg]
        simp
    | some level =>
        rw [quantityAt_of_find? found, ordersAt_of_find? found]
        simp only [Option.some.injEq, forall_eq', ne_eq, nothing, not_false_iff, true_implies,
          sub_eq_zero]
        split <;> split <;> simp_all

theorem TradeOutcome.view_iff :
    followEvents side.l2Levels events = final.l2Levels ↔
      (∀ key level, PriceComparator isSell key trade.price →
        side.levels.find? key = some level →
          level.quantity = (level.orders.map Order.quantity).sum) ∧
      ∀ level, side.levels.find? trade.price = some level → side.restQty trade ≠ 0 →
        (level.quantity = min (side.restQty trade) (totalRemaining level.orders) ↔
          totalRemaining level.orders ≤ side.restQty trade) := by
  constructor
  · intro same
    exact ⟨fun key level better found => (outcome.view_better valid better found).mp (by rw [same]),
      (outcome.view_atPrice valid).mp (by rw [same])⟩
  · rintro ⟨betterCounted, atPrice⟩
    apply SortedMap.ext_find?
    intro key
    -- an event at another price than the trade's cancels an order that rests there
    have unnamed : key ≠ trade.price →
        (PriceComparator isSell key trade.price → side.ordersAt key = []) →
        (followEvents side.l2Levels events).find? key = side.l2Levels.find? key := by
      intro different empty
      apply find?_followEvents_elsewhere outcome.follows
      rintro e mem rfl
      rcases outcome.event_price valid mem with same | ⟨better, rests⟩
      · exact different same
      · exact rests (empty better)
    rcases trichotomous_of (PriceComparator isSell) key trade.price with better | rfl | worse
    · cases found : side.levels.find? key with
      | none =>
          rw [unnamed (ne_of_better better) fun _ => ordersAt_of_none found, find?_l2Levels,
            find?_l2Levels, found, outcome.find?_better better]
      | some level =>
          exact (outcome.view_better valid better found).mpr (betterCounted _ _ better found)
    · exact (outcome.view_atPrice valid).mpr atPrice
    · rw [unnamed (ne_of_better worse).symm fun better => (asymm worse better).elim,
        find?_l2Levels, find?_l2Levels, outcome.find?_worse worse]

/-! ### The orders -/

theorem TradeOutcome.restingQty_better {order : Order P}
    (mem : order ∈ side.betterOrders trade.price) : final.restingQty order.odid = 0 := by
  obtain ⟨better, rests⟩ := valid.linked.betterOrders_price mem
  apply outcome.valid.linked.restingQty_of_absent
  intro key left
  obtain ⟨notBetter, old⟩ := outcome.ids_kept left
  obtain rfl := valid.linked.price_unique old (List.mem_map_of_mem rests)
  exact notBetter better

omit valid in
theorem TradeOutcome.restingQty_worse {order : Order P} (rests : order ∈ side.ordersAt key)
    (worse : PriceComparator isSell trade.price key) :
    final.restingQty order.odid = order.getRemainingQuantity := by
  apply outcome.valid.linked.restingQty_of_mem
  rw [ordersAt, outcome.find?_worse worse]
  exact rests

/-- An order at the price of the trade loses the piece that is taken of it. -/
theorem TradeOutcome.restingQty_piece {piece : Order P × ℤ}
    (taken : piece ∈ fills (side.restQty trade) (side.ordersAt trade.price)) :
    final.restingQty piece.1.odid = piece.1.getRemainingQuantity - piece.2 := by
  have nonneg : 0 ≤ side.restQty trade := restQty_nonneg
  have rests := (QueueFill.mem_pieces (valid.allRemain trade.price) nonneg taken).1
  have ordersEq := outcome.ordersAt_rest trade.price
  rw [if_pos rfl] at ordersEq
  rcases QueueFill.mem_pieces_cases Order.fill nonneg taken with ⟨whole, used⟩ | kept
  · rw [whole, sub_self]
    apply outcome.valid.linked.restingQty_of_absent
    intro key left
    obtain ⟨-, old⟩ := outcome.ids_kept left
    obtain rfl := valid.linked.price_unique old (List.mem_map_of_mem rests)
    have nodup := valid.linked.nodup trade.price
    rw [ids_eq_append (side.restQty trade), List.nodup_append] at nodup
    rw [ordersEq] at left
    exact nodup.2.2 _ (List.mem_map_of_mem used) _ left rfl
  · rw [← Order.remaining_fill, ← Order.fill_odid]
    apply outcome.valid.linked.restingQty_of_mem
    rw [ordersEq]
    exact kept

/-- A trade larger than the level leaves none of its orders. -/
theorem TradeOutcome.restingQty_usedUp {order : Order P}
    (rests : order ∈ side.ordersAt trade.price)
    (covers : totalRemaining (side.ordersAt trade.price) ≤ side.restQty trade) :
    final.restingQty order.odid = 0 := by
  apply outcome.valid.linked.restingQty_of_absent
  intro key left
  obtain ⟨-, old⟩ := outcome.ids_kept left
  obtain rfl := valid.linked.price_unique old (List.mem_map_of_mem rests)
  rw [outcome.ordersAt_rest, if_pos rfl,
    fillFront_eq_nil (valid.allRemain trade.price) covers] at left
  cases left

/-- What an order with the placeholder id loses. -/
theorem TradeOutcome.placeholder_iff {order : Order P} (found : side.getOrder? (-1) = some order)
    (more : totalRemaining (side.ordersAt trade.price) < side.restQty trade) :
    side.restQty trade - totalRemaining (side.ordersAt trade.price) =
        side.restingQty (-1) - final.restingQty (-1) ↔
      ¬ PriceComparator isSell trade.price order.price ∧
        order.getRemainingQuantity =
          side.restQty trade - totalRemaining (side.ordersAt trade.price) := by
  obtain ⟨idEq, rests⟩ := valid.linked.getOrder?_eq_some found
  have held := valid.linked.restingQty_of_mem rests
  rw [idEq] at held
  by_cases worse : PriceComparator isSell trade.price order.price
  · have kept := outcome.restingQty_worse rests worse
    rw [idEq] at kept
    refine iff_of_false ?_ fun notWorse => notWorse.1 worse
    rw [held, kept]
    omega
  · have gone : final.restingQty (-1) = 0 := by
      rw [← idEq]
      rcases trichotomous_of (PriceComparator isSell) order.price trade.price with
        better | same | later
      · exact outcome.restingQty_better valid (mem_betterOrders.mpr ⟨_, better, rests⟩)
      · exact outcome.restingQty_usedUp valid (same ▸ rests) more.le
      · exact (worse later).elim
    rw [held, gone, sub_zero]
    exact ⟨fun lost => ⟨worse, lost.symm⟩, fun lost => lost.2.symm⟩

/-- The events name what the resting orders lose exactly when the cancelled orders were not
filled before and no order goes by the placeholder id. -/
theorem TradeOutcome.names_iff :
    (∀ e ∈ events, e.event = .exec ∨ e.event = .cancel → side.existOrder e.odid = true →
      e.quantity = side.restingQty e.odid - final.restingQty e.odid) ↔
      (∀ order ∈ side.betterOrders trade.price, order.filledQuantity = 0) ∧
      (totalRemaining (side.ordersAt trade.price) < side.restQty trade →
        ∀ order, side.getOrder? (-1) = some order →
          ¬ PriceComparator isSell trade.price order.price ∧
            order.getRemainingQuantity =
              side.restQty trade - totalRemaining (side.ordersAt trade.price)) := by
  constructor
  · intro named
    constructor
    · intro order better
      have rests := (valid.linked.betterOrders_price better).2
      have mem : (⟨.cancel, order.odid, isSell, order.quantity, order.price⟩ : OrderInfo P) ∈
          events := by
        rw [outcome.events_eq]
        exact List.mem_append_left _ (List.mem_append_left _ (List.mem_map_of_mem better))
      have lost := named _ mem (Or.inr rfl)
        (existOrder_of_getOrder? (valid.linked.getOrder?_of_mem rests))
      simp only [valid.linked.restingQty_of_mem rests, outcome.restingQty_better valid better,
        Order.getRemainingQuantity] at lost
      omega
    · intro more order found
      refine (outcome.placeholder_iff valid found more).mp (named ⟨.exec, -1, isSell, _,
        trade.price⟩ ?_ (Or.inl rfl) (existOrder_of_getOrder? found))
      rw [outcome.events_eq, if_pos more]
      simp
  · rintro ⟨unfilled, placeholder⟩ e mem removes present
    obtain ⟨order, better, rfl⟩ | ⟨piece, taken, rfl⟩ | ⟨more, rfl | rfl⟩ :=
      outcome.event_cases mem
    · have rests := (valid.linked.betterOrders_price better).2
      have whole := unfilled order better
      simp only [valid.linked.restingQty_of_mem rests, outcome.restingQty_better valid better,
        Order.getRemainingQuantity]
      omega
    · have rests := (QueueFill.mem_pieces (valid.allRemain trade.price) restQty_nonneg taken).1
      simp only [valid.linked.restingQty_of_mem rests, outcome.restingQty_piece valid taken]
      omega
    · simp at removes
    · obtain ⟨key, idMem⟩ := valid.linked.existOrder_iff.mp present
      obtain ⟨order, orderMem, idEq⟩ := List.mem_map.mp idMem
      have found := valid.linked.getOrder?_of_mem orderMem
      rw [idEq] at found
      exact (outcome.placeholder_iff valid found more).mpr (placeholder more order found)

end View

omit [LinearOrder P] in
theorem sum_quantity {orders : List (Order P)}
    (unfilled : ∀ order ∈ orders, order.filledQuantity = 0) :
    (orders.map Order.quantity).sum = totalRemaining orders := by
  induction orders with
  | nil => rfl
  | cons order orders ih =>
      rw [List.forall_mem_cons] at unfilled
      rw [List.map_cons, List.sum_cons, ih unfilled.2, totalRemaining_cons,
        Order.getRemainingQuantity, unfilled.1, sub_zero]

theorem Valid.accounts_iff [Zero P] (valid : side.Valid slack) (pos : 0 < trade.quantity) :
    side.AccountsForTrade trade ↔ side.Accountable trade := by
  obtain ⟨final, events, returns, outcome⟩ := valid.processTrade_returns trade pos.le
  have accounts_iff : side.AccountsForTrade trade ↔
      followEvents side.l2Levels events = final.l2Levels ∧
        ∀ e ∈ events, e.event = .exec ∨ e.event = .cancel → side.existOrder e.odid = true →
          e.quantity = side.restingQty e.odid - final.restingQty e.odid := by
    constructor
    · rintro ⟨other, otherEvents, otherReturns, accounted⟩
      cases Returns.unique (processTrade_monotone side trade) returns otherReturns
      exact accounted
    · intro accounted
      exact ⟨final, events, returns, accounted⟩
  rw [accounts_iff, outcome.view_iff valid, outcome.names_iff valid]
  have sum_better : (∀ order ∈ side.betterOrders trade.price, order.filledQuantity = 0) →
      ∀ entry ∈ side.betterLevels trade.price,
        (entry.2.orders.map Order.quantity).sum = totalRemaining entry.2.orders := by
    intro unfilled entry entryMem
    apply sum_quantity
    intro order mem
    exact unfilled order (List.mem_flatMap.mpr ⟨entry, entryMem, mem⟩)
  constructor
  · rintro ⟨⟨counted, atPrice⟩, unfilled, placeholder⟩
    refine ⟨unfilled, fun entry mem => ?_, atPrice, placeholder⟩
    obtain ⟨found, better⟩ := mem_betterLevels.mp mem
    rw [← sum_better unfilled entry mem]
    exact counted _ _ better found
  · rintro ⟨unfilled, counted, atPrice, placeholder⟩
    refine ⟨⟨fun key level better found => ?_, atPrice⟩, unfilled, placeholder⟩
    have mem : (key, level) ∈ side.betterLevels trade.price := mem_betterLevels.mpr ⟨found, better⟩
    rw [sum_better unfilled (key, level) mem]
    exact counted (key, level) mem

end BookSide

/-- Every quantity of a call is positive, and a modification leaves something of its order.
A snapshot may show a price twice. -/
def SideCall.Positive {isSell : Bool} (side : BookSide P isSell) : SideCall P → Prop
  | .processL2Snapshot snapshot => ∀ l2Level ∈ snapshot, 0 < l2Level.quantity
  | sideCall => sideCall.Allowed side

theorem SideCall.Positive.allowed_or_snapshot {isSell : Bool} {side : BookSide P isSell}
    {sideCall : SideCall P} (positive : sideCall.Positive side) :
    sideCall.Allowed side ∨ ∃ snapshot, sideCall = .processL2Snapshot snapshot := by
  cases sideCall with
  | processL2Snapshot snapshot => exact Or.inr ⟨snapshot, rfl⟩
  | addOrder | removeOrder | modifyOrder | processCrossedOrder | processOrderCancel
  | processTrade => exact Or.inl positive

section Reachable

variable [Zero P] {isSell : Bool} {side : BookSide P isSell}

/-- A call with positive quantities that returns. -/
def BookSide.PositiveStep (side : BookSide P isSell) (sideCall : SideCall P)
    (next : BookSide P isSell) : Prop :=
  sideCall.Positive side ∧ Returns (fun fuel => side.call fuel sideCall) next

/-- A state of a side that calls with positive quantities lead to. -/
def BookSide.Reachable (side : BookSide P isSell) : Prop :=
  ∃ calls, Run BookSide.PositiveStep .empty calls side

theorem BookSide.Valid.positiveStep {next : BookSide P isSell} {sideCall : SideCall P}
    (valid : side.Valid {gap | 0 ≤ gap}) (stepped : side.PositiveStep sideCall next) :
    next.Valid {gap | 0 ≤ gap} := by
  obtain ⟨positive, returns⟩ := stepped
  rcases positive.allowed_or_snapshot with allowed | ⟨snapshot, rfl⟩
  · exact valid.callStep zero_mem_nonneg ⟨allowed, returns⟩
  · obtain ⟨fuel, returned⟩ := returns
    obtain ⟨⟨final, events⟩, reconciled, finalEq⟩ := bind_eq_ok.mp returned
    cases finalEq
    exact valid.processL2Snapshot zero_mem_nonneg widens_nonneg positive reconciled

theorem BookSide.Reachable.valid (reachable : side.Reachable) :
    side.Valid {gap | 0 ≤ gap} := by
  obtain ⟨calls, run⟩ := reachable
  exact run.invariant (fun _ => True) _ BookSide.valid_empty
    (fun _ valid stepped => valid.positiveStep stepped) (fun _ _ => trivial)

end Reachable

/-- The events of a trade account for what it does to a side exactly when the orders it
cancels were not filled before, the levels it meets count their orders, and no order that
loses something else goes by the placeholder id. -/
theorem processTrade_accounts_iff [Zero P] {isSell : Bool} {side : BookSide P isSell}
    (reachable : side.Reachable) {trade : Trade P} (pos : 0 < trade.quantity) :
    side.AccountsForTrade trade ↔ side.Accountable trade :=
  reachable.valid.accounts_iff pos

theorem oneAskSide_step :
    BookSide.PositiveStep .empty (.addOrder ⟨1, true, 10, 100, 0⟩) oneAskSide :=
  ⟨by simp [SideCall.Positive, SideCall.Allowed, Order.IsOpen], 0, rfl⟩

/-- The only ask is not filled, and a trade passes its price. -/
theorem trade_past_oneAsk_accounts : oneAskSide.AccountsForTrade ⟨5, 101⟩ := by
  have reachable : oneAskSide.Reachable :=
    ⟨[.addOrder ⟨1, true, 10, 100, 0⟩], Run.cons oneAskSide_step Run.start⟩
  exact (processTrade_accounts_iff reachable (by decide)).mpr
    ⟨by decide, by decide, by decide, by decide⟩

/-- An ask of 10 at 100 of which a trade took 4. -/
def tradedAskSide : BookSide ℤ true :=
  ((oneAskSide.processTrade 9 ⟨4, 100⟩).toOption.map Prod.fst).getD .empty

/-- A trade at 101 cancels the 6 that are left of the ask; the event reports 10. -/
theorem trade_past_tradedAsk_not_accounted :
    tradedAskSide.Reachable ∧ ¬ tradedAskSide.AccountsForTrade ⟨5, 101⟩ := by
  constructor
  · exact ⟨[.addOrder ⟨1, true, 10, 100, 0⟩, .processTrade ⟨4, 100⟩],
      Run.cons oneAskSide_step (Run.cons
        ⟨by simp [SideCall.Positive, SideCall.Allowed], 9, rfl⟩ Run.start)⟩
  · rintro ⟨final, events, returns, -, named⟩
    have traded : Returns (fun fuel => tradedAskSide.processTrade fuel ⟨5, 101⟩)
        (((tradedAskSide.processTrade 9 ⟨5, 101⟩).toOption.map Prod.fst).getD .empty,
          [⟨.cancel, 1, true, 10, 100⟩, ⟨.add, -1, true, 5, 101⟩, ⟨.exec, -1, true, 5, 101⟩]) :=
      ⟨9, rfl⟩
    cases Returns.unique (BookSide.processTrade_monotone _ _) returns traded
    have lost := named ⟨.cancel, 1, true, 10, 100⟩ List.mem_cons_self (by decide) (by decide)
    revert lost
    decide

end OrderBook
