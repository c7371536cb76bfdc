import OrderBook.ExchangeSide
import OrderBook.ExpectedTrade
import OrderBook.StreamOutcome
import OrderBook.TradeLeads

/-!
# The book follows the exchange

The book rests on assumptions about the exchange: orders are handled by price and time,
every stream is in order, and every change of the L2 view brings a snapshot.  Under these
the book holds the orders of the exchange whenever an action is completely published, in
the order of the exchange, and nothing is pending then.  The order stream leads here; the
trades and the snapshots of an action come later, in any interleaving, and they change
nothing and report nothing.

An order that is executed in part and then rests is left out.  Its first trade comes late
and finds the rest of the order at a better price on the other side, which the book takes
for cancelled.
-/

namespace OrderBook

open FueledLoop InputRun

variable {P : Type} [LinearOrder P]

/-! ### The book between an order and its late messages -/

/-- The book holds the orders of the exchange; the trades of these executions and these
snapshots are still to come. -/
structure Expects (exchange : Exchange P) (executions : OrderInfoVec P)
    (snapshots : List (SnapshotMessage P)) (book : SmartOrderBook P) : Prop where
  valid : book.Valid {0}
  uncrossed : book.Uncrossed
  orders_eq : ∀ isSell, (book.sides isSell).restingOrders = exchange.orders isSell
  remove_eq : ∀ isSell, (book.sides isSell).pendingLiqRemoveQty = creditEvents .empty executions
  add_eq : ∀ isSell, (book.sides isSell).pendingLiqAddQty = .empty
  executed : ∀ e ∈ executions, e.event = .exec ∧ 0 < e.quantity ∧
    ∀ isSell, (book.sides isSell).NoneBetter e.price
  harmless : ∀ isSell, Harmless (book.sides isSell).l2View (book.sides isSell).l2SnapQueue
    (snapshots.map fun snapshot => snapshot.levels isSell)

/-- The book holds the orders of the exchange and expects nothing. -/
abbrev Follows (exchange : Exchange P) (book : SmartOrderBook P) : Prop :=
  Expects exchange [] [] book

namespace Expects

variable [Zero P] {exchange : Exchange P} {executions : OrderInfoVec P} {e : OrderInfo P}
  {snapshots : List (SnapshotMessage P)} {book : SmartOrderBook P}

theorem trade (expects : Expects exchange (e :: executions) snapshots book) :
    ∃ next, book.SilentStep (.trade ⟨e.quantity, e.price⟩) next ∧
      Expects exchange executions snapshots next := by
  obtain ⟨⟨eExec, ePos, none⟩, others⟩ := List.forall_mem_cons.mp expects.executed
  have allPos : ∀ other ∈ e :: executions, 0 < other.quantity :=
    fun other mem => (expects.executed other mem).2.1
  have nothing : PositiveLedger (.empty : SortedMap P ℤ (· < ·)) :=
    (BookSide.valid_empty : (BookSide.empty : BookSide P true).Valid {0}).ledgers.remove_pos
  obtain ⟨covered, settled⟩ := debit_creditEvents nothing eExec allPos
  have expected : ∀ isSell,
      e.quantity ≤ qtyAt (book.sides isSell).pendingLiqRemoveQty e.price := by
    intro isSell
    rw [expects.remove_eq]
    exact covered
  refine ⟨_, expects.valid.settles ePos.le none expected, ?_⟩
  exact {
    valid := fun isSell => (expects.valid isSell).debited (expected isSell)
    uncrossed := expects.uncrossed
    orders_eq := expects.orders_eq
    remove_eq := fun isSell => by
      rw [← settled, ← expects.remove_eq isSell]
      rfl
    add_eq := expects.add_eq
    executed := others
    harmless := expects.harmless }

theorem snapshot {snapshot : SnapshotMessage P}
    (expects : Expects exchange executions (snapshot :: snapshots) book) :
    ∃ next, book.SilentStep (.snapshot snapshot) next ∧
      Expects exchange executions snapshots next := by
  have taken (isSell : Bool) := BookSide.takes_harmless (expects.harmless isSell)
  choose queue silent harmless using taken
  refine ⟨⟨fun isSell => { book.sides isSell with l2SnapQueue := queue isSell }⟩,
    Returns.const (SmartOrderBook.processSnapshotMessage_eq_ok.mpr
      ⟨fun _ => [], rfl, silent⟩), ?_⟩
  exact {
    valid := fun isSell =>
      (expects.valid isSell).congr rfl rfl ((expects.valid isSell).ledgers.congr rfl rfl)
    uncrossed := expects.uncrossed
    orders_eq := expects.orders_eq
    remove_eq := expects.remove_eq
    add_eq := expects.add_eq
    executed := expects.executed
    harmless := harmless }

/-- The late messages, in whatever way the two streams interleave, change nothing. -/
theorem late {trades : List (TradeMessage P)} {late : List (Message P)}
    (interleaves : Interleaves trades snapshots late)
    (tradesEq : trades = executions.map fun e => ⟨e.quantity, e.price⟩)
    (expects : Expects exchange executions snapshots book) :
    ∃ final, Run SmartOrderBook.SilentStep book late final ∧ Follows exchange final := by
  induction interleaves generalizing executions book with
  | nil =>
      obtain rfl : executions = [] := List.map_eq_nil_iff.mp tradesEq.symm
      exact ⟨book, .start, expects⟩
  | trade _ ih =>
      cases executions with
      | nil => cases tradesEq
      | cons e executions =>
          obtain ⟨rfl, laterEq⟩ := List.cons_eq_cons.mp tradesEq
          obtain ⟨next, stepped, later⟩ := expects.trade
          obtain ⟨final, run, follows⟩ := ih laterEq later
          exact ⟨final, run.cons stepped, follows⟩
  | snapshot _ ih =>
      obtain ⟨next, stepped, later⟩ := expects.snapshot
      obtain ⟨final, run, follows⟩ := ih tradesEq later
      exact ⟨final, run.cons stepped, follows⟩

end Expects

/-! ### Orders -/

namespace Exchange

@[simp]
theorem levels_view (exchange : Exchange P) (isSell : Bool) :
    exchange.view.levels isSell = levelsOf (exchange.orders isSell) := by
  cases isSell with
  | false => rfl
  | true => rfl

omit [LinearOrder P] in
@[simp]
theorem orders_setSide (exchange : Exchange P) (isSell : Bool) (orders : List (Order P)) :
    (exchange.setSide isSell orders).orders isSell = orders :=
  Function.update_self ..

omit [LinearOrder P] in
theorem orders_setSide_of_ne (exchange : Exchange P) {isSell other : Bool}
    (different : other ≠ isSell) (orders : List (Order P)) :
    (exchange.setSide isSell orders).orders other = exchange.orders other :=
  Function.update_of_ne different ..

end Exchange

omit [LinearOrder P] in
/-- A side that waits for nothing the exchange sends takes its own view any number of times. -/
theorem Harmless.of_shown {old view : L2SnapshotSide P} {queue snapshots : List (L2SnapshotSide P)}
    (quiet : Harmless old queue []) (shown : ∀ snapshot ∈ snapshots, snapshot = view)
    (pos : ∀ level ∈ view, 0 < level.quantity) : Harmless view queue snapshots := by
  cases quiet with
  | idle _ => exact .idle shown
  | blocked empty _ => exact .blocked empty fun snapshot mem => (shown snapshot mem) ▸ pos

namespace Expects

variable [Zero P] {exchange : Exchange P} {book : SmartOrderBook P} {msg : OrderMessage P}

omit [Zero P] in
/-- The executions at the exchange are those of the book. -/
theorem executions_eq (follows : Follows exchange book) (nonneg : 0 ≤ msg.quantity) :
    (exchange.executions msg).map (fun execution => (execution.resting, execution.quantity)) =
        fills msg.quantity ((book.sides (!msg.isSell)).crossingOrders msg.price) ∧
      ((exchange.executions msg).map Execution.left).getLastD (exchange.orders (!msg.isSell)) =
        fillFront msg.quantity ((book.sides (!msg.isSell)).crossingOrders msg.price) ++
          (book.sides (!msg.isSell)).ordersBeyond msg.price := by
  have valid := follows.valid (!msg.isSell)
  rw [Exchange.executions, ← follows.orders_eq, BookSide.restingOrders_eq _ msg.price]
  refine sweep_eq nonneg (valid.crossing_remain msg.price) (fun order mem => ?_)
    fun order mem => ?_
  · rw [BookSide.crossingOrders, ← valid.linked.filter_restingOrders] at mem
    exact of_decide_eq_true (List.mem_filter.mp mem).2
  · rw [BookSide.ordersBeyond, ← valid.linked.filter_restingOrders
      fun key => ¬ BookSide.Crosses (!msg.isSell) msg.price key] at mem
    exact of_decide_eq_true (List.mem_filter.mp mem).2

omit [Zero P] in
theorem events_eq (follows : Follows exchange book) (nonneg : 0 ≤ msg.quantity) :
    (exchange.executions msg).map (Execution.event (!msg.isSell)) =
      book.crossEvents msg msg.quantity := by
  rw [SmartOrderBook.crossEvents, execEvents, ← (follows.executions_eq nonneg).1, List.map_map]
  rfl

omit [Zero P] in
theorem unexecuted_eq (follows : Follows exchange book) (nonneg : 0 ≤ msg.quantity) :
    exchange.unexecuted msg = msg.quantity - min msg.quantity (book.crossingTotal msg) := by
  have sum : ((fills msg.quantity ((book.sides (!msg.isSell)).crossingOrders msg.price)).map
      Prod.snd).sum = min msg.quantity (book.crossingTotal msg) :=
    QueueFill.sum_pieces ((follows.valid (!msg.isSell)).crossing_remain msg.price) nonneg
  rw [← (follows.executions_eq nonneg).1, List.map_map] at sum
  rw [Exchange.unexecuted, ← sum]
  rfl

omit [Zero P] in
theorem l2View_pos (valid : book.Valid {0}) (isSell : Bool) :
    ∀ level ∈ (book.sides isSell).l2View, 0 < level.quantity := by
  rw [← (valid isSell).levelsOf_restingOrders]
  exact levelsOf_pos (valid isSell).resting_remain

omit [Zero P] in
/-- A snapshot of what the exchange holds may come at any time. -/
theorem awaits_view (follows : Follows exchange book) :
    Expects exchange [] [exchange.view] book :=
  { follows with
    harmless := by
      intro isSell
      refine (follows.harmless isSell).of_shown (fun snapshot mem => ?_)
        (l2View_pos follows.valid isSell)
      rw [List.map_singleton, List.mem_singleton] at mem
      rw [mem, Exchange.levels_view, ← follows.orders_eq,
        (follows.valid isSell).levelsOf_restingOrders] }

omit [Zero P] in
/-- One side of the book takes other orders, and its ledgers and its queue stay. -/
theorem update_side (follows : Follows exchange book) {isSell : Bool} (next : BookSide P isSell)
    (valid : (book.setSide isSell next).Valid {0})
    (uncrossed : (book.setSide isSell next).Uncrossed)
    (removeEq : next.pendingLiqRemoveQty = (book.sides isSell).pendingLiqRemoveQty)
    (addEq : next.pendingLiqAddQty = (book.sides isSell).pendingLiqAddQty)
    (queueEq : next.l2SnapQueue = (book.sides isSell).l2SnapQueue) :
    Follows (exchange.setSide isSell next.restingOrders) (book.setSide isSell next) where
  valid := valid
  uncrossed := uncrossed
  orders_eq := by
    refine SmartOrderBook.forall_side isSell ?_ ?_
    · rw [SmartOrderBook.sides_setSide_self, Exchange.orders_setSide]
    · rw [SmartOrderBook.sides_setSide_not,
        Exchange.orders_setSide_of_ne _ (Bool.not_ne_self isSell), follows.orders_eq]
  remove_eq := by
    refine SmartOrderBook.forall_side isSell ?_ ?_
    · rw [SmartOrderBook.sides_setSide_self, removeEq, follows.remove_eq]
    · rw [SmartOrderBook.sides_setSide_not, follows.remove_eq]
  add_eq := by
    refine SmartOrderBook.forall_side isSell ?_ ?_
    · rw [SmartOrderBook.sides_setSide_self, addEq, follows.add_eq]
    · rw [SmartOrderBook.sides_setSide_not, follows.add_eq]
  executed := by simp
  harmless := by
    refine SmartOrderBook.forall_side isSell ?_ ?_
    · have quiet := follows.harmless isSell
      rw [← queueEq] at quiet
      have pos := l2View_pos valid isSell
      rw [SmartOrderBook.sides_setSide_self] at pos ⊢
      exact quiet.of_shown (by simp) pos
    · rw [SmartOrderBook.sides_setSide_not]
      exact follows.harmless (!isSell)

omit [Zero P] in
/-- An order that is filled crosses the best level. -/
theorem exists_crossed (follows : Follows exchange book) (pos : 0 < msg.quantity)
    (filled : exchange.unexecuted msg = 0) :
    ∃ key level, (book.sides (!msg.isSell)).levels.begin? = some (key, level) ∧
      BookSide.Crosses (!msg.isSell) msg.price key := by
  by_contra none
  have uncrossed : ∀ {key : P} {level : L3PriceLevel P},
      (book.sides (!msg.isSell)).levels.begin? = some (key, level) →
        ¬ BookSide.Crosses (!msg.isSell) msg.price key :=
    fun first crosses => none ⟨_, _, first, crosses⟩
  have total : book.crossingTotal msg = 0 := by
    rw [SmartOrderBook.crossingTotal, (BookSide.crossingOrders_eq_nil uncrossed).1]
    rfl
  have unexecuted := follows.unexecuted_eq pos.le
  omega

omit [Zero P] in
/-- The snapshots of executions show the side of the incoming order as it is. -/
theorem own_harmless (follows : Follows exchange book) (msg : OrderMessage P) :
    Harmless (book.sides msg.isSell).l2View (book.sides msg.isSell).l2SnapQueue
      (((exchange.executions msg).map fun execution =>
        (exchange.setSide (!msg.isSell) execution.left).view).map
          fun snapshot => snapshot.levels msg.isSell) := by
  refine (follows.harmless msg.isSell).of_shown (fun snapshot mem => ?_)
    (l2View_pos follows.valid msg.isSell)
  rw [List.map_map] at mem
  obtain ⟨execution, -, rfl⟩ := List.mem_map.mp mem
  rw [Function.comp_apply, Exchange.levels_view,
    Exchange.orders_setSide_of_ne _ (Bool.self_ne_not msg.isSell), ← follows.orders_eq,
    (follows.valid msg.isSell).levelsOf_restingOrders]

omit [Zero P] in
/-- The snapshots of executions are those that the crossed side waits for. -/
theorem crossed_harmless (follows : Follows exchange book) (pos : 0 < msg.quantity)
    (filled : exchange.unexecuted msg = 0) {final : BookSide P (!msg.isSell)}
    {events : OrderInfoVec P}
    (crossed : BookSide.CrossOutcome {0} (book.sides (!msg.isSell)) msg.price msg.quantity final
      events) :
    Harmless final.l2View final.l2SnapQueue
      (((exchange.executions msg).map fun execution =>
        (exchange.setSide (!msg.isSell) execution.left).view).map
          fun snapshot => snapshot.levels (!msg.isSell)) := by
  obtain ⟨key, level, first, crosses⟩ := follows.exists_crossed pos filled
  have waits := crossed.harmless (follows.valid _) pos (follows.harmless _) first crosses
  rw [follows.orders_eq] at waits
  simpa [Exchange.executions, List.map_map, Function.comp_def] using waits

/-- An order that is filled by the book: its trades and the snapshots in between are still to
come. -/
theorem place_filled (follows : Follows exchange book) (pos : 0 < msg.quantity)
    (filled : exchange.unexecuted msg = 0) :
    ∃ after, Returns (fun fuel => book.processOrderAddMessage fuel msg)
        (after, exchange.placeEvents msg) ∧
      Expects (exchange.place msg) ((exchange.executions msg).map
        (Execution.event (!msg.isSell))) (exchange.placeSnapshots msg) after := by
  obtain ⟨after, events, returns, outcome⟩ := follows.valid.processOrderAddMessage_returns pos
    (BookSide.matchPendingLiqAdd_empty (follows.add_eq msg.isSell) msg.quantity msg.price)
  have unexecuted := follows.unexecuted_eq pos.le
  have enough : msg.quantity - 0 ≤ book.crossingTotal msg := by omega
  obtain ⟨ownEq, eventsEq⟩ := outcome.filled enough
  have afterValid := follows.valid.processOrderAddMessage (Set.mem_singleton 0) pos returns
  have afterUncrossed := follows.uncrossed.addOutcome rfl outcome
  have noneBetter := outcome.noneBetter follows.valid follows.uncrossed rfl (by omega) enough
  have crossed := outcome.crossed
  rw [sub_zero] at ownEq eventsEq noneBetter crossed
  have execEq := follows.events_eq pos.le
  have placeEq : exchange.place msg = exchange.executed msg := if_pos filled
  have reported : events = exchange.placeEvents msg := by
    rw [eventsEq, Exchange.placeEvents, if_pos filled, List.append_nil, execEq]
  rw [reported] at returns
  refine ⟨after, returns, ?_⟩
  exact {
    valid := afterValid
    uncrossed := afterUncrossed
    orders_eq := by
      rw [placeEq, Exchange.executed, (follows.executions_eq pos.le).2]
      refine SmartOrderBook.forall_side msg.isSell ?_ ?_
      · rw [ownEq, Exchange.orders_setSide_of_ne _ (Bool.self_ne_not msg.isSell)]
        exact follows.orders_eq msg.isSell
      · rw [Exchange.orders_setSide]
        exact crossed.resting_eq
    remove_eq := by
      rw [execEq]
      refine SmartOrderBook.forall_side msg.isSell ?_ ?_
      · rw [ownEq]
        exact congrArg (creditEvents · _) (follows.remove_eq msg.isSell)
      · rw [crossed.remove_eq, follows.remove_eq, creditEvents_nil]
    add_eq := by
      refine SmartOrderBook.forall_side msg.isSell ?_ ?_
      · rw [ownEq]
        exact follows.add_eq msg.isSell
      · rw [crossed.add_eq]
        exact follows.add_eq _
    executed := by
      intro e mem
      rw [execEq] at mem
      refine ⟨?_, follows.valid.crossEvents_pos msg pos.le e mem, noneBetter e mem⟩
      obtain ⟨piece, -, rfl⟩ := List.mem_map.mp mem
      rfl
    harmless := by
      rw [Exchange.placeSnapshots, if_pos filled, List.append_nil]
      refine SmartOrderBook.forall_side msg.isSell ?_ ?_
      · rw [ownEq]
        exact follows.own_harmless msg
      · exact follows.crossed_harmless pos filled crossed }

omit [Zero P] in
theorem existOrder_iff (follows : Follows exchange book) {isSell : Bool} {id : ℤ} :
    (book.sides isSell).existOrder id = true ↔ id ∈ ids (exchange.orders isSell) := by
  rw [(follows.valid isSell).linked.existOrder_iff, ← follows.orders_eq]
  constructor
  · rintro ⟨key, mem⟩
    obtain ⟨order, orderMem, rfl⟩ := List.mem_map.mp mem
    exact List.mem_map_of_mem (BookSide.mem_restingOrders.mpr ⟨key, orderMem⟩)
  · intro mem
    obtain ⟨order, orderMem, rfl⟩ := List.mem_map.mp mem
    obtain ⟨key, rests⟩ := BookSide.mem_restingOrders.mp orderMem
    exact ⟨key, List.mem_map_of_mem rests⟩

omit [Zero P] in
/-- Without executions no level is crossed. -/
theorem none_crossed (follows : Follows exchange book) (pos : 0 < msg.quantity)
    (nothing : exchange.executions msg = []) {key : P} {level : L3PriceLevel P}
    (first : (book.sides (!msg.isSell)).levels.begin? = some (key, level)) :
    ¬ BookSide.Crosses (!msg.isSell) msg.price key := by
  intro crosses
  have pieces := (follows.executions_eq pos.le).1
  obtain ⟨others, entriesEq⟩ := SortedMap.begin?_eq_some_iff.mp first
  have nonempty := ((follows.valid _).linked.level (SortedMap.find?_of_begin? first)).nonempty
  rw [nothing, BookSide.crossingOrders_first entriesEq crosses] at pieces
  cases orders : level.orders with
  | nil => exact nonempty orders
  | cons order later =>
      rw [orders, List.cons_append, fills_cons _ _ pos.ne'] at pieces
      cases pieces

/-- An order that executes nothing rests, and one snapshot of it is still to come. -/
theorem place_rests (follows : Follows exchange book) (pos : 0 < msg.quantity)
    (fresh : msg.id ∉ ids (exchange.orders msg.isSell))
    (nothing : exchange.executions msg = []) :
    ∃ after, Returns (fun fuel => book.processOrderAddMessage fuel msg)
        (after, exchange.placeEvents msg) ∧
      Expects (exchange.place msg) [] (exchange.placeSnapshots msg) after := by
  obtain ⟨after, events, returns, outcome⟩ := follows.valid.processOrderAddMessage_returns pos
    (BookSide.matchPendingLiqAdd_empty (follows.add_eq msg.isSell) msg.quantity msg.price)
  have uncrossed : ∀ {key : P} {level : L3PriceLevel P},
      (book.sides (!msg.isSell)).levels.begin? = some (key, level) →
        ¬ BookSide.Crosses (!msg.isSell) msg.price key :=
    fun first => follows.none_crossed pos nothing first
  have total : book.crossingTotal msg = 0 := by
    rw [SmartOrderBook.crossingTotal, (BookSide.crossingOrders_eq_nil uncrossed).1]
    rfl
  have noEvents : book.crossEvents msg (msg.quantity - 0) = [] := by
    rw [sub_zero, ← follows.events_eq pos.le, nothing]
    rfl
  have unexecuted : exchange.unexecuted msg = msg.quantity := by
    simp [Exchange.unexecuted, nothing]
  have otherEq := outcome.crossed.stops_eq (Or.inr uncrossed)
  obtain ⟨ownEq, eventsEq⟩ := outcome.rests (by omega)
  have unknown : (book.sides msg.isSell).existOrder msg.toOrder.odid = false := by
    rw [Bool.eq_false_iff]
    exact fun known => fresh (follows.existOrder_iff.mp known)
  have own : after.sides msg.isSell = (book.sides msg.isSell).withOrder msg.toOrder := by
    rw [ownEq, noEvents, total, add_zero, Order.fill_zero]
    rfl
  obtain rfl : after =
      book.setSide msg.isSell ((book.sides msg.isSell).withOrder msg.toOrder) := by
    apply SmartOrderBook.ext_sides msg.isSell
    · rw [own, SmartOrderBook.sides_setSide_self]
    · rw [otherEq, SmartOrderBook.sides_setSide_not]
  have unmoved : exchange.executed msg = exchange := by
    rw [Exchange.executed, nothing]
    exact congrArg Exchange.mk (Function.update_eq_self ..)
  have placeEq : exchange.place msg = exchange.setSide msg.isSell
      ((book.sides msg.isSell).withOrder msg.toOrder).restingOrders := by
    rw [Exchange.place, if_neg (by omega), unmoved, unexecuted, sub_self, Order.fill_zero,
      (follows.valid msg.isSell).linked.restingOrders_withOrder unknown, follows.orders_eq]
  have reported : events = exchange.placeEvents msg := by
    rw [eventsEq, noEvents, Exchange.placeEvents, nothing, if_neg (by omega), unexecuted, total,
      sub_zero, sub_zero]
    rfl
  rw [reported] at returns
  have placed := follows.update_side ((book.sides msg.isSell).withOrder msg.toOrder)
    (follows.valid.processOrderAddMessage (Set.mem_singleton 0) pos returns)
    (follows.uncrossed.addOutcome rfl outcome)
    (by rw [BookSide.withOrder, if_neg (by simp [unknown])])
    (by rw [BookSide.withOrder, if_neg (by simp [unknown])])
    (by rw [BookSide.withOrder, if_neg (by simp [unknown])])
  rw [← placeEq] at placed
  refine ⟨_, returns, ?_⟩
  rw [Exchange.placeSnapshots, nothing, if_neg (by omega), List.map_nil, List.nil_append]
  exact placed.awaits_view

/-- A cancel that nothing pending stands against removes its order, whatever price it names. -/
theorem withdraw (follows : Follows exchange book) {isSell : Bool} {id quantity : ℤ} (price : P)
    (pos : 0 < quantity) (rests : id ∈ ids (exchange.orders isSell)) :
    (book.processOrderCancelMessage ⟨.cancel, id, isSell, quantity, price⟩).2 =
        [⟨.cancel, id, isSell, quantity, price⟩] ∧
      Follows (exchange.withdraw isSell id)
        (book.processOrderCancelMessage ⟨.cancel, id, isSell, quantity, price⟩).1 := by
  have nothing := follows.remove_eq isSell
  rw [creditEvents_nil] at nothing
  have cancelled : (book.sides isSell).processOrderCancel id quantity price =
      ((book.sides isSell).removeOrder id, [⟨.cancel, id, isSell, quantity, price⟩]) := by
    have unmatched : (book.sides isSell).matchPendingLiqRemove quantity price =
        (book.sides isSell, 0) := by simp [BookSide.matchPendingLiqRemove, nothing]
    simp [BookSide.processOrderCancel, unmatched, follows.existOrder_iff.mpr rests, pos]
  have handled : book.processOrderCancelMessage ⟨.cancel, id, isSell, quantity, price⟩ =
      (book.setSide isSell ((book.sides isSell).removeOrder id),
        [⟨.cancel, id, isSell, quantity, price⟩]) := by
    simp only [SmartOrderBook.processOrderCancelMessage, cancelled]
  rw [handled]
  have linked := (follows.valid isSell).linked
  have withdrawEq : exchange.withdraw isSell id =
      exchange.setSide isSell ((book.sides isSell).removeOrder id).restingOrders := by
    rw [Exchange.withdraw, linked.restingOrders_removeOrder, follows.orders_eq]
  rw [withdrawEq]
  refine ⟨rfl, follows.update_side _ ?_ ?_ ?_ ?_ ?_⟩
  · refine SmartOrderBook.forall_side isSell ?_ ?_
    · rw [SmartOrderBook.sides_setSide_self]
      exact (follows.valid isSell).removeOrder id
    · rw [SmartOrderBook.sides_setSide_not]
      exact follows.valid (!isSell)
  · refine follows.uncrossed.of_narrows (SmartOrderBook.forall_side isSell ?_ ?_)
    · rw [SmartOrderBook.sides_setSide_self]
      exact linked.removeOrder_narrows id
    · rw [SmartOrderBook.sides_setSide_not]
      exact .of_levels rfl
  · rw [BookSide.removeOrder_frame]
  · exact BookSide.removeOrder_addLedger ..
  · exact BookSide.removeOrder_l2SnapQueue ..

/-- An order that the exchange fills or lets rest: one that is executed in part and then rests
is taken for cancelled when the first of its trades comes late. -/
theorem place (follows : Follows exchange book) (placeable : exchange.Placeable msg) :
    ∃ after, Returns (fun fuel => book.processOrderAddMessage fuel msg)
        (after, exchange.placeEvents msg) ∧
      Expects (exchange.place msg) ((exchange.executions msg).map
        (Execution.event (!msg.isSell))) (exchange.placeSnapshots msg) after := by
  obtain ⟨pos, fresh, filled | nothing⟩ := placeable
  · exact follows.place_filled pos filled
  · rw [nothing]
    exact follows.place_rests pos (fresh msg.isSell) nothing

/-- A replaced order is withdrawn at its old price and placed at the new one. -/
theorem replace (follows : Follows exchange book)
    (rests : msg.id ∈ ids (exchange.orders msg.isSell))
    (placeable : (exchange.withdraw msg.isSell msg.id).Placeable msg) :
    ∃ after, Returns (fun fuel => book.processOrderModifyMessage fuel msg)
        (after, [⟨.modif, msg.id, msg.isSell, msg.quantity, msg.price⟩]) ∧
      Expects ((exchange.withdraw msg.isSell msg.id).place msg)
        (((exchange.withdraw msg.isSell msg.id).executions msg).map
          (Execution.event (!msg.isSell)))
        ((exchange.withdraw msg.isSell msg.id).placeSnapshots msg) after := by
  have present : book.existOrder msg.id = true := by
    have exists_ := follows.existOrder_iff.mpr rests
    cases side : msg.isSell with
    | false => simp [SmartOrderBook.existOrder, side ▸ exists_]
    | true => simp [SmartOrderBook.existOrder, side ▸ exists_]
  obtain ⟨order, found⟩ := follows.valid.getOrder?_of_existOrder present
  have remains := (follows.valid.getOrder?_isOpen found).remaining_pos
  obtain ⟨-, withdrawn⟩ := follows.withdraw msg.price remains rests
  obtain ⟨after, ⟨fuel, added⟩, expects⟩ := withdrawn.place placeable
  refine ⟨after, ⟨fuel, ?_⟩, expects⟩
  have addedNew : (book.processOrderCancelMessage ⟨.cancel, msg.id, msg.isSell,
      order.getRemainingQuantity, msg.price⟩).1.processOrderAddMessage fuel
        ⟨.add, msg.id, msg.isSell, msg.quantity, msg.price⟩ = .ok (after, _) := added
  simp only [SmartOrderBook.processOrderModifyMessage, found, addedNew]
  rfl

/-- An order that members withdraw, at its own price. -/
theorem withdraw_order (follows : Follows exchange book) {order : Order P}
    (rests : order ∈ exchange.orders order.isSell) :
    ∃ after, Returns (fun fuel => book.process fuel (Exchange.Action.withdraw order).message)
        (after, exchange.events (.withdraw order)) ∧
      Follows (exchange.withdraw order.isSell order.odid) after := by
  have remains : 0 < order.getRemainingQuantity :=
    (follows.valid order.isSell).resting_remain order (by rwa [follows.orders_eq])
  obtain ⟨cancelled, withdrawn⟩ := follows.withdraw order.price remains
    (List.mem_map_of_mem (f := Order.odid) rests)
  exact ⟨_, Returns.const (congrArg Except.ok (Prod.ext rfl cancelled)), withdrawn⟩

/-- The message of an action leads the book to the orders of the exchange, and the trades
and snapshots of the action are still to come. -/
theorem action {action : Exchange.Action P} (follows : Follows exchange book)
    (allowed : exchange.Allows action) :
    ∃ after, Returns (fun fuel => book.process fuel action.message)
        (after, exchange.events action) ∧
      ∃ executions : OrderInfoVec P,
        exchange.trades action = executions.map (fun e => ⟨e.quantity, e.price⟩) ∧
          Expects (exchange.act action) executions (exchange.snapshots action) after := by
  cases action with
  | place msg =>
      obtain ⟨after, returns, expects⟩ := follows.place allowed
      refine ⟨after, returns, _, ?_, expects⟩
      rw [List.map_map]
      rfl
  | withdraw order =>
      obtain ⟨after, returns, withdrawn⟩ := follows.withdraw_order allowed
      exact ⟨after, returns, [], rfl, withdrawn.awaits_view⟩
  | replace msg =>
      obtain ⟨after, returns, expects⟩ := follows.replace allowed.1 allowed.2
      refine ⟨after, returns, _, ?_, expects⟩
      rw [List.map_map]
      rfl

end Expects

/-! ### Whole feeds -/

namespace SmartOrderBook

variable [Zero P] {book between final : SmartOrderBook P} {late messages : List (Message P)}
  {events : OrderInfoVec P}

/-- A message in front of a stream. -/
theorem returns_stream_cons {message : Message P} {later : OrderInfoVec P}
    (first : Returns (fun fuel => book.process fuel message) (between, events))
    (rest : Returns (fun fuel => between.processStream fuel messages) (final, later)) :
    Returns (fun fuel => book.processStream fuel (message :: messages))
      (final, events ++ later) := by
  simp only [processStream_cons]
  exact first.bind (process_monotone book message)
    ((processStream_stable between messages).bind fun _ => FuelStable.const _).monotone
    (rest.bind (processStream_stable between messages).monotone
      (FuelStable.const _).monotone (.const rfl))

/-- Silent messages in front of a stream. -/
theorem returns_stream_silent (silent : Run SilentStep book late between)
    (rest : Returns (fun fuel => between.processStream fuel messages) (final, events)) :
    Returns (fun fuel => book.processStream fuel (late ++ messages)) (final, events) := by
  induction late generalizing book with
  | nil =>
      obtain rfl := silent.eq_start
      exact rest
  | cons message late ih =>
      obtain ⟨next, stepped, later⟩ := silent.of_cons
      exact returns_stream_cons stepped (ih later)

end SmartOrderBook

/-- From a book that follows the exchange, a feed leads to a book that follows it. -/
theorem Expects.feed [Zero P] {exchange : Exchange P} {book : SmartOrderBook P}
    {actions : List (Exchange.Action P)} {messages : List (Message P)}
    (fed : Feed exchange actions messages) (follows : Follows exchange book) :
    ∃ final, Returns (fun fuel => book.processStream fuel messages)
        (final, exchange.eventsOf actions) ∧ Follows (exchange.actAll actions) final := by
  induction fed generalizing book with
  | nil => exact ⟨book, Returns.const rfl, follows⟩
  | cons _ allowed interleaves _ ih =>
      obtain ⟨acted, returns, executions, tradesEq, expects⟩ := follows.action allowed
      obtain ⟨settled, silent, settledFollows⟩ := Expects.late interleaves tradesEq expects
      obtain ⟨final, rest, finalFollows⟩ := ih settledFollows
      exact ⟨final, SmartOrderBook.returns_stream_cons returns
        (SmartOrderBook.returns_stream_silent silent rest), finalFollows⟩

theorem Expects.empty : Follows (.empty : Exchange P) .empty where
  valid := SmartOrderBook.valid_empty
  uncrossed := SmartOrderBook.uncrossed_empty
  orders_eq := fun _ => rfl
  remove_eq := fun _ => rfl
  add_eq := fun _ => rfl
  executed := by simp
  harmless := fun _ => .idle (by simp)

end OrderBook
