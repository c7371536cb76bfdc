import OrderBook.ProcessTrade

/-!
# What an observer reads from the events

An observer of one side keeps the orders of each price and follows the `CANCEL`
and `EXEC` events that name one of them: a cancelled order leaves, an executed
one is filled and leaves when nothing remains.  After each such event the observer
has an L2 view, of the prices where something remains.  The maps of levels of the
model are such queues, and the events of one level keep them so.
-/

namespace OrderBook

variable {P : Type}

/-! ### The observer -/

/-- The orders at each price, best price first. -/
abbrev PriceQueues (P : Type) := List (P × List (Order P))

/-- What an event does to the orders at its price. -/
def readEvent (e : OrderInfo P) (orders : List (Order P)) : List (Order P) :=
  match e.event with
  | .cancel => orders.filter fun order => order.odid ≠ e.odid
  | .exec => orders.filterMap fun order =>
      if order.odid = e.odid then
        if order.getRemainingQuantity ≤ e.quantity then none else some (order.fill e.quantity)
      else some order
  | .add | .modif => orders

theorem readEvent_cancel {order : Order P} {others : List (Order P)} {isSell : Bool}
    {quantity : ℤ} {price : P} (nodup : (ids (order :: others)).Nodup) :
    readEvent ⟨.cancel, order.odid, isSell, quantity, price⟩ (order :: others) = others := by
  rw [ids, List.map_cons, List.nodup_cons] at nodup
  simp only [readEvent]
  rw [List.filter_cons_of_neg (by simp), List.filter_eq_self]
  intro other mem
  have different : other.odid ≠ order.odid := fun same => nodup.1 (same ▸ List.mem_map_of_mem mem)
  simpa using different

theorem readEvent_exec {order : Order P} {others : List (Order P)} {isSell : Bool}
    {quantity : ℤ} {price : P} (nodup : (ids (order :: others)).Nodup) :
    readEvent ⟨.exec, order.odid, isSell, quantity, price⟩ (order :: others) =
      if order.getRemainingQuantity ≤ quantity then others
      else order.fill quantity :: others := by
  rw [ids, List.map_cons, List.nodup_cons] at nodup
  have unchanged : others.filterMap (fun other => if other.odid = order.odid then
      if other.getRemainingQuantity ≤ quantity then none else some (other.fill quantity)
      else some other) = others := by
    refine (List.filterMap_congr ?_).trans List.filterMap_some
    intro other mem
    have different : other.odid ≠ order.odid :=
      fun same => nodup.1 (same ▸ List.mem_map_of_mem mem)
    rw [if_neg different]
  simp only [readEvent, List.filterMap_cons, unchanged, if_true]
  split <;> simp_all

variable [LinearOrder P]

/-- A price without orders is dropped. -/
def applyEvent (queues : PriceQueues P) (e : OrderInfo P) : PriceQueues P :=
  queues.filterMap fun queue =>
    if queue.1 = e.price then
      if readEvent e queue.2 = [] then none else some (queue.1, readEvent e queue.2)
    else some queue

/-- A `CANCEL` or `EXEC` event of an order that rests at its price. -/
def NamesResting (queues : PriceQueues P) (e : OrderInfo P) : Prop :=
  (e.event = .cancel ∨ e.event = .exec) ∧
    ∃ queue ∈ queues, queue.1 = e.price ∧ e.odid ∈ ids queue.2

instance (queues : PriceQueues P) (e : OrderInfo P) : Decidable (NamesResting queues e) :=
  inferInstanceAs (Decidable (_ ∧ _))

/-- The L2 view of an observer: only positive quantities are shown. -/
def viewOfQueues (queues : PriceQueues P) : L2SnapshotSide P :=
  (queues.map fun queue => ⟨queue.1, totalRemaining queue.2⟩).filter fun level =>
    0 < level.quantity

/-- The queues after a list of events. -/
def afterEvents : PriceQueues P → OrderInfoVec P → PriceQueues P
  | queues, [] => queues
  | queues, e :: events =>
      afterEvents (if NamesResting queues e then applyEvent queues e else queues) events

/-- The views along a list of events, one for each event that names a resting order. -/
def eventViews : PriceQueues P → OrderInfoVec P → List (L2SnapshotSide P)
  | _, [] => []
  | queues, e :: events =>
      if NamesResting queues e then
        viewOfQueues (applyEvent queues e) :: eventViews (applyEvent queues e) events
      else eventViews queues events

theorem afterEvents_append (queues : PriceQueues P) (first second : OrderInfoVec P) :
    afterEvents queues (first ++ second) = afterEvents (afterEvents queues first) second := by
  induction first generalizing queues with
  | nil => rfl
  | cons e first ih => exact ih _

theorem eventViews_append (queues : PriceQueues P) (first second : OrderInfoVec P) :
    eventViews queues (first ++ second) =
      eventViews queues first ++ eventViews (afterEvents queues first) second := by
  induction first generalizing queues with
  | nil => rfl
  | cons e first ih =>
      rw [List.cons_append, eventViews, eventViews, afterEvents]
      split
      · rw [ih, List.cons_append]
      · rw [ih]

/-- Without a view nothing has happened. -/
theorem afterEvents_of_unseen {queues : PriceQueues P} {events : OrderInfoVec P}
    (unseen : eventViews queues events = []) : afterEvents queues events = queues := by
  induction events with
  | nil => rfl
  | cons e events ih =>
      unfold eventViews at unseen
      split at unseen
      · cases unseen
      · next unnamed =>
          rw [afterEvents, if_neg unnamed]
          exact ih unseen

/-- The last view is the one of the queues at the end. -/
theorem eventViews_getLast? (queues : PriceQueues P) (events : OrderInfoVec P) :
    ∀ view ∈ (eventViews queues events).getLast?,
      view = viewOfQueues (afterEvents queues events) := by
  induction events generalizing queues with
  | nil =>
      intro view last
      cases last
  | cons e events ih =>
      intro view last
      unfold eventViews at last
      unfold afterEvents
      split at last
      · next named =>
          rw [if_pos named]
          cases later : eventViews (applyEvent queues e) events with
          | nil =>
              rw [later] at last
              cases last
              rw [afterEvents_of_unseen later]
              rfl
          | cons first others =>
              rw [later, List.getLast?_cons_cons, ← later] at last
              exact ih _ view last
      · next named =>
          rw [if_neg named]
          exact ih _ view last

/-- No view shows a price with nothing. -/
theorem pos_of_mem_eventViews {queues : PriceQueues P} {events : OrderInfoVec P}
    {view : L2SnapshotSide P} (mem : view ∈ eventViews queues events) :
    ∀ level ∈ view, 0 < level.quantity := by
  induction events generalizing queues with
  | nil => cases mem
  | cons e events ih =>
      unfold eventViews at mem
      split at mem
      · rcases List.mem_cons.mp mem with rfl | later
        · intro level levelMem
          exact of_decide_eq_true (List.mem_filter.mp levelMem).2
        · exact ih later
      · exact ih mem

/-! ### The levels of a side as queues -/

section Levels

variable {isSell : Bool} {levels : SortedMap P (L3PriceLevel P) (PriceComparator isSell)}
  {key : P} {level : L3PriceLevel P}

/-- The orders of a map of levels. -/
def queuesOf (levels : SortedMap P (L3PriceLevel P) (PriceComparator isSell)) : PriceQueues P :=
  levels.entries.map fun entry => (entry.1, entry.2.orders)

/-- Every level has the quantity of its orders, which all remain. -/
structure Exact (levels : SortedMap P (L3PriceLevel P) (PriceComparator isSell)) : Prop where
  fits : ∀ {key : P} {level : L3PriceLevel P}, levels.find? key = some level →
    level.Linked isSell key
  counted : ∀ {key : P} {level : L3PriceLevel P}, levels.find? key = some level →
    level.quantity = totalRemaining level.orders
  remain : ∀ {key : P} {level : L3PriceLevel P}, levels.find? key = some level →
    AllRemain level.orders

theorem BookSide.Valid.exact {side : BookSide P isSell} (valid : side.Valid {0}) :
    Exact side.levels where
  fits found := valid.linked.level found
  counted found := (sub_eq_zero.mp (valid.counted found)).symm
  remain {key} _ found := by
    have remain := valid.allRemain key
    rwa [BookSide.ordersAt_of_find? found] at remain

theorem Exact.found_eq (exact_ : Exact levels) (found : levels.find? key = some level) :
    levels.find? key = some (.ofOrders key (totalRemaining level.orders) level.orders) := by
  rw [found, ← exact_.counted found, ← (exact_.fits found).eq_ofOrders]

/-- The level under `key` with some of its orders, or parts of them, left. -/
theorem Exact.put (exact_ : Exact levels) (found : levels.find? key = some level)
    {orders : List (Order P)} (remain : AllRemain orders)
    (from_ : ∀ order ∈ orders, ∃ old ∈ level.orders, order.price = old.price ∧
      order.isSell = old.isSell) (nodup : (ids orders).Nodup) :
    Exact (BookSide.putOrders levels key (totalRemaining orders) orders) := by
  have fits := exact_.fits found
  have cases_ : ∀ {other : P} {after : L3PriceLevel P},
      (BookSide.putOrders levels key (totalRemaining orders) orders).find? other = some after →
        other = key ∧ orders ≠ [] ∧ after = .ofOrders key (totalRemaining orders) orders ∨
          levels.find? other = some after := by
    intro other after afterFound
    rw [BookSide.find?_putOrders] at afterFound
    split at afterFound
    · next same =>
        split at afterFound
        · cases afterFound
        · next some => exact Or.inl ⟨same, some, (Option.some.inj afterFound).symm⟩
    · exact Or.inr afterFound
  refine ⟨?_, ?_, ?_⟩
  · intro other after afterFound
    rcases cases_ afterFound with ⟨rfl, some, rfl⟩ | old
    · refine ⟨rfl, rfl, some, ?_, ?_, nodup⟩
      · intro order mem
        obtain ⟨old, oldMem, priceEq, -⟩ := from_ order mem
        rw [priceEq, fits.order_price old oldMem]
      · intro order mem
        obtain ⟨old, oldMem, -, isSellEq⟩ := from_ order mem
        rw [isSellEq, fits.order_isSell old oldMem]
    · exact exact_.fits old
  · intro other after afterFound
    rcases cases_ afterFound with ⟨rfl, -, rfl⟩ | old
    · rfl
    · exact exact_.counted old
  · intro other after afterFound
    rcases cases_ afterFound with ⟨rfl, -, rfl⟩ | old
    · exact remain
    · exact exact_.remain old

/-- The observer of exact levels sees their quantities. -/
theorem Exact.viewOfQueues_eq (exact_ : Exact levels) :
    viewOfQueues (queuesOf levels) = viewOf levels := by
  have viewEq : (queuesOf levels).map (fun queue =>
      (⟨queue.1, totalRemaining queue.2⟩ : L2PriceLevel P)) = viewOf levels := by
    rw [queuesOf, viewOf, List.map_map]
    apply List.map_congr_left
    intro entry mem
    have counted := exact_.counted (SortedMap.find?_eq_some_iff.mpr mem)
    simp [counted]
  rw [viewOfQueues, viewEq, List.filter_eq_self]
  intro l2Level mem
  obtain ⟨entry, entryMem, rfl⟩ := List.mem_map.mp mem
  have found := SortedMap.find?_eq_some_iff.mpr entryMem
  have positive := QueueFill.Positive.total_pos (exact_.remain found) (exact_.fits found).nonempty
  rw [decide_eq_true_eq]
  simp only
  rw [exact_.counted found]
  exact positive

theorem namesResting_queuesOf {e : OrderInfo P} :
    NamesResting (queuesOf levels) e ↔ (e.event = .cancel ∨ e.event = .exec) ∧
      ∃ level, levels.find? e.price = some level ∧ e.odid ∈ ids level.orders := by
  apply and_congr_right
  intro _
  constructor
  · rintro ⟨queue, mem, priceEq, named⟩
    obtain ⟨entry, entryMem, rfl⟩ := List.mem_map.mp mem
    exact ⟨entry.2, priceEq ▸ SortedMap.find?_eq_some_iff.mpr entryMem, named⟩
  · rintro ⟨level, found, named⟩
    exact ⟨(e.price, level.orders), List.mem_map.mpr
      ⟨_, SortedMap.find?_eq_some_iff.mp found, rfl⟩, rfl, named⟩

/-- An event replaces the orders of its level. -/
theorem applyEvent_queuesOf {e : OrderInfo P} (found : levels.find? e.price = some level)
    (quantity : ℤ) :
    applyEvent (queuesOf levels) e =
      queuesOf (BookSide.putOrders levels e.price quantity (readEvent e level.orders)) := by
  have atPrice : ∀ entry ∈ levels.entries, entry.1 = e.price → entry.2 = level := by
    intro entry mem same
    have entryFound := SortedMap.find?_eq_some_iff.mpr mem
    rw [same, found] at entryFound
    exact (Option.some.inj entryFound).symm
  rw [applyEvent, queuesOf, List.filterMap_map, BookSide.putOrders]
  by_cases none : readEvent e level.orders = []
  · rw [if_pos none, queuesOf, SortedMap.erase, ← List.filterMap_eq_map, List.filterMap_filter]
    apply List.filterMap_congr
    intro entry mem
    by_cases same : entry.1 = e.price
    · simp [same, atPrice entry mem same, none]
    · simp [same]
  · rw [if_neg none, queuesOf, SortedMap.entries_insert_of_find? found, List.map_map,
      ← List.filterMap_eq_map]
    apply List.filterMap_congr
    intro entry mem
    by_cases same : entry.1 = e.price
    · simp [same, atPrice entry mem same, none]
    · simp [same]

/-- One event of a resting order, and what it leaves at the price. -/
theorem Exact.event {e : OrderInfo P} (found : levels.find? e.price = some level)
    (kind : e.event = .cancel ∨ e.event = .exec) (named : e.odid ∈ ids level.orders)
    {left : List (Order P)} (readEq : readEvent e level.orders = left)
    (after : Exact (BookSide.putOrders levels e.price (totalRemaining left) left))
    (events : OrderInfoVec P) :
    eventViews (queuesOf levels) (e :: events) =
        viewOf (BookSide.putOrders levels e.price (totalRemaining left) left) ::
          eventViews (queuesOf (BookSide.putOrders levels e.price (totalRemaining left) left))
            events ∧
      afterEvents (queuesOf levels) (e :: events) =
        afterEvents (queuesOf (BookSide.putOrders levels e.price (totalRemaining left) left))
          events := by
  have names : NamesResting (queuesOf levels) e :=
    namesResting_queuesOf.mpr ⟨kind, level, found, named⟩
  have applied := applyEvent_queuesOf found (totalRemaining left)
  rw [readEq] at applied
  rw [eventViews, if_pos names, afterEvents, if_pos names, applied, after.viewOfQueues_eq]
  exact ⟨rfl, rfl⟩

/-- The observer of the cancels of orders at the front of a level. -/
theorem Exact.cancel (exact_ : Exact levels) {gone rest : List (Order P)}
    (found : levels.find? key =
      some (.ofOrders key (totalRemaining (gone ++ rest)) (gone ++ rest))) :
    eventViews (queuesOf levels) (cancelEvents isSell gone) =
        removalViews levels key rest (totalRemaining (gone ++ rest)) gone ∧
      afterEvents (queuesOf levels) (cancelEvents isSell gone) =
        queuesOf (BookSide.putOrders levels key (totalRemaining rest) rest) := by
  induction gone generalizing levels with
  | nil =>
      have nonempty : rest ≠ [] := (exact_.fits found).nonempty
      refine ⟨rfl, ?_⟩
      rw [BookSide.putOrders, if_neg nonempty]
      exact congrArg queuesOf (SortedMap.insert_find?_self found).symm
  | cons order gone ih =>
      have fits := exact_.fits found
      have remain := exact_.remain found
      have nodup := fits.nodup
      simp only [List.cons_append, L3PriceLevel.ofOrders_orders] at found fits remain nodup
      have priceEq : order.price = key := fits.order_price order List.mem_cons_self
      subst priceEq
      have after : Exact (BookSide.putOrders levels order.price (totalRemaining (gone ++ rest))
          (gone ++ rest)) :=
        exact_.put found remain.tail
          (fun other mem => ⟨other, List.mem_cons_of_mem _ mem, rfl, rfl⟩)
          (List.nodup_cons.mp nodup).2
      obtain ⟨viewsEq, afterEq⟩ := Exact.event
        (e := ⟨.cancel, order.odid, isSell, order.quantity, order.price⟩) found (Or.inl rfl)
        List.mem_cons_self (readEvent_cancel nodup) after (cancelEvents isSell gone)
      have quantityEq : totalRemaining (order :: (gone ++ rest)) - order.getRemainingQuantity =
          totalRemaining (gone ++ rest) := by
        rw [totalRemaining_cons]
        omega
      rw [List.cons_append, removalViews, quantityEq, cancelEvents, List.map_cons]
      apply (and_congr (Eq.congr_left viewsEq) (Eq.congr_left afterEq)).mpr
      by_cases last : gone ++ rest = []
      · obtain ⟨rfl, rfl⟩ := List.append_eq_nil_iff.mp last
        exact ⟨rfl, rfl⟩
      · have foundAfter : (BookSide.putOrders levels order.price
            (totalRemaining (gone ++ rest)) (gone ++ rest)).find? order.price =
              some (.ofOrders order.price (totalRemaining (gone ++ rest)) (gone ++ rest)) := by
          rw [BookSide.find?_putOrders, if_pos rfl, if_neg last]
        obtain ⟨laterViews, laterAfter⟩ := ih after foundAfter
        rw [laterViews, laterAfter, removalViews_putOrders, BookSide.putOrders_putOrders]
        exact ⟨rfl, rfl⟩

/-- What the observer sees of the fills of a level: one view for each, and as long as the
level is not used up, the saved ones. -/
structure ExecTraced (levels : SortedMap P (L3PriceLevel P) (PriceComparator isSell)) (key : P)
    (qty : ℤ) (orders : List (Order P)) : Prop where
  length_eq : (eventViews (queuesOf levels) (execEvents isSell (fills qty orders))).length =
    (fills qty orders).length
  views_eq : qty < totalRemaining orders →
    eventViews (queuesOf levels) (execEvents isSell (fills qty orders)) =
      fillViews (viewOf levels) key (totalRemaining orders) (fills qty orders)
  after_eq : afterEvents (queuesOf levels) (execEvents isSell (fills qty orders)) =
    queuesOf (BookSide.putOrders levels key (totalRemaining (fillFront qty orders))
      (fillFront qty orders))

/-- The first order is used up, and the others are traced in the level without it. -/
theorem Exact.exec_usedUp (exact_ : Exact levels) {order : Order P} {orders : List (Order P)}
    {qty : ℤ} (found : levels.find? order.price =
      some (.ofOrders order.price (totalRemaining (order :: orders)) (order :: orders)))
    (covers : order.getRemainingQuantity ≤ qty)
    (later : orders ≠ [] →
      Exact (BookSide.putOrders levels order.price (totalRemaining orders) orders) →
      ExecTraced (BookSide.putOrders levels order.price (totalRemaining orders) orders)
        order.price (qty - order.getRemainingQuantity) orders) :
    ExecTraced levels order.price qty (order :: orders) := by
  have remain : AllRemain (order :: orders) := exact_.remain found
  have nodup : (ids (order :: orders)).Nodup := (exact_.fits found).nodup
  have orderPos := remain.head
  have readEq : readEvent ⟨.exec, order.odid, isSell, order.getRemainingQuantity, order.price⟩
      (order :: orders) = _ := readEvent_exec nodup
  rw [if_pos le_rfl] at readEq
  have after : Exact (BookSide.putOrders levels order.price (totalRemaining orders) orders) :=
    exact_.put found remain.tail
      (fun other mem => ⟨other, List.mem_cons_of_mem _ mem, rfl, rfl⟩) (List.nodup_cons.mp nodup).2
  obtain ⟨viewsEq, afterEq⟩ := Exact.event
    (e := ⟨.exec, order.odid, isSell, order.getRemainingQuantity, order.price⟩) found
    (Or.inr rfl) List.mem_cons_self readEq after
    (execEvents isSell (fills (qty - order.getRemainingQuantity) orders))
  have fillsEq : fills qty (order :: orders) = (order, order.getRemainingQuantity) ::
      fills (qty - order.getRemainingQuantity) orders := by
    rw [fills_cons order orders (by omega), min_eq_right covers]
  have leftEq : fillFront qty (order :: orders) =
      fillFront (qty - order.getRemainingQuantity) orders := by
    rw [fillFront, QueueFill.remaining, if_pos covers]
  by_cases last : orders = []
  · subst last
    refine ⟨?_, ?_, ?_⟩
    · rw [fillsEq]
      exact (congrArg List.length viewsEq).trans rfl
    · intro short
      rw [totalRemaining_cons] at short
      exact absurd (short.trans_le (by simpa using covers)) (lt_irrefl qty)
    · rw [fillsEq, leftEq]
      exact afterEq
  · obtain ⟨laterLength, laterViews, laterAfter⟩ := later last after
    have leftOf : totalRemaining (order :: orders) - order.getRemainingQuantity =
        totalRemaining orders := by
      rw [totalRemaining_cons]
      omega
    refine ⟨?_, ?_, ?_⟩
    · rw [fillsEq]
      apply (congrArg List.length viewsEq).trans
      rw [List.length_cons, laterLength, List.length_cons]
    · intro short
      rw [totalRemaining_cons] at short
      rw [fillsEq]
      apply viewsEq.trans
      rw [laterViews (by omega), fillViews, leftOf, viewOf_putOrders found last,
        fillViews_viewWith]
    · rw [fillsEq, leftEq]
      apply afterEq.trans
      rw [laterAfter, BookSide.putOrders_putOrders]

/-- The fill ends inside the first order. -/
theorem Exact.exec_short (exact_ : Exact levels) {order : Order P} {orders : List (Order P)}
    {qty : ℤ} (found : levels.find? order.price =
      some (.ofOrders order.price (totalRemaining (order :: orders)) (order :: orders)))
    (pos : 0 < qty) (short : qty < order.getRemainingQuantity) :
    ExecTraced levels order.price qty (order :: orders) := by
  have remain : AllRemain (order :: orders) := exact_.remain found
  have nodup : (ids (order :: orders)).Nodup := (exact_.fits found).nodup
  have readEq : readEvent ⟨.exec, order.odid, isSell, qty, order.price⟩ (order :: orders) = _ :=
    readEvent_exec nodup
  rw [if_neg short.not_ge] at readEq
  have partRemain : AllRemain (order.fill qty :: orders) := by
    intro other mem
    rcases List.mem_cons.mp mem with rfl | mem
    · rw [Order.remaining_fill]
      omega
    · exact remain other (List.mem_cons_of_mem _ mem)
  have after : Exact (BookSide.putOrders levels order.price
      (totalRemaining (order.fill qty :: orders)) (order.fill qty :: orders)) := by
    refine exact_.put found partRemain ?_ nodup
    intro other mem
    rcases List.mem_cons.mp mem with rfl | mem
    · exact ⟨order, List.mem_cons_self, rfl, rfl⟩
    · exact ⟨other, List.mem_cons_of_mem _ mem, rfl, rfl⟩
  obtain ⟨viewsEq, afterEq⟩ := Exact.event
    (e := ⟨.exec, order.odid, isSell, qty, order.price⟩) found (Or.inr rfl)
    List.mem_cons_self readEq after []
  have fillsEq : fills qty (order :: orders) = [(order, qty)] := by
    rw [fills_cons order orders pos.ne', min_eq_left short.le, sub_self, fills_zero]
  have leftEq : fillFront qty (order :: orders) = order.fill qty :: orders := by
    rw [fillFront, QueueFill.remaining, if_neg short.not_ge]
  refine ⟨?_, ?_, ?_⟩
  · rw [fillsEq]
    exact (congrArg List.length viewsEq).trans rfl
  · intro _
    rw [fillsEq]
    apply viewsEq.trans
    have quantityEq : totalRemaining (order.fill qty :: orders) =
        totalRemaining (order :: orders) - qty := by
      rw [totalRemaining_cons, totalRemaining_cons, Order.remaining_fill]
      omega
    rw [quantityEq, viewOf_putOrders found (List.cons_ne_nil _ _)]
    rfl
  · rw [fillsEq, leftEq]
    exact afterEq

theorem Exact.exec (exact_ : Exact levels) {orders : List (Order P)} {qty : ℤ}
    (nonneg : 0 ≤ qty)
    (found : levels.find? key = some (.ofOrders key (totalRemaining orders) orders)) :
    ExecTraced levels key qty orders := by
  induction orders generalizing levels qty with
  | nil => exact ((exact_.fits found).nonempty rfl).elim
  | cons order orders ih =>
      have remain : AllRemain (order :: orders) := exact_.remain found
      have priceEq : order.price = key := (exact_.fits found).order_price order List.mem_cons_self
      subst priceEq
      by_cases none : qty = 0
      · subst none
        refine ⟨by rw [fills_zero]; rfl, fun _ => by rw [fills_zero]; rfl, ?_⟩
        rw [fills_zero, fillFront_zero remain, BookSide.putOrders, if_neg (List.cons_ne_nil _ _)]
        exact congrArg queuesOf (SortedMap.insert_find?_self found).symm
      · by_cases covers : order.getRemainingQuantity ≤ qty
        · refine exact_.exec_usedUp found covers fun others after => ih after (by omega) ?_
          rw [BookSide.find?_putOrders, if_pos rfl, if_neg others]
        · exact exact_.exec_short found (by omega) (by omega)

/-- The observer of the cancels of whole levels. -/
theorem Exact.cancelLevels (exact_ : Exact levels) {gone : List (P × L3PriceLevel P)}
    (found : ∀ entry ∈ gone, levels.find? entry.1 = some entry.2)
    (distinct : (gone.map Prod.fst).Nodup) :
    eventViews (queuesOf levels)
        (cancelEvents isSell (gone.flatMap fun entry => entry.2.orders)) =
          cancelViews levels gone ∧
      afterEvents (queuesOf levels)
        (cancelEvents isSell (gone.flatMap fun entry => entry.2.orders)) =
          queuesOf ((gone.map Prod.fst).foldl SortedMap.erase levels) := by
  induction gone generalizing levels with
  | nil => exact ⟨rfl, rfl⟩
  | cons entry gone ih =>
      obtain ⟨key, level⟩ := entry
      have here := found (key, level) List.mem_cons_self
      rw [List.map_cons, List.nodup_cons] at distinct
      have atKey : levels.find? key = some (.ofOrders key (totalRemaining (level.orders ++ []))
          (level.orders ++ [])) := by
        simpa using exact_.found_eq here
      obtain ⟨viewsEq, afterEq⟩ := exact_.cancel atKey
      have erased : BookSide.putOrders levels key (totalRemaining ([] : List (Order P))) [] =
          levels.erase key := rfl
      have exactAfter : Exact (levels.erase key) := by
        rw [← erased]
        exact exact_.put here (fun _ mem => (List.not_mem_nil mem).elim)
          (fun _ mem => (List.not_mem_nil mem).elim) List.nodup_nil
      have laterFound : ∀ later ∈ gone, (levels.erase key).find? later.1 = some later.2 := by
        intro later mem
        rw [SortedMap.find?_erase, if_neg]
        · exact found later (List.mem_cons_of_mem _ mem)
        · intro same
          exact distinct.1 (List.mem_map.mpr ⟨later, mem, same⟩)
      obtain ⟨laterViews, laterAfter⟩ := ih exactAfter laterFound distinct.2
      have splitEvents : cancelEvents isSell
          (((key, level) :: gone).flatMap fun entry => entry.2.orders) =
            cancelEvents isSell level.orders ++
              cancelEvents isSell (gone.flatMap fun entry => entry.2.orders) := by
        simp [cancelEvents]
      rw [erased] at afterEq
      rw [splitEvents, eventViews_append, afterEvents_append, viewsEq, afterEq, laterViews,
        laterAfter, cancelViews, List.append_nil, ← exact_.counted here]
      exact ⟨rfl, rfl⟩

end Levels

end OrderBook
