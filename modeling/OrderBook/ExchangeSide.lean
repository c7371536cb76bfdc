import OrderBook.Exchange
import OrderBook.ExpectedSnapshots
import OrderBook.PriceTimePriority
import OrderBook.Reconcile

/-!
# One side of the book and of the exchange

What an update does to the resting orders of a side, as the exchange lists them, and which
snapshots of the exchange a side takes without a change.  It takes the views that it has
saved, in their order, and its own view when it has saved none.

A snapshot can also find the side blocked.  The view that the book saves when the last
order of a level is executed shows that level with nothing on it, the exchange never sends
such a view, and the side waits for it from then on.  Then no snapshot of the exchange does
harm, for the side passes over every one of them.
-/

namespace OrderBook

variable {P : Type} [LinearOrder P]

namespace BookSide

variable {isSell : Bool} {side next : BookSide P isSell}

theorem Valid.levelsOf_restingOrders (valid : side.Valid {0}) :
    levelsOf side.restingOrders = side.l2View := by
  refine levelsOf_flatMap isSell ?_ side.levels.keys_ne
  intro entry mem
  have found := SortedMap.find?_eq_some_iff.mpr mem
  exact ⟨valid.linked.level found, (sub_eq_zero.mp (valid.counted found)).symm⟩

/-! ### Orders of a side after an update -/

/-- The orders at the prices that a test admits. -/
theorem Linked.filter_restingOrders (linked : side.Linked) (keep : P → Prop)
    [DecidablePred keep] :
    (side.restingOrders.filter fun order => keep order.price) =
      (side.levels.entries.filter fun entry => keep entry.1).flatMap
        fun entry => entry.2.orders := by
  have fits : ∀ entry ∈ side.levels.entries, ∀ order ∈ entry.2.orders, order.price = entry.1 :=
    fun entry mem => (linked.level (SortedMap.find?_eq_some_iff.mpr mem)).order_price
  rw [restingOrders]
  generalize side.levels.entries = entries at fits ⊢
  induction entries with
  | nil => rfl
  | cons entry entries ih =>
      obtain ⟨first, others⟩ := List.forall_mem_cons.mp fits
      rw [List.flatMap_cons, List.filter_append, ih others]
      by_cases kept : keep entry.1
      · rw [List.filter_cons_of_pos (by simpa using kept), List.flatMap_cons,
          List.filter_eq_self.mpr]
        intro order mem
        simpa [first order mem] using kept
      · rw [List.filter_cons_of_neg (by simpa using kept), List.filter_eq_nil_iff.mpr,
          List.nil_append]
        intro order mem
        simpa [first order mem] using kept

/-- New orders at a price stand between the better and the worse ones. -/
theorem Linked.restingOrders_put (linked : side.Linked) {key : P} {quantity : ℤ}
    {orders : List (Order P)}
    (levelsEq : next.levels = putOrders side.levels key quantity orders) :
    next.restingOrders =
      (side.restingOrders.filter fun order => PriceComparator isSell order.price key) ++ orders ++
        side.restingOrders.filter fun order => PriceComparator isSell key order.price := by
  rw [linked.filter_restingOrders fun price => PriceComparator isSell price key,
    linked.filter_restingOrders fun price => PriceComparator isSell key price, restingOrders,
    levelsEq, putOrders]
  split
  · next none =>
      have split := (side.levels.erase key).entries_split
        (fun price => PriceComparator isSell price key) fun earlier => trans_of _ earlier
      rw [none, List.append_nil, ← List.flatMap_append, split]
      congr 2
      · rw [SortedMap.erase, List.filter_filter]
        apply List.filter_congr
        intro entry _
        by_cases earlier : PriceComparator isSell entry.1 key
        · simp [earlier, ne_of_better earlier]
        · simp [earlier]
      · rw [SortedMap.erase, List.filter_filter]
        apply List.filter_congr
        intro entry _
        rcases trichotomous_of (PriceComparator isSell) entry.1 key with earlier | same | later
        · simp [earlier, asymm_of (PriceComparator isSell) earlier]
        · simp [same, irrefl_of (PriceComparator isSell) key]
        · simp [later, asymm_of (PriceComparator isSell) later, (ne_of_better later).symm]
  · rw [SortedMap.insert, List.flatMap_append, List.flatMap_cons, List.append_assoc]
    rfl

/-- The orders at a price stand between better and worse ones, and so do those that are put
in their place. -/
theorem Linked.exists_around (linked : side.Linked) (key : P) :
    ∃ ahead behind, (∀ order ∈ ahead, PriceComparator isSell order.price key) ∧
      (∀ order ∈ behind, PriceComparator isSell key order.price) ∧
      side.restingOrders = ahead ++ side.ordersAt key ++ behind ∧
      ∀ (next : BookSide P isSell) (quantity : ℤ) (orders : List (Order P)),
        next.levels = putOrders side.levels key quantity orders →
          next.restingOrders = ahead ++ orders ++ behind := by
  have unchanged : side.levels =
      putOrders side.levels key (side.quantityAt key) (side.ordersAt key) := by
    cases found : side.levels.find? key with
    | none =>
        rw [ordersAt_of_none found, putOrders, if_pos rfl, SortedMap.erase_of_find?_none found]
    | some level =>
        have nonempty : side.ordersAt key ≠ [] := by
          rw [ordersAt_of_find? found]
          exact (linked.level found).nonempty
        exact (putOrders_self (find?_ofOrders linked found) nonempty).symm
  refine ⟨_, _, fun order mem => ?_, fun order mem => ?_, linked.restingOrders_put unchanged,
    fun next quantity orders levelsEq => linked.restingOrders_put levelsEq⟩
  · simpa using (List.mem_filter.mp mem).2
  · simpa using (List.mem_filter.mp mem).2

theorem Linked.restingOrders_withOrder (linked : side.Linked) {order : Order P}
    (fresh : side.existOrder order.odid = false) :
    (side.withOrder order).restingOrders = enqueue isSell order side.restingOrders := by
  obtain ⟨ahead, behind, better, worse, around, put⟩ := linked.exists_around order.price
  rw [put (side.withOrder order) _ _ (by rw [withOrder, if_neg (by simp [fresh])]), around, enqueue]
  have aheadKept : ∀ other ∈ ahead ++ side.ordersAt order.price,
      ¬ PriceComparator isSell order.price other.price := by
    intro other mem
    rcases List.mem_append.mp mem with inAhead | here
    · exact asymm_of (PriceComparator isSell) (better other inAhead)
    · rw [linked.order_price here]
      exact irrefl_of (PriceComparator isSell) order.price
  have front : ((ahead ++ side.ordersAt order.price ++ behind).filter
      fun other => ¬ PriceComparator isSell order.price other.price) =
        ahead ++ side.ordersAt order.price := by
    rw [List.filter_append, List.filter_eq_self.mpr, List.filter_eq_nil_iff.mpr, List.append_nil]
    · exact fun other mem => by simpa using worse other mem
    · exact fun other mem => decide_eq_true (aheadKept other mem)
  have back : ((ahead ++ side.ordersAt order.price ++ behind).filter
      fun other => PriceComparator isSell order.price other.price) = behind := by
    rw [List.filter_append, List.filter_eq_nil_iff.mpr, List.filter_eq_self.mpr, List.nil_append]
    · exact fun other mem => decide_eq_true (worse other mem)
    · exact fun other mem => by simpa using aheadKept other mem
  rw [front, back]
  simp only [List.append_assoc, List.singleton_append]

theorem removeOrder_l2SnapQueue [Zero P] (side : BookSide P isSell) (id : ℤ) :
    (side.removeOrder id).l2SnapQueue = side.l2SnapQueue := by
  unfold removeOrder
  split <;> rfl

theorem Linked.restingOrders_removeOrder [Zero P] (linked : side.Linked) (id : ℤ) :
    (side.removeOrder id).restingOrders =
      side.restingOrders.filter fun order => order.odid ≠ id := by
  cases exists_ : side.existOrder id with
  | false =>
      rw [removeOrder_of_not_exist exists_, List.filter_eq_self.mpr]
      intro order mem
      obtain ⟨key, rests⟩ := mem_restingOrders.mp mem
      have different : order.odid ≠ id := by
        rintro rfl
        rw [linked.existOrder_iff.mpr ⟨key, List.mem_map_of_mem rests⟩] at exists_
        cases exists_
      simpa using different
  | true =>
      obtain ⟨key, mem⟩ := linked.existOrder_iff.mp exists_
      obtain ⟨order, orderMem, rfl⟩ := List.mem_map.mp mem
      obtain ⟨front, back, split⟩ := List.append_of_mem orderMem
      obtain ⟨quantity, found⟩ := linked.exists_level orderMem
      obtain ⟨ahead, behind, -, -, around, put⟩ := linked.exists_around key
      have nodup := linked.restingIds_nodup
      rw [split] at found around
      rw [around] at nodup ⊢
      rw [put _ _ _ (congrArg BookSide.levels (linked.removeOrder_eq found))]
      have shape : ahead ++ (front ++ order :: back) ++ behind =
          (ahead ++ front) ++ order :: (back ++ behind) := by simp
      rw [shape] at nodup ⊢
      rw [ids, List.map_append, List.map_cons, List.nodup_middle, List.nodup_cons,
        List.mem_append, not_or] at nodup
      obtain ⟨⟨notAhead, notBehind⟩, -⟩ := nodup
      rw [List.filter_append, List.filter_cons_of_neg (by simp), List.filter_eq_self.mpr,
        List.filter_eq_self.mpr]
      · simp
      · intro other otherMem
        exact decide_eq_true fun same => notBehind (same ▸ List.mem_map_of_mem otherMem)
      · intro other otherMem
        exact decide_eq_true fun same => notAhead (same ▸ List.mem_map_of_mem otherMem)

end BookSide

/-! ### Snapshots that change nothing -/

/-- Snapshots that leave a side with this view and this queue alone: each one is expected, or
shows the view to a side that expects nothing, or comes while the side waits for a
snapshot with an empty level, which no exchange sends. -/
inductive Harmless (view : L2SnapshotSide P) :
    List (L2SnapshotSide P) → List (L2SnapshotSide P) → Prop
  | idle {snapshots : List (L2SnapshotSide P)} :
      (∀ snapshot ∈ snapshots, snapshot = view) → Harmless view [] snapshots
  | expected {front : L2SnapshotSide P} {queue snapshots : List (L2SnapshotSide P)} :
      Harmless view queue snapshots → Harmless view (front :: queue) (front :: snapshots)
  | blocked {front : L2SnapshotSide P} {queue snapshots : List (L2SnapshotSide P)} :
      (∃ level ∈ front, level.quantity = 0) →
        (∀ snapshot ∈ snapshots, ∀ level ∈ snapshot, 0 < level.quantity) →
          Harmless view (front :: queue) snapshots

/-- The views saved while the best level is filled are those of the exchange, up to the one
that shows the level empty. -/
theorem harmless_fillViews {isSell : Bool} {price key : P} {orders rest : List (Order P)}
    {qty : ℤ} (nonneg : 0 ≤ qty) (some : orders ≠ []) (remain : AllRemain (orders ++ rest))
    (here : ∀ order ∈ orders, order.price = key)
    (elsewhere : ∀ order ∈ rest, order.price ≠ key) (crosses : BookSide.Crosses isSell price key)
    {view : L2SnapshotSide P}
    (viewEq : ∀ quantity, viewWith view key quantity = ⟨key, quantity⟩ :: levelsOf rest)
    {more : List (L2SnapshotSide P)} (short : qty < totalRemaining orders → more = [])
    (last : L2SnapshotSide P) :
    Harmless last (fillViews view key (totalRemaining orders) (fills qty orders) ++ more)
      ((sweep isSell price qty (orders ++ rest)).map fun execution => levelsOf execution.left) := by
  induction orders generalizing qty with
  | nil => exact absurd rfl some
  | cons first orders ih =>
      obtain ⟨rfl, laterHere⟩ := List.forall_mem_cons.mp here
      have firstPos := remain.head
      have laterRemain : AllRemain (orders ++ rest) := remain.tail
      have total := totalRemaining_cons first orders
      have ordersNonneg : 0 ≤ totalRemaining orders :=
        QueueFill.Positive.total_nonneg fun order mem =>
          laterRemain order (List.mem_append_left _ mem)
      rw [List.cons_append, sweep]
      rcases Int.lt_or_eq_of_le nonneg with pos | rfl
      · rw [if_neg (by simp [crosses, pos]), fills_cons first orders pos.ne']
        by_cases within : qty < first.getRemainingQuantity
        · rw [if_pos within, min_eq_left within.le, sub_self, fills_zero, short (by omega)]
          have shown : levelsOf (first.fill qty :: (orders ++ rest)) =
              viewWith view first.price (totalRemaining (first :: orders) - qty) := by
            have cut : totalRemaining (first.fill qty :: orders) =
                totalRemaining (first :: orders) - qty := by
              rw [totalRemaining_cons, Order.remaining_fill]
              omega
            rw [viewEq, ← cut]
            exact levelsOf_append (List.cons_ne_nil _ _)
              (List.forall_mem_cons.mpr ⟨rfl, laterHere⟩) elsewhere
          simp only [fillViews, List.append_nil, List.map_cons, List.map_nil, shown]
          exact .expected (.idle (by simp))
        · have covers : first.getRemainingQuantity ≤ qty := not_lt.mp within
          have left : totalRemaining (first :: orders) - first.getRemainingQuantity =
              totalRemaining orders := by omega
          rw [if_neg within, min_eq_right covers]
          simp only [fillViews, left, List.cons_append, List.map_cons]
          by_cases none : orders = []
          · subst none
            refine .blocked ⟨⟨first.price, 0⟩, ?_, rfl⟩ ?_
            · rw [viewEq]
              exact List.mem_cons_self
            · refine List.forall_mem_cons.mpr ⟨levelsOf_pos laterRemain, fun snapshot mem => ?_⟩
              obtain ⟨execution, executionMem, rfl⟩ := List.mem_map.mp mem
              exact levelsOf_pos (sweep_remain laterRemain execution executionMem)
          · rw [viewEq, ← levelsOf_append none laterHere elsewhere]
            exact .expected (ih (by omega) none laterRemain laterHere fun less =>
              short (by omega))
      · rw [if_pos (Or.inl (le_refl 0)), fills_zero, short (by omega)]
        exact .idle (by simp)

namespace BookSide

variable {isSell : Bool} {side final : BookSide P isSell}

/-- A side takes harmless snapshots without an event and without a change of its book. -/
theorem takes_harmless [Zero P] {snapshot : L2SnapshotSide P}
    {snapshots : List (L2SnapshotSide P)}
    (harmless : Harmless side.l2View side.l2SnapQueue (snapshot :: snapshots)) :
    ∃ queue, side.SilentSnapshot snapshot { side with l2SnapQueue := queue } ∧
      Harmless side.l2View queue snapshots := by
  generalize queueEq : side.l2SnapQueue = queue at harmless
  cases harmless with
  | idle shown =>
      obtain ⟨rfl, others⟩ := List.forall_mem_cons.mp shown
      refine ⟨side.l2SnapQueue, silentSnapshot_current queueEq, ?_⟩
      rw [queueEq]
      exact .idle others
  | expected later => exact ⟨_, silentSnapshot_expected queueEq, later⟩
  | @blocked front queue _ empty pos =>
      obtain ⟨positive, others⟩ := List.forall_mem_cons.mp pos
      refine ⟨side.l2SnapQueue, silentSnapshot_polluted queueEq ?_, ?_⟩
      · rintro rfl
        obtain ⟨level, mem, zero⟩ := empty
        exact (positive level mem).ne' zero
      · rw [queueEq]
        exact .blocked empty others

/-- Behind the orders of the best price there are those of other prices. -/
theorem Linked.exists_behind_first (linked : side.Linked) {key : P} {level : L3PriceLevel P}
    (first : side.levels.begin? = some (key, level)) :
    ∃ rest, side.restingOrders = side.ordersAt key ++ rest ∧
      ∀ order ∈ rest, order.price ≠ key := by
  obtain ⟨others, entriesEq⟩ := SortedMap.begin?_eq_some_iff.mp first
  have distinct := side.levels.keys_ne
  rw [entriesEq, List.pairwise_cons] at distinct
  refine ⟨others.flatMap fun entry => entry.2.orders, ?_, fun order mem => ?_⟩
  · rw [restingOrders, entriesEq, List.flatMap_cons,
      ordersAt_of_find? (SortedMap.find?_of_begin? first)]
  · obtain ⟨entry, entryMem, orderMem⟩ := List.mem_flatMap.mp mem
    have found := SortedMap.find?_eq_some_iff.mpr
      (show entry ∈ side.levels.entries by simp [entriesEq, entryMem])
    rw [(linked.level found).order_price order orderMem]
    exact (distinct.1 entry entryMem).symm

/-- What a side waits for while its best levels are executed. -/
theorem CrossOutcome.harmless {price : P} {qty : ℤ} {events : OrderInfoVec P}
    (valid : side.Valid {0}) (pos : 0 < qty)
    (outcome : CrossOutcome {0} side price qty final events)
    (quiet : Harmless side.l2View side.l2SnapQueue []) {key : P} {level : L3PriceLevel P}
    (first : side.levels.begin? = some (key, level)) (crosses : Crosses isSell price key) :
    Harmless final.l2View final.l2SnapQueue
      ((sweep isSell price qty side.restingOrders).map fun execution =>
        levelsOf execution.left) := by
  have remain := valid.resting_remain
  generalize queueEq : side.l2SnapQueue = queue at quiet
  cases quiet with
  | idle shown =>
      obtain ⟨rest, restingEq, elsewhere⟩ := valid.linked.exists_behind_first first
      obtain ⟨⟨more, queueIs⟩, stops⟩ := outcome.best first crosses pos
      have level := valid.linked.level (SortedMap.find?_of_begin? first)
      have ordersEq := ordersAt_of_find? (SortedMap.find?_of_begin? first)
      have some : side.ordersAt key ≠ [] := ordersEq ▸ level.nonempty
      have here : ∀ order ∈ side.ordersAt key, order.price = key :=
        fun order mem => valid.linked.order_price mem
      have viewEq : ∀ quantity, viewWith side.l2View key quantity =
          ⟨key, quantity⟩ :: levelsOf rest := by
        intro quantity
        rw [← valid.levelsOf_restingOrders, restingEq, levelsOf_append some here elsewhere]
        exact viewWith_first (fun other mem => elsewhere other mem) _ quantity
      have queueFinal : final.l2SnapQueue = fillViews side.l2View key
          (totalRemaining (side.ordersAt key)) (fills qty (side.ordersAt key)) ++ more := by
        rw [queueIs, ← valid.quantityAt_eq]
        simp only [crossLevel, queueEq, List.nil_append]
      rw [queueFinal, restingEq]
      refine harmless_fillViews pos.le some (restingEq ▸ remain) here elsewhere crosses viewEq
        (fun short => ?_) final.l2View
      have stopped := congrArg BookSide.l2SnapQueue (stops short.le)
      rw [queueIs] at stopped
      exact List.append_right_eq_self.mp stopped
  | blocked empty _ =>
      obtain ⟨views, queueIs⟩ := outcome.queue_prefix
      rw [queueIs, queueEq]
      refine .blocked empty fun snapshot mem => ?_
      obtain ⟨execution, executionMem, rfl⟩ := List.mem_map.mp mem
      exact levelsOf_pos (sweep_remain remain execution executionMem)

end BookSide

end OrderBook
