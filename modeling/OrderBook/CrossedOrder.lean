import OrderBook.SideInvariant

/-!
# Uncrossing the book

`processCrossedOrder` fills an aggressor along the levels that its limit price
crosses, best level first.  One iteration of its outer loop either uses up the
best level or the aggressor, so the loop ends, and the whole loop is one fill
along the flat list of the crossing orders in price-time priority.
-/

namespace OrderBook.BookSide

open FueledLoop

variable {P : Type} [LinearOrder P] {isSell : Bool} {slack : Set ℤ}

/-- A level under `key` is crossed by an opposite order of limit `price` unless
the limit is better for this side than the key. -/
def Crosses (isSell : Bool) (price key : P) : Prop := ¬ PriceComparator isSell price key

instance (price key : P) : Decidable (Crosses isSell price key) :=
  inferInstanceAs (Decidable (¬ _))

theorem priceComparator_iff {lhs rhs : P} :
    PriceComparator isSell lhs rhs ↔ if isSell then lhs < rhs else lhs > rhs := by
  cases isSell <;> rfl

theorem ne_of_better {key price : P} (better : PriceComparator isSell key price) :
    key ≠ price := by
  rintro rfl
  exact irrefl _ better

theorem Crosses.of_better {price key other : P} (crosses : Crosses isSell price other)
    (better : PriceComparator isSell key other) : Crosses isSell price key :=
  fun worse => crosses (Trans.trans worse better : PriceComparator isSell price other)

theorem Linked.bookCrossedWithPrice_iff {side : BookSide P isSell} (linked : side.Linked)
    {key : P} {level : L3PriceLevel P} (first : side.levels.begin? = some (key, level))
    (price : P) : side.bookCrossedWithPrice price = true ↔ Crosses isSell price key := by
  have priceEq := (linked.level (SortedMap.find?_of_begin? first)).price_eq
  simp only [bookCrossedWithPrice, first, Crosses, priceComparator_iff, priceEq]
  cases isSell <;> simp

/-- The resting orders that an opposite order of limit `price` can meet. -/
def crossingOrders (side : BookSide P isSell) (price : P) : List (Order P) :=
  (side.levels.entries.filter fun entry => Crosses isSell price entry.1).flatMap
    fun entry => entry.2.orders

/-- The resting orders beyond the limit `price`. -/
def ordersBeyond (side : BookSide P isSell) (price : P) : List (Order P) :=
  (side.levels.entries.filter fun entry => ¬ Crosses isSell price entry.1).flatMap
    fun entry => entry.2.orders

theorem crossingOrders_eq_nil {side : BookSide P isSell} {price : P}
    (uncrossed : ∀ {key : P} {level : L3PriceLevel P},
      side.levels.begin? = some (key, level) → ¬ Crosses isSell price key) :
    side.crossingOrders price = [] ∧ side.ordersBeyond price = side.restingOrders := by
  have none := SortedMap.none_of_begin?
    (fun better crosses => Crosses.of_better crosses better) uncrossed
  constructor
  · rw [crossingOrders, List.filter_eq_nil_iff.mpr (by simpa using none)]
    rfl
  · rw [ordersBeyond, List.filter_eq_self.mpr (by simpa using none)]
    rfl

section First

variable {side : BookSide P isSell} {key price : P} {level : L3PriceLevel P}
  {others : List (P × L3PriceLevel P)}

theorem crossingOrders_first (entriesEq : side.levels.entries = (key, level) :: others)
    (crosses : Crosses isSell price key) :
    side.crossingOrders price = level.orders ++
      (others.filter fun entry => Crosses isSell price entry.1).flatMap
        fun entry => entry.2.orders := by
  simp [crossingOrders, entriesEq, crosses]

theorem ordersBeyond_first (entriesEq : side.levels.entries = (key, level) :: others)
    (crosses : Crosses isSell price key) :
    side.ordersBeyond price =
      (others.filter fun entry => ¬ Crosses isSell price entry.1).flatMap
        fun entry => entry.2.orders := by
  simp [ordersBeyond, entriesEq, crosses]

/-- The crossing orders come first. -/
theorem restingOrders_eq (side : BookSide P isSell) (price : P) :
    side.restingOrders = side.crossingOrders price ++ side.ordersBeyond price := by
  have split := side.levels.entries_split (Crosses isSell price)
    (fun ordered crosses => crosses.of_better ordered)
  conv_lhs => rw [restingOrders, split, List.flatMap_append]
  rfl

end First

/-! ### One iteration -/

/-- The side after one iteration of the outer loop at the level under `key`. -/
def crossLevel (side : BookSide P isSell) (key : P) (qty : ℤ) : BookSide P isSell :=
  { side.fillLevel key qty with
    l2SnapQueue := side.l2SnapQueue ++
      fillViews side.l2View key (side.quantityAt key) (fills qty (side.ordersAt key))
    pendingLiqRemoveQty := creditEvents side.pendingLiqRemoveQty
      (execEvents isSell (fills qty (side.ordersAt key))) }

theorem find?_ofOrders {side : BookSide P isSell} (linked : side.Linked) {key : P}
    {level : L3PriceLevel P} (found : side.levels.find? key = some level) :
    side.levels.find? key = some (.ofOrders key (side.quantityAt key) (side.ordersAt key)) := by
  have quantityEq := quantityAt_of_find? found
  rw [quantityEq]
  exact linked.find?_eq found

theorem Valid.crossBody_eq [Zero P] {side : BookSide P isSell} (valid : side.Valid slack)
    {key : P} {level : L3PriceLevel P} (first : side.levels.begin? = some (key, level))
    {qty : ℤ} (pos : 0 < qty) {aggressor : Order P}
    (crosses : Crosses isSell aggressor.price key) (events : OrderInfoVec P)
    (removed : List ℤ) :
    processCrossedOrderBody ⟨side, aggressor, qty, events, removed⟩ = .ok (.next
      ⟨side.crossLevel key qty,
        aggressor.fill (min qty (totalRemaining (side.ordersAt key))),
        qty - min qty (totalRemaining (side.ordersAt key)),
        events ++ execEvents isSell (fills qty (side.ordersAt key)),
        ids (usedUp qty (side.ordersAt key))⟩) := by
  have found := SortedMap.find?_of_begin? first
  have entered : 0 < qty ∧ side.bookCrossedWithPrice aggressor.price = true :=
    ⟨pos, (valid.linked.bookCrossedWithPrice_iff first aggressor.price).mpr crosses⟩
  have atKey := find?_ofOrders valid.linked found
  have remain := valid.allRemain key
  have nonempty : [] ++ side.ordersAt key ≠ [] := by
    simpa [ordersAt_of_find? found] using (valid.linked.level found).nonempty
  have filled := foldlM_crossFill aggressor events [] (by simpa using atKey) nonempty
    (valid.linked.nodup key) remain pos.le
  simp only [List.nil_append] at filled
  simp only [processCrossedOrderBody, if_pos entered, first]
  rw [← ordersAt_of_find? found, filled, ok_bind]
  simp only [pure_eq_ok]
  congr 3
  exact valid.linked.removeUsedUp found remain pos.le rfl rfl

theorem crossBody_done [Zero P] {side : BookSide P isSell} (linked : side.Linked)
    {qty : ℤ} {aggressor : Order P} (events : OrderInfoVec P) (removed : List ℤ)
    (stops : qty ≤ 0 ∨ ∀ {key : P} {level : L3PriceLevel P},
      side.levels.begin? = some (key, level) → ¬ Crosses isSell aggressor.price key) :
    processCrossedOrderBody ⟨side, aggressor, qty, events, removed⟩ =
      .ok (.done ⟨side, aggressor, qty, events, removed⟩) := by
  have notEntered :
      ¬ (0 < qty ∧ side.bookCrossedWithPrice aggressor.price = true) := by
    rintro ⟨pos, crossed⟩
    cases first : side.levels.begin? with
    | none => simp [bookCrossedWithPrice, first] at crossed
    | some entry =>
        rcases stops with done | uncrossed
        · omega
        · exact uncrossed first
            ((linked.bookCrossedWithPrice_iff first aggressor.price).mp crossed)
  simp [processCrossedOrderBody, notEntered]

theorem Valid.crossLevel [Zero P] {side : BookSide P isSell} (valid : side.Valid slack)
    {key : P} {level : L3PriceLevel P} {qty : ℤ}
    (found : side.levels.find? key = some level) (nonneg : 0 ≤ qty) :
    (side.crossLevel key qty).Valid slack :=
  (valid.fillLevel found nonneg).congr rfl rfl
    ⟨valid.ledgers.remove_pos.creditEvents (execEvents_pos (valid.allRemain key) nonneg),
      valid.ledgers.add_nonneg⟩

/-! ### The whole loop -/

/-- Something remains at every price with a level. -/
theorem Valid.totalRemaining_pos {side : BookSide P isSell} (valid : side.Valid slack) {key : P}
    {level : L3PriceLevel P} (found : side.levels.find? key = some level) :
    0 < totalRemaining (side.ordersAt key) := by
  apply QueueFill.Positive.total_pos (valid.allRemain key)
  simpa [ordersAt_of_find? found] using (valid.linked.level found).nonempty

theorem Valid.resting_remain {side : BookSide P isSell} (valid : side.Valid slack) :
    AllRemain side.restingOrders := by
  intro order mem
  obtain ⟨key, atKey⟩ := mem_restingOrders.mp mem
  exact (valid.isOpen atKey).remaining_pos

theorem Valid.crossing_remain {side : BookSide P isSell} (valid : side.Valid slack) (price : P) :
    AllRemain (side.crossingOrders price) := by
  intro order mem
  apply valid.resting_remain
  rw [restingOrders_eq side price]
  exact List.mem_append_left _ mem

/-- What `processCrossedOrder` leaves behind when `qty` meets the limit `price`. -/
structure CrossOutcome (slack : Set ℤ) (side : BookSide P isSell) (price : P) (qty : ℤ)
    (final : BookSide P isSell) (events : OrderInfoVec P) : Prop where
  valid : final.Valid slack
  events_eq : events = execEvents isSell (fills qty (side.crossingOrders price))
  resting_eq : final.restingOrders =
    fillFront qty (side.crossingOrders price) ++ side.ordersBeyond price
  remove_eq : final.pendingLiqRemoveQty = creditEvents side.pendingLiqRemoveQty events
  add_eq : final.pendingLiqAddQty = side.pendingLiqAddQty
  level_kept : ∀ {key : P} {level : L3PriceLevel P}, final.levels.find? key = some level →
    ∃ old, side.levels.find? key = some old
  none_better : ∀ e ∈ events, ∀ {key : P} {level : L3PriceLevel P},
    final.levels.find? key = some level → ¬ PriceComparator isSell key e.price
  uncrossed : totalRemaining (side.crossingOrders price) < qty →
    ∀ {key : P} {level : L3PriceLevel P}, final.levels.find? key = some level →
      ¬ Crosses isSell price key
  queue_prefix : ∃ views, final.l2SnapQueue = side.l2SnapQueue ++ views
  stops_eq : (qty = 0 ∨ ∀ {key : P} {level : L3PriceLevel P},
    side.levels.begin? = some (key, level) → ¬ Crosses isSell price key) → final = side
  best : ∀ {key : P} {level : L3PriceLevel P}, side.levels.begin? = some (key, level) →
    Crosses isSell price key → 0 < qty →
      (∃ views, final.l2SnapQueue = (side.crossLevel key qty).l2SnapQueue ++ views) ∧
      (qty ≤ totalRemaining (side.ordersAt key) → final = side.crossLevel key qty)
  quantity_eq : ∀ {key : P} {level : L3PriceLevel P}, final.levels.find? key = some level →
    level.quantity = side.quantityAt key - execQtyAt events key

/-- Nothing happens when nothing is left or nothing crosses. -/
theorem Valid.crossOutcome_self {side : BookSide P isSell} (valid : side.Valid slack)
    {price : P} {qty : ℤ} (nonneg : 0 ≤ qty)
    (stops : qty = 0 ∨ ∀ {key : P} {level : L3PriceLevel P},
      side.levels.begin? = some (key, level) → ¬ Crosses isSell price key) :
    CrossOutcome slack side price qty side [] ∧
      min qty (totalRemaining (side.crossingOrders price)) = 0 := by
  have remain := valid.crossing_remain price
  have totalNonneg : 0 ≤ totalRemaining (side.crossingOrders price) := remain.total_nonneg
  have keptQty : ∀ {key : P} {level : L3PriceLevel P}, side.levels.find? key = some level →
      level.quantity = side.quantityAt key - execQtyAt [] key := by
    intro key level found
    rw [quantityAt_of_find? found]
    exact (sub_zero _).symm
  rcases stops with rfl | uncrossed
  · refine ⟨⟨valid, by simp [execEvents], ?_, rfl, rfl, fun found => ⟨_, found⟩, by simp,
      fun more => by omega, ⟨[], by simp⟩, fun _ => rfl, fun _ _ pos => by omega, keptQty⟩,
      min_eq_left totalNonneg⟩
    rw [fillFront_zero remain, restingOrders_eq side price]
  · have none := crossingOrders_eq_nil uncrossed
    refine ⟨⟨valid, ?_, ?_, rfl, rfl, fun found => ⟨_, found⟩, by simp, ?_, ⟨[], by simp⟩,
      fun _ => rfl, fun first crosses => (uncrossed first crosses).elim, keptQty⟩, ?_⟩
    · simp [none.1, fills, QueueFill.pieces, execEvents]
    · simp [none.1, none.2, fillFront, QueueFill.remaining]
    · intro _ key level found crosses
      have mem := SortedMap.find?_eq_some_iff.mp found
      have crossing : (key, level) ∈
          side.levels.entries.filter fun entry => Crosses isSell price entry.1 :=
        List.mem_filter.mpr ⟨mem, by simpa using crosses⟩
      obtain ⟨order, orderMem⟩ :=
        List.exists_mem_of_ne_nil _ (valid.linked.level found).nonempty
      have orderCrossing : order ∈ side.crossingOrders price :=
        List.mem_flatMap.mpr ⟨_, crossing, orderMem⟩
      rw [none.1] at orderCrossing
      cases orderCrossing
    · simpa [none.1] using nonneg

/-- No level is better than the first one. -/
theorem not_better_first {side : BookSide P isSell} {key other : P}
    {level found : L3PriceLevel P} (first : side.levels.begin? = some (key, level))
    (otherFound : side.levels.find? other = some found) :
    ¬ PriceComparator isSell other key := by
  by_cases same : other = key
  · rw [same]
    exact irrefl key
  · exact asymm (SortedMap.before_of_begin? first otherFound same)

theorem Linked.execEvents_price {side : BookSide P isSell} (linked : side.Linked) {key : P}
    {qty : ℤ} (remain : AllRemain (side.ordersAt key)) (nonneg : 0 ≤ qty) :
    ∀ e ∈ execEvents isSell (fills qty (side.ordersAt key)), e.price = key := by
  intro e mem
  obtain ⟨⟨order, piece⟩, pieceMem, rfl⟩ := List.mem_map.mp mem
  exact linked.order_price (QueueFill.mem_pieces remain nonneg pieceMem).1

/-- Filling a level executes at its price only. -/
theorem Linked.execQtyAt_fills {side : BookSide P isSell} (linked : side.Linked) {key : P}
    {qty : ℤ} (remain : AllRemain (side.ordersAt key)) (nonneg : 0 ≤ qty) (other : P) :
    execQtyAt (execEvents isSell (fills qty (side.ordersAt key))) other =
      if other = key then min qty (totalRemaining (side.ordersAt key)) else 0 := by
  have atKey := linked.execEvents_price remain nonneg
  have executed : ∀ e ∈ execEvents isSell (fills qty (side.ordersAt key)), e.event = .exec := by
    intro e mem
    obtain ⟨piece, -, rfl⟩ := List.mem_map.mp mem
    rfl
  unfold execQtyAt
  split
  · next same =>
      rw [← QueueFill.sum_pieces remain nonneg, List.map_congr_left fun e mem =>
        if_pos ⟨executed e mem, (atKey e mem).trans same.symm⟩]
      simp [execEvents, Function.comp_def]
  · next different =>
      rw [List.map_congr_left fun e mem =>
        if_neg fun both => different (both.2.symm.trans (atKey e mem))]
      simp

section Iteration

variable {side : BookSide P isSell} {key price : P} {level : L3PriceLevel P}
  {others : List (P × L3PriceLevel P)} {qty : ℤ}

/-- An iteration leaves the other levels alone. -/
theorem find?_crossLevel_of_ne {other : P} (different : other ≠ key) :
    (side.crossLevel key qty).levels.find? other = side.levels.find? other := by
  rw [crossLevel, fillLevel, find?_putOrders, if_neg different]

/-- Levels after an iteration are levels before it. -/
theorem level_of_crossLevel {other : P} {found : L3PriceLevel P}
    (first : side.levels.begin? = some (key, level))
    (after : (side.crossLevel key qty).levels.find? other = some found) :
    ∃ old, side.levels.find? other = some old := by
  by_cases same : other = key
  · exact ⟨level, same ▸ SortedMap.find?_of_begin? first⟩
  · exact ⟨found, by rwa [find?_crossLevel_of_ne same] at after⟩

/-- An iteration that uses up the best level leaves the levels after it. -/
theorem Valid.levels_crossLevel (valid : side.Valid slack)
    (covers : totalRemaining (side.ordersAt key) ≤ qty) :
    (side.crossLevel key qty).levels = side.levels.erase key := by
  simp [BookSide.crossLevel, BookSide.fillLevel, putOrders,
    fillFront_eq_nil (valid.allRemain key) covers]

theorem Valid.entries_crossLevel (valid : side.Valid slack)
    (entriesEq : side.levels.entries = (key, level) :: others)
    (covers : totalRemaining (side.ordersAt key) ≤ qty) :
    (side.crossLevel key qty).levels.entries = others := by
  rw [valid.levels_crossLevel covers, SortedMap.entries_erase_first entriesEq]

/-- The orders that an iteration leaves when it uses up the best level. -/
theorem Valid.orders_usedUp (valid : side.Valid slack)
    (entriesEq : side.levels.entries = (key, level) :: others)
    (crosses : Crosses isSell price key) (covers : totalRemaining (side.ordersAt key) ≤ qty) :
    side.crossingOrders price =
        side.ordersAt key ++ (side.crossLevel key qty).crossingOrders price ∧
      side.ordersBeyond price = (side.crossLevel key qty).ordersBeyond price := by
  have found := SortedMap.find?_of_begin? (SortedMap.begin?_eq_some_iff.mpr ⟨others, entriesEq⟩)
  have entriesAfter := valid.entries_crossLevel entriesEq covers
  constructor
  · rw [crossingOrders_first entriesEq crosses, ← ordersAt_of_find? found, crossingOrders,
      entriesAfter]
  · rw [ordersBeyond_first entriesEq crosses, ordersBeyond, entriesAfter]

/-- An iteration that uses up the best level is followed by the rest of the loop. -/
theorem CrossOutcome.of_usedUp [Zero P] (valid : side.Valid slack)
    (entriesEq : side.levels.entries = (key, level) :: others)
    (crosses : Crosses isSell price key) (covers : totalRemaining (side.ordersAt key) ≤ qty)
    {final : BookSide P isSell} {events : OrderInfoVec P}
    (outcome : CrossOutcome slack (side.crossLevel key qty) price
      (qty - totalRemaining (side.ordersAt key)) final events) :
    CrossOutcome slack side price qty final
        (execEvents isSell (fills qty (side.ordersAt key)) ++ events) ∧
      totalRemaining (side.crossingOrders price) = totalRemaining (side.ordersAt key) +
        totalRemaining ((side.crossLevel key qty).crossingOrders price) := by
  have first : side.levels.begin? = some (key, level) :=
    SortedMap.begin?_eq_some_iff.mpr ⟨others, entriesEq⟩
  have found := SortedMap.find?_of_begin? first
  have remain := valid.allRemain key
  have totalNonneg : 0 ≤ totalRemaining (side.ordersAt key) := remain.total_nonneg
  obtain ⟨crossingEq, beyondEq⟩ := valid.orders_usedUp entriesEq crosses covers
  have allTaken : min qty (totalRemaining (side.ordersAt key)) =
      totalRemaining (side.ordersAt key) := min_eq_right covers
  have totalEq : totalRemaining (side.crossingOrders price) =
      totalRemaining (side.ordersAt key) +
        totalRemaining ((side.crossLevel key qty).crossingOrders price) := by
    rw [crossingEq, totalRemaining_append]
  have otherKey : ∀ {other : P} {found : L3PriceLevel P},
      (side.crossLevel key qty).levels.find? other = some found → other ≠ key := by
    rintro other found after rfl
    simp [crossLevel, fillLevel, putOrders, fillFront_eq_nil remain covers] at after
  have totalPos := valid.totalRemaining_pos found
  refine ⟨⟨outcome.valid, ?_, ?_, ?_, outcome.add_eq, ?_, ?_, ?_, ?_, ?_, ?_, ?_⟩, totalEq⟩
  · rw [outcome.events_eq, crossingEq, fills_append _ remain (by omega), allTaken]
    simp only [execEvents, List.map_append]
  · rw [outcome.resting_eq, crossingEq, beyondEq]
    rw [fillFront_append_of_covers _ remain covers]
  · rw [outcome.remove_eq, creditEvents_append]
    rfl
  · intro other kept keptFound
    obtain ⟨old, oldFound⟩ := outcome.level_kept keptFound
    exact level_of_crossLevel first oldFound
  · intro e mem other kept keptFound
    rcases List.mem_append.mp mem with early | late
    · rw [valid.linked.execEvents_price remain (by omega) e early]
      obtain ⟨old, oldFound⟩ := outcome.level_kept keptFound
      obtain ⟨older, olderFound⟩ := level_of_crossLevel first oldFound
      exact not_better_first first olderFound
    · exact outcome.none_better e late keptFound
  · intro more
    exact outcome.uncrossed (by omega)
  · obtain ⟨views, queueEq⟩ := outcome.queue_prefix
    refine ⟨fillViews side.l2View key (side.quantityAt key) (fills qty (side.ordersAt key)) ++
      views, ?_⟩
    rw [queueEq, ← List.append_assoc]
    rfl
  · rintro (none | stops)
    · omega
    · exact (stops first crosses).elim
  · intro bestKey bestLevel bestFirst _ _
    rw [first] at bestFirst
    cases bestFirst
    exact ⟨outcome.queue_prefix, fun enough => outcome.stops_eq (Or.inl (by omega))⟩
  · intro other kept keptFound
    obtain ⟨old, oldFound⟩ := outcome.level_kept keptFound
    have different := otherKey oldFound
    have sameQty : (side.crossLevel key qty).quantityAt other = side.quantityAt other := by
      rw [quantityAt, quantityAt, find?_crossLevel_of_ne different]
    rw [outcome.quantity_eq keptFound, sameQty, execQtyAt_append,
      valid.linked.execQtyAt_fills remain (by omega), if_neg different, zero_add]

/-- The orders of the best level come first among those that cross. -/
theorem crossingOrders_split (entriesEq : side.levels.entries = (key, level) :: others)
    (crosses : Crosses isSell price key) :
    ∃ rest, side.crossingOrders price = side.ordersAt key ++ rest ∧
      others.flatMap (fun entry => entry.2.orders) = rest ++ side.ordersBeyond price := by
  have found := SortedMap.find?_of_begin? (SortedMap.begin?_eq_some_iff.mpr ⟨others, entriesEq⟩)
  have crossingEq := crossingOrders_first entriesEq crosses
  have split := restingOrders_eq side price
  rw [crossingEq, restingOrders, entriesEq, List.flatMap_cons, List.append_assoc] at split
  rw [← ordersAt_of_find? found] at crossingEq
  exact ⟨_, crossingEq, List.append_cancel_left split⟩

/-- An iteration that uses up the aggressor is the last one. -/
theorem CrossOutcome.of_short [Zero P] (valid : side.Valid slack)
    (entriesEq : side.levels.entries = (key, level) :: others)
    (crosses : Crosses isSell price key) (pos : 0 < qty)
    (short : qty < totalRemaining (side.ordersAt key)) :
    CrossOutcome slack side price qty (side.crossLevel key qty)
        (execEvents isSell (fills qty (side.ordersAt key))) ∧
      qty ≤ totalRemaining (side.crossingOrders price) := by
  have first : side.levels.begin? = some (key, level) :=
    SortedMap.begin?_eq_some_iff.mpr ⟨others, entriesEq⟩
  have found := SortedMap.find?_of_begin? first
  have remain := valid.allRemain key
  have nonneg : 0 ≤ qty := pos.le
  obtain ⟨rest, crossingEq, restEq⟩ := crossingOrders_split entriesEq crosses
  have restRemain : AllRemain rest := by
    intro order mem
    exact valid.crossing_remain price order (crossingEq ▸ List.mem_append_right _ mem)
  have left : fillFront qty (side.ordersAt key) ≠ [] := fillFront_ne_nil nonneg short
  have totalEq : totalRemaining (side.crossingOrders price) =
      totalRemaining (side.ordersAt key) + totalRemaining rest := by
    rw [crossingEq, totalRemaining_append]
  have restNonneg : 0 ≤ totalRemaining rest := restRemain.total_nonneg
  refine ⟨⟨valid.crossLevel found nonneg, ?_, ?_, rfl, rfl, ?_, ?_, ?_, ⟨_, rfl⟩, ?_, ?_, ?_⟩,
    by omega⟩
  · rw [crossingEq, fills_append rest remain nonneg, min_eq_left short.le, sub_self,
      fills_zero, List.append_nil]
  · have entriesAfter : (side.crossLevel key qty).levels.entries =
        (key, .ofOrders key
          (side.quantityAt key - min qty (totalRemaining (side.ordersAt key)))
          (fillFront qty (side.ordersAt key))) :: others := by
      simp only [crossLevel, fillLevel, putOrders, if_neg left]
      exact SortedMap.entries_insert_first entriesEq _
    rw [restingOrders, entriesAfter, List.flatMap_cons, restEq, crossingEq,
      fillFront_append_of_short rest nonneg short, List.append_assoc]
    rfl
  · intro other kept keptFound
    exact level_of_crossLevel first keptFound
  · intro e mem other kept keptFound
    rw [valid.linked.execEvents_price remain nonneg e mem]
    obtain ⟨old, oldFound⟩ := level_of_crossLevel first keptFound
    exact not_better_first first oldFound
  · intro more
    omega
  · rintro (none | stops)
    · omega
    · exact (stops first crosses).elim
  · intro bestKey bestLevel bestFirst _ _
    rw [first] at bestFirst
    cases bestFirst
    exact ⟨⟨[], by simp⟩, fun _ => rfl⟩
  · intro other kept keptFound
    rw [valid.linked.execQtyAt_fills remain nonneg]
    by_cases same : other = key
    · rw [crossLevel, fillLevel, find?_putOrders, if_pos same, if_neg left] at keptFound
      cases keptFound
      rw [if_pos same, same]
      rfl
    · rw [find?_crossLevel_of_ne same] at keptFound
      rw [if_neg same, sub_zero, quantityAt_of_find? keptFound]

end Iteration

/-- The outer loop of `processCrossedOrder` returns, and it is one fill along the
crossing orders. -/
theorem Valid.crossLoop [Zero P] {side : BookSide P isSell} (valid : side.Valid slack)
    {qty : ℤ} (nonneg : 0 ≤ qty) (aggressor : Order P) (events : OrderInfoVec P)
    (removed : List ℤ) :
    ∃ final newEvents lastRemoved,
      Returns (fun fuel => loop processCrossedOrderBody fuel
        ⟨side, aggressor, qty, events, removed⟩)
        ⟨final, aggressor.fill (min qty (totalRemaining (side.crossingOrders aggressor.price))),
          qty - min qty (totalRemaining (side.crossingOrders aggressor.price)),
          events ++ newEvents, lastRemoved⟩ ∧
      CrossOutcome slack side aggressor.price qty final newEvents := by
  generalize entriesEq : side.levels.entries = entries
  induction entries generalizing side qty aggressor events removed with
  | nil =>
      have none : side.levels.begin? = none := SortedMap.begin?_eq_none_iff.mpr entriesEq
      have stops : ∀ {key : P} {level : L3PriceLevel P},
          side.levels.begin? = some (key, level) → ¬ Crosses isSell aggressor.price key := by
        simp [none]
      obtain ⟨outcome, nothing⟩ := valid.crossOutcome_self nonneg (Or.inr stops)
      refine ⟨side, [], removed, ?_, outcome⟩
      simpa [nothing] using Returns.of_done
        (crossBody_done valid.linked events removed (Or.inr stops))
  | cons entry others ih =>
      obtain ⟨key, level⟩ := entry
      have first : side.levels.begin? = some (key, level) :=
        SortedMap.begin?_eq_some_iff.mpr ⟨others, entriesEq⟩
      by_cases entered : 0 < qty ∧ Crosses isSell aggressor.price key
      · obtain ⟨pos, crosses⟩ := entered
        have step := valid.crossBody_eq first pos crosses events removed
        have found := SortedMap.find?_of_begin? first
        have validAfter := valid.crossLevel found nonneg
        by_cases covers : totalRemaining (side.ordersAt key) ≤ qty
        · -- the level is used up: the rest of the loop runs on the later levels
          have entriesAfter := valid.entries_crossLevel entriesEq covers
          rw [min_eq_right covers] at step
          obtain ⟨final, newEvents, lastRemoved, returns, outcome⟩ :=
            ih validAfter (show 0 ≤ qty - totalRemaining (side.ordersAt key) by omega)
              (aggressor.fill (totalRemaining (side.ordersAt key))) _ _ entriesAfter
          obtain ⟨whole, totalEq⟩ := outcome.of_usedUp valid entriesEq crosses covers
          refine ⟨final, _, lastRemoved, ?_, whole⟩
          have laterNonneg : 0 ≤
              totalRemaining ((side.crossLevel key qty).crossingOrders aggressor.price) :=
            (validAfter.crossing_remain _).total_nonneg
          have takenEq : min qty (totalRemaining (side.crossingOrders aggressor.price)) =
              totalRemaining (side.ordersAt key) +
                min (qty - totalRemaining (side.ordersAt key))
                  (totalRemaining
                    ((side.crossLevel key qty).crossingOrders aggressor.price)) := by
            omega
          rw [takenEq]
          simpa [sub_sub] using Returns.of_next step returns
        · -- the aggressor is used up: the next test of the loop fails
          have short : qty < totalRemaining (side.ordersAt key) := by omega
          obtain ⟨outcome, enough⟩ :=
            CrossOutcome.of_short valid entriesEq crosses pos short
          rw [min_eq_left short.le, sub_self] at step
          refine ⟨_, _, ids (usedUp qty (side.ordersAt key)), ?_, outcome⟩
          rw [min_eq_left enough, sub_self]
          exact Returns.of_next step
            (Returns.of_done (crossBody_done validAfter.linked _ _ (Or.inl le_rfl)))
      · have stops : qty = 0 ∨ ∀ {other : P} {found : L3PriceLevel P},
            side.levels.begin? = some (other, found) →
              ¬ Crosses isSell aggressor.price other := by
          by_cases empty : qty = 0
          · exact Or.inl empty
          · right
            intro other found otherFirst crosses
            rw [first] at otherFirst
            cases otherFirst
            exact entered ⟨by omega, crosses⟩
        obtain ⟨outcome, nothing⟩ := valid.crossOutcome_self nonneg stops
        refine ⟨side, [], removed, ?_, outcome⟩
        simpa [nothing] using Returns.of_done
          (crossBody_done valid.linked events removed (stops.imp_left le_of_eq))

section Best

variable {side : BookSide P isSell} {key : P}

/-- A limit at the best price crosses the best level only. -/
theorem crossingOrders_atFirst {level : L3PriceLevel P}
    (first : side.levels.begin? = some (key, level)) :
    side.crossingOrders key = level.orders := by
  obtain ⟨others, entriesEq⟩ := SortedMap.begin?_eq_some_iff.mp first
  have none : (others.filter fun entry => Crosses isSell key entry.1) = [] := by
    rw [List.filter_eq_nil_iff]
    rintro ⟨other, found⟩ mem crosses
    have sorted := side.levels.sorted
    rw [entriesEq, List.pairwise_cons] at sorted
    exact (decide_eq_true_eq.mp crosses) (sorted.1 _ mem)
  rw [crossingOrders_first entriesEq (irrefl key), none]
  simp

/-- A quantity that the best level can fill is executed there. -/
theorem Valid.fills_best (valid : side.Valid slack) {level : L3PriceLevel P} {price : P}
    {qty : ℤ} (first : side.levels.begin? = some (key, level))
    (crosses : Crosses isSell price key) (nonneg : 0 ≤ qty)
    (enough : qty ≤ totalRemaining (side.ordersAt key)) :
    fills qty (side.crossingOrders price) = fills qty (side.ordersAt key) ∧
      qty ≤ totalRemaining (side.crossingOrders price) := by
  obtain ⟨others, entriesEq⟩ := SortedMap.begin?_eq_some_iff.mp first
  have crossingEq := crossingOrders_first entriesEq crosses
  rw [← ordersAt_of_find? (SortedMap.find?_of_begin? first)] at crossingEq
  have crossingRemain := valid.crossing_remain price
  rw [crossingEq] at crossingRemain ⊢
  constructor
  · rw [fills_append _ (valid.allRemain key) nonneg, min_eq_left enough, sub_self, fills_zero,
      List.append_nil]
  · rw [totalRemaining_append]
    have restRemain := QueueFill.Positive.total_nonneg
      fun order mem => crossingRemain order (List.mem_append_right _ mem)
    exact enough.trans (le_add_of_nonneg_right restRemain)

end Best

theorem processCrossedOrder_monotone [Zero P] (side : BookSide P isSell) (order : Order P) :
    FuelMonotone fun fuel => side.processCrossedOrder fuel order :=
  (FuelMonotone.const _).bind fun _ => (loop_monotone _).bind fun _ => FuelMonotone.const _

/-- An aggressor with nothing left does not enter the loop. -/
theorem Linked.processCrossedOrder_idle [Zero P] {side : BookSide P isSell}
    (linked : side.Linked) {order : Order P} (opposite : order.isSell ≠ isSell)
    (nothing : order.getRemainingQuantity ≤ 0) :
    Returns (fun fuel => side.processCrossedOrder fuel order) (side, order, []) := by
  have stops : processCrossedOrderBody ⟨side, order, order.getRemainingQuantity, [], []⟩ =
      .ok (.done ⟨side, order, order.getRemainingQuantity, [], []⟩) :=
    crossBody_done linked [] [] (Or.inl nothing)
  refine ⟨1, ?_⟩
  simp [processCrossedOrder, assertThat_of opposite, loop, stops]

/-- `processCrossedOrder` returns for every opposite order, and fills it along the
orders that its price crosses. -/
theorem Valid.processCrossedOrder_returns [Zero P] {side : BookSide P isSell}
    (valid : side.Valid slack) {order : Order P} (opposite : order.isSell ≠ isSell)
    (nonneg : 0 ≤ order.getRemainingQuantity) :
    ∃ final events,
      Returns (fun fuel => side.processCrossedOrder fuel order)
        (final, order.fill (min order.getRemainingQuantity
          (totalRemaining (side.crossingOrders order.price))), events) ∧
      CrossOutcome slack side order.price order.getRemainingQuantity final events := by
  obtain ⟨final, events, lastRemoved, ⟨fuel, returned⟩, outcome⟩ :=
    valid.crossLoop nonneg order [] []
  refine ⟨final, events, ⟨fuel, ?_⟩, outcome⟩
  simp only [processCrossedOrder, assertThat_of opposite, ok_bind, returned]
  simp

end OrderBook.BookSide
