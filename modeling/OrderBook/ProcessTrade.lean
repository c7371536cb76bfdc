import OrderBook.CrossedOrder

/-!
# Trades on one side

`processTrade` takes from the expected removals first, cancels every level that
is better than the trade price, fills the level of the price, and books what is
left of the trade as liquidity to come.  Each step is a change of the levels
that can be written down, so the whole call is.
-/

namespace OrderBook

open FueledLoop

section Views

variable {P : Type} [LinearOrder P] {isSell : Bool}

/-- The views saved while the orders `gone` are removed one by one from the front
of the level under `key`. -/
def removalViews (levels : SortedMap P (L3PriceLevel P) (PriceComparator isSell)) (key : P)
    (rest : List (Order P)) : ℤ → List (Order P) → List (L2SnapshotSide P)
  | _, [] => []
  | quantity, order :: gone =>
      viewOf (BookSide.putOrders levels key (quantity - order.getRemainingQuantity)
        (gone ++ rest)) ::
          removalViews levels key rest (quantity - order.getRemainingQuantity) gone

theorem removalViews_putOrders
    (levels : SortedMap P (L3PriceLevel P) (PriceComparator isSell)) (key : P)
    (rest : List (Order P)) (other quantity : ℤ) (orders gone : List (Order P)) :
    removalViews (BookSide.putOrders levels key other orders) key rest quantity gone =
      removalViews levels key rest quantity gone := by
  induction gone generalizing quantity with
  | nil => rfl
  | cons order gone ih => simp [removalViews, BookSide.putOrders_putOrders, ih]

/-- The views saved while whole levels are cancelled. -/
def cancelViews (levels : SortedMap P (L3PriceLevel P) (PriceComparator isSell)) :
    List (P × L3PriceLevel P) → List (L2SnapshotSide P)
  | [] => []
  | (key, level) :: others =>
      removalViews levels key [] level.quantity level.orders ++
        cancelViews (levels.erase key) others

/-- The `CANCEL` events of implicit cancels: they carry the original quantity. -/
def cancelEvents (isSell : Bool) (orders : List (Order P)) : OrderInfoVec P :=
  orders.map fun order => ⟨.cancel, order.odid, isSell, order.quantity, order.price⟩

end Views

namespace BookSide

variable {P : Type} [LinearOrder P] {isSell : Bool} {slack : Set ℤ}

/-- The levels with a better price than `price`. -/
def betterLevels (side : BookSide P isSell) (price : P) : List (P × L3PriceLevel P) :=
  side.levels.entries.filter fun entry => PriceComparator isSell entry.1 price

/-- The levels that are left when all better ones are cancelled. -/
def retainedLevels (side : BookSide P isSell) (price : P) :
    SortedMap P (L3PriceLevel P) (PriceComparator isSell) :=
  side.levels.retain fun key => ¬ PriceComparator isSell key price

theorem find?_retainedLevels (side : BookSide P isSell) (price key : P) :
    (side.retainedLevels price).find? key =
      if PriceComparator isSell key price then none else side.levels.find? key := by
  rw [retainedLevels, SortedMap.find?_retain, ite_not]

theorem retainedLevels_of_none {side : BookSide P isSell} {price : P}
    (none : side.betterLevels price = []) : side.retainedLevels price = side.levels := by
  apply SortedMap.ext_find?
  intro key
  rw [find?_retainedLevels]
  split
  · next better =>
      symm
      rw [SortedMap.find?_eq_none_iff]
      intro level mem
      exact List.filter_eq_nil_iff.mp none _ mem (by simpa using better)
  · rfl

/-- No level is better than the price when the best one is not. -/
theorem betterLevels_eq_nil {side : BookSide P isSell} {price : P}
    (notBetter : ∀ {key : P} {level : L3PriceLevel P},
      side.levels.begin? = some (key, level) → ¬ PriceComparator isSell key price) :
    side.betterLevels price = [] := by
  have none := SortedMap.none_of_begin? (fun better => Trans.trans better) notBetter
  rw [betterLevels, List.filter_eq_nil_iff]
  simpa using none

/-- The side after the level under `key` is cancelled. -/
def cancelLevel (side : BookSide P isSell) (key : P) (level : L3PriceLevel P) :
    BookSide P isSell :=
  { side with
    levels := side.levels.erase key
    orderMap := (ids level.orders).foldl SortedMap.erase side.orderMap
    l2SnapQueue := side.l2SnapQueue ++
      removalViews side.levels key [] level.quantity level.orders }

theorem betterLevels_first {side : BookSide P isSell} {key price : P}
    {level : L3PriceLevel P} {others : List (P × L3PriceLevel P)}
    (entriesEq : side.levels.entries = (key, level) :: others)
    (better : PriceComparator isSell key price) :
    side.betterLevels price = (key, level) ::
      (side.cancelLevel key level).betterLevels price := by
  simp [betterLevels, BookSide.cancelLevel, entriesEq, better,
    SortedMap.entries_erase_first entriesEq]

/-- The side after step 2 with `qty` left to match. -/
def tradedLevel (side : BookSide P isSell) (price : P) (qty : ℤ) : BookSide P isSell :=
  { side.fillLevel price qty with
    l2SnapQueue := side.l2SnapQueue ++
      fillViews side.l2View price (side.quantityAt price) (fills qty (side.ordersAt price)) ++
      removalViews side.levels price (fillFront qty (side.ordersAt price))
        (side.quantityAt price - min qty (totalRemaining (side.ordersAt price)))
        ((usedUp qty (side.ordersAt price)).map
          fun order => order.fill order.getRemainingQuantity) }

theorem tradedLevel_of_none {side : BookSide P isSell} {price : P}
    (absent : side.levels.find? price = none) (qty : ℤ) : side.tradedLevel price qty = side := by
  simp [tradedLevel, fillLevel, ordersAt_of_none absent, putOrders, fills, usedUp, fillFront,
    QueueFill.pieces, QueueFill.exhausted, QueueFill.remaining, fillViews, removalViews,
    SortedMap.erase_of_find?_none absent]

/-- What is left of a trade once the expected removals have taken their part. -/
def restQty (side : BookSide P isSell) (trade : Trade P) : ℤ :=
  trade.quantity - min (qtyAt side.pendingLiqRemoveQty trade.price) trade.quantity

theorem restQty_nonneg {side : BookSide P isSell} {trade : Trade P} : 0 ≤ side.restQty trade := by
  have := min_le_right (qtyAt side.pendingLiqRemoveQty trade.price) trade.quantity
  simp only [restQty]
  omega

theorem Valid.debited {side : BookSide P isSell} (valid : side.Valid slack) {price : P}
    {qty : ℤ} (covered : qty ≤ qtyAt side.pendingLiqRemoveQty price) :
    ({ side with pendingLiqRemoveQty := debit side.pendingLiqRemoveQty price qty } :
      BookSide P isSell).Valid slack :=
  valid.congr rfl rfl ⟨valid.ledgers.remove_pos.debit covered, valid.ledgers.add_nonneg⟩

theorem Valid.creditAdd {side : BookSide P isSell} (valid : side.Valid slack) (price : P)
    {qty : ℤ} (nonneg : 0 ≤ qty) :
    ({ side with pendingLiqAddQty := credit side.pendingLiqAddQty price qty } :
      BookSide P isSell).Valid slack := by
  refine valid.congr rfl rfl ⟨valid.ledgers.remove_pos, ?_⟩
  intro key held found
  rw [credit, SortedMap.find?_insert] at found
  split at found
  · cases found
    cases old : side.pendingLiqAddQty.find? price with
    | none => simpa using nonneg
    | some before =>
        have := valid.ledgers.add_nonneg old
        simp only [Option.getD_some]
        omega
  · exact valid.ledgers.add_nonneg found

theorem Linked.save {side : BookSide P isSell} (linked : side.Linked) :
    side.saveL2SnapshoSide.Linked :=
  linked.congr rfl rfl

variable [Zero P]

/-! ### Removing orders with a saved view each -/

theorem Linked.removeFrontSave {side : BookSide P isSell} (linked : side.Linked) {key : P}
    {quantity : ℤ} {gone rest : List (Order P)}
    (found : side.levels.find? key = some (.ofOrders key quantity (gone ++ rest))) :
    (ids gone).foldl removeAndSave side =
      { side with
        levels := putOrders side.levels key (quantity - totalRemaining gone) rest
        orderMap := (ids gone).foldl SortedMap.erase side.orderMap
        l2SnapQueue := side.l2SnapQueue ++
          removalViews side.levels key rest quantity gone } := by
  induction gone generalizing side quantity with
  | nil =>
      have unchanged := putOrders_self found (linked.level found).nonempty
      simp only [List.nil_append] at unchanged
      simp [unchanged, removalViews]
  | cons order gone ih =>
      have removed := linked.removeFirst_eq found
      have linkedAfter := linked.removeOrder_linked order.odid
      simp only [List.map_cons, List.foldl_cons]
      by_cases last : gone ++ rest = []
      · obtain ⟨rfl, rfl⟩ := List.append_eq_nil_iff.mp last
        simp [removeAndSave, saveL2SnapshoSide, removed, putOrders, removalViews,
          l2View_eq_viewOf]
      · rw [removed] at linkedAfter
        rw [removeAndSave, removed]
        have foundAfter : (putOrders side.levels key
            (quantity - order.getRemainingQuantity) (gone ++ rest)).find? key =
              some (.ofOrders key (quantity - order.getRemainingQuantity) (gone ++ rest)) := by
          simp [find?_putOrders, last]
        rw [ih linkedAfter.save foundAfter]
        simp [saveL2SnapshoSide, putOrders_putOrders, removalViews, removalViews_putOrders,
          sub_sub, l2View_eq_viewOf]

/-! ### Step 1: implicit cancels -/

/-- Removing every order of a level erases the level. -/
theorem Linked.removeLevel {side : BookSide P isSell} (linked : side.Linked) {key : P}
    {level : L3PriceLevel P} (found : side.levels.find? key = some level) :
    (ids level.orders).foldl removeAndSave side = side.cancelLevel key level := by
  have atKey : side.levels.find? key =
      some (.ofOrders key level.quantity (level.orders ++ [])) := by
    rw [List.append_nil, ← (linked.level found).eq_ofOrders, found]
  rw [linked.removeFrontSave atKey]
  simp [cancelLevel, putOrders]

theorem Linked.implicitCancelBody_next {side : BookSide P isSell} (linked : side.Linked)
    {key price : P} {level : L3PriceLevel P} (first : side.levels.begin? = some (key, level))
    (better : PriceComparator isSell key price) (events : OrderInfoVec P) :
    implicitCancelBody price (side, events) =
      .ok (.next (side.cancelLevel key level, events ++ cancelEvents isSell level.orders)) := by
  have cancels : (if isSell then decide (key < price) else decide (key > price)) = true := by
    have := priceComparator_iff.mp better
    cases isSell <;> simpa using this
  simp only [implicitCancelBody, first, cancels, if_true, pure_eq_ok]
  rw [linked.removeLevel (SortedMap.find?_of_begin? first), cancelEvents]

theorem implicitCancelBody_done {side : BookSide P isSell} {price : P}
    (notBetter : ∀ {key : P} {level : L3PriceLevel P},
      side.levels.begin? = some (key, level) → ¬ PriceComparator isSell key price)
    (events : OrderInfoVec P) :
    implicitCancelBody price (side, events) = .ok (.done (side, events)) := by
  cases first : side.levels.begin? with
  | none => simp [implicitCancelBody, first]
  | some entry =>
      have keeps : (if isSell then decide (entry.1 < price) else decide (entry.1 > price)) =
          false := by
        have := mt priceComparator_iff.mpr (notBetter first)
        cases isSell <;> simpa using this
      simp [implicitCancelBody, first, keeps]

theorem Valid.cancelLevel {side : BookSide P isSell} (valid : side.Valid slack) {key : P}
    {level : L3PriceLevel P} (found : side.levels.find? key = some level) :
    (side.cancelLevel key level).Valid slack := by
  have atKey : side.levels.find? key =
      some (.ofOrders key level.quantity (level.orders ++ [])) := by
    rw [List.append_nil, ← (valid.linked.level found).eq_ofOrders, found]
  have removed := valid.foldl_removeOrder (ids level.orders)
  rw [valid.linked.removeFront atKey] at removed
  refine removed.congr ?_ rfl (valid.ledgers.congr rfl rfl)
  simp [BookSide.cancelLevel, putOrders]

/-- What the implicit cancels leave behind. -/
structure CancelOutcome (slack : Set ℤ) (side : BookSide P isSell) (price : P)
    (final : BookSide P isSell) : Prop where
  valid : final.Valid slack
  levels_eq : final.levels = side.retainedLevels price
  remove_eq : final.pendingLiqRemoveQty = side.pendingLiqRemoveQty
  add_eq : final.pendingLiqAddQty = side.pendingLiqAddQty
  queue_eq : final.l2SnapQueue =
    side.l2SnapQueue ++ cancelViews side.levels (side.betterLevels price)

/-- The implicit cancels end, and remove exactly the better levels. -/
theorem Valid.implicitCancel_returns {side : BookSide P isSell} (valid : side.Valid slack)
    (price : P) (events : OrderInfoVec P) :
    ∃ final,
      Returns (fun fuel => loop (implicitCancelBody price) fuel (side, events))
        (final, events ++ cancelEvents isSell
          ((side.betterLevels price).flatMap fun entry => entry.2.orders)) ∧
      CancelOutcome slack side price final := by
  generalize entriesEq : side.levels.entries = entries
  induction entries generalizing side events with
  | nil =>
      have none : side.betterLevels price = [] := by simp [betterLevels, entriesEq]
      have stops : implicitCancelBody price (side, events) = .ok (.done (side, events)) :=
        implicitCancelBody_done (by simp [SortedMap.begin?_eq_none_iff.mpr entriesEq]) events
      refine ⟨side, ?_, valid, (retainedLevels_of_none none).symm, rfl, rfl, ?_⟩
      · simpa [none, cancelEvents] using Returns.of_done stops
      · simp [none, cancelViews]
  | cons entry others ih =>
      obtain ⟨key, level⟩ := entry
      have first : side.levels.begin? = some (key, level) :=
        SortedMap.begin?_eq_some_iff.mpr ⟨others, entriesEq⟩
      have found := SortedMap.find?_of_begin? first
      by_cases better : PriceComparator isSell key price
      · obtain ⟨final, returns, outcome⟩ := ih (valid.cancelLevel found)
          (events ++ cancelEvents isSell level.orders)
          (SortedMap.entries_erase_first entriesEq)
        have step := valid.linked.implicitCancelBody_next first better events
        refine ⟨final, ?_, outcome.valid, ?_, outcome.remove_eq, outcome.add_eq, ?_⟩
        · rw [betterLevels_first entriesEq better]
          simpa [cancelEvents] using Returns.of_next step returns
        · rw [outcome.levels_eq]
          apply SortedMap.ext_find?
          intro other
          simp only [find?_retainedLevels, BookSide.cancelLevel, SortedMap.find?_erase]
          by_cases same : other = key
          · simp [same, better]
          · simp [same]
        · rw [outcome.queue_eq, betterLevels_first entriesEq better, cancelViews]
          simp [BookSide.cancelLevel]
      · have notBetter : ∀ {other : P} {found : L3PriceLevel P},
            side.levels.begin? = some (other, found) →
              ¬ PriceComparator isSell other price := by
          intro other otherLevel otherFirst
          rw [first] at otherFirst
          cases otherFirst
          exact better
        have none := betterLevels_eq_nil notBetter
        refine ⟨side, ?_, valid, (retainedLevels_of_none none).symm, rfl, rfl, ?_⟩
        · simpa [none, cancelEvents] using
            Returns.of_done (implicitCancelBody_done notBetter events)
        · simp [none, cancelViews]

/-! ### Step 2: the level of the trade price -/

theorem Valid.tradeLevel_eq {side : BookSide P isSell} (valid : side.Valid slack) (price : P)
    {qty : ℤ} (nonneg : 0 ≤ qty) (events : OrderInfoVec P) :
    side.tradeLevel price qty events = .ok (side.tradedLevel price qty,
      qty - min qty (totalRemaining (side.ordersAt price)),
      events ++ execEvents isSell (fills qty (side.ordersAt price))) := by
  cases found : side.levels.find? price with
  | none =>
      have nothing : min qty 0 = 0 := min_eq_right nonneg
      simp [tradeLevel, found, tradedLevel_of_none found, ordersAt_of_none found, fills,
        QueueFill.pieces, execEvents, nothing]
  | some level =>
      have atPrice := find?_ofOrders valid.linked found
      have remain := valid.allRemain price
      have nonempty : side.ordersAt price ≠ [] := by
        simpa [ordersAt_of_find? found] using (valid.linked.level found).nonempty
      have filled := foldlM_tradeFill events [] atPrice nonempty (valid.linked.nodup price)
        remain nonneg
      simp only [tradeLevel, found]
      rw [← ordersAt_of_find? found, filled, ok_bind]
      simp only [pure_eq_ok, List.nil_append]
      congr 2
      let passed : BookSide P isSell := { side with
        levels := putOrders side.levels price
          (side.quantityAt price - min qty (totalRemaining (side.ordersAt price)))
          (fillEach qty (side.ordersAt price))
        l2SnapQueue := side.l2SnapQueue ++ fillViews side.l2View price
          (side.quantityAt price) (fills qty (side.ordersAt price)) }
      have passedLinked : passed.Linked := valid.linked.fillEach_linked rfl rfl
      have removed := passedLinked.removeFrontSave
        (valid.linked.find?_fillEach found remain nonneg (show passed.levels = _ from rfl))
      rw [ids_filledUp, totalRemaining_filledUp, sub_zero] at removed
      apply removed.trans
      simp only [passed, putOrders_putOrders, removalViews_putOrders]
      rfl

theorem Valid.tradedLevel {side : BookSide P isSell} (valid : side.Valid slack) (price : P)
    {qty : ℤ} (nonneg : 0 ≤ qty) : (side.tradedLevel price qty).Valid slack := by
  cases found : side.levels.find? price with
  | none => rwa [tradedLevel_of_none found]
  | some level =>
      exact (valid.fillLevel found nonneg).congr rfl rfl (valid.ledgers.congr rfl rfl)

/-! ### The whole call -/

/-- What `processTrade` leaves behind. -/
structure TradeOutcome (slack : Set ℤ) (side : BookSide P isSell) (trade : Trade P)
    (final : BookSide P isSell) (events : OrderInfoVec P) : Prop where
  valid : final.Valid slack
  levels_eq : final.levels = putOrders (side.retainedLevels trade.price) trade.price
    (side.quantityAt trade.price -
      min (side.restQty trade) (totalRemaining (side.ordersAt trade.price)))
    (fillFront (side.restQty trade) (side.ordersAt trade.price))
  remove_eq : final.pendingLiqRemoveQty = debit side.pendingLiqRemoveQty trade.price
    (min (qtyAt side.pendingLiqRemoveQty trade.price) trade.quantity)
  add_eq : final.pendingLiqAddQty =
    if totalRemaining (side.ordersAt trade.price) < side.restQty trade then
      credit side.pendingLiqAddQty trade.price
        (side.restQty trade - totalRemaining (side.ordersAt trade.price))
    else side.pendingLiqAddQty
  events_eq : events =
    cancelEvents isSell
        ((side.betterLevels trade.price).flatMap fun entry => entry.2.orders) ++
      execEvents isSell (fills (side.restQty trade) (side.ordersAt trade.price)) ++
      if totalRemaining (side.ordersAt trade.price) < side.restQty trade then
        [⟨.add, -1, isSell,
            side.restQty trade - totalRemaining (side.ordersAt trade.price), trade.price⟩,
          ⟨.exec, -1, isSell,
            side.restQty trade - totalRemaining (side.ordersAt trade.price), trade.price⟩]
      else []
  queue_eq : final.l2SnapQueue = side.l2SnapQueue ++
    (cancelViews side.levels (side.betterLevels trade.price) ++
      fillViews (viewOf (side.retainedLevels trade.price)) trade.price
        (side.quantityAt trade.price)
        (fills (side.restQty trade) (side.ordersAt trade.price)) ++
      removalViews (side.retainedLevels trade.price) trade.price
        (fillFront (side.restQty trade) (side.ordersAt trade.price))
        (side.quantityAt trade.price -
          min (side.restQty trade) (totalRemaining (side.ordersAt trade.price)))
        ((usedUp (side.restQty trade) (side.ordersAt trade.price)).map
          fun order => order.fill order.getRemainingQuantity))

theorem processTrade_monotone (side : BookSide P isSell) (trade : Trade P) :
    FuelMonotone fun fuel => side.processTrade fuel trade :=
  (loop_monotone _).bind fun _ => FuelMonotone.const _

/-- `processTrade` returns for every trade. -/
theorem Valid.processTrade_returns {side : BookSide P isSell} (valid : side.Valid slack)
    (trade : Trade P) (nonneg : 0 ≤ trade.quantity) :
    ∃ final events, Returns (fun fuel => side.processTrade fuel trade) (final, events) ∧
      TradeOutcome slack side trade final events := by
  have matched := matchPendingLiqRemove_eq valid.ledgers.remove_pos nonneg trade.price
  have validMatched := valid.debited
    (min_le_left (qtyAt side.pendingLiqRemoveQty trade.price) trade.quantity)
  obtain ⟨cancelled, ⟨fuel, cancels⟩, outcome⟩ :=
    validMatched.implicitCancel_returns trade.price []
  set events := cancelEvents isSell
    ((side.betterLevels trade.price).flatMap fun entry => entry.2.orders)
  change loop (implicitCancelBody trade.price) fuel _ = .ok (cancelled, events) at cancels
  -- the level of the trade price is not better than itself
  have sameLevel : cancelled.levels.find? trade.price = side.levels.find? trade.price := by
    rw [outcome.levels_eq, find?_retainedLevels, if_neg (irrefl trade.price)]
  have sameOrders : cancelled.ordersAt trade.price = side.ordersAt trade.price := by
    rw [ordersAt, sameLevel, ordersAt]
  have sameQuantity : cancelled.quantityAt trade.price = side.quantityAt trade.price := by
    rw [quantityAt, sameLevel, quantityAt]
  have restNonneg : 0 ≤ side.restQty trade := restQty_nonneg
  have traded := outcome.valid.tradeLevel_eq trade.price restNonneg events
  have validTraded := outcome.valid.tradedLevel trade.price restNonneg
  have levelsEq : (cancelled.tradedLevel trade.price (side.restQty trade)).levels =
      putOrders (side.retainedLevels trade.price) trade.price
        (side.quantityAt trade.price -
          min (side.restQty trade) (totalRemaining (side.ordersAt trade.price)))
        (fillFront (side.restQty trade) (side.ordersAt trade.price)) := by
    rw [← sameOrders, ← sameQuantity]
    exact congrArg (fun levels => putOrders levels _ _ _) outcome.levels_eq
  have queueEq : (cancelled.tradedLevel trade.price (side.restQty trade)).l2SnapQueue =
      side.l2SnapQueue ++ (cancelViews side.levels (side.betterLevels trade.price) ++
        fillViews (viewOf (side.retainedLevels trade.price)) trade.price
          (side.quantityAt trade.price)
          (fills (side.restQty trade) (side.ordersAt trade.price)) ++
        removalViews (side.retainedLevels trade.price) trade.price
          (fillFront (side.restQty trade) (side.ordersAt trade.price))
          (side.quantityAt trade.price -
            min (side.restQty trade) (totalRemaining (side.ordersAt trade.price)))
          ((usedUp (side.restQty trade) (side.ordersAt trade.price)).map
            fun order => order.fill order.getRemainingQuantity)) := by
    simp only [BookSide.tradedLevel, l2View_eq_viewOf, sameOrders, sameQuantity,
      outcome.levels_eq, outcome.queue_eq, List.append_assoc]
    rfl
  rw [sameOrders] at traded
  by_cases more : totalRemaining (side.ordersAt trade.price) < side.restQty trade
  · have leftover : side.restQty trade -
        min (side.restQty trade) (totalRemaining (side.ordersAt trade.price)) =
          side.restQty trade - totalRemaining (side.ordersAt trade.price) := by
      omega
    rw [leftover] at traded
    refine ⟨_, _, ⟨fuel, ?_⟩, validTraded.creditAdd trade.price
      (show 0 ≤ side.restQty trade - totalRemaining (side.ordersAt trade.price) by omega),
      levelsEq, outcome.remove_eq, ?_, rfl, queueEq⟩
    · unfold restQty at traded
      simp only [processTrade, matched, cancels, ok_bind, traded]
      unfold restQty at more
      rw [if_pos (by omega), restQty, if_pos more]
      rfl
    · rw [if_pos more]
      exact congrArg (fun pending => credit pending _ _) outcome.add_eq
  · have leftover : side.restQty trade -
        min (side.restQty trade) (totalRemaining (side.ordersAt trade.price)) = 0 := by
      omega
    rw [leftover] at traded
    refine ⟨_, _, ⟨fuel, ?_⟩, validTraded, levelsEq, outcome.remove_eq, ?_, rfl, queueEq⟩
    · unfold restQty at traded
      simp only [processTrade, matched, cancels, ok_bind, traded]
      rw [if_neg (lt_irrefl 0), if_neg more, List.append_nil]
      rfl
    · rw [if_neg more]
      exact outcome.add_eq

end BookSide

end OrderBook
