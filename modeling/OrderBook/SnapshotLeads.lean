import OrderBook.SnapshotTrace
import OrderBook.StreamOrder

/-!
# Snapshots ahead of the other streams

A snapshot may show a change before the messages that explain it.  For new
liquidity the reconciliation records what the late `ADD` messages will bring, under
an invented order.  For liquidity that has gone it records nothing: the late trades
and cancels meet the book that the reconciliation has already lowered.
-/

namespace OrderBook

open FueledLoop InputRun

variable {P : Type} [LinearOrder P] {isSell : Bool}

namespace BookSide

variable {side next : BookSide P isSell} {key : P}

/-! ### Views and level quantities -/

theorem quantityAt_of_mem_l2View {l2Level : L2PriceLevel P} (mem : l2Level ∈ side.l2View) :
    side.quantityAt l2Level.price = l2Level.quantity := by
  obtain ⟨entry, entryMem, rfl⟩ := List.mem_map.mp mem
  have found : side.levels.find? entry.1 = some entry.2 :=
    SortedMap.find?_eq_some_iff.mpr entryMem
  simp [quantityAt, found]

theorem quantityAt_of_not_mem (missing : key ∉ side.l2View.map L2PriceLevel.price) :
    side.quantityAt key = 0 := by
  have absent : side.levels.find? key = none := by
    refine SortedMap.find?_eq_none_iff.mpr fun level entryMem => missing ?_
    exact List.mem_map.mpr ⟨_, List.mem_map.mpr ⟨_, entryMem, rfl⟩, rfl⟩
  simp [quantityAt, absent]

/-- The view determines the quantity at every price. -/
theorem quantityAt_of_l2View (same : next.l2View = side.l2View) (key : P) :
    next.quantityAt key = side.quantityAt key := by
  by_cases shown : key ∈ side.l2View.map L2PriceLevel.price
  · obtain ⟨l2Level, mem, rfl⟩ := List.mem_map.mp shown
    rw [quantityAt_of_mem_l2View mem, quantityAt_of_mem_l2View (same ▸ mem)]
  · rw [quantityAt_of_not_mem shown, quantityAt_of_not_mem (same ▸ shown)]

theorem l2View_prices_nodup (side : BookSide P isSell) :
    (side.l2View.map L2PriceLevel.price).Nodup := by
  rw [l2View, List.map_map]
  exact List.pairwise_map.mpr (SortedMap.keys_ne side.levels)

theorem Valid.l2View_pos (valid : side.Valid {0}) :
    ∀ l2Level ∈ side.l2View, 0 < l2Level.quantity := by
  intro l2Level mem
  obtain ⟨entry, entryMem, rfl⟩ := List.mem_map.mp mem
  have found : side.levels.find? entry.1 = some entry.2 :=
    SortedMap.find?_eq_some_iff.mpr entryMem
  have remain := valid.allRemain entry.1
  rw [ordersAt_of_find? found] at remain
  rw [← sub_eq_zero.mp (valid.counted found)]
  exact remain.total_pos (valid.linked.level found).nonempty

theorem inventions_eq_nil {snapshot : L2SnapshotSide P}
    (enough : ∀ l2Level ∈ snapshot, l2Level.quantity ≤ side.quantityAt l2Level.price) :
    side.inventions snapshot = [] := by
  apply List.filterMap_eq_nil_iff.mpr
  intro l2Level mem
  rw [if_neg (not_lt.mpr (enough l2Level mem))]

theorem lowerings_eq_nil {snapshot : L2SnapshotSide P}
    (notLess : ∀ l2Level ∈ snapshot, side.quantityAt l2Level.price ≤ l2Level.quantity) :
    side.lowerings snapshot = [] := by
  apply List.filterMap_eq_nil_iff.mpr
  intro l2Level mem
  rw [if_neg (not_lt.mpr (notLess l2Level mem))]

theorem dropped_eq_nil {snapshot : L2SnapshotSide P}
    (shown : ∀ l2Level ∈ side.l2View, l2Level.price ∈ snapshot.map L2PriceLevel.price) :
    side.dropped snapshot = [] := by
  apply List.filterMap_eq_nil_iff.mpr
  intro entry mem
  rw [if_neg (not_not.mpr (shown ⟨entry.1, entry.2.quantity⟩ (List.mem_map_of_mem mem)))]

/-! ### A snapshot with less at the best price -/

/-- The view with `removed` less at its best price. -/
def lowered (best : L2PriceLevel P) (others : L2SnapshotSide P) (removed : ℤ) :
    L2SnapshotSide P :=
  if removed = best.quantity then others else ⟨best.price, best.quantity - removed⟩ :: others

section Lowered

variable {best : L2PriceLevel P} {others : L2SnapshotSide P} {removed : ℤ}

theorem exists_first (viewEq : side.l2View = best :: others) :
    ∃ level rest, side.levels.entries = (best.price, level) :: rest ∧
      level.quantity = best.quantity ∧
      others = rest.map fun entry => ⟨entry.1, entry.2.quantity⟩ := by
  unfold l2View at viewEq
  obtain ⟨entry, rest, entriesEq, bestEq, othersEq⟩ := List.map_eq_cons_iff.mp viewEq
  subst bestEq
  exact ⟨entry.2, rest, entriesEq, rfl, othersEq.symm⟩

theorem best_not_mem (viewEq : side.l2View = best :: others) :
    best.price ∉ others.map L2PriceLevel.price := by
  have distinct := side.l2View_prices_nodup
  rw [viewEq, List.map_cons, List.nodup_cons] at distinct
  exact distinct.1

theorem lowered_nodup (viewEq : side.l2View = best :: others) (removed : ℤ) :
    ((lowered best others removed).map L2PriceLevel.price).Nodup := by
  have distinct := side.l2View_prices_nodup
  rw [viewEq, List.map_cons] at distinct
  unfold lowered
  split
  · exact (List.nodup_cons.mp distinct).2
  · exact distinct

theorem Valid.lowered_pos (valid : side.Valid {0}) (viewEq : side.l2View = best :: others)
    (fits : removed ≤ best.quantity) :
    ∀ l2Level ∈ lowered best others removed, 0 < l2Level.quantity := by
  have positive := valid.l2View_pos
  rw [viewEq] at positive
  intro l2Level mem
  unfold lowered at mem
  split at mem
  · exact positive l2Level (List.mem_cons_of_mem _ mem)
  · next different =>
      rcases List.mem_cons.mp mem with rfl | other
      · exact sub_pos.mpr (lt_of_le_of_ne fits different)
      · exact positive l2Level (List.mem_cons_of_mem _ other)

/-- The reconciliation takes the quantity from the front of the best level. -/
theorem Valid.removals_lowered (valid : side.Valid {0}) (viewEq : side.l2View = best :: others)
    (pos : 0 < removed) :
    side.inventions (lowered best others removed) = [] ∧
      side.removals (lowered best others removed) = [(best.price, removed)] := by
  have bestQty : side.quantityAt best.price = best.quantity :=
    quantityAt_of_mem_l2View (viewEq ▸ List.mem_cons_self)
  have otherQty : ∀ l2Level ∈ others, side.quantityAt l2Level.price = l2Level.quantity :=
    fun l2Level mem => quantityAt_of_mem_l2View (viewEq ▸ List.mem_cons_of_mem _ mem)
  have noInventions : side.inventions (lowered best others removed) = [] := by
    apply inventions_eq_nil
    intro l2Level mem
    unfold lowered at mem
    split at mem
    · exact (otherQty l2Level mem).ge
    · rcases List.mem_cons.mp mem with rfl | other
      · rw [bestQty]
        exact sub_le_self _ pos.le
      · exact (otherQty l2Level other).ge
  refine ⟨noInventions, ?_⟩
  have compared : side.comparedSide (lowered best others removed) = side := by
    rw [BookSide.comparedSide, noInventions, BookSide.inventAll]
  have othersKept : side.lowerings others = [] :=
    lowerings_eq_nil fun l2Level mem => (otherQty l2Level mem).le
  rw [removals, compared, lowered]
  split
  · next whole =>
      obtain ⟨level, rest, entriesEq, quantityEq, othersEq⟩ := exists_first viewEq
      have found : side.levels.find? best.price = some level :=
        SortedMap.find?_eq_some_iff.mpr (entriesEq ▸ List.mem_cons_self)
      have counted : totalRemaining level.orders = removed := by
        rw [sub_eq_zero.mp (valid.counted found), quantityEq, whole]
      have restShown : rest.filterMap (fun entry =>
          if entry.1 ∉ others.map L2PriceLevel.price then
            some (entry.1, totalRemaining entry.2.orders)
          else none) = [] := by
        apply List.filterMap_eq_nil_iff.mpr
        intro entry mem
        rw [if_neg (not_not.mpr ?_)]
        rw [othersEq]
        exact List.mem_map.mpr ⟨_, List.mem_map_of_mem mem, rfl⟩
      rw [othersKept, dropped, entriesEq, List.filterMap_cons, if_pos (best_not_mem viewEq),
        restShown, counted]
      rfl
  · next different =>
      have shown : side.dropped (⟨best.price, best.quantity - removed⟩ :: others) = [] := by
        apply dropped_eq_nil
        intro l2Level mem
        rw [viewEq] at mem
        rcases List.mem_cons.mp mem with rfl | other
        · exact List.mem_cons_self
        · exact List.mem_cons_of_mem _ (List.mem_map_of_mem other)
      have less : best.quantity - removed < side.quantityAt best.price := by
        rw [bestQty]
        exact sub_lt_self _ pos
      rw [shown, List.append_nil, lowerings, List.filterMap_cons, if_pos less, bestQty,
        sub_sub_cancel]
      exact congrArg ((best.price, removed) :: ·) othersKept

theorem Valid.l2View_lowered (valid : side.Valid {0}) (viewEq : side.l2View = best :: others)
    (pos : 0 < removed) (fits : removed ≤ best.quantity) :
    (side.fillLevel best.price removed).l2View = lowered best others removed := by
  obtain ⟨level, rest, entriesEq, quantityEq, othersEq⟩ := exists_first viewEq
  have bestQty : side.quantityAt best.price = best.quantity :=
    quantityAt_of_mem_l2View (viewEq ▸ List.mem_cons_self)
  have total : totalRemaining (side.ordersAt best.price) = best.quantity := by
    rw [← valid.quantityAt_eq, bestQty]
  have remain := valid.allRemain best.price
  unfold l2View BookSide.fillLevel putOrders lowered
  by_cases whole : removed = best.quantity
  · rw [if_pos (fillFront_eq_nil remain (by omega)), if_pos whole,
      SortedMap.entries_erase_first entriesEq, othersEq]
  · have short : removed < best.quantity := lt_of_le_of_ne fits whole
    rw [if_neg (fillFront_ne_nil pos.le (by omega)), if_neg whole,
      SortedMap.entries_insert_first entriesEq, List.map_cons, othersEq, total, bestQty,
      min_eq_left fits]
    rfl

variable [Zero P]

/-- A snapshot with less at the best price takes the quantity from the front orders of
that price and records nothing. -/
theorem Valid.processL2Snapshot_lowered (valid : side.Valid {0}) (idle : side.l2SnapQueue = [])
    (viewEq : side.l2View = best :: others) (pos : 0 < removed) (fits : removed ≤ best.quantity) :
    ∃ events, side.processL2Snapshot (lowered best others removed) =
      .ok (side.fillLevel best.price removed, events) := by
  obtain ⟨noInventions, removalsEq⟩ := valid.removals_lowered viewEq pos
  rw [processL2Snapshot_reconciles idle, valid.reconcile_eq (Set.mem_singleton 0)
    (valid.lowered_pos viewEq fits) (lowered_nodup viewEq removed), removalsEq,
    BookSide.comparedSide, noInventions]
  exact ⟨_, rfl⟩

end Lowered

/-! ### Late trades -/

section Late

variable [Zero P]

/-- The snapshot is processed, then the late calls, and the view is still the one of the
snapshot. -/
def SettlesTo (side : BookSide P isSell) (snapshot : L2SnapshotSide P)
    (late : List (SideCall P)) : Prop :=
  ∃ after events final, side.processL2Snapshot snapshot = .ok (after, events) ∧
    Run CallStep after late final ∧ final.l2View = snapshot

/-- What the calls lead to decides. -/
theorem settlesTo_iff {after final : BookSide P isSell} {snapshot : L2SnapshotSide P}
    {events : OrderInfoVec P} {late : List (SideCall P)}
    (processed : side.processL2Snapshot snapshot = .ok (after, events))
    (run : Run CallStep after late final) :
    side.SettlesTo snapshot late ↔ final.l2View = snapshot := by
  constructor
  · rintro ⟨other, otherEvents, otherFinal, otherProcessed, otherRun, viewEq⟩
    rw [processed] at otherProcessed
    cases otherProcessed
    rw [run.unique CallStep.unique otherRun]
    exact viewEq
  · intro viewEq
    exact ⟨after, events, final, processed, run, viewEq⟩

/-- Trades at the best price that nothing announces fill its level. -/
theorem Valid.lateTrades (valid : side.Valid {0}) (none : side.NoneBetter key)
    {after : BookSide P isSell} (afterValid : after.Valid {0}) {taken : ℤ} (nonneg : 0 ≤ taken)
    (levelsEq : after.levels = (side.fillLevel key taken).levels)
    (nothing : after.pendingLiqRemoveQty = .empty) {trades : List (Trade P)}
    (atKey : ∀ trade ∈ trades, 0 < trade.quantity ∧ trade.price = key) :
    ∃ final, Run CallStep after (trades.map SideCall.processTrade) final ∧
      final.levels = (side.fillLevel key (taken + (trades.map Trade.quantity).sum)).levels := by
  induction trades generalizing after taken with
  | nil => exact ⟨after, .start, by simpa using levelsEq⟩
  | cons trade trades ih =>
      obtain ⟨pos, priceEq⟩ := atKey trade List.mem_cons_self
      obtain ⟨next, events, returns, outcome⟩ := afterValid.processTrade_returns trade pos.le
      have afterNone : after.NoneBetter trade.price := by
        rw [priceEq]
        exact none.of_narrows
          ((Narrows.of_levels levelsEq).trans (valid.fillLevel_narrows key taken))
      obtain ⟨nextLevels, nextNothing, -⟩ :=
        outcome.levels_of_unexpected afterNone pos.le nothing
      have nextEq : next.levels = (side.fillLevel key (taken + trade.quantity)).levels := by
        rw [nextLevels, priceEq]
        exact fillLevel_add (valid.allRemain key) nonneg pos.le levelsEq
      obtain ⟨final, run, finalEq⟩ := ih outcome.valid (by omega) nextEq nextNothing
        fun other mem => atKey other (List.mem_cons_of_mem _ mem)
      have stepped : after.CallStep (.processTrade trade) next :=
        ⟨pos, Returns.bind (processTrade_monotone after trade) (FuelMonotone.const _) returns
          (.const rfl)⟩
      refine ⟨final, run.cons stepped, ?_⟩
      rw [finalEq, List.map_cons, List.sum_cons, add_assoc]

/-! ### Late cancels -/

/-- A cancel that nothing announces removes its order. -/
theorem processOrderCancel_unexpected (nothing : side.pendingLiqRemoveQty = .empty) (id : ℤ)
    {quantity : ℤ} (pos : 0 < quantity) (price : P) :
    (side.processOrderCancel id quantity price).1 = side.removeOrder id := by
  have unmatched : side.matchPendingLiqRemove quantity price = (side, 0) := by
    simp [matchPendingLiqRemove, nothing]
  simp only [processOrderCancel, unmatched, sub_zero, pos, true_and]
  split
  · rfl
  · next absent => exact (removeOrder_of_not_exist (Bool.eq_false_iff.mpr absent)).symm

/-- The cancel of an order that rests at a price. -/
def cancelCall (key : P) (order : Order P) : SideCall P :=
  .processOrderCancel order.odid order.getRemainingQuantity key

theorem lateCancels {after : BookSide P isSell} (nothing : after.pendingLiqRemoveQty = .empty)
    {cancelled : List (Order P)} (remain : AllRemain cancelled) (key : P) :
    Run CallStep after (cancelled.map (cancelCall key))
      ((ids cancelled).foldl removeOrder after) := by
  induction cancelled generalizing after with
  | nil => exact .start
  | cons order cancelled ih =>
      have stepped : after.CallStep (cancelCall key order) (after.removeOrder order.odid) :=
        ⟨remain.head, .const (congrArg Except.ok
          (processOrderCancel_unexpected nothing order.odid remain.head key))⟩
      exact (ih ((removeOrder_frame after order.odid).trans nothing) remain.tail).cons stepped

theorem foldl_removeOrder_of_absent {gone : List ℤ}
    (absent : ∀ id ∈ gone, side.existOrder id = false) : gone.foldl removeOrder side = side := by
  induction gone with
  | nil => rfl
  | cons id gone ih =>
      rw [List.foldl_cons, removeOrder_of_not_exist (absent id List.mem_cons_self)]
      exact ih fun other mem => absent other (List.mem_cons_of_mem _ mem)

/-- Removing an order lowers the quantity at its price by what remained of it. -/
theorem Valid.quantityAt_removeOrder (valid : side.Valid {0}) {order : Order P}
    (mem : order ∈ side.ordersAt key) (other : P) :
    (side.removeOrder order.odid).quantityAt other =
      side.quantityAt other - if other = key then order.getRemainingQuantity else 0 := by
  rw [valid.linked.quantityAt_removeOrder mem]
  by_cases same : other = key
  · rw [if_pos same, if_pos same, same]
    split
    · next alone =>
        have total := valid.quantityAt_eq key
        rw [alone, totalRemaining_cons] at total
        simp only [totalRemaining, QueueFill.total_nil] at total
        omega
    · rfl
  · rw [if_neg same, if_neg same, sub_zero]

/-- Removing orders never raises a quantity. -/
theorem Valid.quantityAt_removeOrder_le (valid : side.Valid {0}) (id : ℤ) (other : P) :
    (side.removeOrder id).quantityAt other ≤ side.quantityAt other := by
  cases rests : side.existOrder id with
  | false => rw [removeOrder_of_not_exist rests]
  | true =>
      obtain ⟨key, idMem⟩ := valid.linked.existOrder_iff.mp rests
      obtain ⟨order, mem, rfl⟩ := List.mem_map.mp idMem
      have pos := valid.allRemain key order mem
      rw [valid.quantityAt_removeOrder mem]
      split <;> omega

theorem Valid.quantityAt_foldl_removeOrder_le (valid : side.Valid {0}) (gone : List ℤ)
    (other : P) : (gone.foldl BookSide.removeOrder side).quantityAt other ≤
      side.quantityAt other := by
  induction gone generalizing side with
  | nil => exact le_rfl
  | cons id gone ih =>
      exact (ih (valid.removeOrder id)).trans (valid.quantityAt_removeOrder_le id other)

/-- Once an order that rests is among those removed, some level is lower. -/
theorem Valid.exists_quantityAt_lt (valid : side.Valid {0}) {gone : List ℤ}
    (rests : ∃ id ∈ gone, side.existOrder id = true) :
    ∃ key, (gone.foldl BookSide.removeOrder side).quantityAt key < side.quantityAt key := by
  induction gone generalizing side with
  | nil => simp at rests
  | cons id gone ih =>
      rw [List.foldl_cons]
      cases present : side.existOrder id with
      | false =>
          rw [removeOrder_of_not_exist present]
          obtain ⟨other, otherMem, otherRests⟩ := rests
          refine ih valid ⟨other, ?_, otherRests⟩
          rcases List.mem_cons.mp otherMem with rfl | later
          · rw [present] at otherRests
            cases otherRests
          · exact later
      | true =>
          obtain ⟨key, idMem⟩ := valid.linked.existOrder_iff.mp present
          obtain ⟨order, mem, rfl⟩ := List.mem_map.mp idMem
          have pos := valid.allRemain key order mem
          refine ⟨key, ?_⟩
          calc (gone.foldl BookSide.removeOrder (side.removeOrder order.odid)).quantityAt key
              ≤ (side.removeOrder order.odid).quantityAt key :=
                (valid.removeOrder order.odid).quantityAt_foldl_removeOrder_le gone key
            _ = side.quantityAt key - order.getRemainingQuantity := by
                rw [valid.quantityAt_removeOrder mem, if_pos rfl]
            _ < side.quantityAt key := by omega

end Late

/-- Of the orders at a level, those that a fill uses up are gone. -/
theorem Linked.existOrder_fillLevel (linked : side.Linked) {order : Order P}
    (mem : order ∈ side.ordersAt key) (qty : ℤ) :
    (side.fillLevel key qty).existOrder order.odid = false ↔
      order ∈ usedUp qty (side.ordersAt key) := by
  have rests : side.orderMap.find? order.odid = some ⟨key, order.odid⟩ :=
    linked.orderMap_of_mem mem
  rw [existOrder, fillLevel, SortedMap.find?_foldl_erase, rests]
  constructor
  · intro gone
    split at gone
    · next used =>
        obtain ⟨other, otherMem, sameId⟩ := List.mem_map.mp used
        rw [← order_unique (linked.nodup key) (QueueFill.mem_of_mem_exhausted otherMem) mem sameId]
        exact otherMem
    · cases gone
  · intro used
    rw [if_pos (List.mem_map_of_mem used)]
    rfl

section Explained

variable [Zero P] {best : L2PriceLevel P} {others : L2SnapshotSide P} {removed : ℤ}

/-- Late trades leave the snapshot alone only if the whole best level has gone: otherwise
they meet what is left of it. -/
theorem Valid.settlesTo_trades_iff (valid : side.Valid {0}) (idle : side.l2SnapQueue = [])
    (nothing : side.pendingLiqRemoveQty = .empty) (viewEq : side.l2View = best :: others)
    (pos : 0 < removed) (fits : removed ≤ best.quantity) {trades : List (Trade P)}
    (atBest : ∀ trade ∈ trades, 0 < trade.quantity ∧ trade.price = best.price)
    (explains : (trades.map Trade.quantity).sum = removed) :
    side.SettlesTo (lowered best others removed) (trades.map SideCall.processTrade) ↔
      removed = best.quantity := by
  obtain ⟨events, processed⟩ := valid.processL2Snapshot_lowered idle viewEq pos fits
  have bestQty : side.quantityAt best.price = best.quantity :=
    quantityAt_of_mem_l2View (viewEq ▸ List.mem_cons_self)
  have total : totalRemaining (side.ordersAt best.price) = best.quantity := by
    rw [← valid.quantityAt_eq, bestQty]
  have none : side.NoneBetter best.price := by
    obtain ⟨level, rest, entriesEq, -, -⟩ := exists_first viewEq
    intro other present
    obtain ⟨found, otherFound⟩ := existLevel_iff.mp present
    exact not_better_first (SortedMap.begin?_eq_some_iff.mpr ⟨rest, entriesEq⟩) otherFound
  obtain ⟨final, run, levelsEq⟩ := valid.lateTrades none
    (valid.fillLevel_nonneg best.price pos.le) pos.le rfl nothing atBest
  rw [explains] at levelsEq
  rw [settlesTo_iff processed run, ← valid.l2View_lowered viewEq pos fits]
  constructor
  · intro sameView
    by_contra different
    have left : removed < best.quantity := lt_of_le_of_ne fits different
    have quantities := quantityAt_of_l2View sameView best.price
    rw [quantityAt, levelsEq, quantityAt, find?_fillLevel_self, find?_fillLevel_self,
      if_neg (fillFront_ne_nil pos.le (by omega)), bestQty, total, min_eq_left fits] at quantities
    split at quantities
    · simp at quantities
      omega
    · simp at quantities
      omega
  · intro whole
    have remain := valid.allRemain best.price
    have sameLevels : final.levels = (side.fillLevel best.price removed).levels := by
      rw [levelsEq]
      simp only [BookSide.fillLevel, putOrders,
        fillFront_eq_nil remain (show totalRemaining _ ≤ removed by omega),
        fillFront_eq_nil remain (show totalRemaining _ ≤ removed + removed by omega), reduceIte]
    rw [l2View, l2View, sameLevels]

/-- Late cancels leave the snapshot alone only if they name the orders that the
reconciliation has removed. -/
theorem Valid.settlesTo_cancels_iff (valid : side.Valid {0}) (idle : side.l2SnapQueue = [])
    (nothing : side.pendingLiqRemoveQty = .empty) (viewEq : side.l2View = best :: others)
    (pos : 0 < removed) (fits : removed ≤ best.quantity) {cancelled : List (Order P)}
    (rested : ∀ order ∈ cancelled, order ∈ side.ordersAt best.price) :
    side.SettlesTo (lowered best others removed) (cancelled.map (cancelCall best.price)) ↔
      ∀ order ∈ cancelled, order ∈ usedUp removed (side.ordersAt best.price) := by
  obtain ⟨events, processed⟩ := valid.processL2Snapshot_lowered idle viewEq pos fits
  have afterValid := valid.fillLevel_nonneg best.price pos.le
  have remain : AllRemain cancelled := fun order mem =>
    valid.allRemain best.price order (rested order mem)
  have afterNothing : (side.fillLevel best.price removed).pendingLiqRemoveQty = .empty := nothing
  have run := lateCancels afterNothing remain best.price
  rw [settlesTo_iff processed run, ← valid.l2View_lowered viewEq pos fits]
  constructor
  · intro sameView order mem
    by_contra kept
    have rests : (side.fillLevel best.price removed).existOrder order.odid = true := by
      rw [← Bool.not_eq_false, valid.linked.existOrder_fillLevel (rested order mem)]
      exact kept
    obtain ⟨key, lower⟩ := afterValid.exists_quantityAt_lt
      ⟨order.odid, List.mem_map_of_mem mem, rests⟩
    rw [quantityAt_of_l2View sameView key] at lower
    exact lt_irrefl _ lower
  · intro allUsed
    rw [foldl_removeOrder_of_absent]
    intro id idMem
    obtain ⟨order, mem, rfl⟩ := List.mem_map.mp idMem
    exact (valid.linked.existOrder_fillLevel (rested order mem) removed).mpr (allUsed order mem)

end Explained

end BookSide

/-- After a snapshot with less at the best price, late trades leave the view alone exactly
when the whole level has gone, and late cancels exactly when they are those of orders
that the removed quantity uses up from the front of the level. -/
theorem lateRemovals_settle_iff [Zero P] {side : BookSide P isSell} (rep : side.RepInvariant)
    (idle : side.l2SnapQueue = []) (noRemove : side.pendingLiqRemoveQty = .empty)
    {best : L2PriceLevel P} {others : L2SnapshotSide P} (viewEq : side.l2View = best :: others)
    {removed : ℤ} (pos : 0 < removed) (fits : removed ≤ best.quantity) :
    (∀ trades : List (Trade P),
      (∀ trade ∈ trades, 0 < trade.quantity ∧ trade.price = best.price) →
      (trades.map Trade.quantity).sum = removed →
      (side.SettlesTo (BookSide.lowered best others removed)
        (trades.map SideCall.processTrade) ↔ removed = best.quantity)) ∧
    ∀ cancelled : List (Order P), cancelled.Nodup →
      (∀ order ∈ cancelled, order ∈ side.ordersAt best.price) →
      totalRemaining cancelled = removed →
      (side.SettlesTo (BookSide.lowered best others removed)
        (cancelled.map (BookSide.cancelCall best.price)) ↔
          ∀ order ∈ cancelled, order ∈ usedUp removed (side.ordersAt best.price)) := by
  have valid := BookSide.repInvariant_iff_valid.mp rep
  exact ⟨fun _ atBest explains =>
      valid.settlesTo_trades_iff idle noRemove viewEq pos fits atBest explains,
    fun _ _ rested _ => valid.settlesTo_cancels_iff idle noRemove viewEq pos fits rested⟩

/-- A snapshot without the only ask, then the trade that took it. -/
theorem lateTrade_of_whole_settles :
    oneAskSide.SettlesTo [] [.processTrade ⟨10, 100⟩] := by
  have settles := (lateRemovals_settle_iff (BookSide.repInvariant_iff_valid.mpr oneAskSide_valid)
    rfl rfl (show oneAskSide.l2View = ⟨100, 10⟩ :: [] from rfl) (show (0 : ℤ) < 10 by decide)
    (by decide)).1
  exact (settles [⟨10, 100⟩] (by decide) rfl).mpr rfl

/-- A snapshot with 4 less of the only ask, then the trade that took them: they are taken
twice. -/
theorem lateTrade_of_part_not_settled :
    oneAskSide.RepInvariant ∧ oneAskSide.l2SnapQueue = [] ∧
      oneAskSide.pendingLiqRemoveQty = .empty ∧ oneAskSide.pendingLiqAddQty = .empty ∧
      oneAskSide.l2View = [⟨100, 10⟩] ∧
      ¬ oneAskSide.SettlesTo [⟨100, 6⟩] [.processTrade ⟨4, 100⟩] := by
  refine ⟨BookSide.repInvariant_iff_valid.mpr oneAskSide_valid, rfl, rfl, rfl, rfl, ?_⟩
  have atBest : ∀ trade ∈ [(⟨4, 100⟩ : Trade ℤ)], 0 < trade.quantity ∧ trade.price = 100 := by
    decide
  have settles := oneAskSide_valid.settlesTo_trades_iff rfl rfl
    (show oneAskSide.l2View = ⟨100, 10⟩ :: [] from rfl) (show (0 : ℤ) < 4 by decide) (by decide)
    atBest rfl
  intro settled
  exact absurd (settles.mp settled) (by decide)

/-! ### A snapshot with more at one price -/

namespace BookSide

variable {side : BookSide P isSell} {snapshot : L2SnapshotSide P} {price : P} {added : ℤ}

/-- The snapshot shows the levels of the side with `added` more at one price. -/
def ShowsMore (side : BookSide P isSell) (snapshot : L2SnapshotSide P) (price : P)
    (added : ℤ) : Prop :=
  (snapshot.map L2PriceLevel.price).Nodup ∧
    ∀ l2Level, l2Level ∈ snapshot ↔ 0 < l2Level.quantity ∧
      l2Level.quantity = side.quantityAt l2Level.price + if l2Level.price = price then added else 0

theorem eq_singleton_of_nodup {α : Type*} {items : List α} {item : α} (nodup : items.Nodup)
    (only : ∀ other ∈ items, other = item) (mem : item ∈ items) : items = [item] := by
  obtain ⟨front, back, rfl⟩ := List.append_of_mem mem
  rw [List.nodup_append, List.nodup_cons] at nodup
  have noBack : back = [] := by
    apply List.eq_nil_iff_forall_not_mem.mpr
    intro other otherMem
    obtain rfl := only other (by simp [otherMem])
    exact nodup.2.1.1 otherMem
  have noFront : front = [] := by
    apply List.eq_nil_iff_forall_not_mem.mpr
    intro other otherMem
    exact nodup.2.2 other otherMem item List.mem_cons_self (only other (by simp [otherMem]))
  rw [noFront, noBack, List.nil_append]

theorem Valid.quantityAt_nonneg (valid : side.Valid {0}) (key : P) : 0 ≤ side.quantityAt key := by
  rw [valid.quantityAt_eq]
  exact (valid.allRemain key).total_nonneg

theorem Valid.quantityAt_pos (valid : side.Valid {0}) {key : P}
    (present : side.existLevel key = true) : 0 < side.quantityAt key := by
  obtain ⟨level, found⟩ := existLevel_iff.mp present
  have mem : (⟨key, level.quantity⟩ : L2PriceLevel P) ∈ side.l2View :=
    List.mem_map_of_mem (SortedMap.find?_eq_some_iff.mp found)
  rw [show side.quantityAt key = level.quantity from quantityAt_of_mem_l2View mem]
  exact valid.l2View_pos _ mem

theorem ShowsMore.inventions_eq (shows_ : side.ShowsMore snapshot price added)
    (valid : side.Valid {0}) (pos : 0 < added) :
    side.inventions snapshot = [(price, added)] := by
  have nonneg := valid.quantityAt_nonneg price
  apply eq_singleton_of_nodup
  · have keys : ((side.inventions snapshot).map Prod.fst).Nodup :=
      shows_.1.sublist (keys_filterMap_ite (fun _ => rfl) snapshot)
    exact keys.of_map _
  · intro piece mem
    obtain ⟨l2Level, levelMem, more, rfl⟩ := mem_inventions.mp mem
    obtain ⟨-, quantityEq⟩ := (shows_.2 l2Level).mp levelMem
    split at quantityEq
    · next same =>
        rw [same] at quantityEq ⊢
        exact Prod.ext rfl (by simp only; omega)
    · omega
  · have shown : (⟨price, side.quantityAt price + added⟩ : L2PriceLevel P) ∈ snapshot :=
      (shows_.2 _).mpr ⟨by simp only; omega, by rw [if_pos rfl]⟩
    exact mem_inventions.mpr ⟨_, shown, by simp only; omega,
      Prod.ext rfl (by simp only; omega)⟩

variable [Zero P]

/-- The reconciliation invents one order and removes nothing. -/
theorem ShowsMore.processL2Snapshot (shows_ : side.ShowsMore snapshot price added)
    (valid : side.Valid {0}) (idle : side.l2SnapQueue = []) (pos : 0 < added) :
    ∃ events, side.processL2Snapshot snapshot = .ok (side.invent 100 price added, events) := by
  have inventionsEq := shows_.inventions_eq valid pos
  have comparedEq : side.comparedSide snapshot = side.invent 100 price added := by
    rw [BookSide.comparedSide, inventionsEq]
    rfl
  have shown : ∀ key, side.existLevel key = true ∨ key = price →
      key ∈ snapshot.map L2PriceLevel.price := by
    intro key among
    have nonneg := valid.quantityAt_nonneg key
    refine List.mem_map.mpr ⟨⟨key, side.quantityAt key + if key = price then added else 0⟩,
      (shows_.2 _).mpr ⟨?_, rfl⟩, rfl⟩
    simp only
    split
    · omega
    · next different =>
        have := valid.quantityAt_pos (among.resolve_right different)
        omega
  have removalsEq : side.removals snapshot = [] := by
    rw [removals, comparedEq]
    refine List.append_eq_nil_iff.mpr ⟨lowerings_eq_nil ?_, dropped_eq_nil ?_⟩
    · intro l2Level mem
      obtain ⟨-, quantityEq⟩ := (shows_.2 l2Level).mp mem
      split at quantityEq <;> omega
    · intro l2Level mem
      obtain ⟨entry, entryMem, rfl⟩ := List.mem_map.mp mem
      have present : (side.invent 100 price added).existLevel entry.1 = true :=
        existLevel_iff.mpr ⟨entry.2, SortedMap.find?_eq_some_iff.mpr entryMem⟩
      exact shown entry.1 (((existLevel_invent side 100 price added entry.1).mp present).imp_right
        And.left)
  rw [processL2Snapshot_reconciles idle, valid.reconcile_eq (Set.mem_singleton 0)
    (fun l2Level mem => ((shows_.2 l2Level).mp mem).1) shows_.1, comparedEq, removalsEq]
  exact ⟨_, rfl⟩

/-- Removing the order that was added last gives back the levels. -/
theorem Valid.levels_removeOrder_withOrder {slack : Set ℤ} (valid : side.Valid slack)
    (zeroMem : 0 ∈ slack) (order : Order P) (isSellEq : order.isSell = isSell)
    (isOpen : order.IsOpen) (fresh : side.existOrder order.odid = false) :
    ((side.withOrder order).removeOrder order.odid).levels = side.levels := by
  have nextValid := valid.withOrder zeroMem isSellEq isOpen
  have levelsEq : (side.withOrder order).levels = putOrders side.levels order.price
      (side.quantityAt order.price + order.getRemainingQuantity)
      (side.ordersAt order.price ++ [order]) := by
    simp [BookSide.withOrder, fresh]
  have found : (side.withOrder order).levels.find? order.price = some (.ofOrders order.price
      (side.quantityAt order.price + order.getRemainingQuantity)
      (side.ordersAt order.price ++ order :: [])) := by
    rw [levelsEq, find?_putOrders, if_pos rfl, if_neg (by simp)]
  rw [nextValid.linked.removeOrder_eq found, levelsEq, putOrders_putOrders, List.append_nil,
    add_sub_cancel_right]
  cases level : side.levels.find? order.price with
  | none => rw [ordersAt_of_none level, putOrders, if_pos rfl, SortedMap.erase_of_find?_none level]
  | some old =>
      exact putOrders_self (find?_ofOrders valid.linked level)
        (mt valid.linked.ordersAt_eq_nil_iff.mp (by simp [level]))

omit [Zero P] in
theorem invent_settled (noAdd : side.pendingLiqAddQty = .empty) (id qty : ℤ) (price : P) :
    { side.invent id price qty with pendingLiqAddQty := .empty } =
      side.withOrder (Order.new id isSell qty price) := by
  cases rests : side.existOrder id with
  | false =>
      have fresh : ¬ side.existOrder (Order.new id isSell qty price).odid = true :=
        Bool.eq_false_iff.mp rests
      rw [invent_of_free rests, withOrder, if_neg fresh, Order.remaining_new, noAdd]
      rfl
  | true =>
      rw [invent_of_exist rests]
      simp [withOrder, Order.new, rests, ← noAdd]

omit [Zero P] in
theorem onlyPending_invent (noAdd : side.pendingLiqAddQty = .empty) (id qty : ℤ)
    (price : P) : (side.invent id price qty).pendingLiqAddQty = onlyPending price qty := by
  simp [pendingLiqAddQty_invent, credit, noAdd, onlyPending]

omit [Zero P] in
theorem quantityAt_withOrder (order : Order P) (fresh : side.existOrder order.odid = false) :
    (side.withOrder order).quantityAt order.price =
      side.quantityAt order.price + order.getRemainingQuantity := by
  simp [withOrder, fresh, quantityAt, find?_putOrders]

end BookSide

namespace SmartOrderBook

variable [Zero P] {added : ℤ}

/-- The snapshot is processed on one side, then the `ADD` message of the order it shows and
the `CANCEL` message of this order, and the view of the side is back. -/
def RestoresView (book : SmartOrderBook P) (isSell : Bool) (snapshot : L2SnapshotSide P)
    (id added : ℤ) (price : P) : Prop :=
  ∃ after events final,
    (book.sides isSell).processL2Snapshot snapshot = .ok (after, events) ∧
    Run MessageStep (book.setSide isSell after)
      [.add ⟨.add, id, isSell, added, price⟩, .cancel ⟨.cancel, id, isSell, added, price⟩] final ∧
    (final.sides isSell).l2View = (book.sides isSell).l2View

/-- An order that is announced in full changes nothing but the ledger. -/
theorem add_of_announced (book : SmartOrderBook P) (msg : OrderMessage P)
    (only : (book.sides msg.isSell).pendingLiqAddQty =
      BookSide.onlyPending msg.price msg.quantity) :
    Returns (fun fuel => book.processOrderAddMessage fuel msg)
      (book.setSide msg.isSell
        { book.sides msg.isSell with pendingLiqAddQty := .empty }, []) := by
  refine Returns.bind (BookSide.matchPendingLiqAdd_monotone _ _ _) (addUnmatched_monotone _ _ _)
    (BookSide.matchPendingLiqAdd_atLimit only le_rfl) ⟨0, ?_⟩
  have filled : (msg.toOrder.fill msg.quantity).getRemainingQuantity = 0 := by
    rw [Order.remaining_fill, OrderMessage.toOrder, Order.remaining_new, sub_self]
  simp [addUnmatched, filled]

/-- What the two late messages leave of the invented order. -/
theorem lateOrder_run (book : SmartOrderBook P) {side : BookSide P isSell} (id : ℤ) (price : P)
    (noAdd : side.pendingLiqAddQty = .empty)
    (noRemove : side.pendingLiqRemoveQty = .empty) (pos : 0 < added) :
    ∃ final, Run MessageStep (book.setSide isSell (side.invent 100 price added))
        [.add ⟨.add, id, isSell, added, price⟩, .cancel ⟨.cancel, id, isSell, added, price⟩] final ∧
      final.sides isSell = (side.withOrder (Order.new 100 isSell added price)).removeOrder id := by
  have added_ : ((book.setSide isSell (side.invent 100 price added)).MessageStep
      (.add ⟨.add, id, isSell, added, price⟩)
        ((book.setSide isSell (side.invent 100 price added)).setSide isSell
          (side.withOrder (Order.new 100 isSell added price)))) := by
    refine ⟨[], ?_⟩
    have only : ((book.setSide isSell (side.invent 100 price added)).sides isSell).pendingLiqAddQty =
        BookSide.onlyPending price added := by
      rw [sides_setSide_self, BookSide.onlyPending_invent noAdd]
    have absorbed := add_of_announced _ ⟨.add, id, isSell, added, price⟩ only
    simp only [sides_setSide_self, BookSide.invent_settled noAdd] at absorbed
    exact absorbed
  have cancelled := fun state : SmartOrderBook P =>
    (⟨_, .const rfl⟩ : state.MessageStep (.cancel ⟨.cancel, id, isSell, added, price⟩)
      (state.processOrderCancelMessage ⟨.cancel, id, isSell, added, price⟩).1)
  refine ⟨_, .step (.step .start added_) (cancelled _), ?_⟩
  have nothing : (side.withOrder (Order.new 100 isSell added price)).pendingLiqRemoveQty =
      .empty := by
    unfold BookSide.withOrder
    split
    · exact noRemove
    · exact noRemove
  simp only [processOrderCancelMessage, sides_setSide_self]
  exact BookSide.processOrderCancel_unexpected nothing id pos price

end SmartOrderBook

/-- An order that a snapshot shows first can be cancelled exactly when its id is the one
that the reconciliation has invented for it. -/
theorem lateOrder_cancelled_iff [Zero P] {book : SmartOrderBook P} {isSell : Bool}
    (rep : (book.sides isSell).RepInvariant) (idle : (book.sides isSell).l2SnapQueue = [])
    (noRemove : (book.sides isSell).pendingLiqRemoveQty = .empty)
    (noAdd : (book.sides isSell).pendingLiqAddQty = .empty) {snapshot : L2SnapshotSide P}
    {price : P} {added : ℤ} (pos : 0 < added)
    (shows_ : (book.sides isSell).ShowsMore snapshot price added)
    (inventedFree : (book.sides isSell).existOrder 100 = false) {id : ℤ}
    (idFree : (book.sides isSell).existOrder id = false) :
    book.RestoresView isSell snapshot id added price ↔ id = 100 := by
  have valid := BookSide.repInvariant_iff_valid.mp rep
  obtain ⟨events, processed⟩ := shows_.processL2Snapshot valid idle pos
  obtain ⟨final, run, finalEq⟩ := SmartOrderBook.lateOrder_run book id price noAdd noRemove pos
  constructor
  · rintro ⟨after, otherEvents, other, otherProcessed, otherRun, viewEq⟩
    rw [processed] at otherProcessed
    cases otherProcessed
    rw [← run.unique SmartOrderBook.MessageStep.unique otherRun, finalEq] at viewEq
    by_contra different
    have absent : ((book.sides isSell).withOrder
        (Order.new 100 isSell added price)).existOrder id = false := by
      rw [Bool.eq_false_iff]
      intro rests
      rcases BookSide.existOrder_withOrder rests with old | same
      · rw [idFree] at old
        cases old
      · exact different same
    rw [BookSide.removeOrder_of_not_exist absent] at viewEq
    have quantities := BookSide.quantityAt_of_l2View viewEq price
    have grown : ((book.sides isSell).withOrder (Order.new 100 isSell added price)).quantityAt
        price = (book.sides isSell).quantityAt price +
          (Order.new 100 isSell added price).getRemainingQuantity :=
      BookSide.quantityAt_withOrder _ inventedFree
    rw [quantities, Order.remaining_new] at grown
    omega
  · rintro rfl
    refine ⟨_, events, final, processed, run, ?_⟩
    have levelsEq := valid.levels_removeOrder_withOrder (Set.mem_singleton 0)
      (Order.new 100 isSell added price) rfl ⟨le_rfl, pos⟩ inventedFree
    rw [finalEq]
    exact congrArg viewOf levelsEq

/-- A book with one ask. -/
def oneAskBook : SmartOrderBook ℤ := SmartOrderBook.empty.setSide true oneAskSide

/-- A snapshot with 5 more at the price of the only ask. -/
theorem oneAsk_showsMore : (oneAskBook.sides true).ShowsMore [⟨100, 15⟩] 100 5 := by
  refine ⟨by decide, ?_⟩
  rintro ⟨price, quantity⟩
  by_cases same : price = 100
  · subst same
    have held : (oneAskBook.sides true).quantityAt 100 = 10 := rfl
    simp [held]
    omega
  · have missing : price ∉ [(100 : ℤ)] := by simpa using same
    have held : (oneAskBook.sides true).quantityAt price = 0 :=
      BookSide.quantityAt_of_not_mem missing
    simp [held, same]
    omega

/-- The real id happens to be the invented one. -/
theorem lateOrder_of_inventedId_cancelled :
    oneAskBook.RestoresView true [⟨100, 15⟩] 100 5 100 :=
  (lateOrder_cancelled_iff (BookSide.repInvariant_iff_valid.mpr oneAskSide_valid) rfl rfl rfl
    (by decide) oneAsk_showsMore rfl rfl).mpr rfl

/-- Under its own id the order stays in the book for ever. -/
theorem lateOrder_not_cancelled :
    (oneAskBook.sides true).RepInvariant ∧ (oneAskBook.sides true).l2SnapQueue = [] ∧
      (oneAskBook.sides true).pendingLiqRemoveQty = .empty ∧
      (oneAskBook.sides true).pendingLiqAddQty = .empty ∧
      (oneAskBook.sides true).ShowsMore [⟨100, 15⟩] 100 5 ∧
      (oneAskBook.sides true).existOrder 100 = false ∧
      (oneAskBook.sides true).existOrder 2 = false ∧
      ¬ oneAskBook.RestoresView true [⟨100, 15⟩] 2 5 100 := by
  refine ⟨BookSide.repInvariant_iff_valid.mpr oneAskSide_valid, rfl, rfl, rfl, oneAsk_showsMore,
    rfl, rfl, ?_⟩
  rintro ⟨after, events, final, processed, run, viewEq⟩
  have processedEq : (oneAskBook.sides true).processL2Snapshot [⟨100, 15⟩] =
      .ok ((oneAskBook.sides true).invent 100 100 5,
        [⟨.add, -1, true, 5, 100⟩]) := rfl
  rw [processedEq] at processed
  cases processed
  obtain ⟨other, otherRun, otherEq⟩ := SmartOrderBook.lateOrder_run oneAskBook 2 100
    (show (oneAskBook.sides true).pendingLiqAddQty = .empty from rfl) rfl
    (show (0 : ℤ) < 5 by decide)
  rw [run.unique SmartOrderBook.MessageStep.unique otherRun, otherEq] at viewEq
  exact absurd viewEq (by decide)

end OrderBook
