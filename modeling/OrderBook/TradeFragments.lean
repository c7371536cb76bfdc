import OrderBook.MessageHandlers
import OrderBook.PriceTimePriority

/-!
# Trades in fragments

Two trades at one price are one trade of their sum.  The expected removals are
matched in two parts, the better levels are cancelled by the first trade, and the
level of the price is filled in two parts, wherever the first trade ends: inside
the expected removals, inside an order, at the end of the level or beyond it.
-/

namespace OrderBook

open FueledLoop

variable {P : Type} [LinearOrder P] {isSell : Bool} {slack : Set ℤ}

theorem credit_credit {before : P → P → Prop} [DecidableRel before]
    [IsStrictTotalOrder P before] (pending : SortedMap P ℤ before) (price : P)
    (first second : ℤ) :
    credit (credit pending price first) price second = credit pending price (first + second) := by
  simp [credit, SortedMap.insert_insert, add_assoc]

theorem debit_debit {pending : SortedMap P ℤ (· < ·)} (positive : PositiveLedger pending)
    {price : P} {first second : ℤ} (secondNonneg : 0 ≤ second)
    (covered : first + second ≤ qtyAt pending price) :
    debit (debit pending price first) price second = debit pending price (first + second) := by
  have firstPositive : PositiveLedger (debit pending price first) :=
    positive.debit (by omega)
  apply PositiveLedger.ext
  · apply firstPositive.debit
    rw [qtyAt_debit, if_pos rfl]
    omega
  · exact positive.debit covered
  · intro other
    simp only [qtyAt_debit]
    split
    · omega
    · omega

namespace BookSide

variable {side middle split whole : BookSide P isSell} {trade : Trade P} {price : P}
  {first second : ℤ} {events firstEvents secondEvents wholeEvents : OrderInfoVec P}

/-- The side without the levels that are better than a price. -/
def withoutBetter (side : BookSide P isSell) (price : P) : BookSide P isSell :=
  { side with levels := side.retainedLevels price }

theorem find?_withoutBetter (side : BookSide P isSell) (price : P) :
    (side.withoutBetter price).levels.find? price = side.levels.find? price := by
  rw [withoutBetter, find?_retainedLevels, if_neg (irrefl price)]

theorem ordersAt_withoutBetter (side : BookSide P isSell) (price : P) :
    (side.withoutBetter price).ordersAt price = side.ordersAt price := by
  rw [ordersAt, find?_withoutBetter, ordersAt]

/-- A trade fills its level once the better ones are gone. -/
theorem TradeOutcome.levels_fillLevel (outcome : TradeOutcome slack side trade middle events) :
    middle.levels =
      ((side.withoutBetter trade.price).fillLevel trade.price (side.restQty trade)).levels := by
  have quantityEq : (side.withoutBetter trade.price).quantityAt trade.price =
      side.quantityAt trade.price := by
    rw [quantityAt, find?_withoutBetter, quantityAt]
  rw [outcome.levels_eq, fillLevel, ordersAt_withoutBetter, quantityEq]
  rfl

/-- No level is better than a trade once it is processed. -/
theorem TradeOutcome.retained_eq (outcome : TradeOutcome slack side trade middle events) :
    middle.retainedLevels trade.price = middle.levels := by
  apply retainedLevels_of_none
  rw [betterLevels, List.filter_eq_nil_iff]
  rintro ⟨key, level⟩ mem better
  have found := SortedMap.find?_eq_some_iff.mpr mem
  have isBetter : PriceComparator isSell key trade.price := by simpa using better
  rw [outcome.levels_eq, find?_putOrders, if_neg (SortedMap.before_ne isBetter),
    find?_retainedLevels, if_pos isBetter] at found
  cases found

theorem TradeOutcome.qtyAt_remove (outcome : TradeOutcome slack side trade middle events) :
    qtyAt middle.pendingLiqRemoveQty trade.price =
      qtyAt side.pendingLiqRemoveQty trade.price -
        min (qtyAt side.pendingLiqRemoveQty trade.price) trade.quantity := by
  rw [outcome.remove_eq, qtyAt_debit, if_pos rfl]

/-- What two trades leave to the orders of their level is what the sum leaves. -/
theorem TradeOutcome.restQty_add (secondNonneg : 0 ≤ second)
    (outcome : TradeOutcome slack side ⟨first, price⟩ middle events) :
    side.restQty ⟨first + second, price⟩ =
      side.restQty ⟨first, price⟩ + middle.restQty ⟨second, price⟩ := by
  have left := outcome.qtyAt_remove
  simp only [restQty] at left ⊢
  omega

theorem TradeOutcome.totalRemaining_eq (valid : side.Valid slack)
    (outcome : TradeOutcome slack side trade middle events) :
    totalRemaining (middle.ordersAt trade.price) = totalRemaining (side.ordersAt trade.price) -
      min (side.restQty trade) (totalRemaining (side.ordersAt trade.price)) := by
  have ordersEq : middle.ordersAt trade.price =
      fillFront (side.restQty trade) (side.ordersAt trade.price) := by
    rw [ordersAt, outcome.levels_fillLevel, ← ordersAt, ordersAt_fillLevel, if_pos rfl,
      ordersAt_withoutBetter]
  rw [ordersEq, totalRemaining_fillFront (valid.allRemain trade.price) restQty_nonneg]

section Fragments

variable (valid : side.Valid slack)
  (firstOutcome : TradeOutcome slack side ⟨first, price⟩ middle firstEvents)
  (secondOutcome : TradeOutcome slack middle ⟨second, price⟩ split secondEvents)
  (wholeOutcome : TradeOutcome slack side ⟨first + second, price⟩ whole wholeEvents)
  (secondNonneg : 0 ≤ second)

include valid firstOutcome secondOutcome wholeOutcome secondNonneg

theorem levels_of_fragments : split.levels = whole.levels := by
  have retained : (middle.withoutBetter price).levels = middle.levels :=
    firstOutcome.retained_eq
  have remain : AllRemain ((side.withoutBetter price).ordersAt price) := by
    rw [ordersAt_withoutBetter]
    exact valid.allRemain price
  rw [secondOutcome.levels_fillLevel, wholeOutcome.levels_fillLevel,
    firstOutcome.restQty_add secondNonneg]
  exact fillLevel_add remain restQty_nonneg restQty_nonneg
    (retained.trans firstOutcome.levels_fillLevel)

theorem orderMap_of_fragments : split.orderMap = whole.orderMap := by
  apply secondOutcome.valid.linked.orderMap_eq wholeOutcome.valid.linked
  intro key
  rw [ordersAt, levels_of_fragments valid firstOutcome secondOutcome wholeOutcome secondNonneg,
    ordersAt]

theorem removals_of_fragments :
    split.pendingLiqRemoveQty = whole.pendingLiqRemoveQty := by
  have positive := valid.ledgers.remove_pos
  have pendingNonneg := positive.qtyAt_nonneg price
  have leftEq : qtyAt middle.pendingLiqRemoveQty price =
      qtyAt side.pendingLiqRemoveQty price -
        min (qtyAt side.pendingLiqRemoveQty price) first := firstOutcome.qtyAt_remove
  have matchedEq : min (qtyAt side.pendingLiqRemoveQty price) first +
      min (qtyAt middle.pendingLiqRemoveQty price) second =
        min (qtyAt side.pendingLiqRemoveQty price) (first + second) := by
    omega
  calc split.pendingLiqRemoveQty
    _ = debit middle.pendingLiqRemoveQty price
          (min (qtyAt middle.pendingLiqRemoveQty price) second) := secondOutcome.remove_eq
    _ = debit (debit side.pendingLiqRemoveQty price
          (min (qtyAt side.pendingLiqRemoveQty price) first)) price
            (min (qtyAt middle.pendingLiqRemoveQty price) second) :=
        congrArg (debit · price _) firstOutcome.remove_eq
    _ = debit side.pendingLiqRemoveQty price
          (min (qtyAt side.pendingLiqRemoveQty price) (first + second)) := by
        rw [debit_debit positive (by omega) (by omega), matchedEq]
    _ = whole.pendingLiqRemoveQty := wholeOutcome.remove_eq.symm

theorem additions_of_fragments : split.pendingLiqAddQty = whole.pendingLiqAddQty := by
  have restEq := firstOutcome.restQty_add secondNonneg
  have totalEq := firstOutcome.totalRemaining_eq valid
  have restNonneg : 0 ≤ middle.restQty ⟨second, price⟩ := restQty_nonneg
  have totalNonneg : 0 ≤ totalRemaining (side.ordersAt price) :=
    (valid.allRemain price).total_nonneg
  simp only at totalEq
  rw [secondOutcome.add_eq, wholeOutcome.add_eq, firstOutcome.add_eq]
  simp only
  by_cases beyond : totalRemaining (side.ordersAt price) < side.restQty ⟨first, price⟩
  · -- the first trade has used up the level
    rw [if_pos beyond, if_pos (by omega : _ < side.restQty ⟨first + second, price⟩)]
    split
    · rw [credit_credit]
      congr 1
      omega
    · congr 1
      omega
  · rw [if_neg beyond]
    by_cases more : totalRemaining (side.ordersAt price) < side.restQty ⟨first + second, price⟩
    · rw [if_pos more, if_pos (by omega)]
      congr 1
      omega
    · rw [if_neg more, if_neg (by omega)]

end Fragments

end BookSide

/-- Two trades at one price leave the same orders and ledgers as one trade of their sum. -/
theorem tradeFragments_agree [Zero P] {book : SmartOrderBook P}
    (rep : ∀ isSell, (book.sides isSell).RepInvariant) {first second : ℤ} (firstPos : 0 < first)
    (secondPos : 0 < second) (price : P) :
    ∃ (middle split whole : SmartOrderBook P)
      (firstEvents secondEvents wholeEvents : OrderInfoVec P),
      Returns (fun fuel => book.processTradeMessage fuel ⟨first, price⟩) (middle, firstEvents) ∧
      Returns (fun fuel => middle.processTradeMessage fuel ⟨second, price⟩)
        (split, secondEvents) ∧
      Returns (fun fuel => book.processTradeMessage fuel ⟨first + second, price⟩)
        (whole, wholeEvents) ∧
      ∀ isSell, (split.sides isSell).levels = (whole.sides isSell).levels ∧
        (split.sides isSell).orderMap = (whole.sides isSell).orderMap ∧
        (split.sides isSell).pendingLiqAddQty = (whole.sides isSell).pendingLiqAddQty ∧
        (split.sides isSell).pendingLiqRemoveQty = (whole.sides isSell).pendingLiqRemoveQty := by
  have valid : book.Valid {0} := fun isSell => (rep isSell).valid
  have sumPos : 0 ≤ first + second := by omega
  obtain ⟨middle, firstEvents, firstReturns, firstOutcome⟩ :=
    valid.processTradeMessage_returns ⟨first, price⟩ firstPos.le
  have middleValid : middle.Valid {0} := fun isSell => (firstOutcome isSell).valid
  obtain ⟨split, secondEvents, secondReturns, secondOutcome⟩ :=
    middleValid.processTradeMessage_returns ⟨second, price⟩ secondPos.le
  obtain ⟨whole, wholeEvents, wholeReturns, wholeOutcome⟩ :=
    valid.processTradeMessage_returns ⟨first + second, price⟩ sumPos
  refine ⟨middle, split, whole, _, _, _, firstReturns, secondReturns, wholeReturns, ?_⟩
  intro isSell
  have sideValid := valid isSell
  have firstSide := firstOutcome isSell
  have secondSide := secondOutcome isSell
  have wholeSide := wholeOutcome isSell
  exact ⟨BookSide.levels_of_fragments sideValid firstSide secondSide wholeSide secondPos.le,
    BookSide.orderMap_of_fragments sideValid firstSide secondSide wholeSide secondPos.le,
    BookSide.additions_of_fragments sideValid firstSide secondSide wholeSide secondPos.le,
    BookSide.removals_of_fragments sideValid firstSide secondSide wholeSide secondPos.le⟩

/-- A book with asks at two prices and no bid. -/
def twoPriceBook : SmartOrderBook ℤ := SmartOrderBook.empty.setSide true twoPriceSide

/-- The first trade cancels the better ask and ends inside the other one, the second trade
goes beyond it. -/
theorem twoPriceBook_fragments :
    ∃ (middle split whole : SmartOrderBook ℤ)
      (firstEvents secondEvents wholeEvents : OrderInfoVec ℤ),
      Returns (fun fuel => twoPriceBook.processTradeMessage fuel ⟨3, 101⟩)
        (middle, firstEvents) ∧
      Returns (fun fuel => middle.processTradeMessage fuel ⟨6, 101⟩) (split, secondEvents) ∧
      Returns (fun fuel => twoPriceBook.processTradeMessage fuel ⟨3 + 6, 101⟩)
        (whole, wholeEvents) ∧
      (split.sides true).pendingLiqAddQty = (whole.sides true).pendingLiqAddQty := by
  have rep : ∀ isSell, (twoPriceBook.sides isSell).RepInvariant :=
    SmartOrderBook.forall_side true twoPriceSide_valid.repInvariant
      BookSide.valid_empty.repInvariant
  obtain ⟨middle, split, whole, firstEvents, secondEvents, wholeEvents, firstReturns,
    secondReturns, wholeReturns, same⟩ :=
      tradeFragments_agree rep (show (0 : ℤ) < 3 by decide) (show (0 : ℤ) < 6 by decide) 101
  exact ⟨middle, split, whole, firstEvents, secondEvents, wholeEvents, firstReturns,
    secondReturns, wholeReturns, (same true).2.2.1⟩

end OrderBook
