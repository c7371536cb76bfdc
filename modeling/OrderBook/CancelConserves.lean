import OrderBook.BookRuns

/-!
# Where the quantity of a cancel goes

A cancel of a whole order lowers the expected removals at its price first.  When
they cover it, the order stays in the book for the trade that was expected; when
there are none, the order leaves its level.  In between the expected removals are
lowered and the order leaves with all of its quantity, so the part that was
absorbed is counted twice.
-/

namespace OrderBook

open FueledLoop

variable {P : Type} [LinearOrder P]

/-- The quantity of the `CANCEL` events of a list. -/
def cancelledQty (events : OrderInfoVec P) : ℤ :=
  (events.map fun e => if e.event = OrderEvent.cancel then e.quantity else 0).sum

/-- The message that cancels all that remains of an order. -/
def wholeCancel (isSell : Bool) (order : Order P) : OrderMessage P :=
  ⟨.cancel, order.odid, isSell, order.getRemainingQuantity, order.price⟩

namespace BookSide

variable {isSell : Bool} {side : BookSide P isSell}

/-- How far the quantity field of a level is below its only order.  It is zero unless a
snapshot with a repeated price has gone before. -/
def undercount (side : BookSide P isSell) (order : Order P) : ℤ :=
  if side.ordersAt order.price = [order] then
    order.getRemainingQuantity - side.quantityAt order.price
  else 0

variable [Zero P]

/-- The quantity field falls by the order, as far as it was counted. -/
theorem Linked.quantityAt_cancelled (linked : side.Linked) {order : Order P}
    (mem : order ∈ side.ordersAt order.price) :
    (side.removeOrder order.odid).quantityAt order.price =
      side.quantityAt order.price - (order.getRemainingQuantity - side.undercount order) := by
  rw [linked.quantityAt_removeOrder mem, if_pos rfl, undercount]
  split
  · omega
  · omega

section Whole

variable {slack : Set ℤ} (valid : side.Valid slack) {order : Order P}
  (mem : order ∈ side.ordersAt order.price)

include valid mem

/-- Expected removals that cover a cancel absorb it. -/
theorem Valid.cancel_absorbed
    (covered : order.getRemainingQuantity ≤ qtyAt side.pendingLiqRemoveQty order.price) :
    side.processOrderCancel order.odid order.getRemainingQuantity order.price =
      (side.matchedRemoval order.getRemainingQuantity order.price, []) := by
  have remains := (valid.isOpen mem).remaining_pos
  have nothing : ¬ 0 < side.restQty ⟨order.getRemainingQuantity, order.price⟩ := by
    rw [restQty, min_eq_right covered, sub_self]
    exact lt_irrefl 0
  rw [processOrderCancel_eq valid.ledgers.remove_pos _ remains.le,
    if_neg fun both => nothing both.1]

/-- Otherwise the order is removed, whatever part of the cancel was absorbed. -/
theorem Valid.cancel_removes
    (short : qtyAt side.pendingLiqRemoveQty order.price < order.getRemainingQuantity) :
    side.processOrderCancel order.odid order.getRemainingQuantity order.price =
      ((side.matchedRemoval order.getRemainingQuantity order.price).removeOrder order.odid,
        [⟨.cancel, order.odid, isSell,
          order.getRemainingQuantity - qtyAt side.pendingLiqRemoveQty order.price,
          order.price⟩]) := by
  have remains := (valid.isOpen mem).remaining_pos
  have present : side.existOrder order.odid = true :=
    valid.linked.existOrder_iff.mpr ⟨_, List.mem_map_of_mem mem⟩
  have restEq : side.restQty ⟨order.getRemainingQuantity, order.price⟩ =
      order.getRemainingQuantity - qtyAt side.pendingLiqRemoveQty order.price := by
    rw [restQty, min_eq_left short.le]
  rw [processOrderCancel_eq valid.ledgers.remove_pos _ remains.le, restEq,
    if_pos ⟨sub_pos.mpr short, present⟩]

omit [Zero P] valid mem in
theorem qtyAt_matchedRemoval (side : BookSide P isSell) (quantity : ℤ) (price : P) :
    qtyAt (side.matchedRemoval quantity price).pendingLiqRemoveQty price =
      qtyAt side.pendingLiqRemoveQty price -
        min (qtyAt side.pendingLiqRemoveQty price) quantity := by
  rw [BookSide.matchedRemoval, qtyAt_debit, if_pos rfl]

end Whole

end BookSide

namespace SmartOrderBook

variable [Zero P]

/-- The level and the expected removals lose the cancelled quantity together, and the
events report what the level loses. -/
def ConservesCancel (book : SmartOrderBook P) (isSell : Bool) (order : Order P) : Prop :=
  let (final, events) := book.processOrderCancelMessage (wholeCancel isSell order)
  (final.sides isSell).quantityAt order.price +
      qtyAt (final.sides isSell).pendingLiqRemoveQty order.price =
    (book.sides isSell).quantityAt order.price +
      qtyAt (book.sides isSell).pendingLiqRemoveQty order.price - order.getRemainingQuantity ∧
  cancelledQty events =
    (book.sides isSell).quantityAt order.price - (final.sides isSell).quantityAt order.price

end SmartOrderBook

/-- A cancel conserves quantity exactly when the expected removals at its price cover all
of it, or when there are none (in a level whose quantity field is too low for its only
order: when they are what the field lacks). -/
theorem cancel_conserves_iff [Zero P] {book : SmartOrderBook P} (reachable : book.Reachable)
    {isSell : Bool} {order : Order P}
    (rests : (book.sides isSell).getOrder? order.odid = some order) :
    book.ConservesCancel isSell order ↔
      order.getRemainingQuantity ≤
          qtyAt (book.sides isSell).pendingLiqRemoveQty order.price ∨
        qtyAt (book.sides isSell).pendingLiqRemoveQty order.price =
          (book.sides isSell).undercount order := by
  have valid := reachable.valid isSell
  obtain ⟨-, mem⟩ := valid.linked.getOrder?_eq_some rests
  have remains := (valid.isOpen mem).remaining_pos
  have matchedQty := (book.sides isSell).qtyAt_matchedRemoval order.getRemainingQuantity order.price
  simp only [SmartOrderBook.ConservesCancel, SmartOrderBook.processOrderCancelMessage,
    wholeCancel, SmartOrderBook.sides_setSide_self]
  by_cases covered : order.getRemainingQuantity ≤
      qtyAt (book.sides isSell).pendingLiqRemoveQty order.price
  · rw [valid.cancel_absorbed mem covered]
    simp only [matchedQty, min_eq_right covered]
    have sameLevel : ((book.sides isSell).matchedRemoval order.getRemainingQuantity
        order.price).quantityAt order.price = (book.sides isSell).quantityAt order.price := rfl
    rw [sameLevel]
    simp only [cancelledQty, List.map_nil, List.sum_nil, covered, true_or, iff_true]
    omega
  · have short := not_le.mp covered
    have matchedValid := valid.matchedRemoval order.getRemainingQuantity order.price
    have lost : (((book.sides isSell).matchedRemoval order.getRemainingQuantity
        order.price).removeOrder order.odid).quantityAt order.price =
          (book.sides isSell).quantityAt order.price -
            (order.getRemainingQuantity - (book.sides isSell).undercount order) :=
      matchedValid.linked.quantityAt_cancelled mem
    rw [valid.cancel_removes mem short]
    simp only [lost, BookSide.removeOrder_frame, matchedQty, min_eq_left short.le,
      cancelledQty, List.map_cons, List.map_nil, List.sum_cons, List.sum_nil, if_true]
    omega

/-- Two asks of 10 at 100, and a bid that takes 4 of the first one. -/
def halfCrossedMessages : List (Message ℤ) :=
  [.add ⟨.add, 1, true, 10, 100⟩, .add ⟨.add, 2, true, 10, 100⟩, .add ⟨.add, 3, false, 4, 100⟩]

def halfCrossedBook : SmartOrderBook ℤ :=
  ((SmartOrderBook.empty.processAll 9 halfCrossedMessages).toOption).getD .empty

/-- The book once the trade for the bid has come. -/
def halfTradedBook : SmartOrderBook ℤ :=
  ((SmartOrderBook.empty.processAll 9 (halfCrossedMessages ++ [.trade ⟨4, 100⟩])).toOption).getD
    .empty

/-- Nothing is expected any more, and a cancel of the second ask conserves quantity. -/
theorem cancel_of_tradedAsk_conserves :
    halfTradedBook.ConservesCancel true ⟨2, true, 10, 100, 0⟩ := by
  have reachable : halfTradedBook.Reachable := ⟨halfCrossedMessages ++ [.trade ⟨4, 100⟩],
    SmartOrderBook.run_of_processAll 9 rfl, by decide⟩
  have rests : (halfTradedBook.sides true).getOrder? 2 = some ⟨2, true, 10, 100, 0⟩ := by decide
  have nothing : qtyAt (halfTradedBook.sides true).pendingLiqRemoveQty 100 =
      (halfTradedBook.sides true).undercount ⟨2, true, 10, 100, 0⟩ := by decide
  exact (cancel_conserves_iff reachable rests).mpr (.inr nothing)

/-- Before the trade, 4 of the cancel are absorbed and the whole ask leaves: the level and
the expected removals lose 14 together, and the event reports 6. -/
theorem cancel_of_crossedAsk_not_conserved :
    halfCrossedBook.Reachable ∧
      (halfCrossedBook.sides true).getOrder? 2 = some ⟨2, true, 10, 100, 0⟩ ∧
      ¬ halfCrossedBook.ConservesCancel true ⟨2, true, 10, 100, 0⟩ := by
  refine ⟨⟨halfCrossedMessages, SmartOrderBook.run_of_processAll 9 rfl, by decide⟩, rfl, ?_⟩
  rintro ⟨sumEq, -⟩
  revert sumEq
  decide

end OrderBook
