import OrderBook.AddConserves
import OrderBook.CancelConserves
import OrderBook.SnapshotEffect
import OrderBook.UniqueIds

/-!
# Modifications

`processOrderModifyMessage` simulates a modification by a cancel and an add.  The
cancel looks up the expected removals at the new price of the order instead of the
old one, and the events of the two are dropped.  So a modification is a cancel and
an add exactly when the expected removals do not tell the two prices apart, and
it reports every execution exactly when it causes none.
-/

namespace OrderBook

open FueledLoop

variable {P : Type} [LinearOrder P]

namespace SmartOrderBook

variable [Zero P] {book : SmartOrderBook P} {msg : OrderMessage P} {order : Order P}

/-- The `ADD` message of a modification. -/
def addOf (msg : OrderMessage P) : OrderMessage P :=
  ⟨.add, msg.id, msg.isSell, msg.quantity, msg.price⟩

/-- The book after the order is cancelled under a price. -/
def cancelledAt (book : SmartOrderBook P) (msg : OrderMessage P) (order : Order P)
    (price : P) : SmartOrderBook P :=
  (book.processOrderCancelMessage
    ⟨.cancel, msg.id, msg.isSell, order.getRemainingQuantity, price⟩).1

/-- What a modification stands for: a `CANCEL` message for what remains of the order at its
old price, and then an `ADD` message. -/
def cancelThenAdd (fuel : Nat) (book : SmartOrderBook P) (msg : OrderMessage P)
    (order : Order P) : Except Halt (SmartOrderBook P × OrderInfoVec P) := do
  let (cancelled, cancelEvents) := book.processOrderCancelMessage
    ⟨.cancel, msg.id, msg.isSell, order.getRemainingQuantity, order.price⟩
  let (added, addEvents) ← cancelled.processOrderAddMessage fuel
    ⟨.add, msg.id, msg.isSell, msg.quantity, msg.price⟩
  return (added, cancelEvents ++ addEvents)

/-- A modification leads to the state that a cancel and an add lead to; if one of the two
does not return, neither does the other. -/
def RefinesCancelAdd (book : SmartOrderBook P) (msg : OrderMessage P) (order : Order P) :
    Prop :=
  ∀ final,
    (∃ events, Returns (fun fuel => book.processOrderModifyMessage fuel msg) (final, events)) ↔
      ∃ events, Returns (fun fuel => book.cancelThenAdd fuel msg order) (final, events)

/-! ### The cancel -/

theorem sides_cancelledAt (book : SmartOrderBook P) (msg : OrderMessage P) (order : Order P)
    (price : P) :
    (book.cancelledAt msg order price).sides msg.isSell =
        ((book.sides msg.isSell).processOrderCancel msg.id order.getRemainingQuantity price).1 ∧
      (book.cancelledAt msg order price).sides (!msg.isSell) = book.sides (!msg.isSell) := by
  simp [cancelledAt, processOrderCancelMessage]

section Cancelled

variable {slack : Set ℤ} (valid : book.Valid slack) (nonneg : 0 ≤ order.getRemainingQuantity)
  (price : P)

include valid nonneg

theorem Valid.cancelledAt : (book.cancelledAt msg order price).Valid slack :=
  valid.processOrderCancelMessage nonneg

/-- The expected liquidity is left alone, and the expected removals are matched. -/
theorem Valid.cancelledAt_ledgers :
    ((book.cancelledAt msg order price).sides msg.isSell).pendingLiqAddQty =
        (book.sides msg.isSell).pendingLiqAddQty ∧
      ∀ key, qtyAt ((book.cancelledAt msg order price).sides msg.isSell).pendingLiqRemoveQty key =
        qtyAt (book.sides msg.isSell).pendingLiqRemoveQty key -
          if key = price then min (qtyAt (book.sides msg.isSell).pendingLiqRemoveQty price)
            order.getRemainingQuantity else 0 := by
  rw [(sides_cancelledAt book msg order price).1,
    BookSide.processOrderCancel_eq (valid msg.isSell).ledgers.remove_pos _ nonneg]
  split
  · rw [BookSide.removeOrder_frame]
    exact ⟨BookSide.removeOrder_addLedger _ _, fun key => qtyAt_debit _ _ _ _⟩
  · exact ⟨rfl, fun key => qtyAt_debit _ _ _ _⟩

/-- The other orders of the side stay. -/
theorem Valid.mem_cancelledAt {other : Order P} {key : P}
    (mem : other ∈ (book.sides msg.isSell).ordersAt key) (different : other.odid ≠ msg.id) :
    other ∈ ((book.cancelledAt msg order price).sides msg.isSell).ordersAt key := by
  rw [(sides_cancelledAt book msg order price).1,
    BookSide.processOrderCancel_eq (valid msg.isSell).ledgers.remove_pos _ nonneg]
  split
  · have matched := (valid msg.isSell).matchedRemoval order.getRemainingQuantity price
    exact matched.linked.mem_removeOrder.mpr ⟨mem, different⟩
  · exact mem

/-- Under two prices with nothing to match, the cancel does the same. -/
theorem Valid.cancelledAt_eq {other : P}
    (none : qtyAt (book.sides msg.isSell).pendingLiqRemoveQty price = 0)
    (otherNone : qtyAt (book.sides msg.isSell).pendingLiqRemoveQty other = 0) :
    book.cancelledAt msg order price = book.cancelledAt msg order other := by
  have plain : ∀ key, qtyAt (book.sides msg.isSell).pendingLiqRemoveQty key = 0 →
      ((book.sides msg.isSell).processOrderCancel msg.id order.getRemainingQuantity key).1 =
        if 0 < order.getRemainingQuantity ∧ (book.sides msg.isSell).existOrder msg.id then
          (book.sides msg.isSell).removeOrder msg.id
        else book.sides msg.isSell := by
    intro key nothing
    have restEq : (book.sides msg.isSell).restQty ⟨order.getRemainingQuantity, key⟩ =
        order.getRemainingQuantity := by
      simp only [BookSide.restQty, nothing]
      omega
    have unmatched : (book.sides msg.isSell).matchedRemoval order.getRemainingQuantity key =
        book.sides msg.isSell := by
      have absent := (valid msg.isSell).ledgers.remove_pos.find?_eq key
      rw [if_pos nothing] at absent
      rw [BookSide.matchedRemoval, nothing, min_eq_left nonneg, debit, nothing, if_pos (sub_self 0),
        SortedMap.erase_of_find?_none absent]
    rw [BookSide.processOrderCancel_eq (valid msg.isSell).ledgers.remove_pos _ nonneg, restEq,
      unmatched]
    split <;> rfl
  apply ext_sides msg.isSell
  · rw [(sides_cancelledAt book msg order price).1, (sides_cancelledAt book msg order other).1,
      plain price none, plain other otherNone]
  · rw [(sides_cancelledAt book msg order price).2, (sides_cancelledAt book msg order other).2]

end Cancelled

/-! ### The add -/

/-- The add of a modification leads to a state from the book cancelled under a price. -/
def AddsFrom (book : SmartOrderBook P) (msg : OrderMessage P) (order : Order P) (price : P)
    (final : SmartOrderBook P) : Prop :=
  ∃ events, Returns (fun fuel => (book.cancelledAt msg order price).processOrderAddMessage fuel
    (addOf msg)) (final, events)

omit [Zero P] in
/-- The order of an id that rests on one side only. -/
theorem getOrder?_of_side {isSell : Bool} {id : ℤ}
    (rests : (book.sides isSell).getOrder? id = some order)
    (alone : (book.sides (!isSell)).existOrder id = false) :
    book.getOrder? id = some order := by
  have present := BookSide.existOrder_of_getOrder? rests
  cases isSell with
  | false => rw [getOrder?, if_pos present, rests]
  | true =>
      rw [Bool.not_true] at alone
      rw [getOrder?, alone, if_neg Bool.false_ne_true, rests]

theorem modify_iff_addsFrom (found : book.getOrder? msg.id = some order)
    (final : SmartOrderBook P) :
    (∃ events, Returns (fun fuel => book.processOrderModifyMessage fuel msg) (final, events)) ↔
      book.AddsFrom msg order msg.price final := by
  constructor
  · rintro ⟨events, returns⟩
    exact modify_returns found returns
  · rintro ⟨events, fuel, returned⟩
    refine ⟨[⟨.modif, msg.id, msg.isSell, msg.quantity, msg.price⟩], fuel, ?_⟩
    simp only [processOrderModifyMessage, found]
    exact bind_eq_ok.mpr ⟨_, returned, rfl⟩

theorem cancelThenAdd_monotone (book : SmartOrderBook P) (msg : OrderMessage P)
    (order : Order P) : FuelMonotone fun fuel => book.cancelThenAdd fuel msg order :=
  (processOrderAddMessage_monotone _ _).bind fun _ => FuelMonotone.const _

theorem cancelThenAdd_iff_addsFrom (book : SmartOrderBook P) (msg : OrderMessage P)
    (order : Order P) (final : SmartOrderBook P) :
    (∃ events, Returns (fun fuel => book.cancelThenAdd fuel msg order) (final, events)) ↔
      book.AddsFrom msg order order.price final := by
  constructor
  · rintro ⟨events, fuel, returned⟩
    obtain ⟨⟨added, addEvents⟩, addReturned, finalEq⟩ := bind_eq_ok.mp returned
    cases finalEq
    exact ⟨addEvents, fuel, addReturned⟩
  · rintro ⟨events, fuel, returned⟩
    exact ⟨_, fuel, bind_eq_ok.mpr ⟨_, returned, rfl⟩⟩

section Added

variable {slack : Set ℤ} (valid : book.Valid slack) (nonneg : 0 ≤ order.getRemainingQuantity)

include valid nonneg

/-- If the order absorbs for ever, the add leads nowhere. -/
theorem Valid.not_addsFrom (pos : 0 < msg.quantity)
    (forever : (book.sides msg.isSell).AbsorbsForever msg.quantity msg.price) (price : P)
    (final : SmartOrderBook P) : ¬ book.AddsFrom msg order price final := by
  rintro ⟨events, fuel, returned⟩
  obtain ⟨⟨own, matched⟩, absorbed, -⟩ := bind_eq_ok.mp returned
  have sameLedger : (book.sides msg.isSell).pendingLiqAddQty =
      ((book.cancelledAt msg order price).sides msg.isSell).pendingLiqAddQty :=
    (valid.cancelledAt_ledgers nonneg price).1.symm
  exact ((valid msg.isSell).matchPendingLiqAdd_returns_iff pos msg.price).mp
    ⟨_, BookSide.matchPendingLiqAdd_congr sameLedger ⟨fuel, absorbed⟩⟩ forever

/-- Otherwise it returns, with an outcome that depends on the cancel through the own side
only. -/
theorem Valid.exists_addsFrom (pos : 0 < msg.quantity) {own : BookSide P msg.isSell} {matched : ℤ}
    (absorbed : Returns (fun fuel => (book.sides msg.isSell).matchPendingLiqAdd fuel msg.quantity
      msg.price) (own, matched)) (price : P) :
    ∃ (final : SmartOrderBook P) (events : OrderInfoVec P)
      (after : BookSide P (addOf msg).isSell),
      Returns (fun fuel => (book.cancelledAt msg order price).processOrderAddMessage fuel
        (addOf msg)) (final, events) ∧
      after = { (book.cancelledAt msg order price).sides msg.isSell with
        pendingLiqAddQty := own.pendingLiqAddQty } ∧
      AddOutcome slack (book.cancelledAt msg order price) (addOf msg) after matched final
        events := by
  have sameLedger : ((book.cancelledAt msg order price).sides msg.isSell).pendingLiqAddQty =
      (book.sides msg.isSell).pendingLiqAddQty :=
    (valid.cancelledAt_ledgers nonneg price).1
  have cancelled : (book.cancelledAt msg order price).Valid slack :=
    valid.cancelledAt nonneg price
  have addPos : 0 < (addOf msg).quantity := pos
  obtain ⟨final, events, returns, outcome⟩ := cancelled.processOrderAddMessage_returns addPos
    (BookSide.matchPendingLiqAdd_congr sameLedger absorbed)
  exact ⟨final, events, _, returns, rfl, outcome⟩

/-- The expected removals that an add leaves behind. -/
theorem Valid.qtyAt_added {own after : BookSide P (addOf msg).isSell} {matched : ℤ} {price : P}
    {final : SmartOrderBook P} {events : OrderInfoVec P}
    (afterEq : after = { (book.cancelledAt msg order price).sides msg.isSell with
      pendingLiqAddQty := own.pendingLiqAddQty })
    (outcome : AddOutcome slack (book.cancelledAt msg order price) (addOf msg) after matched final
      events) (key : P) :
    qtyAt (final.sides msg.isSell).pendingLiqRemoveQty key =
      qtyAt (book.sides msg.isSell).pendingLiqRemoveQty key -
          (if key = price then min (qtyAt (book.sides msg.isSell).pendingLiqRemoveQty price)
            order.getRemainingQuantity else 0) +
        execQtyAt (book.crossEvents (addOf msg) (msg.quantity - matched)) key := by
  have removals := outcome.removals (by rw [afterEq]; rfl) msg.isSell
  have sameEvents : (book.cancelledAt msg order price).crossEvents (addOf msg)
      ((addOf msg).quantity - matched) =
        book.crossEvents (addOf msg) (msg.quantity - matched) := by
    have opposite := (sides_cancelledAt book msg order price).2
    simp only [crossEvents, addOf, opposite]
  rw [removals, sameEvents, qtyAt_creditEvents, (valid.cancelledAt_ledgers nonneg price).2]

end Added

end SmartOrderBook

/-- A modification is a cancel and an add exactly when neither returns, when the price stays,
or when no removal is expected at the old and at the new price. -/
theorem modify_refines_iff [Zero P] {book : SmartOrderBook P} (reachable : book.Reachable)
    {msg : OrderMessage P} (pos : 0 < msg.quantity) {order : Order P}
    (rests : (book.sides msg.isSell).getOrder? msg.id = some order)
    (alone : (book.sides (!msg.isSell)).existOrder msg.id = false) :
    book.RefinesCancelAdd msg order ↔
      (book.sides msg.isSell).AbsorbsForever msg.quantity msg.price ∨
        msg.price = order.price ∨
        (qtyAt (book.sides msg.isSell).pendingLiqRemoveQty msg.price = 0 ∧
          qtyAt (book.sides msg.isSell).pendingLiqRemoveQty order.price = 0) := by
  have valid := reachable.valid
  obtain ⟨-, mem⟩ := (valid msg.isSell).linked.getOrder?_eq_some rests
  have remains := ((valid msg.isSell).isOpen mem).remaining_pos
  have found := SmartOrderBook.getOrder?_of_side rests alone
  have iff_added : book.RefinesCancelAdd msg order ↔ ∀ final,
      book.AddsFrom msg order msg.price final ↔ book.AddsFrom msg order order.price final := by
    apply forall_congr'
    intro final
    rw [SmartOrderBook.modify_iff_addsFrom found, SmartOrderBook.cancelThenAdd_iff_addsFrom]
  rw [iff_added]
  constructor
  · intro same
    rw [or_iff_not_imp_left, or_iff_not_imp_left]
    intro ends moved
    obtain ⟨⟨own, matched⟩, absorbed⟩ :=
      ((valid msg.isSell).matchPendingLiqAdd_returns_iff pos msg.price).mpr ends
    obtain ⟨final, events, after, returns, afterEq, outcome⟩ :=
      valid.exists_addsFrom remains.le pos absorbed msg.price
    obtain ⟨other, otherEvents, otherAfter, otherReturns, otherEq, otherOutcome⟩ :=
      valid.exists_addsFrom remains.le pos absorbed order.price
    obtain ⟨sameEvents, sameReturns⟩ := (same final).mp ⟨events, returns⟩
    cases Returns.unique (SmartOrderBook.processOrderAddMessage_monotone _ _) sameReturns
      otherReturns
    have nonneg := (valid msg.isSell).ledgers.remove_pos.qtyAt_nonneg
    have newNonneg := nonneg msg.price
    have oldNonneg := nonneg order.price
    have atNew := valid.qtyAt_added remains.le afterEq outcome msg.price
    have atOld := valid.qtyAt_added remains.le afterEq outcome order.price
    rw [valid.qtyAt_added remains.le otherEq otherOutcome, if_pos rfl, if_neg moved] at atNew
    rw [valid.qtyAt_added remains.le otherEq otherOutcome, if_pos rfl,
      if_neg (Ne.symm moved)] at atOld
    constructor <;> omega
  · rintro (forever | samePrice | ⟨newNone, oldNone⟩) final
    · exact iff_of_false (valid.not_addsFrom remains.le pos forever _ final)
        (valid.not_addsFrom remains.le pos forever _ final)
    · rw [samePrice]
    · rw [SmartOrderBook.AddsFrom, SmartOrderBook.AddsFrom,
        valid.cancelledAt_eq remains.le _ newNone oldNone]

/-- The price of the only ask is raised, with nothing expected. -/
theorem modify_of_restingAsk_refines :
    restingAskBook.RefinesCancelAdd ⟨.modify, 1, true, 5, 101⟩ ⟨1, true, 10, 100, 0⟩ := by
  have reachable : restingAskBook.Reachable :=
    ⟨restingAskMessages, SmartOrderBook.run_of_processAll 9 rfl, by decide⟩
  have rests : (restingAskBook.sides true).getOrder? 1 = some ⟨1, true, 10, 100, 0⟩ := by decide
  have alone : (restingAskBook.sides false).existOrder 1 = false := by decide
  have refines_iff := @modify_refines_iff ℤ _ _ restingAskBook reachable
    ⟨.modify, 1, true, 5, 101⟩ (by decide) ⟨1, true, 10, 100, 0⟩ rests alone
  exact refines_iff.mpr (.inr (.inr ⟨by decide, by decide⟩))

/-- Asks of 10 at 100 and at 101, and a bid that takes the first one and 2 of the second. -/
def sweptAskMessages : List (Message ℤ) :=
  [.add ⟨.add, 1, true, 10, 100⟩, .add ⟨.add, 2, true, 10, 101⟩, .add ⟨.add, 3, false, 12, 101⟩]

def sweptAskBook : SmartOrderBook ℤ :=
  ((SmartOrderBook.empty.processAll 9 sweptAskMessages).toOption).getD .empty

/-- The book after a modification that is to move the second ask to 100. -/
def movedAskBook : SmartOrderBook ℤ :=
  ((sweptAskBook.processOrderModifyMessage 9 ⟨.modify, 2, true, 8, 100⟩).toOption.map
    Prod.fst).getD .empty

/-- The book after the cancel and the add that move it. -/
def readdedAskBook : SmartOrderBook ℤ :=
  ((sweptAskBook.cancelThenAdd 9 ⟨.modify, 2, true, 8, 100⟩ ⟨2, true, 10, 101, 2⟩).toOption.map
    Prod.fst).getD .empty

/-- The second ask is to move to 100.  The removals expected there absorb the cancel, the ask
stays at 101 and the add is dropped; cancelled at 101, the ask leaves and rests at 100. -/
theorem modify_of_sweptAsk_not_refined :
    sweptAskBook.Reachable ∧
      (sweptAskBook.sides true).getOrder? 2 = some ⟨2, true, 10, 101, 2⟩ ∧
      (sweptAskBook.sides false).existOrder 2 = false ∧
      ¬ sweptAskBook.RefinesCancelAdd ⟨.modify, 2, true, 8, 100⟩ ⟨2, true, 10, 101, 2⟩ := by
  refine ⟨⟨sweptAskMessages, SmartOrderBook.run_of_processAll 9 rfl, by decide⟩, rfl, rfl, ?_⟩
  intro refines
  obtain ⟨events, returns⟩ := (refines movedAskBook).mp ⟨_, 9, rfl⟩
  have readded : Returns (fun fuel => sweptAskBook.cancelThenAdd fuel ⟨.modify, 2, true, 8, 100⟩
      ⟨2, true, 10, 101, 2⟩)
      (readdedAskBook, [⟨.cancel, 2, true, 6, 101⟩, ⟨.add, 2, true, 8, 100⟩]) := ⟨9, rfl⟩
  have same := Returns.unique (SmartOrderBook.cancelThenAdd_monotone _ _ _) returns readded
  have sameLevel : (movedAskBook.sides true).existLevel 100 =
      (readdedAskBook.sides true).existLevel 100 := by rw [(Prod.mk.inj same).1]
  revert sameLevel
  decide

/-! ### What a modification reports -/

/-- The quantity that an event list reports as executed of one order. -/
def execQtyOf (events : OrderInfoVec P) (isSell : Bool) (order : Order P) : ℤ :=
  (events.map fun e =>
    if e.event = OrderEvent.exec ∧ e.odid = order.odid ∧ e.isSell = isSell ∧
      e.price = order.price then e.quantity else 0).sum

/-- Every other order than the modified one that loses quantity is reported as executed, with
all that it loses. -/
def SmartOrderBook.ReportsExecutions [Zero P] (book : SmartOrderBook P) (msg : OrderMessage P) :
    Prop :=
  ∀ final events, Returns (fun fuel => book.processOrderModifyMessage fuel msg) (final, events) →
    ∀ isSell order, (book.sides isSell).getOrder? order.odid = some order →
      ¬ (isSell = msg.isSell ∧ order.odid = msg.id) →
      (final.sides isSell).restingQty order.odid < order.getRemainingQuantity →
      execQtyOf events isSell order =
        order.getRemainingQuantity - (final.sides isSell).restingQty order.odid

namespace BookSide

variable {isSell : Bool} {side final : BookSide P isSell} {slack : Set ℤ}

/-- An order that crosses the best level takes from its first order. -/
theorem CrossOutcome.first_loses (valid : side.Valid slack) {price key : P} {qty : ℤ}
    {events : OrderInfoVec P} {level : L3PriceLevel P}
    (outcome : CrossOutcome slack side price qty final events)
    (first : side.levels.begin? = some (key, level)) (crosses : Crosses isSell price key)
    (pos : 0 < qty) :
    ∃ order ∈ side.ordersAt key, final.restingQty order.odid < order.getRemainingQuantity := by
  obtain ⟨others, entriesEq⟩ := SortedMap.begin?_eq_some_iff.mp first
  have levelFound := SortedMap.find?_of_begin? first
  have ordersEq := ordersAt_of_find? levelFound
  obtain ⟨order, later, levelEq⟩ :=
    List.exists_cons_of_ne_nil (valid.linked.level levelFound).nonempty
  have mem : order ∈ side.ordersAt key := by
    rw [ordersEq, levelEq]
    exact List.mem_cons_self
  have remains := (valid.isOpen mem).remaining_pos
  have split := restingOrders_eq side price
  have rest_eq := outcome.resting_eq
  rw [crossingOrders_first entriesEq crosses, levelEq, List.cons_append] at split rest_eq
  have nodup := valid.linked.restingIds_nodup
  rw [split, List.cons_append, ids, List.map_cons, List.nodup_cons] at nodup
  refine ⟨order, mem, ?_⟩
  cases found : final.getOrder? order.odid with
  | none =>
      rw [restingQty, found]
      exact remains
  | some left =>
      obtain ⟨sameId, leftMem⟩ := outcome.valid.linked.getOrder?_eq_some found
      have leftRests := mem_restingOrders.mpr ⟨_, leftMem⟩
      rw [rest_eq, fillFront, QueueFill.remaining] at leftRests
      split at leftRests
      · next used =>
          -- the first order is used up, and the others have other ids
          refine (nodup.1 ?_).elim
          rw [← sameId, List.map_append, List.mem_append]
          rcases List.mem_append.mp leftRests with kept | beyond
          · exact Or.inl (mem_ids_fillFront (by omega) (List.mem_map_of_mem kept))
          · exact Or.inr (List.mem_map_of_mem beyond)
      · rcases List.mem_cons.mp leftRests with rfl | behind
        · rw [restingQty, found, Option.map_some, Option.getD_some, Order.remaining_fill]
          omega
        · exact (nodup.1 (sameId ▸ List.mem_map_of_mem behind)).elim

end BookSide

namespace SmartOrderBook

variable [Zero P] {book final : SmartOrderBook P} {msg : OrderMessage P} {order : Order P}
  {slack : Set ℤ}

omit [Zero P] in
theorem existOrder_of_getOrder? {id : ℤ} (found : book.getOrder? id = some order) :
    book.existOrder id = true := by
  unfold getOrder? at found
  rw [existOrder, Bool.or_eq_true]
  split at found
  · exact Or.inl (BookSide.existOrder_of_getOrder? found)
  · exact Or.inr (BookSide.existOrder_of_getOrder? found)

omit [Zero P] in
/-- An id that rests on a side has an order. -/
theorem Valid.getOrder?_of_existOrder (valid : book.Valid slack) {id : ℤ}
    (present : book.existOrder id = true) : ∃ order, book.getOrder? id = some order := by
  have atSide : ∀ isSell, (book.sides isSell).existOrder id = true →
      ∃ order, (book.sides isSell).getOrder? id = some order := by
    intro isSell exists_
    obtain ⟨key, mem⟩ := (valid isSell).linked.existOrder_iff.mp exists_
    obtain ⟨order, orderMem, rfl⟩ := List.mem_map.mp mem
    exact ⟨order, (valid isSell).linked.getOrder?_of_mem orderMem⟩
  unfold getOrder?
  split
  · next bid => exact atSide false bid
  · next noBid =>
      have exists_ := (Bool.or_eq_true _ _).mp present
      exact atSide true (exists_.resolve_left noBid)

/-- The returned events hold no execution. -/
theorem execQtyOf_modify {events : OrderInfoVec P}
    (returns : Returns (fun fuel => book.processOrderModifyMessage fuel msg) (final, events))
    (isSell : Bool) (other : Order P) : execQtyOf events isSell other = 0 := by
  have eventsEq : events = [⟨.modif, msg.id, msg.isSell, msg.quantity, msg.price⟩] := by
    obtain ⟨fuel, returned⟩ := returns
    cases found : book.getOrder? msg.id with
    | none =>
        simp only [processOrderModifyMessage, found] at returned
        cases returned
        rfl
    | some order =>
        simp only [processOrderModifyMessage, found] at returned
        obtain ⟨added, -, finalEq⟩ := bind_eq_ok.mp returned
        cases finalEq
        rfl
  simp [eventsEq, execQtyOf]

omit [Zero P] in
/-- The other orders of the own side keep what remains of them. -/
theorem AddOutcome.restingQty_own {own : BookSide P msg.isSell} {matched : ℤ}
    {events : OrderInfoVec P} (finalLinked : (final.sides msg.isSell).Linked)
    (ownLevels : own.levels = (book.sides msg.isSell).levels)
    (outcome : AddOutcome slack book msg own matched final events) {other : Order P} {key : P}
    (mem : other ∈ (book.sides msg.isSell).ordersAt key) :
    (final.sides msg.isSell).restingQty other.odid = other.getRemainingQuantity := by
  have credited : other ∈ (own.addPendingLiqRemoveQty
      (book.crossEvents msg (msg.quantity - matched))).ordersAt key := by
    simpa only [BookSide.ordersAt, BookSide.addPendingLiqRemoveQty, ownLevels] using mem
  have stays : other ∈ (final.sides msg.isSell).ordersAt key := by
    rcases le_or_gt (msg.quantity - matched) (book.crossingTotal msg) with enough | short
    · rw [(outcome.filled enough).1]
      exact credited
    · rw [(outcome.rests short).1, BookSide.ordersAt_withOrder]
      split
      · exact List.mem_append_left _ credited
      · exact credited
  exact finalLinked.restingQty_of_mem stays

/-- The add of a modification from the book after its cancel. -/
theorem Valid.modify_outcome (valid : book.Valid slack) (zeroMem : 0 ∈ slack)
    (pos : 0 < msg.quantity) {events : OrderInfoVec P}
    (found : book.getOrder? msg.id = some order)
    (returns : Returns (fun fuel => book.processOrderModifyMessage fuel msg) (final, events)) :
    ∃ (own : BookSide P (addOf msg).isSell) (matched : ℤ) (addEvents : OrderInfoVec P),
      AddOutcome slack (book.cancelledAt msg order msg.price) (addOf msg) own matched final
        addEvents ∧
      own.levels = ((book.cancelledAt msg order msg.price).sides msg.isSell).levels ∧
      final.Valid slack ∧ matched ≤ msg.quantity ∧
      (matched < msg.quantity ↔
        (book.sides msg.isSell).LeavesRest msg.quantity msg.price) := by
  have nonneg := (valid.getOrder?_isOpen found).remaining_pos.le
  have addPos : 0 < (addOf msg).quantity := pos
  have cancelled : (book.cancelledAt msg order msg.price).Valid slack :=
    valid.cancelledAt nonneg msg.price
  obtain ⟨addEvents, added⟩ := modify_returns found returns
  obtain ⟨own, matched, absorbed, outcome⟩ := cancelled.addOutcome addPos added
  obtain ⟨-, -, fits, ownEq⟩ :=
    (cancelled msg.isSell).matchPendingLiqAdd addPos.le absorbed.choose_spec
  have sameLedger : (book.sides msg.isSell).pendingLiqAddQty =
      ((book.cancelledAt msg order msg.price).sides msg.isSell).pendingLiqAddQty :=
    (valid.cancelledAt_ledgers nonneg msg.price).1.symm
  refine ⟨own, matched, addEvents, outcome, by rw [ownEq],
    cancelled.processOrderAddMessage zeroMem addPos added, fits, ?_⟩
  exact (valid msg.isSell).matched_lt_iff pos
    (BookSide.matchPendingLiqAdd_congr sameLedger absorbed)

/-- A modification that lets no order cross takes from no other order. -/
theorem Valid.modify_keeps (valid : book.Valid slack) (zeroMem : 0 ∈ slack)
    (pos : 0 < msg.quantity) {events : OrderInfoVec P}
    (found : book.getOrder? msg.id = some order)
    (returns : Returns (fun fuel => book.processOrderModifyMessage fuel msg) (final, events))
    (idle : ¬ ((book.sides msg.isSell).LeavesRest msg.quantity msg.price ∧
      (book.sides (!msg.isSell)).bookCrossedWithPrice msg.price = true))
    {isSell : Bool} {other : Order P}
    (rests : (book.sides isSell).getOrder? other.odid = some other)
    (different : ¬ (isSell = msg.isSell ∧ other.odid = msg.id)) :
    (final.sides isSell).restingQty other.odid = other.getRemainingQuantity := by
  have nonneg := (valid.getOrder?_isOpen found).remaining_pos.le
  obtain ⟨own, matched, addEvents, outcome, ownLevels, finalValid, fits, leaves_iff⟩ :=
    valid.modify_outcome zeroMem pos found returns
  obtain ⟨-, mem⟩ := (valid isSell).linked.getOrder?_eq_some rests
  obtain rfl | rfl : isSell = msg.isSell ∨ isSell = !msg.isSell := by
    cases isSell <;> cases msg.isSell <;> simp
  · have otherId : other.odid ≠ msg.id := fun same => different ⟨rfl, same⟩
    exact outcome.restingQty_own (finalValid (addOf msg).isSell).linked ownLevels
      (valid.mem_cancelledAt nonneg msg.price mem otherId)
  · have stops : msg.quantity - matched = 0 ∨ ∀ {key : P} {level : L3PriceLevel P},
        (book.sides (!msg.isSell)).levels.begin? = some (key, level) →
          ¬ BookSide.Crosses (!msg.isSell) msg.price key := by
      by_cases leaves : (book.sides msg.isSell).LeavesRest msg.quantity msg.price
      · right
        intro key level first crosses
        exact idle ⟨leaves,
          ((valid (!msg.isSell)).linked.bookCrossedWithPrice_iff first msg.price).mpr crosses⟩
      · left
        have := mt leaves_iff.mp leaves
        omega
    have crossed := outcome.crossed
    have opposite : (book.cancelledAt msg order msg.price).sides (!(addOf msg).isSell) =
        book.sides (!msg.isSell) := (sides_cancelledAt book msg order msg.price).2
    rw [opposite] at crossed
    have same : final.sides (!msg.isSell) = book.sides (!msg.isSell) := crossed.stops_eq stops
    rw [same]
    exact (valid (!msg.isSell)).linked.restingQty_of_mem mem

/-- A modification whose order crosses takes from the best order of the other side. -/
theorem Valid.modify_executes (valid : book.Valid slack) (zeroMem : 0 ∈ slack)
    (pos : 0 < msg.quantity) {events : OrderInfoVec P}
    (found : book.getOrder? msg.id = some order)
    (returns : Returns (fun fuel => book.processOrderModifyMessage fuel msg) (final, events))
    (leaves : (book.sides msg.isSell).LeavesRest msg.quantity msg.price)
    (crossed : (book.sides (!msg.isSell)).bookCrossedWithPrice msg.price = true) :
    ∃ other, (book.sides (!msg.isSell)).getOrder? other.odid = some other ∧
      (final.sides (!msg.isSell)).restingQty other.odid < other.getRemainingQuantity := by
  obtain ⟨own, matched, addEvents, outcome, -, -, -, leaves_iff⟩ :=
    valid.modify_outcome zeroMem pos found returns
  have more := leaves_iff.mpr leaves
  have opposite : (book.cancelledAt msg order msg.price).sides (!(addOf msg).isSell) =
      book.sides (!msg.isSell) := (sides_cancelledAt book msg order msg.price).2
  cases first : (book.sides (!msg.isSell)).levels.begin? with
  | none => simp [BookSide.bookCrossedWithPrice, first] at crossed
  | some entry =>
      have crosses :=
        ((valid (!msg.isSell)).linked.bookCrossedWithPrice_iff first msg.price).mp crossed
      have crossOutcome := outcome.crossed
      rw [opposite] at crossOutcome
      obtain ⟨other, mem, loses⟩ := crossOutcome.first_loses (valid (!msg.isSell)) first crosses
        (show 0 < msg.quantity - matched by omega)
      exact ⟨other, (valid (!msg.isSell)).linked.getOrder?_of_mem mem, loses⟩

end SmartOrderBook

/-- A modification reports all executions exactly when there are none: its order does not
rest, or the new order is all absorbed by expected liquidity, or it does not cross. -/
theorem modify_reports_iff [Zero P] {book : SmartOrderBook P} (reachable : book.Reachable)
    {msg : OrderMessage P} (pos : 0 < msg.quantity) :
    book.ReportsExecutions msg ↔
      ¬ (book.existOrder msg.id = true ∧
        (book.sides msg.isSell).LeavesRest msg.quantity msg.price ∧
        (book.sides (!msg.isSell)).bookCrossedWithPrice msg.price = true) := by
  have valid := reachable.valid
  constructor
  · rintro reports ⟨present, leaves, crossed⟩
    obtain ⟨order, found⟩ := valid.getOrder?_of_existOrder present
    obtain ⟨⟨own, matched⟩, absorbed⟩ :=
      ((valid msg.isSell).matchPendingLiqAdd_returns_iff pos msg.price).mpr leaves.not_forever
    obtain ⟨final, addEvents, -, added, -, -⟩ := valid.exists_addsFrom
      (valid.getOrder?_isOpen found).remaining_pos.le pos absorbed msg.price
    obtain ⟨events, returns⟩ :=
      (SmartOrderBook.modify_iff_addsFrom found final).mpr ⟨addEvents, added⟩
    obtain ⟨other, rests, loses⟩ :=
      valid.modify_executes BookSide.zero_mem_nonneg pos found returns leaves crossed
    have reported := reports final events returns (!msg.isSell) other rests
      (fun modified => Bool.not_ne_self msg.isSell modified.1) loses
    rw [SmartOrderBook.execQtyOf_modify returns] at reported
    omega
  · intro idle final events returns isSell other rests different loses
    have kept : (final.sides isSell).restingQty other.odid = other.getRemainingQuantity := by
      cases found : book.getOrder? msg.id with
      | none =>
          rw [SmartOrderBook.modify_absent found returns, BookSide.restingQty, rests]
          rfl
      | some order =>
          refine valid.modify_keeps BookSide.zero_mem_nonneg pos found returns ?_ rests different
          rintro ⟨leaves, crossed⟩
          exact idle ⟨SmartOrderBook.existOrder_of_getOrder? found, leaves, crossed⟩
    omega

/-- The raised ask meets no bid. -/
theorem modify_of_restingAsk_reports :
    restingAskBook.ReportsExecutions ⟨.modify, 1, true, 5, 101⟩ := by
  have reachable : restingAskBook.Reachable :=
    ⟨restingAskMessages, SmartOrderBook.run_of_processAll 9 rfl, by decide⟩
  apply (modify_reports_iff reachable (by decide)).mpr
  rintro ⟨-, -, crossed⟩
  revert crossed
  decide

/-- An ask of 10 at 100 and a bid of 10 at 99. -/
def narrowMessages : List (Message ℤ) :=
  [.add ⟨.add, 1, true, 10, 100⟩, .add ⟨.add, 2, false, 10, 99⟩]

def narrowBook : SmartOrderBook ℤ :=
  ((SmartOrderBook.empty.processAll 9 narrowMessages).toOption).getD .empty

/-- The bid is raised to 100 and executes the ask, which no event tells. -/
theorem modify_of_raisedBid_not_reported :
    narrowBook.Reachable ∧ ¬ narrowBook.ReportsExecutions ⟨.modify, 2, false, 10, 100⟩ := by
  refine ⟨⟨narrowMessages, SmartOrderBook.run_of_processAll 9 rfl, by decide⟩, ?_⟩
  intro reports
  have reported := reports _ _ ⟨9, rfl⟩ true ⟨1, true, 10, 100, 0⟩ rfl (by decide) (by decide)
  revert reported
  decide

end OrderBook
