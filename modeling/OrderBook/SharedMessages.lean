import OrderBook.MessageHandlers
import OrderBook.SharedBook
import OrderBook.SharedSnapshot

/-!
# Messages through pointers

Both sides keep their pointers in one heap.  The orders of one side are no orders
of the other, so an operation on one side leaves the objects of the other alone,
and a message handled through pointers does what it does on orders.
-/

namespace OrderBook.SharedBook

open FueledLoop SharedHeap

variable {P : Type} [LinearOrder P]

/-- A side of the book holds the pointer. -/
def Links (shared : SharedBook P) (pointer : Pointer) : Prop :=
  ∃ isSell, (shared.sides isSell).Links pointer

def Represents (heap : Heap (Order P)) (shared : SharedBook P) (book : SmartOrderBook P) : Prop :=
  ∀ isSell, (shared.sides isSell).Represents heap (book.sides isSell)

theorem represents_empty (heap : Heap (Order P)) : (empty : SharedBook P).Represents heap .empty :=
  fun _ => SharedSide.represents_empty heap

/-- A book represents what was computed on orders; it filled linked orders only, and linked
no other pointers than new ones. -/
structure StepsTo (heap : Heap (Order P)) (shared next : SharedBook P) (later : Heap (Order P))
    (value : SmartOrderBook P) : Prop where
  represents : next.Represents later value
  evolves : heap.Evolves Order.Fills shared.Links later
  links : ∀ {pointer : Pointer}, next.Links pointer →
    shared.Links pointer ∨ heap.objects.length ≤ pointer

variable {heap later : Heap (Order P)} {shared next : SharedBook P} {book value : SmartOrderBook P}

theorem sides_setSide_self (shared : SharedBook P) (isSell : Bool) (side : SharedSide P isSell) :
    (shared.setSide isSell side).sides isSell = side :=
  Function.update_self ..

theorem sides_setSide_not (shared : SharedBook P) (isSell : Bool) (side : SharedSide P isSell) :
    (shared.setSide isSell side).sides (!isSell) = shared.sides (!isSell) :=
  Function.update_of_ne (Bool.not_ne_self isSell) ..

/-- No object is linked on both sides. -/
theorem Represents.one_side (rep : shared.Represents heap book) {first second : Bool}
    {pointer : Pointer} (firstLinks : (shared.sides first).Links pointer)
    (secondLinks : (shared.sides second).Links pointer) : first = second := by
  obtain ⟨key, node, mem, rfl⟩ := firstLinks
  obtain ⟨order, -, found⟩ := (rep first).object_of_node mem
  rw [← (rep first).isSell_of_links ⟨key, node, mem, rfl⟩ found,
    (rep second).isSell_of_links secondLinks found]

theorem StepsTo.refl (rep : shared.Represents heap book) :
    StepsTo heap shared shared heap book where
  represents := rep
  evolves := .of_objects_eq rfl
  links linked := .inl linked

theorem StepsTo.trans {last : SharedBook P} {final : Heap (Order P)} {result : SmartOrderBook P}
    (first : StepsTo heap shared next later value)
    (second : StepsTo later next last final result) : StepsTo heap shared last final result where
  represents := second.represents
  evolves := by
    refine first.evolves.trans (fun earlier following => earlier.trans following)
      second.evolves ?_
    intro pointer inside linked
    rcases first.links linked with linkedBefore | outside
    · exact linkedBefore
    · omega
  links := by
    intro pointer linked
    rcases second.links linked with linkedBetween | outside
    · exact first.links linkedBetween
    · exact .inr (first.evolves.length_le.trans outside)

/-- An operation on one side, that may also write what the book has newly made. -/
theorem StepsTo.setSide (steps : StepsTo heap shared next later value) {isSell : Bool}
    {given : Pointer → Prop} {last : SharedSide P isSell} {final : Heap (Order P)}
    {result : BookSide P isSell}
    (sideSteps : SharedSide.StepsTo given later (next.sides isSell) last final result)
    (givenNew : ∀ pointer, given pointer → heap.objects.length ≤ pointer)
    (givenOwn : ∀ pointer, given pointer → ¬ (next.sides (!isSell)).Links pointer) :
    StepsTo heap shared (next.setSide isSell last) final (value.setSide isSell result) where
  represents := by
    intro other
    rcases Bool.eq_or_eq_not other isSell with rfl | rfl
    · rw [sides_setSide_self, SmartOrderBook.sides_setSide_self]
      exact sideSteps.represents
    · rw [sides_setSide_not, SmartOrderBook.sides_setSide_not]
      refine (steps.represents (!isSell)).frame ?_ sideSteps.acts.made
      intro pointer order linked found
      apply sideSteps.acts.evolves.unchanged found
      rintro (ownLinks | isGiven)
      · exact Bool.not_ne_self isSell (steps.represents.one_side linked ownLinks)
      · exact givenOwn pointer isGiven linked
  evolves := by
    refine steps.evolves.trans (fun earlier following => earlier.trans following)
      sideSteps.acts.evolves ?_
    rintro pointer inside (ownLinks | isGiven)
    · rcases steps.links ⟨isSell, ownLinks⟩ with linked | outside
      · exact linked
      · omega
    · exact absurd (givenNew pointer isGiven) (by omega)
  links := by
    rintro pointer ⟨other, linked⟩
    rcases Bool.eq_or_eq_not other isSell with rfl | rfl
    · rw [sides_setSide_self] at linked
      rcases sideSteps.acts.links linked with before | isGiven | outside
      · exact steps.links ⟨other, before⟩
      · exact .inr (givenNew pointer isGiven)
      · exact .inr (steps.evolves.length_le.trans outside)
    · rw [sides_setSide_not] at linked
      exact steps.links ⟨!isSell, linked⟩

variable [Zero P]

omit [Zero P] in
/-- An operation on one side that is given no order. -/
theorem StepsTo.setOwnSide (steps : StepsTo heap shared next later value) {isSell : Bool}
    {last : SharedSide P isSell} {final : Heap (Order P)} {result : BookSide P isSell}
    (sideSteps : SharedSide.StepsTo (fun _ => False) later (next.sides isSell) last final result) :
    StepsTo heap shared (next.setSide isSell last) final (value.setSide isSell result) :=
  steps.setSide sideSteps (fun _ isGiven => isGiven.elim) fun _ isGiven => isGiven.elim

theorem Represents.processOrderCancelMessage (rep : shared.Represents heap book)
    (msg : OrderMessage P) :
    Simulates (fun last final result => StepsTo heap shared last.1 final result.1 ∧
        last.2 = result.2)
      (shared.processOrderCancelMessage msg heap) (.ok (book.processOrderCancelMessage msg)) := by
  apply ((rep msg.isSell).processOrderCancel msg.id msg.quantity msg.price).bind_ok
  rintro ⟨side, events⟩ final ⟨sideSteps, same⟩
  exact .ok ⟨(StepsTo.refl rep).setOwnSide sideSteps, same⟩

theorem Represents.processTradeMessage (rep : shared.Represents heap book) (fuel : Nat)
    (msg : TradeMessage P) :
    Simulates (fun last final result => StepsTo heap shared last.1 final result.1 ∧
        last.2 = result.2)
      (shared.processTradeMessage fuel msg heap) (book.processTradeMessage fuel msg) := by
  apply ((rep false).processTrade fuel msg.toTrade).bind
  rintro ⟨bid, bidEvents⟩ bidHeap ⟨valueBid, _⟩ ⟨bidSteps, rfl⟩
  have bidSet := (StepsTo.refl rep).setOwnSide bidSteps
  apply ((bidSet.represents true).processTrade fuel msg.toTrade).bind
  rintro ⟨ask, askEvents⟩ final ⟨valueAsk, _⟩ ⟨askSteps, rfl⟩
  exact .ok ⟨bidSet.setOwnSide askSteps, rfl⟩

theorem Represents.processSnapshotMessage (rep : shared.Represents heap book)
    (msg : SnapshotMessage P) :
    Simulates (fun last final result => StepsTo heap shared last.1 final result.1 ∧
        last.2 = result.2)
      (shared.processSnapshotMessage msg heap) (book.processSnapshotMessage msg) := by
  apply ((rep false).processL2Snapshot msg.bidLevels).bind
  rintro ⟨bid, bidEvents⟩ bidHeap ⟨valueBid, _⟩ ⟨bidSteps, rfl⟩
  have bidSet := (StepsTo.refl rep).setOwnSide bidSteps
  apply ((bidSet.represents true).processL2Snapshot msg.askLevels).bind
  rintro ⟨ask, askEvents⟩ final ⟨valueAsk, _⟩ ⟨askSteps, rfl⟩
  exact .ok ⟨bidSet.setOwnSide askSteps, rfl⟩

/-! ### ADD messages -/

/-- While an ADD message is handled, its order is a new object that no side links yet. -/
structure AddRelated (pointer : Pointer) (heap : Heap (Order P)) (shared next : SharedBook P)
    (later : Heap (Order P)) (value : SmartOrderBook P) (order : Order P) : Prop where
  steps : StepsTo heap shared next later value
  object : later.objects[pointer]? = some order
  isNew : heap.objects.length ≤ pointer
  unlinked : ∀ isSell, ¬ (next.sides isSell).Links pointer

variable {pointer : Pointer} {order : Order P}

omit [Zero P] in
/-- A write to the ledgers of one side. -/
theorem AddRelated.setLedgers (related : AddRelated pointer heap shared next later value order)
    {isSell : Bool} {last : SharedSide P isSell} {result : BookSide P isSell}
    (levelsEq : last.levels = (next.sides isSell).levels)
    (rep : last.Represents later result) :
    AddRelated pointer heap shared (next.setSide isSell last) later (value.setSide isSell result)
      order where
  steps := related.steps.setOwnSide
    (.congr (.refl (related.steps.represents isSell)) levelsEq rep)
  object := related.object
  isNew := related.isNew
  unlinked := by
    intro other
    rcases Bool.eq_or_eq_not other isSell with rfl | rfl
    · rw [sides_setSide_self]
      rintro ⟨key, node, mem, samePointer⟩
      rw [SharedSide.nodesAt, levelsEq] at mem
      exact related.unlinked other ⟨key, node, mem, samePointer⟩
    · rw [sides_setSide_not]
      exact related.unlinked (!isSell)

omit [Zero P] in
theorem AddRelated.fill (related : AddRelated pointer heap shared next later value order)
    (qty : ℤ) :
    AddRelated pointer heap shared next (later.write pointer (order.fill qty)) value
      (order.fill qty) where
  steps := by
    have written : later.Evolves Order.Fills (fun other => other = pointer)
        (later.write pointer (order.fill qty)) :=
      .write related.object rfl ⟨qty, rfl⟩
    refine ⟨?_, ?_, related.steps.links⟩
    · intro isSell
      refine (related.steps.represents isSell).frame ?_ le_rfl
      intro other kept linked found
      apply written.unchanged found
      rintro rfl
      exact related.unlinked isSell linked
    · refine related.steps.evolves.trans (fun earlier following => earlier.trans following)
        written ?_
      rintro other inside rfl
      exact absurd related.isNew (by omega)
  object := by rw [object?_write related.object, if_pos rfl]
  isNew := related.isNew
  unlinked := related.unlinked

omit [Zero P] in
theorem AddRelated.matchPendingLiqAdd
    (related : AddRelated pointer heap shared next later value order) (isSell : Bool) (fuel : Nat)
    (quantity : ℤ) (price : P) :
    Simulates (fun last final result => final = later ∧ last.2 = result.2 ∧
        AddRelated pointer heap shared (next.setSide isSell last.1) later
          (value.setSide isSell result.1) order)
      (liftCall ((next.sides isSell).matchPendingLiqAdd fuel quantity price) later)
      ((value.sides isSell).matchPendingLiqAdd fuel quantity price) := by
  have rep := related.steps.represents isSell
  rw [SharedSide.matchPendingLiqAdd, BookSide.matchPendingLiqAdd, rep.pendingLiqAddQty_eq]
  cases loop (BookSide.matchPendingLiqAddBody isSell quantity price) fuel
      ((value.sides isSell).pendingLiqAddQty, 0) with
  | error halt => rfl
  | ok ended =>
      refine .ok ⟨rfl, rfl, ?_⟩
      refine AddRelated.setLedgers related ?_ ?_
      · rfl
      · exact { rep with
          linked := rep.linked.congr rfl rfl
          pendingLiqAddQty_eq := rfl }

theorem AddRelated.uncross (related : AddRelated pointer heap shared next later value order)
    (fuel : Nat) (msg : OrderMessage P) :
    Simulates (fun last final result =>
        AddRelated pointer heap shared last.1 final result.1 result.2.1 ∧ last.2 = result.2.2)
      (next.uncross fuel msg pointer later) (value.uncross fuel msg order) := by
  have rep := related.steps.represents (!msg.isSell)
  rw [SharedBook.uncross, SmartOrderBook.uncross, rep.bookCrossedWithPrice_eq]
  apply Simulates.ite
  · intro _
    apply (rep.processCrossedOrder related.object fuel).bind
    rintro ⟨opposite, events⟩ final ⟨valueOpposite, filled, _⟩ ⟨steps, object, apart, rfl⟩
    have crossed : AddRelated pointer heap shared (next.setSide (!msg.isSell) opposite) final
        (value.setSide (!msg.isSell) valueOpposite) filled := by
      refine ⟨related.steps.setSide steps ?_ ?_, object, related.isNew, ?_⟩
      · rintro _ rfl
        exact related.isNew
      · rintro _ rfl
        exact related.unlinked _
      · intro other linked
        rcases Bool.eq_or_eq_not other (!msg.isSell) with rfl | rfl
        · rw [sides_setSide_self] at linked
          exact apart (steps.represents.isSell_of_links linked object)
        · rw [sides_setSide_not] at linked
          exact related.unlinked _ linked
    have ownRep := crossed.steps.represents msg.isSell
    refine .ok ⟨AddRelated.setLedgers crossed ?_ ?_, rfl⟩
    · rfl
    · exact { ownRep with
        linked := ownRep.linked.congr rfl rfl
        pendingLiqRemoveQty_eq := by
          rw [SharedSide.addPendingLiqRemoveQty, BookSide.addPendingLiqRemoveQty,
            ownRep.pendingLiqRemoveQty_eq] }
  · intro _
    exact .ok ⟨related, rfl⟩

/-- The order is linked on its own side. -/
theorem AddRelated.addOrder (related : AddRelated pointer heap shared next later value order)
    (isSell : Bool) :
    Simulates (fun last final result => final.objects = later.objects ∧
        StepsTo heap shared (next.setSide isSell last) final (value.setSide isSell result))
      ((next.sides isSell).addOrder pointer later) ((value.sides isSell).addOrder order) := by
  apply ((related.steps.represents isSell).addOrder related.object).mono
  rintro last final result ⟨rep, objectsEq, made, mems⟩
  have sideSteps : SharedSide.StepsTo (fun other => other = pointer) later (next.sides isSell)
      last final result := by
    refine ⟨rep, .of_objects_eq objectsEq, ?_, made⟩
    rintro other ⟨key, node, mem, rfl⟩
    rcases mems.1 mem with old | new
    · exact .inl ⟨key, node, old, rfl⟩
    · exact .inr (.inl new)
  refine ⟨objectsEq, related.steps.setSide sideSteps ?_ ?_⟩
  · rintro _ rfl
    exact related.isNew
  · rintro _ rfl
    exact related.unlinked _

theorem AddRelated.addUnmatched (related : AddRelated pointer heap shared next later value order)
    (fuel : Nat) (msg : OrderMessage P) :
    Simulates (fun last final result => StepsTo heap shared last.1 final result.1 ∧
        last.2 = result.2)
      (next.addUnmatched fuel msg pointer later) (value.addUnmatched fuel msg order) := by
  rw [SharedBook.addUnmatched, SmartOrderBook.addUnmatched, load_bind related.object]
  apply Simulates.ite
  · intro _
    exact .ok ⟨related.steps, rfl⟩
  · intro _
    apply (related.uncross fuel msg).bind
    rintro ⟨uncrossed, events⟩ final ⟨valueUncrossed, filled, _⟩ ⟨crossed, rfl⟩
    dsimp only
    rw [load_bind crossed.object]
    apply Simulates.ite
    · intro _
      exact .ok ⟨crossed.steps, rfl⟩
    · intro _
      apply (crossed.addOrder msg.isSell).bind
      rintro side added result ⟨objectsEq, steps⟩
      rw [load_bind (objectsEq ▸ crossed.object)]
      exact .ok ⟨steps, rfl⟩

theorem Represents.processOrderAddMessage (rep : shared.Represents heap book) (fuel : Nat)
    (msg : OrderMessage P) :
    Simulates (fun last final result => StepsTo heap shared last.1 final result.1 ∧
        last.2 = result.2)
      (shared.processOrderAddMessage fuel msg heap) (book.processOrderAddMessage fuel msg) := by
  rw [SharedBook.processOrderAddMessage, SmartOrderBook.processOrderAddMessage, makeShared_bind]
  have made : AddRelated heap.objects.length heap shared shared
      { heap with objects := heap.objects ++ [msg.toOrder] } book msg.toOrder := by
    have kept : heap.Evolves Order.Fills shared.Links
        { heap with objects := heap.objects ++ [msg.toOrder] } := .alloc msg.toOrder
    refine ⟨⟨fun isSell => (rep isSell).alloc msg.toOrder, kept, fun linked => .inl linked⟩,
      by simp, le_rfl, ?_⟩
    · rintro isSell ⟨key, node, mem, pointerEq⟩
      obtain ⟨order, -, found⟩ := (rep isSell).object_of_node mem
      obtain ⟨inside, -⟩ := List.getElem?_eq_some_iff.mp found
      exact inside.ne pointerEq
  apply (made.matchPendingLiqAdd msg.isSell fuel msg.quantity msg.price).bind
  rintro ⟨own, matchedQty⟩ _ ⟨valueOwn, _⟩ ⟨rfl, rfl, matched⟩
  dsimp only
  rw [load_bind matched.object, store_bind matched.object]
  exact (matched.fill matchedQty).addUnmatched fuel msg

/-! ### MODIFY messages -/

omit [Zero P] in
theorem Represents.existOrder_eq (rep : shared.Represents heap book) (id : ℤ) :
    shared.existOrder id = book.existOrder id := by
  rw [existOrder, SmartOrderBook.existOrder, (rep false).existOrder_eq, (rep true).existOrder_eq]

omit [Zero P] in
/-- The handler of a resting order leads to that order. -/
theorem Represents.getOrderHandler? (rep : shared.Represents heap book) {id : ℤ}
    (exist : book.existOrder id = true) :
    ∃ handler order, shared.getOrderHandler? id = some handler ∧
      heap.objects[handler.order]? = some order ∧ book.getOrder? id = some order := by
  have sideHandler : ∀ isSell, (book.sides isSell).existOrder id = true →
      ∃ handler order, (shared.sides isSell).orderMap.find? id = some handler ∧
        heap.objects[handler.order]? = some order ∧
          (book.sides isSell).getOrder? id = some order := by
    intro isSell present
    rw [← (rep isSell).existOrder_eq, SharedSide.existOrder] at present
    obtain ⟨handler, mapped⟩ := Option.isSome_iff_exists.mp present
    obtain ⟨key, order, mem, found, rfl⟩ := (rep isSell).handlers.mp mapped
    obtain ⟨resting, restingMem, restingFound⟩ := (rep isSell).object_of_node mem
    rw [found, Option.some.injEq] at restingFound
    subst restingFound
    exact ⟨handler, order, mapped, found, (rep isSell).linked.getOrder?_of_mem restingMem⟩
  rw [SharedBook.getOrderHandler?, SmartOrderBook.getOrder?, (rep false).existOrder_eq]
  by_cases onBid : (book.sides false).existOrder id = true
  · rw [if_pos onBid, if_pos onBid]
    exact sideHandler false onBid
  · rw [if_neg onBid, if_neg onBid]
    apply sideHandler true
    rw [SmartOrderBook.existOrder, Bool.or_eq_true] at exist
    exact exist.resolve_left onBid

omit [Zero P] in
theorem getOrder?_of_not_exist {id : ℤ} (absent : ¬ book.existOrder id = true) :
    book.getOrder? id = none := by
  rw [SmartOrderBook.existOrder, Bool.or_eq_true, not_or] at absent
  rw [SmartOrderBook.getOrder?, if_neg absent.1]
  cases found : (book.sides true).getOrder? id with
  | none => rfl
  | some order => exact (absent.2 (BookSide.existOrder_of_getOrder? found)).elim

theorem Represents.processOrderModifyMessage (rep : shared.Represents heap book) (fuel : Nat)
    (msg : OrderMessage P) :
    Simulates (fun last final result => StepsTo heap shared last.1 final result.1 ∧
        last.2 = result.2)
      (shared.processOrderModifyMessage fuel msg heap)
      (book.processOrderModifyMessage fuel msg) := by
  rw [SharedBook.processOrderModifyMessage, SmartOrderBook.processOrderModifyMessage,
    rep.existOrder_eq]
  by_cases exist : book.existOrder msg.id = true
  · obtain ⟨handler, order, mapped, object, found⟩ := rep.getOrderHandler? exist
    rw [if_pos exist, mapped, found]
    dsimp only
    rw [load_bind object]
    apply (rep.processOrderCancelMessage _).bind_ok
    rintro ⟨cancelled, cancelEvents⟩ cancelledHeap ⟨cancelSteps, _⟩
    apply (cancelSteps.represents.processOrderAddMessage fuel _).bind
    rintro ⟨added, addEvents⟩ final ⟨valueAdded, _⟩ ⟨addSteps, -⟩
    exact .ok ⟨cancelSteps.trans addSteps, rfl⟩
  · rw [if_neg exist, getOrder?_of_not_exist exist]
    exact .ok ⟨.refl rep, rfl⟩

/-- A message handled through pointers does what it does on orders. -/
theorem Represents.process (rep : shared.Represents heap book) (fuel : Nat)
    (message : Message P) :
    Simulates (fun last final result => StepsTo heap shared last.1 final result.1 ∧
        last.2 = result.2)
      (shared.process fuel message heap) (book.process fuel message) := by
  cases message with
  | add msg => exact rep.processOrderAddMessage fuel msg
  | cancel msg => exact rep.processOrderCancelMessage msg
  | modify msg => exact rep.processOrderModifyMessage fuel msg
  | trade msg => exact rep.processTradeMessage fuel msg
  | snapshot msg => exact rep.processSnapshotMessage msg

end OrderBook.SharedBook
