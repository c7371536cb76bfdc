import OrderBook.SharedUpdates

/-!
# Matching through pointers

The loops of `processCrossedOrder` and `processTrade` walk the list of a level
while they fill the objects of its nodes.  A fill touches the object of one node
only, so the nodes still ahead hold the orders they held when the walk began.
-/

namespace OrderBook.SharedSide

open FueledLoop SharedHeap

variable {P : Type} [LinearOrder P] {isSell : Bool} {given : Pointer → Prop}
  {heap later : Heap (Order P)} {shared next : SharedSide P isSell}
  {side value : BookSide P isSell}

/-- A side represents what was computed on orders, and only did what it may do. -/
structure StepsTo (given : Pointer → Prop) (heap : Heap (Order P)) (shared : SharedSide P isSell)
    (next : SharedSide P isSell) (later : Heap (Order P)) (value : BookSide P isSell) :
    Prop where
  represents : next.Represents later value
  acts : shared.Acts given heap later next

namespace StepsTo

theorem refl (rep : shared.Represents heap side) :
    StepsTo given heap shared shared heap side :=
  ⟨rep, .refl⟩

/-- Only the queue of snapshots and the ledgers have changed. -/
theorem congr {last : SharedSide P isSell} {result : BookSide P isSell}
    (steps : StepsTo given heap shared next later value) (levelsEq : last.levels = next.levels)
    (rep : last.Represents later result) : StepsTo given heap shared last later result where
  represents := rep
  acts := by
    apply steps.acts.trans
    apply Acts.of_nodesAt_eq (.of_objects_eq rfl) _ le_rfl
    intro key
    rw [nodesAt, nodesAt, levelsEq]

theorem saveL2SnapshoSide (steps : StepsTo given heap shared next later value) :
    StepsTo given heap shared next.saveL2SnapshoSide later value.saveL2SnapshoSide :=
  steps.congr rfl steps.represents.saveL2SnapshoSide

/-- A pointer that the side may write, seen from the start. -/
theorem may_write (steps : StepsTo given heap shared next later value) {pointer : Pointer}
    (linked : next.Links pointer) :
    shared.Links pointer ∨ given pointer ∨ heap.objects.length ≤ pointer :=
  steps.acts.links linked

/-- A fill of an order that may be written. -/
theorem acts_written {pointer : Pointer} {order : Order P} {last : SharedSide P isSell}
    (steps : StepsTo given heap shared next later value)
    (object : later.objects[pointer]? = some order)
    (allowed : shared.Links pointer ∨ given pointer ∨ heap.objects.length ≤ pointer) (qty : ℤ)
    (same : ∀ key, last.nodesAt key = next.nodesAt key) :
    shared.Acts given heap (later.write pointer (order.fill qty)) last where
  evolves := by
    have written : later.Evolves Order.Fills (fun other => other = pointer)
        (later.write pointer (order.fill qty)) :=
      .write object rfl ⟨qty, rfl⟩
    refine steps.acts.evolves.trans (fun earlier following => earlier.trans following) written ?_
    rintro other inside rfl
    rcases allowed with linked | isGiven | outside
    · exact .inl linked
    · exact .inr isGiven
    · omega
  links := by
    rintro other ⟨key, node, mem, rfl⟩
    exact steps.acts.links ⟨key, node, same key ▸ mem, rfl⟩
  made := steps.acts.made

/-- A fill of the order that the side is given and does not link. -/
theorem fillGiven {pointer : Pointer} {order : Order P}
    (steps : StepsTo given heap shared next later value)
    (object : later.objects[pointer]? = some order) (isGiven : given pointer)
    (unlinked : ¬ next.Links pointer) (qty : ℤ) :
    StepsTo given heap shared next (later.write pointer (order.fill qty)) value where
  represents := by
    refine steps.represents.frame ?_ le_rfl
    intro other kept linked found
    rw [object?_write object, if_neg, found]
    rintro rfl
    exact unlinked linked
  acts := steps.acts_written object (.inr (.inl isGiven)) qty fun _ => rfl

/-- An expected removal entered in the ledgers. -/
theorem creditRemoval (steps : StepsTo given heap shared next later value) (price : P)
    (qty : ℤ) :
    StepsTo given heap shared
      { next with pendingLiqRemoveQty := credit next.pendingLiqRemoveQty price qty } later
      { value with pendingLiqRemoveQty := credit value.pendingLiqRemoveQty price qty } := by
  refine StepsTo.congr steps ?_ ?_
  · rfl
  refine { steps.represents with
    linked := steps.represents.linked.congr rfl rfl, pendingLiqRemoveQty_eq := ?_ }
  rw [steps.represents.pendingLiqRemoveQty_eq]

variable [Zero P]

theorem removeOrder (steps : StepsTo given heap shared next later value) (id : ℤ) :
    Simulates (fun last final result => StepsTo given heap shared last final result ∧
        final = later ∧ ∀ ⦃key : P⦄ ⦃node : Node⦄, node ∈ last.nodesAt key →
          node ∈ next.nodesAt key)
      (next.removeOrder id later) (.ok (value.removeOrder id)) := by
  apply (steps.represents.removeOrder id).mono
  rintro last final result ⟨rep, rfl, sub⟩
  refine ⟨⟨rep, steps.acts.trans ⟨.of_objects_eq rfl, ?_, le_rfl⟩⟩, rfl, fun _ _ => sub⟩
  rintro pointer ⟨key, node, mem, rfl⟩
  exact .inl ⟨key, node, sub mem, rfl⟩

theorem foldlM_removeOrder (steps : StepsTo given heap shared next later value)
    (removed : List ℤ) :
    Simulates (fun last final result => StepsTo given heap shared last final result ∧
        final = later)
      (removed.foldlM SharedSide.removeOrder next later)
      (.ok (removed.foldl BookSide.removeOrder value)) := by
  apply Simulates.foldl
  · rintro id state heap value ⟨reached, rfl⟩
    exact (reached.removeOrder id).mono fun _ _ _ removed => ⟨removed.1, removed.2.1⟩
  · exact ⟨steps, rfl⟩

theorem foldlM_removeAndSave (steps : StepsTo given heap shared next later value)
    (removed : List ℤ) :
    Simulates (StepsTo given heap shared) (removed.foldlM SharedSide.removeAndSave next later)
      (.ok (removed.foldl BookSide.removeAndSave value)) := by
  apply Simulates.foldl _ _ steps
  intro id state heap value reached
  apply (reached.removeOrder id).bind_ok
  rintro last final ⟨lastSteps, -⟩
  exact .ok lastSteps.saveL2SnapshoSide

/-- Filling the order of a node. -/
theorem fillNode (steps : StepsTo given heap shared next later value) {key : P} {node : Node}
    (mem : node ∈ next.nodesAt key) {order : Order P}
    (object : later.objects[node.pointer]? = some order) (qty : ℤ) :
    Simulates (fun last final result => StepsTo given heap shared last final result ∧
        final = later.write node.pointer (order.fill qty) ∧
        ∀ key, last.nodesAt key = next.nodesAt key)
      (next.fillLevelOrder key node.pointer qty later) (value.fillLevelOrder key order qty) := by
  obtain ⟨resting, restingMem, found⟩ := steps.represents.object_of_node mem
  rw [object, Option.some.injEq] at found
  subst found
  obtain rfl : order.price = key := steps.represents.linked.order_price restingMem
  obtain ⟨quantity, level⟩ := steps.represents.linked.exists_level restingMem
  have present : value.existLevel order.price = true := by
    rw [BookSide.existLevel, level]
    rfl
  apply (steps.represents.fillLevelOrder present object
    (steps.represents.owns_of_mem mem object) qty).mono
  rintro last final result ⟨rep, rfl, same⟩
  have allowed := steps.may_write ⟨order.price, node, mem, rfl⟩
  exact ⟨⟨rep, steps.acts_written object allowed qty same⟩, rfl, same⟩

end StepsTo

/-! ### Walking the list of a level -/

/-- The nodes that a walk has still to meet, with their orders. -/
structure Ahead (next : SharedSide P isSell) (later : Heap (Order P)) (key : P)
    (nodes : List Node) (orders : List (Order P)) : Prop where
  holds : later.Holds nodes orders
  nodup : nodes.Nodup
  mem : ∀ node ∈ nodes, node ∈ next.nodesAt key

theorem Represents.ahead (rep : shared.Represents heap side) (key : P) :
    shared.Ahead heap key (shared.nodesAt key) (side.ordersAt key) where
  holds := rep.holdsAt key
  nodup := (rep.iters key).of_map
  mem _ mem := mem

namespace Ahead

variable {key : P} {node : Node} {nodes : List Node} {order : Order P} {orders : List (Order P)}

theorem tail (ahead : next.Ahead later key (node :: nodes) (order :: orders)) :
    next.Ahead later key nodes orders where
  holds := (Heap.Holds.cons_iff.mp ahead.holds).2
  nodup := ahead.nodup.of_cons
  mem other mem := ahead.mem other (List.mem_cons_of_mem node mem)

/-- Writing the object of the first node leaves the objects of the others. -/
theorem tail_written (ahead : next.Ahead later key (node :: nodes) (order :: orders))
    (rep : next.Represents later value) {last : SharedSide P isSell} (filled : Order P)
    (same : ∀ key, last.nodesAt key = next.nodesAt key) :
    last.Ahead (later.write node.pointer filled) key nodes orders where
  holds := by
    apply ahead.tail.holds.congr
    intro other mem
    rw [object?_write (Heap.Holds.cons_iff.mp ahead.holds).1, if_neg]
    intro samePointer
    obtain ⟨-, rfl⟩ := rep.pointer_unique (ahead.tail.mem other mem)
      (ahead.mem node List.mem_cons_self) samePointer
    exact (List.nodup_cons.mp ahead.nodup).1 mem
  nodup := ahead.nodup.of_cons
  mem other mem := (same key).symm ▸ ahead.tail.mem other mem

/-- Writing an object that the side does not link. -/
theorem written (ahead : next.Ahead later key nodes orders) {pointer : Pointer} {old : Order P}
    (object : later.objects[pointer]? = some old) (unlinked : ¬ next.Links pointer)
    (filled : Order P) {last : SharedSide P isSell}
    (same : ∀ key, last.nodesAt key = next.nodesAt key) :
    last.Ahead (later.write pointer filled) key nodes orders where
  holds := by
    apply ahead.holds.congr
    intro other mem
    rw [object?_write object, if_neg]
    rintro rfl
    exact unlinked ⟨key, other, ahead.mem other mem, rfl⟩
  nodup := ahead.nodup
  mem other mem := (same key).symm ▸ ahead.mem other mem

end Ahead

/-! ### Crossing orders -/

/-- The variables of `processCrossedOrder` over pointers and over orders. -/
structure CrossRelated (pointer : Pointer) (heap : Heap (Order P)) (shared : SharedSide P isSell)
    (state : CrossState P isSell) (later : Heap (Order P)) (value : BookSide.CrossState P isSell) :
    Prop where
  steps : StepsTo (fun other => other = pointer) heap shared state.side later value.side
  aggressor : later.objects[pointer]? = some value.order
  opposite : value.order.isSell ≠ isSell
  remainingQuantity_eq : state.remainingQuantity = value.remainingQuantity
  orderEvents_eq : state.orderEvents = value.orderEvents
  ordersToRemove_eq : state.ordersToRemove = value.ordersToRemove

variable {pointer : Pointer}

/-- The side does not link the aggressor, which belongs to the other side. -/
theorem CrossRelated.unlinked {state : CrossState P isSell} {value : BookSide.CrossState P isSell}
    (related : CrossRelated pointer heap shared state later value) :
    ¬ state.side.Links pointer := by
  intro linked
  exact related.opposite (related.steps.represents.isSell_of_links linked related.aggressor)

variable [Zero P]

theorem CrossRelated.crossFill {state : CrossState P isSell} {value : BookSide.CrossState P isSell}
    (related : CrossRelated pointer heap shared state later value) {key : P} {node : Node}
    {nodes : List Node} {order : Order P} {orders : List (Order P)}
    (ahead : state.side.Ahead later key (node :: nodes) (order :: orders)) :
    Simulates (fun state later value => CrossRelated pointer heap shared state later value ∧
        state.side.Ahead later key nodes orders)
      (crossFill key pointer state node later) (BookSide.crossFill key value order) := by
  have object := (Heap.Holds.cons_iff.mp ahead.holds).1
  have mem := ahead.mem node List.mem_cons_self
  have apart : node.pointer ≠ pointer :=
    fun same => related.unlinked ⟨key, node, mem, same⟩
  rw [SharedSide.crossFill, BookSide.crossFill, related.remainingQuantity_eq]
  apply Simulates.ite
  · intro _
    exact .ok ⟨related, ahead.tail⟩
  · intro _
    rw [load_bind object]
    dsimp only
    generalize min value.remainingQuantity order.getRemainingQuantity = fillable
    apply (related.steps.fillNode mem object fillable).bind
    rintro filled final result ⟨steps, rfl, same⟩
    have current : (later.write node.pointer (order.fill fillable)).objects[node.pointer]? =
        some (order.fill fillable) := by
      rw [object?_write object, if_pos rfl]
    have aggressor : (later.write node.pointer (order.fill fillable)).objects[pointer]? =
        some value.order := by
      rw [object?_write object, if_neg apart.symm, related.aggressor]
    rw [load_bind current, load_bind aggressor, store_bind aggressor]
    have unlinked : ¬ filled.Links pointer := by
      rintro ⟨otherKey, other, otherMem, samePointer⟩
      exact related.unlinked ⟨otherKey, other, same otherKey ▸ otherMem, samePointer⟩
    have kept := ahead.tail_written related.steps.represents (order.fill fillable) same
    rw [related.orderEvents_eq, related.ordersToRemove_eq]
    refine .ok ⟨⟨?_, ?_, related.opposite, rfl, rfl, rfl⟩, ?_⟩
    · exact (steps.fillGiven aggressor rfl unlinked fillable).saveL2SnapshoSide.creditRemoval
        order.price fillable
    · rw [object?_write aggressor, if_pos rfl]
    · exact kept.written aggressor unlinked _ fun _ => rfl

theorem CrossRelated.walk {state : CrossState P isSell} {value : BookSide.CrossState P isSell}
    (related : CrossRelated pointer heap shared state later value) {key : P} {nodes : List Node}
    {orders : List (Order P)} (ahead : state.side.Ahead later key nodes orders) :
    Simulates (CrossRelated pointer heap shared)
      (nodes.foldlM (SharedSide.crossFill key pointer) state later)
      (orders.foldlM (BookSide.crossFill key) value) := by
  refine (Simulates.foldlM
    (fun nodes orders state later value => CrossRelated pointer heap shared state later value ∧
      state.side.Ahead later key nodes orders) ?_ ahead.holds.length_eq ⟨related, ahead⟩).mono ?_
  · rintro node later order others state heap value ⟨stateRelated, stateAhead⟩
    exact stateRelated.crossFill stateAhead
  · rintro state later value ⟨stateRelated, -⟩
    exact stateRelated

theorem CrossRelated.body {state : CrossState P isSell} {value : BookSide.CrossState P isSell}
    (related : CrossRelated pointer heap shared state later value) :
    Simulates (FlowRelated (CrossRelated pointer heap shared))
      (processCrossedOrderBody pointer state later) (BookSide.processCrossedOrderBody value) := by
  have rep := related.steps.represents
  rw [processCrossedOrderBody, BookSide.processCrossedOrderBody, load_bind related.aggressor,
    related.remainingQuantity_eq, rep.bookCrossedWithPrice_eq]
  apply Simulates.ite
  · intro _
    rcases rep.levels.begin?_cases with
      ⟨none, valueNone⟩ | ⟨key, level, valueLevel, first, valueFirst, both⟩
    · rw [none, valueNone]
      exact .ok related
    · rw [first, valueFirst]
      dsimp only
      have ahead := rep.ahead key
      rw [nodesAt_of_find? (SortedMap.find?_of_begin? first),
        BookSide.ordersAt_of_find? (SortedMap.find?_of_begin? valueFirst)] at ahead
      have started : CrossRelated pointer heap shared
          { state with
            remainingQuantity := value.remainingQuantity
            ordersToRemove := [] } later { value with ordersToRemove := [] } :=
        { related with
          remainingQuantity_eq := rfl
          ordersToRemove_eq := rfl }
      apply (started.walk ahead).bind
      intro walked walkedHeap walkedValue walkedRelated
      rw [walkedRelated.ordersToRemove_eq]
      apply (walkedRelated.steps.foldlM_removeOrder walkedValue.ordersToRemove).bind_ok
      rintro removed _ ⟨removedSteps, rfl⟩
      exact .ok { walkedRelated with
        steps := removedSteps
        ordersToRemove_eq := rfl }
  · intro _
    exact .ok related

theorem Represents.processCrossedOrder (rep : shared.Represents heap side) {order : Order P}
    (object : heap.objects[pointer]? = some order) (fuel : Nat) :
    Simulates (fun last final result =>
        StepsTo (fun other => other = pointer) heap shared last.1 final result.1 ∧
          final.objects[pointer]? = some result.2.1 ∧ result.2.1.isSell ≠ isSell ∧
            last.2 = result.2.2)
      (shared.processCrossedOrder fuel pointer heap) (side.processCrossedOrder fuel order) := by
  rw [SharedSide.processCrossedOrder, BookSide.processCrossedOrder, load_bind object]
  apply Simulates.assert_bind
  intro opposite
  have started : CrossRelated pointer heap shared ⟨shared, order.getRemainingQuantity, [], []⟩
      heap ⟨side, order, order.getRemainingQuantity, [], []⟩ :=
    ⟨.refl rep, object, opposite, rfl, rfl, rfl⟩
  apply (Simulates.loop _ (fun _ _ _ related => related.body) fuel started).bind
  intro last final result related
  exact .ok ⟨related.steps, related.aggressor, related.opposite, related.orderEvents_eq⟩

/-! ### Cancels -/

omit [Zero P] in
theorem StepsTo.matchPendingLiqRemove (steps : StepsTo given heap shared next later value)
    (quantity : ℤ) (price : P) :
    StepsTo given heap shared (next.matchPendingLiqRemove quantity price).1 later
        (value.matchPendingLiqRemove quantity price).1 ∧
      (next.matchPendingLiqRemove quantity price).2 =
        (value.matchPendingLiqRemove quantity price).2 := by
  have rep := steps.represents
  simp only [SharedSide.matchPendingLiqRemove, BookSide.matchPendingLiqRemove,
    rep.pendingLiqRemoveQty_eq]
  cases value.pendingLiqRemoveQty.find? price with
  | none => exact ⟨steps, rfl⟩
  | some pending =>
      refine ⟨StepsTo.congr steps rfl ?_, rfl⟩
      exact { rep with
        linked := rep.linked.congr rfl rfl
        pendingLiqRemoveQty_eq := rfl }

theorem Represents.processOrderCancel (rep : shared.Represents heap side) (id quantity : ℤ)
    (price : P) :
    Simulates (fun last final result => StepsTo (fun _ => False) heap shared last.1 final result.1 ∧
        last.2 = result.2)
      (shared.processOrderCancel id quantity price heap)
      (.ok (side.processOrderCancel id quantity price)) := by
  have start : StepsTo (fun _ => False) heap shared shared heap side := .refl rep
  obtain ⟨matched, sameQty⟩ := start.matchPendingLiqRemove quantity price
  simp only [SharedSide.processOrderCancel, BookSide.processOrderCancel, sameQty,
    matched.represents.existOrder_eq]
  split
  · apply (matched.removeOrder id).bind_ok
    rintro removed final ⟨steps, -⟩
    exact .ok ⟨steps, rfl⟩
  · exact .ok ⟨matched, rfl⟩

/-! ### Trades -/

/-- The variables of step 1 of `processTrade`. -/
def CancelRelated (given : Pointer → Prop) (heap : Heap (Order P)) (shared : SharedSide P isSell)
    (state : SharedSide P isSell × OrderInfoVec P) (later : Heap (Order P))
    (value : BookSide P isSell × OrderInfoVec P) : Prop :=
  StepsTo given heap shared state.1 later value.1 ∧ state.2 = value.2

theorem CancelRelated.body {state : SharedSide P isSell × OrderInfoVec P}
    {value : BookSide P isSell × OrderInfoVec P}
    (related : CancelRelated given heap shared state later value) (tradePrice : P) :
    Simulates (FlowRelated (CancelRelated given heap shared))
      (implicitCancelBody tradePrice state later) (BookSide.implicitCancelBody tradePrice value) := by
  obtain ⟨sharedSide, events⟩ := state
  obtain ⟨valueSide, valueEvents⟩ := value
  obtain ⟨steps, rfl⟩ := related
  have rep := steps.represents
  simp only [implicitCancelBody, BookSide.implicitCancelBody]
  rcases rep.levels.begin?_cases with
    ⟨none, valueNone⟩ | ⟨key, level, valueLevel, first, valueFirst, both⟩
  · rw [none, valueNone]
    exact .ok ⟨steps, rfl⟩
  · rw [first, valueFirst]
    apply Simulates.ite
    · intro _
      rw [bind_of_run both.orders.mapM_load]
      apply (steps.foldlM_removeAndSave (valueLevel.orders.map Order.odid)).bind_ok
      intro removed final removedSteps
      exact .ok ⟨removedSteps, rfl⟩
    · intro _
      exact .ok ⟨steps, rfl⟩

/-- The variables of step 2 of `processTrade`. -/
structure TradeRelated (given : Pointer → Prop) (heap : Heap (Order P))
    (shared : SharedSide P isSell) (state : TradeState P isSell) (later : Heap (Order P))
    (value : BookSide.TradeState P isSell) : Prop where
  steps : StepsTo given heap shared state.side later value.side
  curTradeQty_eq : state.curTradeQty = value.curTradeQty
  orderEvents_eq : state.orderEvents = value.orderEvents
  ordersToRemove_eq : state.ordersToRemove = value.ordersToRemove

theorem TradeRelated.tradeFill {state : TradeState P isSell} {value : BookSide.TradeState P isSell}
    (related : TradeRelated given heap shared state later value) {key : P} {node : Node}
    {nodes : List Node} {order : Order P} {orders : List (Order P)}
    (ahead : state.side.Ahead later key (node :: nodes) (order :: orders)) :
    Simulates (fun state later value => TradeRelated given heap shared state later value ∧
        state.side.Ahead later key nodes orders)
      (tradeFill key state node later) (BookSide.tradeFill key value order) := by
  have object := (Heap.Holds.cons_iff.mp ahead.holds).1
  have mem := ahead.mem node List.mem_cons_self
  rw [SharedSide.tradeFill, BookSide.tradeFill, related.curTradeQty_eq]
  apply Simulates.ite
  · intro _
    exact .ok ⟨related, ahead.tail⟩
  · intro _
    rw [load_bind object]
    dsimp only
    generalize min value.curTradeQty order.getRemainingQuantity = fillable
    apply (related.steps.fillNode mem object fillable).bind
    rintro filled final result ⟨steps, rfl, same⟩
    have current : (later.write node.pointer (order.fill fillable)).objects[node.pointer]? =
        some (order.fill fillable) := by
      rw [object?_write object, if_pos rfl]
    have kept := ahead.tail_written related.steps.represents (order.fill fillable) same
    rw [load_bind current, related.orderEvents_eq, related.ordersToRemove_eq]
    exact .ok ⟨⟨steps.saveL2SnapshoSide, rfl, rfl, rfl⟩, ⟨kept.holds, kept.nodup, kept.mem⟩⟩

theorem TradeRelated.walk {state : TradeState P isSell} {value : BookSide.TradeState P isSell}
    (related : TradeRelated given heap shared state later value) {key : P} {nodes : List Node}
    {orders : List (Order P)} (ahead : state.side.Ahead later key nodes orders) :
    Simulates (TradeRelated given heap shared)
      (nodes.foldlM (SharedSide.tradeFill key) state later)
      (orders.foldlM (BookSide.tradeFill key) value) := by
  refine (Simulates.foldlM
    (fun nodes orders state later value => TradeRelated given heap shared state later value ∧
      state.side.Ahead later key nodes orders) ?_ ahead.holds.length_eq ⟨related, ahead⟩).mono ?_
  · rintro node later order others state heap value ⟨stateRelated, stateAhead⟩
    exact stateRelated.tradeFill stateAhead
  · rintro state later value ⟨stateRelated, -⟩
    exact stateRelated

theorem StepsTo.tradeLevel (steps : StepsTo given heap shared next later value) (tradePrice : P)
    (qty : ℤ) (orderEvents : OrderInfoVec P) :
    Simulates (fun last final result => StepsTo given heap shared last.1 final result.1 ∧
        last.2 = result.2)
      (next.tradeLevel tradePrice qty orderEvents later)
      (value.tradeLevel tradePrice qty orderEvents) := by
  have rep := steps.represents
  rw [SharedSide.tradeLevel, BookSide.tradeLevel]
  cases found : next.levels.find? tradePrice with
  | none =>
      rw [rep.levels.none_iff.mp found]
      exact .ok ⟨steps, rfl⟩
  | some level =>
      obtain ⟨valueLevel, valueFound, -⟩ := rep.levels.of_some found
      rw [valueFound]
      have ahead := rep.ahead tradePrice
      rw [nodesAt_of_find? found, BookSide.ordersAt_of_find? valueFound] at ahead
      have started : TradeRelated given heap shared ⟨next, qty, orderEvents, []⟩ later
          ⟨value, qty, orderEvents, []⟩ :=
        ⟨steps, rfl, rfl, rfl⟩
      apply (started.walk ahead).bind
      intro filled filledHeap filledValue related
      rw [related.ordersToRemove_eq, related.curTradeQty_eq, related.orderEvents_eq]
      apply (related.steps.foldlM_removeAndSave filledValue.ordersToRemove).bind_ok
      intro removed final removedSteps
      exact .ok ⟨removedSteps, rfl⟩

theorem Represents.processTrade (rep : shared.Represents heap side) (fuel : Nat)
    (trade : Trade P) :
    Simulates (fun last final result => StepsTo (fun _ => False) heap shared last.1 final result.1 ∧
        last.2 = result.2)
      (shared.processTrade fuel trade heap) (side.processTrade fuel trade) := by
  have start : StepsTo (fun _ => False) heap shared shared heap side := .refl rep
  obtain ⟨matched, sameQty⟩ := start.matchPendingLiqRemove trade.quantity trade.price
  rw [SharedSide.processTrade, BookSide.processTrade]
  simp only [sameQty]
  have started : CancelRelated (fun _ => False) heap shared
      ((shared.matchPendingLiqRemove trade.quantity trade.price).1, []) heap
      ((side.matchPendingLiqRemove trade.quantity trade.price).1, []) :=
    ⟨matched, rfl⟩
  apply (Simulates.loop _ (fun _ _ _ related => related.body trade.price) fuel started).bind
  rintro ⟨cancelled, events⟩ cancelledHeap ⟨valueCancelled, valueEvents⟩ ⟨cancelledSteps, rfl⟩
  apply (cancelledSteps.tradeLevel trade.price _ events).bind
  rintro ⟨filled, left, events⟩ filledHeap ⟨valueFilled, valueLeft, valueEvents⟩ ⟨filledSteps, same⟩
  cases same
  apply Simulates.ite
  · intro _
    refine .ok ⟨StepsTo.congr filledSteps rfl ?_, rfl⟩
    exact { filledSteps.represents with
      linked := filledSteps.represents.linked.congr rfl rfl
      pendingLiqAddQty_eq := by rw [filledSteps.represents.pendingLiqAddQty_eq] }
  · intro _
    exact .ok ⟨filledSteps, rfl⟩

end OrderBook.SharedSide
