import OrderBook.SharedMatching

/-!
# Reconciling through pointers

`processL2Snapshot` first collects pointers to the orders it will remove and
then removes or fills them one by one.  The same order may be collected more
than once, and its object lives on when it has left the book; what has been
filled of an object is what the entries of its id have filled so far.
-/

namespace OrderBook.SharedSide

open FueledLoop SharedHeap

variable {P : Type} [LinearOrder P] {isSell : Bool} {given : Pointer → Prop}
  {heap later : Heap (Order P)} {shared next : SharedSide P isSell}
  {side value : BookSide P isSell}

/-- An entry of `pending_orders`: a pointer that the side links, and its order. -/
structure Pending (next : SharedSide P isSell) (later : Heap (Order P)) (entry : Pointer × ℤ)
    (value : Order P × ℤ) : Prop where
  linked : next.Links entry.1
  object : later.objects[entry.1]? = some value.1
  qty_eq : entry.2 = value.2

abbrev AllPending (next : SharedSide P isSell) (later : Heap (Order P))
    (entries : List (Pointer × ℤ)) (values : List (Order P × ℤ)) : Prop :=
  List.Forall₂ (next.Pending later) entries values

theorem AllPending.mono {entries : List (Pointer × ℤ)} {values : List (Order P × ℤ)}
    (pending : next.AllPending later entries values) {last : SharedSide P isSell}
    {final : Heap (Order P)}
    (links : ∀ {pointer : Pointer}, next.Links pointer → last.Links pointer)
    (objects : ∀ {pointer : Pointer} {order : Order P},
      later.objects[pointer]? = some order → final.objects[pointer]? = some order) :
    last.AllPending final entries values := by
  refine List.Forall₂.imp ?_ pending
  intro entry value holds
  exact ⟨links holds.linked, objects holds.object, holds.qty_eq⟩

variable [Zero P]

/-! ### Collecting the orders -/

/-- A new object for liquidity that the snapshot shows. -/
theorem StepsTo.addNew (steps : StepsTo given heap shared next later value) (order : Order P) :
    Simulates (fun last final result => StepsTo given heap shared last final result ∧
        final.objects = later.objects ++ [order] ∧
        ∀ {pointer : Pointer}, next.Links pointer → last.Links pointer)
      ((makeShared order >>= next.addOrder) later) (value.addOrder order) := by
  rw [makeShared_bind]
  have rep := steps.represents.alloc order
  have object : (later.objects ++ [order])[later.objects.length]? = some order := by simp
  apply (rep.addOrder object).mono
  rintro last final result ⟨lastRep, objectsEq, made, mems⟩
  refine ⟨⟨lastRep, steps.acts.trans ⟨?_, ?_, made⟩⟩, objectsEq, ?_⟩
  · rw [Heap.Evolves, objectsEq]
    exact Heap.Evolves.alloc order
  · rintro pointer ⟨key, node, mem, rfl⟩
    rcases mems.1 mem with old | new
    · exact .inl ⟨key, node, old, rfl⟩
    · exact .inr (.inr new.ge)
  · rintro pointer ⟨key, node, mem, rfl⟩
    exact ⟨key, node, mems.2 mem, rfl⟩

/-- The variables of the first loop of `processL2Snapshot`. -/
structure ReconcileRelated (given : Pointer → Prop) (heap : Heap (Order P))
    (shared : SharedSide P isSell) (state : ReconcileState P isSell) (later : Heap (Order P))
    (value : BookSide.ReconcileState P isSell) : Prop where
  steps : StepsTo given heap shared state.side later value.side
  orderEvents_eq : state.orderEvents = value.orderEvents
  pendingOrders : state.side.AllPending later state.pendingOrders value.pendingOrders
  fakeOrderId_eq : state.fakeOrderId = value.fakeOrderId

theorem ReconcileRelated.addLiquidity {state : ReconcileState P isSell}
    {value : BookSide.ReconcileState P isSell}
    (related : ReconcileRelated given heap shared state later value) (qty : ℤ) (price : P) :
    Simulates (ReconcileRelated given heap shared) (addLiquidity state qty price later)
      (BookSide.addLiquidity value qty price) := by
  have rep := related.steps.represents
  have credited : StepsTo given heap shared
      { state.side with
        pendingLiqAddQty := credit state.side.pendingLiqAddQty price qty } later
      { value.side with
        pendingLiqAddQty := credit value.side.pendingLiqAddQty price qty } := by
    refine StepsTo.congr related.steps rfl ?_
    exact { rep with
      linked := rep.linked.congr rfl rfl
      pendingLiqAddQty_eq := by rw [rep.pendingLiqAddQty_eq] }
  rw [SharedSide.addLiquidity, BookSide.addLiquidity, related.fakeOrderId_eq,
    related.orderEvents_eq]
  rw [← bind_assoc]
  apply (credited.addNew _).bind
  rintro last final result ⟨steps, objectsEq, links⟩
  refine .ok ⟨steps, rfl, ?_, rfl⟩
  apply related.pendingOrders.mono
  · intro pointer linked
    exact links linked
  · intro pointer old found
    obtain ⟨inside, -⟩ := List.getElem?_eq_some_iff.mp found
    rw [objectsEq, List.getElem?_append_left inside, found]

omit [Zero P] in
/-- The walk that takes orders from the front of a level reads and writes nothing else. -/
theorem frontOrder_run {nodes : List Node} {orders : List (Order P)}
    (holds : later.Holds nodes orders) (linked : ∀ node ∈ nodes, next.Links node.pointer)
    {qty : ℤ} {entries : List (Pointer × ℤ)} {values : List (Order P × ℤ)}
    (pending : next.AllPending later entries values) :
    ∃ left collected, nodes.foldlM frontOrder (qty, entries) later =
        .ok ((left, collected), later) ∧
      next.AllPending later collected (values ++ BookSide.frontOrders qty orders) := by
  induction nodes generalizing orders qty entries values with
  | nil =>
      cases orders with
      | nil => exact ⟨qty, entries, rfl, by simpa [BookSide.frontOrders, QueueFill.pieces]⟩
      | cons order orders => cases holds
  | cons node nodes ih =>
      cases orders with
      | nil => cases holds
      | cons order orders =>
          obtain ⟨object, others⟩ := Heap.Holds.cons_iff.mp holds
          have othersLinked : ∀ other ∈ nodes, next.Links other.pointer :=
            fun other mem => linked other (List.mem_cons_of_mem node mem)
          rw [List.foldlM_cons]
          by_cases none : qty = 0
          · obtain ⟨left, collected, walked, allPending⟩ := ih others othersLinked pending
            refine ⟨left, collected, ?_, ?_⟩
            · rw [bind_of_run (by rw [frontOrder, if_pos none]; rfl), walked]
            · rw [none, BookSide.frontOrders, QueueFill.pieces_zero] at allPending ⊢
              exact allPending
          · have entry : next.Pending later
                (node.pointer, min qty order.getRemainingQuantity)
                (order, min qty order.getRemainingQuantity) :=
              ⟨linked node List.mem_cons_self, object, rfl⟩
            have longer := List.rel_append pending (List.Forall₂.cons entry .nil)
            obtain ⟨left, collected, walked, allPending⟩ := ih others othersLinked longer
            refine ⟨left, collected, ?_, ?_⟩
            · rw [bind_of_run (by rw [frontOrder, if_neg none, load_bind object]; rfl), walked]
            · rw [List.append_assoc] at allPending
              rw [BookSide.frontOrders, QueueFill.pieces, if_neg none]
              exact allPending

theorem ReconcileRelated.reconcileLevel {state : ReconcileState P isSell}
    {value : BookSide.ReconcileState P isSell}
    (related : ReconcileRelated given heap shared state later value) (l2Level : L2PriceLevel P) :
    Simulates (ReconcileRelated given heap shared) (reconcileLevel state l2Level later)
      (BookSide.reconcileLevel value l2Level) := by
  have rep := related.steps.represents
  rw [SharedSide.reconcileLevel, BookSide.reconcileLevel]
  cases found : state.side.levels.find? l2Level.price with
  | none =>
      rw [rep.levels.none_iff.mp found]
      exact related.addLiquidity l2Level.quantity l2Level.price
  | some level =>
      obtain ⟨valueLevel, valueFound, both⟩ := rep.levels.of_some found
      rw [valueFound]
      simp only [both.quantity_eq]
      apply Simulates.ite
      · intro _
        have linked : ∀ node ∈ level.orders, state.side.Links node.pointer :=
          fun node mem => ⟨l2Level.price, node, nodesAt_of_find? found ▸ mem, rfl⟩
        obtain ⟨left, collected, walked, allPending⟩ :=
          frontOrder_run both.orders linked related.pendingOrders
        rw [bind_of_run walked]
        exact .ok { related with pendingOrders := allPending }
      · intro _
        apply Simulates.ite
        · intro _
          exact related.addLiquidity _ _
        · intro _
          exact .ok related

omit [Zero P] in
theorem missingOrder_run {nodes : List Node} {orders : List (Order P)}
    (holds : later.Holds nodes orders) (linked : ∀ node ∈ nodes, next.Links node.pointer)
    {entries : List (Pointer × ℤ)} {values : List (Order P × ℤ)}
    (pending : next.AllPending later entries values) :
    ∃ collected, nodes.foldlM missingOrder entries later = .ok (collected, later) ∧
      next.AllPending later collected
        (values ++ orders.map fun order => (order, order.getRemainingQuantity)) := by
  induction nodes generalizing orders entries values with
  | nil =>
      cases orders with
      | nil => exact ⟨entries, rfl, by simpa⟩
      | cons order orders => cases holds
  | cons node nodes ih =>
      cases orders with
      | nil => cases holds
      | cons order orders =>
          obtain ⟨object, others⟩ := Heap.Holds.cons_iff.mp holds
          have entry : next.Pending later (node.pointer, order.getRemainingQuantity)
              (order, order.getRemainingQuantity) :=
            ⟨linked node List.mem_cons_self, object, rfl⟩
          have longer := List.rel_append pending (List.Forall₂.cons entry .nil)
          obtain ⟨collected, walked, allPending⟩ :=
            ih others (fun other mem => linked other (List.mem_cons_of_mem node mem)) longer
          refine ⟨collected, ?_, ?_⟩
          · rw [List.foldlM_cons, bind_of_run (by rw [missingOrder, load_bind object]; rfl), walked]
          · rw [List.append_assoc] at allPending
            exact allPending

omit [Zero P] in
theorem Represents.missingOrders (rep : next.Represents later value)
    (snapshot : L2SnapshotSide P) {entries : List (Pointer × ℤ)} {values : List (Order P × ℤ)}
    (pending : next.AllPending later entries values) :
    ∃ collected, next.levels.entries.foldlM (missingLevel snapshot) entries later =
        .ok (collected, later) ∧
      next.AllPending later collected (values ++ value.missingOrders snapshot) := by
  have walked := rep.levels.forall₂_entries
  have linked : ∀ entry ∈ next.levels.entries, ∀ node ∈ entry.2.orders,
      next.Links node.pointer := by
    intro entry mem node nodeMem
    have found := SortedMap.find?_eq_some_iff.mpr mem
    exact ⟨entry.1, node, nodesAt_of_find? found ▸ nodeMem, rfl⟩
  rw [BookSide.missingOrders]
  generalize next.levels.entries = levels at walked linked ⊢
  generalize value.levels.entries = valueLevels at walked ⊢
  induction walked generalizing entries values with
  | nil => exact ⟨entries, rfl, by simpa⟩
  | @cons level valueLevel levels valueLevels both _ ih =>
      obtain ⟨sameKey, represents⟩ := both
      have othersLinked : ∀ entry ∈ levels, ∀ node ∈ entry.2.orders, next.Links node.pointer :=
        fun entry mem => linked entry (List.mem_cons_of_mem level mem)
      rw [List.foldlM_cons, List.flatMap_cons]
      by_cases present : level.1 ∈ snapshot.map L2PriceLevel.price
      · obtain ⟨collected, run, allPending⟩ := ih pending othersLinked
        refine ⟨collected, ?_, ?_⟩
        · rw [bind_of_run (by rw [missingLevel, if_pos present]; rfl), run]
        · rw [if_pos (sameKey ▸ present), List.nil_append]
          exact allPending
      · obtain ⟨orders, run, ordersPending⟩ := missingOrder_run represents.orders
          (linked level List.mem_cons_self) pending
        obtain ⟨collected, laterRun, allPending⟩ := ih ordersPending othersLinked
        refine ⟨collected, ?_, ?_⟩
        · rw [bind_of_run (by rw [missingLevel, if_neg present, run]), laterRun]
        · rw [if_neg (sameKey ▸ present), ← List.append_assoc]
          exact allPending

/-! ### Removing the orders

The third loop starts from a side `first` over a heap `start`.  Of an object that `first`
links, the loop has filled what `filled` says for its id, also when it has left the book. -/

structure RemovalRelated (given : Pointer → Prop) (heap : Heap (Order P))
    (shared : SharedSide P isSell) (start : Heap (Order P)) (first : SharedSide P isSell)
    (state : RemovalState P isSell) (later : Heap (Order P))
    (value : BookSide.RemovalState P isSell) : Prop where
  steps : StepsTo given heap shared state.side later value.side
  orderEvents_eq : state.orderEvents = value.orderEvents
  left : ∀ {key : P} {node : Node}, node ∈ state.side.nodesAt key → node ∈ first.nodesAt key
  filled : ∀ {pointer : Pointer} {order : Order P}, first.Links pointer →
    start.objects[pointer]? = some order →
      later.objects[pointer]? = some (order.fill (value.filled order.odid))

variable {start : Heap (Order P)} {first : SharedSide P isSell} {begun : BookSide P isSell}

omit [Zero P] in
theorem RemovalRelated.owns {state : RemovalState P isSell}
    {value : BookSide.RemovalState P isSell}
    (related : RemovalRelated given heap shared start first state later value)
    (rep : first.Represents start begun) {pointer : Pointer} {order : Order P}
    (linked : first.Links pointer) (object : start.objects[pointer]? = some order) :
    state.side.Owns later pointer order.odid := by
  obtain ⟨key, node, mem, rfl⟩ := linked
  intro otherKey other otherOrder otherMem otherFound sameId
  have wasMem := related.left otherMem
  obtain ⟨old, -, oldFound⟩ := rep.object_of_node wasMem
  have now := related.filled ⟨otherKey, other, wasMem, rfl⟩ oldFound
  rw [otherFound, Option.some.injEq] at now
  rw [now, Order.fill_odid] at sameId
  rw [(rep.node_unique wasMem mem oldFound object sameId).2]

omit [Zero P] in
/-- A fill of one object is entered under its id only. -/
theorem RemovalRelated.filled_written {value : BookSide.RemovalState P isSell}
    {state : RemovalState P isSell}
    (related : RemovalRelated given heap shared start first state later value)
    (rep : first.Represents start begun) {pointer : Pointer} {order : Order P}
    (linked : first.Links pointer) (object : start.objects[pointer]? = some order) (qty : ℤ)
    {other : Pointer} {otherOrder : Order P} (otherLinked : first.Links other)
    (otherObject : start.objects[other]? = some otherOrder) :
    (later.write pointer ((order.fill (value.filled order.odid)).fill qty)).objects[other]? =
      some (otherOrder.fill (Function.update value.filled order.odid
        (value.filled order.odid + qty) otherOrder.odid)) := by
  rw [object?_write (related.filled linked object)]
  by_cases same : other = pointer
  · subst same
    rw [object, Option.some.injEq] at otherObject
    subst otherObject
    rw [if_pos rfl, Function.update_self, Order.fill_fill]
  · have differ : otherOrder.odid ≠ order.odid := by
      intro sameId
      obtain ⟨key, node, mem, rfl⟩ := linked
      obtain ⟨otherKey, otherNode, otherMem, rfl⟩ := otherLinked
      exact same (congrArg Node.pointer
        (rep.node_unique otherMem mem otherObject object sameId).2)
    rw [if_neg same, Function.update_of_ne differ, related.filled otherLinked otherObject]

theorem RemovalRelated.removePending {state : RemovalState P isSell}
    {value : BookSide.RemovalState P isSell}
    (related : RemovalRelated given heap shared start first state later value)
    (begins : StepsTo given heap shared first start begun) {entry : (Pointer × ℤ) × Nat}
    {valueEntry : (Order P × ℤ) × Nat} (pending : first.Pending start entry.1 valueEntry.1)
    (sameIndex : entry.2 = valueEntry.2) (executedOrderNum : Nat) :
    Simulates (RemovalRelated given heap shared start first)
      (removePending executedOrderNum state entry later)
      (BookSide.removePending executedOrderNum value valueEntry) := by
  obtain ⟨⟨pointer, qty⟩, index⟩ := entry
  obtain ⟨⟨order, valueQty⟩, valueIndex⟩ := valueEntry
  obtain ⟨linked, object, rfl⟩ := pending
  obtain rfl : index = valueIndex := sameIndex
  have rep := related.steps.represents
  have current := related.filled linked object
  have owns := related.owns begins.represents linked object
  rw [SharedSide.removePending, BookSide.removePending, load_bind current, rep.existLevel_eq,
    related.orderEvents_eq]
  apply Simulates.ite
  · intro _
    apply (related.steps.removeOrder _).bind_ok
    rintro removed _ ⟨steps, rfl, sub⟩
    exact .ok ⟨steps, rfl, fun mem => related.left (sub mem), related.filled⟩
  · intro _
    apply Simulates.ite
    · intro present
      apply (rep.fillLevelOrder present current owns qty).bind
      rintro filled _ result ⟨filledRep, rfl, same⟩
      have allowed := begins.may_write linked
      refine .ok ⟨⟨filledRep, related.steps.acts_written current allowed qty same⟩, rfl, ?_, ?_⟩
      · intro key node mem
        exact related.left (same key ▸ mem)
      · intro other otherOrder otherLinked otherObject
        exact related.filled_written begins.represents linked object qty otherLinked otherObject
    · intro _
      exact .ok { related with orderEvents_eq := rfl }

theorem RemovalRelated.walk {state : RemovalState P isSell}
    {value : BookSide.RemovalState P isSell}
    (related : RemovalRelated given heap shared start first state later value)
    (begins : StepsTo given heap shared first start begun) {entries : List (Pointer × ℤ)}
    {values : List (Order P × ℤ)} (pending : first.AllPending start entries values)
    (executedOrderNum index : Nat) :
    Simulates (RemovalRelated given heap shared start first)
      ((entries.zipIdx index).foldlM (SharedSide.removePending executedOrderNum) state later)
      ((values.zipIdx index).foldlM (BookSide.removePending executedOrderNum) value) := by
  induction pending generalizing state later value index with
  | nil => exact .ok related
  | cons entry _ ih =>
      rw [List.zipIdx_cons, List.zipIdx_cons, List.foldlM_cons, List.foldlM_cons]
      apply (related.removePending begins entry rfl executedOrderNum).bind
      intro removed final result removedRelated
      exact ih removedRelated (index + 1)

theorem Represents.reconcile (rep : shared.Represents heap side) (snapshot : L2SnapshotSide P) :
    Simulates (fun last final result => StepsTo (fun _ => False) heap shared last.1 final result.1 ∧
        last.2 = result.2)
      (shared.reconcile snapshot heap) (side.reconcile snapshot) := by
  have started : ReconcileRelated (fun _ => False) heap shared ⟨shared, [], [], 100⟩ heap
      ⟨side, [], [], 100⟩ :=
    ⟨.refl rep, rfl, .nil, rfl⟩
  have compared : Simulates (ReconcileRelated (fun _ => False) heap shared)
      (snapshot.foldlM SharedSide.reconcileLevel ⟨shared, [], [], 100⟩ heap)
      (snapshot.foldlM BookSide.reconcileLevel ⟨side, [], [], 100⟩) := by
    refine (Simulates.foldlM (fun levels valueLevels state later value =>
      levels = valueLevels ∧ ReconcileRelated (fun _ => False) heap shared state later value) ?_ rfl
      ⟨rfl, started⟩).mono ?_
    · rintro level levels valueLevel valueLevels state later value ⟨same, related⟩
      obtain ⟨rfl, rfl⟩ := List.cons_eq_cons.mp same
      exact (related.reconcileLevel level).mono fun _ _ _ compared => ⟨rfl, compared⟩
    · rintro state later value ⟨-, related⟩
      exact related
  rw [SharedSide.reconcile, BookSide.reconcile]
  apply compared.bind
  intro state later value related
  obtain ⟨pendingOrders, collected, pending⟩ :=
    related.steps.represents.missingOrders snapshot related.pendingOrders
  rw [bind_of_run collected, pending.length_eq]
  have removal : RemovalRelated (fun _ => False) heap shared later state.side
      ⟨state.side, state.orderEvents⟩ later ⟨value.side, value.orderEvents, fun _ => 0⟩ := by
    refine ⟨related.steps, related.orderEvents_eq, fun mem => mem, ?_⟩
    intro pointer order _ found
    rw [found, Order.fill_zero]
  apply (removal.walk related.steps pending _ 0).bind
  intro removed final result removedRelated
  exact .ok ⟨removedRelated.steps, removedRelated.orderEvents_eq⟩

theorem Represents.processL2Snapshot (rep : shared.Represents heap side)
    (snapshot : L2SnapshotSide P) :
    Simulates (fun last final result => StepsTo (fun _ => False) heap shared last.1 final result.1 ∧
        last.2 = result.2)
      (shared.processL2Snapshot snapshot heap) (side.processL2Snapshot snapshot) := by
  have start : StepsTo (fun _ => False) heap shared shared heap side := .refl rep
  rw [SharedSide.processL2Snapshot, BookSide.processL2Snapshot, rep.l2SnapQueue_eq]
  cases side.l2SnapQueue with
  | nil => exact rep.reconcile snapshot
  | cons expected queue =>
      apply Simulates.ite
      · intro _
        refine .ok ⟨StepsTo.congr start rfl ?_, rfl⟩
        exact { rep with
          linked := rep.linked.congr rfl rfl
          l2SnapQueue_eq := rfl }
      · intro _
        exact .ok ⟨start, rfl⟩

end OrderBook.SharedSide
