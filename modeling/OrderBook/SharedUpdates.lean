import OrderBook.SharedLinks

/-!
# Updates through pointers

Adding, removing, filling and modifying an order through its pointer does to the
represented side what the operation on orders does.
-/

namespace OrderBook.SharedSide

open FueledLoop SharedHeap

variable {P : Type} [LinearOrder P] {isSell : Bool} {heap later : Heap (Order P)}
  {shared next : SharedSide P isSell} {side result : BookSide P isSell}

/-- No other node of the side has an order of the id. -/
def Owns (shared : SharedSide P isSell) (heap : Heap (Order P)) (pointer : Pointer) (id : ℤ) :
    Prop :=
  ∀ ⦃key : P⦄ ⦃node : Node⦄ ⦃order : Order P⦄, node ∈ shared.nodesAt key →
    heap.objects[node.pointer]? = some order → order.odid = id → node.pointer = pointer

theorem Represents.owns_of_mem (rep : shared.Represents heap side) {key : P} {node : Node}
    (mem : node ∈ shared.nodesAt key) {order : Order P}
    (found : heap.objects[node.pointer]? = some order) :
    shared.Owns heap node.pointer order.odid := by
  intro otherKey other otherOrder otherMem otherFound sameId
  rw [(rep.node_unique otherMem mem otherFound found sameId).2]

/-- Replacing the level under one price on both sides. -/
theorem Represents.put (rep : shared.Represents heap side) {key : P} {quantity : ℤ}
    {nodes : List Node} {orders : List (Order P)} (linked : result.Linked)
    (sharedEq : next.levels = putNodes shared.levels key quantity nodes)
    (sideEq : result.levels = BookSide.putOrders side.levels key quantity orders)
    (holds : later.Holds nodes orders)
    (kept : ∀ {other : P} {node : Node}, other ≠ key → node ∈ shared.nodesAt other →
      later.objects[node.pointer]? = heap.objects[node.pointer]?)
    (handlers : ∀ {id : ℤ} {handler : SharedHandler},
      next.orderMap.find? id = some handler ↔ next.Handles later id handler)
    (iters : (nodes.map Node.iter).Nodup) (nodesMade : ∀ node ∈ nodes, node.iter < later.nodesMade)
    (made : heap.nodesMade ≤ later.nodesMade)
    (queueEq : next.l2SnapQueue = result.l2SnapQueue)
    (removeEq : next.pendingLiqRemoveQty = result.pendingLiqRemoveQty)
    (addEq : next.pendingLiqAddQty = result.pendingLiqAddQty) :
    next.Represents later result := by
  have elsewhere : ∀ found ≠ key, Option.Rel (SharedLevel.Represents later)
      (shared.levels.find? found) (side.levels.find? found) := by
    intro other different
    cases found : shared.levels.find? other with
    | none =>
        rw [rep.levels.none_iff.mp found]
        exact .none
    | some level =>
        obtain ⟨value, valueFound, represents⟩ := rep.levels.of_some found
        rw [valueFound]
        refine .some { represents with orders := represents.orders.congr ?_ }
        intro node mem
        exact kept different (nodesAt_of_find? found ▸ mem)
  have nilIff : nodes = [] ↔ orders = [] := by
    rw [← List.length_eq_zero_iff, holds.length_eq, List.length_eq_zero_iff]
  refine ⟨linked, ?_, handlers, ?_, ?_, queueEq, removeEq, addEq⟩
  · rw [sharedEq, sideEq, putNodes, BookSide.putOrders]
    by_cases none : nodes = []
    · rw [if_pos none, if_pos (nilIff.mp none)]
      exact .erase elsewhere
    · rw [if_neg none, if_neg fun nil => none (nilIff.mpr nil)]
      exact .insert elsewhere (SharedLevel.represents_ofNodes holds)
  · intro other
    rw [nodesAt_putNodes sharedEq]
    split
    · exact iters
    · exact rep.iters other
  · intro other node mem
    rw [nodesAt_putNodes sharedEq] at mem
    split at mem
    · exact nodesMade node mem
    · exact (rep.made other node mem).trans_le made

/-- The same nodes with objects of the same ids have the same handlers. -/
theorem Represents.handlers_of_nodesAt_eq (rep : shared.Represents heap side)
    (mapEq : next.orderMap = shared.orderMap)
    (same : ∀ key, next.nodesAt key = shared.nodesAt key)
    (sameIds : ∀ {pointer : Pointer}, shared.Links pointer →
      (later.objects[pointer]?).map Order.odid = (heap.objects[pointer]?).map Order.odid)
    {id : ℤ} {handler : SharedHandler} :
    next.orderMap.find? id = some handler ↔ next.Handles later id handler := by
  have idIff : ∀ {key : P}, (⟨handler.iter, handler.order⟩ : Node) ∈ shared.nodesAt key →
      ((∃ order, later.objects[handler.order]? = some order ∧ order.odid = id) ↔
        ∃ order, heap.objects[handler.order]? = some order ∧ order.odid = id) := by
    intro key mem
    have ids := sameIds ⟨key, _, mem, rfl⟩
    rw [← Option.map_eq_some_iff, ← Option.map_eq_some_iff, ids]
  rw [mapEq, rep.handlers]
  constructor
  · rintro ⟨key, order, mem, found⟩
    obtain ⟨now, nowFound⟩ := (idIff mem).mpr ⟨order, found⟩
    exact ⟨key, now, (same key).symm ▸ mem, nowFound⟩
  · rintro ⟨key, order, mem, found⟩
    rw [same key] at mem
    obtain ⟨old, oldFound⟩ := (idIff mem).mp ⟨order, found⟩
    exact ⟨key, old, mem, oldFound⟩

theorem Represents.saveL2SnapshoSide (rep : shared.Represents heap side) :
    shared.saveL2SnapshoSide.Represents heap side.saveL2SnapshoSide := by
  refine { rep with linked := rep.linked.congr rfl rfl, l2SnapQueue_eq := ?_ }
  rw [SharedSide.saveL2SnapshoSide, BookSide.saveL2SnapshoSide, rep.l2SnapQueue_eq, rep.l2View_eq]

variable [Zero P]

theorem getL3Level_of_find? {key : P} {level : SharedLevel P}
    (found : shared.levels.find? key = some level) : shared.getL3Level key = level := by
  simp [getL3Level, found]

/-! ### Removing an order -/

omit [LinearOrder P] [Zero P] in
/-- Erasing the node of an iterator out of the middle of a list. -/
theorem eraseNode_run {front back : List Node} {node : Node}
    (nodup : ((front ++ node :: back).map Node.iter).Nodup) (heap : Heap (Order P)) :
    eraseNode (front ++ node :: back) node.iter heap = .ok (front ++ back, heap) := by
  have notFront : ∀ other ∈ front, ¬ other.iter = node.iter := by
    intro other otherMem same
    rw [List.map_append, List.map_cons] at nodup
    exact (List.disjoint_of_nodup_append nodup) (List.mem_map_of_mem otherMem) (by simp [same])
  rw [eraseNode, if_pos (List.mem_map_of_mem (by simp)),
    List.eraseP_append_right _ (by simpa using notFront), List.eraseP_cons_of_pos (by simp)]

theorem removeOrder_run {id quantity : ℤ} {handler : SharedHandler} {order : Order P}
    {front back : List Node} (mapped : shared.orderMap.find? id = some handler)
    (object : heap.objects[handler.order]? = some order)
    (found : shared.levels.find? order.price = some
      (.ofNodes order.price quantity (front ++ ⟨handler.iter, handler.order⟩ :: back)))
    (nodup : ((front ++ ⟨handler.iter, handler.order⟩ :: back).map Node.iter).Nodup) :
    shared.removeOrder id heap = .ok ({ shared with
      levels := putNodes shared.levels order.price (quantity - order.getRemainingQuantity)
        (front ++ back)
      orderMap := shared.orderMap.erase id }, heap) := by
  have removed : (SharedLevel.ofNodes order.price quantity
      (front ++ ⟨handler.iter, handler.order⟩ :: back)).removeOrder handler heap = .ok
        (.ofNodes order.price (quantity - order.getRemainingQuantity) (front ++ back), heap) := by
    rw [SharedLevel.removeOrder, SharedLevel.ofNodes, bind_of_run (eraseNode_run nodup heap),
      load_bind object, pure_run]
    simp only [SharedLevel.ofNodes, List.length_append, List.length_cons]
    push_cast
    congr 4
    omega
  simp only [removeOrder, mapped]
  rw [load_bind object, getL3Level_of_find? found, bind_of_run removed, pure_run]
  congr 3
  rw [putNodes]
  by_cases none : front ++ back = []
  · simp [none, SharedLevel.ofNodes]
  · rw [if_neg none]
    exact if_neg fun zero => none (List.length_eq_zero_iff.mp (Int.natCast_eq_zero.mp zero))

omit [Zero P] in
/-- Erasing a node leaves the other nodes of the side. -/
theorem Represents.mem_nodesAt_erased (rep : shared.Represents heap side) {key : P}
    {gone : Node} {quantity : ℤ} {front back : List Node} (mem : gone ∈ shared.nodesAt key)
    (split : shared.nodesAt key = front ++ gone :: back)
    (levelsEq : next.levels = putNodes shared.levels key quantity (front ++ back))
    (other : P) (node : Node) :
    node ∈ next.nodesAt other ↔ node ∈ shared.nodesAt other ∧ node ≠ gone := by
  rw [nodesAt_putNodes levelsEq]
  by_cases same : other = key
  · have nodup : (front ++ gone :: back).Nodup := (split ▸ rep.iters key).of_map
    have notLeft := (List.nodup_cons.mp (List.nodup_middle.mp nodup)).1
    rw [if_pos same, same, split]
    constructor
    · intro left
      refine ⟨?_, fun equal => notLeft (equal ▸ left)⟩
      rcases List.mem_append.mp left with inFront | inBack
      · exact List.mem_append_left _ inFront
      · exact List.mem_append_right _ (List.mem_cons_of_mem _ inBack)
    · rintro ⟨wasMem, different⟩
      rcases List.mem_append.mp wasMem with inFront | inRest
      · exact List.mem_append_left _ inFront
      · rcases List.mem_cons.mp inRest with equal | inBack
        · exact (different equal).elim
        · exact List.mem_append_right _ inBack
  · rw [if_neg same]
    constructor
    · intro otherMem
      refine ⟨otherMem, ?_⟩
      rintro rfl
      exact same (rep.pointer_unique otherMem mem rfl).1
    · exact And.left

omit [Zero P] in
/-- The handlers that are left are those of the nodes that are left. -/
theorem Represents.handlers_removed (rep : shared.Represents heap side) {id : ℤ}
    {handler : SharedHandler} (mapped : shared.orderMap.find? id = some handler)
    (mapEq : next.orderMap = shared.orderMap.erase id)
    (left : ∀ (key : P) (node : Node), node ∈ next.nodesAt key ↔
      node ∈ shared.nodesAt key ∧ node ≠ ⟨handler.iter, handler.order⟩)
    {other : ℤ} {otherHandler : SharedHandler} :
    next.orderMap.find? other = some otherHandler ↔ next.Handles heap other otherHandler := by
  rw [mapEq, SortedMap.find?_erase]
  obtain ⟨key, order, mem, object, sameId⟩ := rep.handlers.mp mapped
  constructor
  · intro found
    split at found
    · cases found
    · next different =>
        obtain ⟨otherKey, otherOrder, otherMem, otherObject, rfl⟩ := rep.handlers.mp found
        refine ⟨otherKey, otherOrder, (left _ _).mpr ⟨otherMem, ?_⟩, otherObject, rfl⟩
        intro same
        obtain ⟨-, sameOrder⟩ := Node.mk.inj same
        rw [sameOrder, object, Option.some.injEq] at otherObject
        exact different (otherObject ▸ sameId)
  · rintro ⟨otherKey, otherOrder, otherMem, otherObject, rfl⟩
    obtain ⟨wasMem, different⟩ := (left _ _).mp otherMem
    rw [if_neg, rep.handlers]
    · exact ⟨otherKey, otherOrder, wasMem, otherObject, rfl⟩
    · intro same
      exact different (rep.node_unique wasMem mem otherObject object (same.trans sameId.symm)).2

theorem Represents.removeOrder (rep : shared.Represents heap side) (id : ℤ) :
    Simulates (fun next later value => next.Represents later value ∧ later = heap ∧
        ∀ {key : P} {node : Node}, node ∈ next.nodesAt key → node ∈ shared.nodesAt key)
      (shared.removeOrder id heap) (.ok (side.removeOrder id)) := by
  cases mapped : shared.orderMap.find? id with
  | none =>
      have absent : side.existOrder id = false := by
        rw [← rep.existOrder_eq, existOrder, mapped]
        rfl
      rw [BookSide.removeOrder_of_not_exist absent]
      simp only [SharedSide.removeOrder, mapped]
      exact .ok ⟨rep, rfl, fun mem => mem⟩
  | some handler =>
      obtain ⟨key, order, mem, object, rfl⟩ := rep.handlers.mp mapped
      obtain ⟨resting, restingMem, restingFound⟩ := rep.object_of_node mem
      rw [object, Option.some.injEq] at restingFound
      subst restingFound
      obtain rfl : order.price = key := rep.linked.order_price restingMem
      obtain ⟨quantity, valueFound⟩ := rep.linked.exists_level restingMem
      have found := rep.find?_ofNodes valueFound
      obtain ⟨front, back, split⟩ := List.append_of_mem mem
      have iters := rep.iters order.price
      have holds := rep.holdsAt order.price
      rw [split] at found iters holds
      obtain ⟨frontOrders, middle, backOrders, ordersEq, frontHolds, middleFound, backHolds⟩ :=
        holds.of_append_cons
      rw [object, Option.some.injEq] at middleFound
      subst middleFound
      rw [ordersEq] at valueFound
      rw [rep.linked.removeOrder_eq valueFound, removeOrder_run mapped object found iters]
      generalize nextEq : ({ shared with
          levels := putNodes shared.levels order.price (quantity - order.getRemainingQuantity)
            (front ++ back)
          orderMap := shared.orderMap.erase order.odid } : SharedSide P isSell) = next
      have levelsEq : next.levels = putNodes shared.levels order.price
          (quantity - order.getRemainingQuantity) (front ++ back) := by rw [← nextEq]
      have mapEq : next.orderMap = shared.orderMap.erase order.odid := by rw [← nextEq]
      have left := rep.mem_nodesAt_erased mem split levelsEq
      refine .ok ⟨?_, rfl, fun nodeMem => ((left _ _).mp nodeMem).1⟩
      refine rep.put ?_ levelsEq rfl (frontHolds.append backHolds) (fun _ _ => rfl)
        (rep.handlers_removed mapped mapEq left) ?_ ?_ le_rfl
        (nextEq ▸ rep.l2SnapQueue_eq) (nextEq ▸ rep.pendingLiqRemoveQty_eq)
        (nextEq ▸ rep.pendingLiqAddQty_eq)
      · rw [← rep.linked.removeOrder_eq valueFound]
        exact rep.linked.removeOrder_linked order.odid
      · rw [List.map_append, List.map_cons] at iters
        rw [List.map_append]
        exact (List.nodup_middle.mp iters).of_cons
      · intro node nodeMem
        apply rep.made order.price node
        rw [split]
        rcases List.mem_append.mp nodeMem with inFront | inBack
        · exact List.mem_append_left _ inFront
        · exact List.mem_append_right _ (List.mem_cons_of_mem _ inBack)

/-! ### Writing an order -/

omit [Zero P] in
/-- A write through the pointer of an order is seen as a change of the order of its id. -/
theorem Represents.holds_written (rep : shared.Represents heap side) {pointer : Pointer}
    {order : Order P} (object : heap.objects[pointer]? = some order)
    (owns : shared.Owns heap pointer order.odid) (update : Order P → Order P) (key : P) :
    (heap.write pointer (update order)).Holds (shared.nodesAt key)
      ((side.ordersAt key).map fun other =>
        if other.odid = order.odid then update other else other) := by
  apply (rep.holdsAt key).map
  intro node mem
  obtain ⟨resting, -, found⟩ := rep.object_of_node mem
  rw [object?_write object, found, Option.map_some]
  by_cases same : node.pointer = pointer
  · rw [same, object, Option.some.injEq] at found
    subst found
    rw [if_pos same, if_pos rfl]
  · rw [if_neg same, if_neg fun sameId => same (owns mem found sameId)]

/-- An order written in place, with the quantity of its level. -/
def written (shared : SharedSide P isSell) (key : P) (quantity : ℤ) : SharedSide P isSell :=
  { shared with levels := shared.levels.insert key (.ofNodes key quantity (shared.nodesAt key)) }

omit [Zero P] in
theorem written_levels {key : P} (nonempty : shared.nodesAt key ≠ []) (quantity : ℤ) :
    (shared.written key quantity).levels =
      putNodes shared.levels key quantity (shared.nodesAt key) := by
  rw [putNodes, if_neg nonempty, written]

omit [Zero P] in
theorem nodesAt_written {key : P} (nonempty : shared.nodesAt key ≠ []) (quantity : ℤ) (other : P) :
    (shared.written key quantity).nodesAt other = shared.nodesAt other := by
  rw [nodesAt_putNodes (written_levels nonempty quantity)]
  split
  · next same => rw [same]
  · rfl

omit [Zero P] in
/-- Writing an order in place keeps what the side represents, if the order stays the
same order. -/
theorem Represents.written (rep : shared.Represents heap side) {pointer : Pointer}
    {order : Order P} (object : heap.objects[pointer]? = some order)
    (owns : shared.Owns heap pointer order.odid)
    (nonempty : shared.nodesAt order.price ≠ []) (update : Order P → Order P)
    (sameId : ∀ other, (update other).odid = other.odid)
    (samePrice : ∀ other, (update other).price = other.price)
    (sameSide : ∀ other, (update other).isSell = other.isSell) (quantity : ℤ) :
    (shared.written order.price quantity).Represents (heap.write pointer (update order))
      { side with
        levels := BookSide.putOrders side.levels order.price quantity
          ((side.ordersAt order.price).map fun other =>
            if other.odid = order.odid then update other else other) } := by
  have idsEq : ids ((side.ordersAt order.price).map fun other =>
      if other.odid = order.odid then update other else other) =
        ids (side.ordersAt order.price) := by
    rw [ids, List.map_map]
    apply List.map_congr_left
    intro other _
    rw [Function.comp_apply, apply_ite Order.odid, sameId, ite_self]
  refine rep.put (rep.linked.put_sameIds rfl rfl ?_ ?_ idsEq) (written_levels nonempty quantity)
    rfl (rep.holds_written object owns update order.price) ?_ ?_ (rep.iters order.price)
    (rep.made order.price) le_rfl rep.l2SnapQueue_eq rep.pendingLiqRemoveQty_eq
    rep.pendingLiqAddQty_eq
  · intro changed mem
    obtain ⟨other, otherMem, rfl⟩ := List.mem_map.mp mem
    rw [apply_ite Order.price, samePrice, ite_self]
    exact rep.linked.order_price otherMem
  · intro changed mem
    obtain ⟨other, otherMem, rfl⟩ := List.mem_map.mp mem
    rw [apply_ite Order.isSell, sameSide, ite_self]
    exact rep.linked.order_isSell otherMem
  · intro other node different mem
    rw [object?_write object, if_neg]
    intro same
    obtain ⟨resting, restingMem, found⟩ := rep.object_of_node mem
    rw [same, object, Option.some.injEq] at found
    exact different (found ▸ (rep.linked.order_price restingMem).symm)
  · intro id handler
    have mapEq : (shared.written order.price quantity).orderMap = shared.orderMap := rfl
    apply rep.handlers_of_nodesAt_eq mapEq (nodesAt_written nonempty quantity)
    intro other _
    rw [object?_write object]
    split
    · next same => rw [same, object, Option.map_some, Option.map_some, sameId]
    · rfl

/-! ### Filling an order -/

theorem fillLevelOrder_run {key : P} {quantity qty : ℤ} {pointer : Pointer} {order : Order P}
    (object : heap.objects[pointer]? = some order)
    (found : shared.levels.find? key = some (.ofNodes key quantity (shared.nodesAt key)))
    (fits : qty ≤ order.getRemainingQuantity) :
    shared.fillLevelOrder key pointer qty heap =
      .ok (shared.written key (quantity - qty), heap.write pointer (order.fill qty)) := by
  rw [fillLevelOrder, getL3Level_of_find? found, SharedLevel.fillOrder, bind_of_run]
  · rfl
  · rw [load_bind object, assertThat_of fits, bind_of_run rfl, store_bind object]
    rfl

theorem Represents.fillLevelOrder (rep : shared.Represents heap side) {pointer : Pointer}
    {order : Order P} (present : side.existLevel order.price = true)
    (object : heap.objects[pointer]? = some order)
    (owns : shared.Owns heap pointer order.odid) (qty : ℤ) :
    Simulates (fun next later value => next.Represents later value ∧
        later = heap.write pointer (order.fill qty) ∧
        ∀ key, next.nodesAt key = shared.nodesAt key)
      (shared.fillLevelOrder order.price pointer qty heap)
      (side.fillLevelOrder order.price order qty) := by
  obtain ⟨level, levelFound⟩ := Option.isSome_iff_exists.mp present
  have valueFound := rep.linked.find?_eq levelFound
  have found := rep.find?_ofNodes valueFound
  have nonempty : side.ordersAt order.price ≠ [] := by
    intro none
    rw [rep.linked.ordersAt_eq_nil_iff.mp none] at levelFound
    cases levelFound
  have nodesNonempty : shared.nodesAt order.price ≠ [] := by
    rwa [← List.length_pos_iff, (rep.holdsAt order.price).length_eq, List.length_pos_iff]
  by_cases fits : qty ≤ order.getRemainingQuantity
  · have filled : side.fillLevelOrder order.price order qty = .ok { side with
        levels := BookSide.putOrders side.levels order.price (level.quantity - qty)
          ((side.ordersAt order.price).map fun other =>
            if other.odid = order.odid then other.fill qty else other) } := by
      simp only [BookSide.fillLevelOrder, BookSide.getL3Level_of_find? valueFound,
        L3PriceLevel.fillOrder, assertThat_of fits, ok_bind, pure_eq_ok, BookSide.putOrders,
        List.map_eq_nil_iff, if_neg nonempty, L3PriceLevel.ofOrders, List.length_map]
    rw [fillLevelOrder_run object found fits, filled]
    exact .ok ⟨rep.written object owns nodesNonempty (fun other => other.fill qty) (fun _ => rfl)
      (fun _ => rfl) (fun _ => rfl) _, rfl, nodesAt_written nodesNonempty _⟩
  · have failed : side.fillLevelOrder order.price order qty = .error .assertFailed := by
      simp only [BookSide.fillLevelOrder, BookSide.getL3Level_of_find? valueFound,
        L3PriceLevel.fillOrder, assertThat, if_neg fits]
      rfl
    rw [failed, SharedSide.fillLevelOrder, getL3Level_of_find? found, SharedLevel.fillOrder,
      bind_run, load_bind object, assertThat, if_neg fits]
    rfl

/-! ### Adding an order -/

/-- The side with an order linked at the end of the list of its price. -/
def withNode (shared : SharedSide P isSell) (order : Order P) (quantity : ℤ) (node : Node) :
    SharedSide P isSell :=
  { shared with
    levels := putNodes shared.levels order.price quantity (shared.nodesAt order.price ++ [node])
    orderMap := shared.orderMap.insert order.odid ⟨node.pointer, node.iter⟩ }

omit [Zero P] in
theorem mem_nodesAt_withNode {order : Order P} {quantity : ℤ} {added node : Node} {key : P} :
    node ∈ (shared.withNode order quantity added).nodesAt key ↔
      node ∈ shared.nodesAt key ∨ key = order.price ∧ node = added := by
  have levelsEq : (shared.withNode order quantity added).levels = putNodes shared.levels
      order.price quantity (shared.nodesAt order.price ++ [added]) := rfl
  rw [nodesAt_putNodes levelsEq]
  by_cases same : key = order.price
  · rw [if_pos same, same]
    simp
  · simp [same]

theorem Represents.addOrder_run (rep : shared.Represents heap side) {pointer : Pointer}
    {order : Order P} (object : heap.objects[pointer]? = some order)
    (isSellEq : order.isSell = isSell) (fresh : shared.existOrder order.odid = false) :
    shared.addOrder pointer heap = .ok
      (shared.withNode order (side.quantityAt order.price + order.getRemainingQuantity)
        ⟨heap.nodesMade, pointer⟩, { heap with nodesMade := heap.nodesMade + 1 }) := by
  have appended : (shared.getL3Level order.price).addOrder pointer heap = .ok
      ((.ofNodes order.price (side.quantityAt order.price + order.getRemainingQuantity)
        (shared.nodesAt order.price ++ [⟨heap.nodesMade, pointer⟩]), heap.nodesMade),
        { heap with nodesMade := heap.nodesMade + 1 }) := by
    rw [SharedLevel.addOrder, load_bind object, bind_of_run rfl]
    simp only [pure_run]
    cases found : side.levels.find? order.price with
    | none =>
        simp [getL3Level, nodesAt, BookSide.quantityAt, rep.levels.none_iff.mpr found, found,
          SharedLevel.new, SharedLevel.ofNodes]
    | some level =>
        have sharedFound := rep.find?_ofNodes (rep.linked.find?_eq found)
        rw [getL3Level_of_find? sharedFound, BookSide.quantityAt_of_find? found]
        simp [SharedLevel.ofNodes]
  have checked : liftCall (assertThat (order.isSell = isSell)) heap = .ok ((), heap) := by
    rw [assertThat_of isSellEq]
    rfl
  rw [SharedSide.addOrder, load_bind object, bind_of_run checked, if_neg (by simp [fresh]),
    bind_of_run appended]
  simp only [pure_run, withNode, putNodes, if_false,
    List.append_ne_nil_of_right_ne_nil _ (List.cons_ne_nil _ _)]

omit [Zero P] in
/-- The handlers after an order is linked: the old ones and its own. -/
theorem Represents.handlers_added (rep : shared.Represents heap side) {pointer : Pointer}
    {order : Order P} (object : heap.objects[pointer]? = some order)
    (fresh : shared.existOrder order.odid = false) {quantity : ℤ} {iter : Iterator} {id : ℤ}
    {handler : SharedHandler} (sameObjects : later.objects = heap.objects) :
    (shared.withNode order quantity ⟨iter, pointer⟩).orderMap.find? id = some handler ↔
      (shared.withNode order quantity ⟨iter, pointer⟩).Handles later id handler := by
  have absent : shared.orderMap.find? order.odid = none := by
    simpa [existOrder] using fresh
  simp only [Handles, mem_nodesAt_withNode, sameObjects]
  rw [withNode, SortedMap.find?_insert]
  constructor
  · intro found
    split at found
    · next same =>
        cases found
        exact ⟨order.price, order, .inr ⟨rfl, rfl⟩, object, same.symm⟩
    · obtain ⟨key, other, mem, otherFound, sameId⟩ := rep.handlers.mp found
      exact ⟨key, other, .inl mem, otherFound, sameId⟩
  · rintro ⟨key, other, mem | ⟨-, same⟩, otherFound, rfl⟩
    · have found := rep.handlers.mpr ⟨key, other, mem, otherFound, rfl⟩
      rw [if_neg, found]
      intro same
      rw [same, absent] at found
      cases found
    · obtain ⟨sameIter, sameOrder⟩ := Node.mk.inj same
      rw [sameOrder, object, Option.some.injEq] at otherFound
      rw [if_pos (otherFound ▸ rfl), ← sameIter, ← sameOrder]

theorem Represents.addOrder (rep : shared.Represents heap side) {pointer : Pointer}
    {order : Order P} (object : heap.objects[pointer]? = some order) :
    Simulates (fun next later value => next.Represents later value ∧
        later.objects = heap.objects ∧ heap.nodesMade ≤ later.nodesMade ∧
        ∀ {key : P} {node : Node}, (node ∈ next.nodesAt key →
          node ∈ shared.nodesAt key ∨ node.pointer = pointer) ∧
            (node ∈ shared.nodesAt key → node ∈ next.nodesAt key))
      (shared.addOrder pointer heap) (side.addOrder order) := by
  by_cases isSellEq : order.isSell = isSell
  · cases exist : side.existOrder order.odid with
    | true =>
        have present : shared.existOrder order.odid = true := (rep.existOrder_eq _).trans exist
        rw [BookSide.addOrder_of_exist isSellEq exist, SharedSide.addOrder, load_bind object,
          assertThat_of isSellEq, bind_of_run rfl, if_pos present]
        exact .ok ⟨rep, rfl, le_rfl, fun mem => .inl mem, fun mem => mem⟩
    | false =>
        have fresh : shared.existOrder order.odid = false := (rep.existOrder_eq _).trans exist
        have added := rep.linked.addOrder_eq isSellEq exist
        rw [rep.addOrder_run object isSellEq fresh, added]
        refine .ok ⟨?_, rfl, Nat.le_succ _, ?_⟩
        · have atEnd : heap.Holds [⟨heap.nodesMade, pointer⟩] [order] :=
            Heap.Holds.cons_iff.mpr ⟨object, .nil⟩
          have nodup := rep.iters order.price
          refine rep.put (rep.linked.addOrder_linked added) rfl rfl
            ((rep.holdsAt order.price).append atEnd) (fun _ _ => rfl)
            (rep.handlers_added object fresh rfl) ?_ ?_ (Nat.le_succ _) rep.l2SnapQueue_eq
            rep.pendingLiqRemoveQty_eq rep.pendingLiqAddQty_eq
          · rw [List.map_append, List.map_singleton, List.nodup_append_comm,
              List.singleton_append, List.nodup_cons]
            refine ⟨fun again => ?_, nodup⟩
            obtain ⟨node, mem, iterEq⟩ := List.mem_map.mp again
            exact (rep.made order.price node mem).ne iterEq
          · intro node mem
            rcases List.mem_append.mp mem with old | new
            · exact (rep.made order.price node old).trans (Nat.lt_succ_self _)
            · rw [List.mem_singleton.mp new]
              exact Nat.lt_succ_self _
        · intro key node
          refine ⟨fun mem => ?_, fun mem => mem_nodesAt_withNode.mpr (.inl mem)⟩
          rcases mem_nodesAt_withNode.mp mem with old | ⟨-, rfl⟩
          · exact .inl old
          · exact .inr rfl
  · have failed : side.addOrder order = .error .assertFailed := by
      simp only [BookSide.addOrder, assertThat, if_neg isSellEq]
      rfl
    rw [failed, SharedSide.addOrder, load_bind object, assertThat, if_neg isSellEq]
    rfl

end OrderBook.SharedSide
