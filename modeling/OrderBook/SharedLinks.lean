import OrderBook.SharedSide
import OrderBook.LevelFill

/-!
# Pointers that name their orders

A side with pointers represents a side of orders when walking its lists reads
the orders of the other one, and the handlers of the id map are exactly the
nodes of the lists.  Since ids are unique, no two nodes share an object, so
writing through the pointer of one node is writing the order of one id.  The
three operations that change the lists or the objects keep this.
-/

namespace OrderBook

open FueledLoop SharedHeap

variable {P : Type}

/-- Filling is the only change that is made to an order in place. -/
def Order.Fills (order filled : Order P) : Prop := ∃ qty, filled = order.fill qty

theorem Order.Fills.trans {first second third : Order P} (earlier : first.Fills second)
    (later : second.Fills third) : first.Fills third := by
  obtain ⟨firstQty, rfl⟩ := earlier
  obtain ⟨secondQty, rfl⟩ := later
  exact ⟨firstQty + secondQty, Order.fill_fill ..⟩

namespace SharedLevel

/-- The level under `key` with the given quantity and list. -/
def ofNodes (key : P) (quantity : ℤ) (nodes : List Node) : SharedLevel P :=
  ⟨key, quantity, nodes.length, nodes⟩

structure Represents (heap : Heap (Order P)) (level : SharedLevel P) (value : L3PriceLevel P) :
    Prop where
  price_eq : level.price = value.price
  quantity_eq : level.quantity = value.quantity
  numOrders_eq : level.numOrders = value.numOrders
  orders : heap.Holds level.orders value.orders

theorem represents_ofNodes {heap : Heap (Order P)} {key : P} {quantity : ℤ} {nodes : List Node}
    {orders : List (Order P)} (holds : heap.Holds nodes orders) :
    (ofNodes key quantity nodes).Represents heap (.ofOrders key quantity orders) where
  price_eq := rfl
  quantity_eq := rfl
  numOrders_eq := congrArg Nat.cast holds.length_eq
  orders := holds

theorem Represents.eq_ofNodes {heap : Heap (Order P)} {level : SharedLevel P} {key : P}
    {quantity : ℤ} {orders : List (Order P)}
    (represents : level.Represents heap (.ofOrders key quantity orders)) :
    level = ofNodes key quantity level.orders := by
  have sameLength : level.orders.length = orders.length := represents.orders.length_eq
  have counted := represents.numOrders_eq
  rw [L3PriceLevel.ofOrders_numOrders, ← sameLength] at counted
  have priceEq := represents.price_eq
  have quantityEq := represents.quantity_eq
  cases level
  simp only [ofNodes, mk.injEq, and_true]
  exact ⟨priceEq, quantityEq, counted⟩

end SharedLevel

namespace SharedSide

variable [LinearOrder P] {isSell : Bool}

/-- The nodes of the list stored under a price. -/
def nodesAt (shared : SharedSide P isSell) (price : P) : List Node :=
  ((shared.levels.find? price).map SharedLevel.orders).getD []

/-- A node of some list of the side holds the pointer. -/
def Links (shared : SharedSide P isSell) (pointer : Pointer) : Prop :=
  ∃ key, ∃ node ∈ shared.nodesAt key, node.pointer = pointer

/-- A handler is a node of some list, and its order has the given id. -/
def Handles (shared : SharedSide P isSell) (heap : Heap (Order P)) (id : ℤ)
    (handler : SharedHandler) : Prop :=
  ∃ key order, ⟨handler.iter, handler.order⟩ ∈ shared.nodesAt key ∧
    heap.objects[handler.order]? = some order ∧ order.odid = id

structure Represents (heap : Heap (Order P)) (shared : SharedSide P isSell)
    (side : BookSide P isSell) : Prop where
  linked : side.Linked
  levels : shared.levels.Related (SharedLevel.Represents heap) side.levels
  handlers : ∀ {id : ℤ} {handler : SharedHandler},
    shared.orderMap.find? id = some handler ↔ shared.Handles heap id handler
  iters : ∀ key, ((shared.nodesAt key).map Node.iter).Nodup
  made : ∀ key, ∀ node ∈ shared.nodesAt key, node.iter < heap.nodesMade
  l2SnapQueue_eq : shared.l2SnapQueue = side.l2SnapQueue
  pendingLiqRemoveQty_eq : shared.pendingLiqRemoveQty = side.pendingLiqRemoveQty
  pendingLiqAddQty_eq : shared.pendingLiqAddQty = side.pendingLiqAddQty

/-- What an operation on a side may do to the heap: fill orders that the side links, and
those it is given, and link pointers that are new or given. -/
structure Acts (given : Pointer → Prop) (heap : Heap (Order P)) (shared : SharedSide P isSell)
    (later : Heap (Order P)) (next : SharedSide P isSell) : Prop where
  evolves : heap.Evolves Order.Fills (fun pointer => shared.Links pointer ∨ given pointer) later
  links : ∀ {pointer : Pointer}, next.Links pointer →
    shared.Links pointer ∨ given pointer ∨ heap.objects.length ≤ pointer
  made : heap.nodesMade ≤ later.nodesMade

/-- Replace the level under `key`; a level with an empty list is erased. -/
def putNodes (levels : SortedMap P (SharedLevel P) (PriceComparator isSell)) (key : P)
    (quantity : ℤ) (nodes : List Node) : SortedMap P (SharedLevel P) (PriceComparator isSell) :=
  if nodes = [] then levels.erase key else levels.insert key (.ofNodes key quantity nodes)

theorem nodesAt_of_find? {shared : SharedSide P isSell} {key : P} {level : SharedLevel P}
    (found : shared.levels.find? key = some level) : shared.nodesAt key = level.orders := by
  simp [nodesAt, found]

theorem nodesAt_putNodes {shared next : SharedSide P isSell} {key : P} {quantity : ℤ}
    {nodes : List Node}
    (levelsEq : next.levels = putNodes shared.levels key quantity nodes) (other : P) :
    next.nodesAt other = if other = key then nodes else shared.nodesAt other := by
  simp only [nodesAt, levelsEq, putNodes]
  by_cases none : nodes = []
  · rw [if_pos none, SortedMap.find?_erase]
    by_cases same : other = key
    · simp [same, none]
    · simp [same]
  · rw [if_neg none, SortedMap.find?_insert]
    by_cases same : other = key
    · simp [same, SharedLevel.ofNodes]
    · simp [same]

theorem represents_empty (heap : Heap (Order P)) :
    (empty : SharedSide P isSell).Represents heap .empty where
  linked := BookSide.linked_empty
  levels _ := .none
  handlers := by simp [empty, Handles, nodesAt]
  iters := by simp [empty, nodesAt]
  made := by simp [empty, nodesAt]
  l2SnapQueue_eq := rfl
  pendingLiqRemoveQty_eq := rfl
  pendingLiqAddQty_eq := rfl

namespace Acts

variable {given : Pointer → Prop} {heap middle later : Heap (Order P)}
  {shared between next : SharedSide P isSell}

theorem of_nodesAt_eq (evolves : heap.Evolves Order.Fills
      (fun pointer => shared.Links pointer ∨ given pointer) later)
    (same : ∀ key, next.nodesAt key = shared.nodesAt key)
    (made : heap.nodesMade ≤ later.nodesMade) : shared.Acts given heap later next where
  evolves := evolves
  links := by
    rintro pointer ⟨key, node, mem, rfl⟩
    exact .inl ⟨key, node, same key ▸ mem, rfl⟩
  made := made

theorem refl : shared.Acts given heap heap shared :=
  of_nodesAt_eq (.of_objects_eq rfl) (fun _ => rfl) le_rfl

theorem trans (first : shared.Acts given heap middle between)
    (second : between.Acts given middle later next) : shared.Acts given heap later next where
  evolves := by
    refine first.evolves.trans (fun earlier following => earlier.trans following)
      second.evolves ?_
    rintro pointer inside (linked | isGiven)
    · rcases first.links linked with linkedBefore | isGiven | outside
      · exact .inl linkedBefore
      · exact .inr isGiven
      · omega
    · exact .inr isGiven
  links := by
    intro pointer linked
    rcases second.links linked with linkedBetween | isGiven | outside
    · exact first.links linkedBetween
    · exact .inr (.inl isGiven)
    · exact .inr (.inr (first.evolves.length_le.trans outside))
  made := first.made.trans second.made

end Acts

namespace Represents

variable {heap later : Heap (Order P)} {shared next : SharedSide P isSell}
  {side result : BookSide P isSell}

/-! ### Reading a side through its pointers -/

theorem holdsAt (rep : shared.Represents heap side) (key : P) :
    heap.Holds (shared.nodesAt key) (side.ordersAt key) := by
  cases found : shared.levels.find? key with
  | none =>
      rw [nodesAt, found, BookSide.ordersAt, rep.levels.none_iff.mp found]
      exact .nil
  | some level =>
      obtain ⟨value, valueFound, represents⟩ := rep.levels.of_some found
      rw [nodesAt_of_find? found, BookSide.ordersAt_of_find? valueFound]
      exact represents.orders

/-- The level under a price, as its list and its quantity give it. -/
theorem find?_ofNodes (rep : shared.Represents heap side) {key : P} {quantity : ℤ}
    {orders : List (Order P)}
    (found : side.levels.find? key = some (.ofOrders key quantity orders)) :
    shared.levels.find? key = some (.ofNodes key quantity (shared.nodesAt key)) := by
  obtain ⟨level, levelFound, represents⟩ := rep.levels.of_some_right found
  rw [nodesAt_of_find? levelFound, levelFound]
  exact congrArg some represents.eq_ofNodes

theorem object_of_node (rep : shared.Represents heap side) {key : P} {node : Node}
    (mem : node ∈ shared.nodesAt key) :
    ∃ order ∈ side.ordersAt key, heap.objects[node.pointer]? = some order :=
  (rep.holdsAt key).of_mem mem

/-- An order is in one list, at one node. -/
theorem node_unique (rep : shared.Represents heap side) {firstKey secondKey : P}
    {first second : Node} (firstMem : first ∈ shared.nodesAt firstKey)
    (secondMem : second ∈ shared.nodesAt secondKey) {firstOrder secondOrder : Order P}
    (firstFound : heap.objects[first.pointer]? = some firstOrder)
    (secondFound : heap.objects[second.pointer]? = some secondOrder)
    (sameId : firstOrder.odid = secondOrder.odid) : firstKey = secondKey ∧ first = second := by
  obtain ⟨order, orderMem, orderFound⟩ := rep.object_of_node firstMem
  rw [firstFound, Option.some.injEq] at orderFound
  obtain ⟨other, otherMem, otherFound⟩ := rep.object_of_node secondMem
  rw [secondFound, Option.some.injEq] at otherFound
  subst orderFound otherFound
  have sameKey : firstKey = secondKey := rep.linked.price_unique
    (List.mem_map_of_mem orderMem) (sameId ▸ List.mem_map_of_mem otherMem)
  subst sameKey
  exact ⟨rfl, (rep.holdsAt firstKey).node_unique (rep.linked.nodup firstKey) firstMem secondMem
    firstFound secondFound sameId⟩

/-- The nodes of two lists never share an object. -/
theorem pointer_unique (rep : shared.Represents heap side) {firstKey secondKey : P}
    {first second : Node} (firstMem : first ∈ shared.nodesAt firstKey)
    (secondMem : second ∈ shared.nodesAt secondKey) (same : first.pointer = second.pointer) :
    firstKey = secondKey ∧ first = second := by
  obtain ⟨order, -, found⟩ := rep.object_of_node firstMem
  exact rep.node_unique firstMem secondMem found (same ▸ found) rfl

theorem isSell_of_links (rep : shared.Represents heap side) {pointer : Pointer}
    {order : Order P} (linked : shared.Links pointer)
    (found : heap.objects[pointer]? = some order) : order.isSell = isSell := by
  obtain ⟨key, node, mem, rfl⟩ := linked
  obtain ⟨resting, restingMem, restingFound⟩ := rep.object_of_node mem
  rw [found, Option.some.injEq] at restingFound
  subst restingFound
  exact rep.linked.order_isSell restingMem

theorem existOrder_eq (rep : shared.Represents heap side) (id : ℤ) :
    shared.existOrder id = side.existOrder id := by
  rw [Bool.eq_iff_iff, rep.linked.existOrder_iff, existOrder, Option.isSome_iff_exists]
  constructor
  · rintro ⟨handler, found⟩
    obtain ⟨key, order, mem, object, rfl⟩ := rep.handlers.mp found
    obtain ⟨resting, restingMem, restingFound⟩ := rep.object_of_node mem
    rw [object, Option.some.injEq] at restingFound
    exact ⟨key, restingFound ▸ List.mem_map_of_mem restingMem⟩
  · rintro ⟨key, mem⟩
    obtain ⟨order, orderMem, rfl⟩ := List.mem_map.mp mem
    obtain ⟨node, nodeMem, found⟩ := (rep.holdsAt key).of_mem_right orderMem
    exact ⟨⟨node.pointer, node.iter⟩, rep.handlers.mpr ⟨key, order, nodeMem, found, rfl⟩⟩

theorem existLevel_eq (rep : shared.Represents heap side) (price : P) :
    shared.existLevel price = side.existLevel price := by
  have same : shared.levels.find? price = none ↔ side.levels.find? price = none :=
    rep.levels.none_iff
  rw [existLevel, BookSide.existLevel, Bool.eq_iff_iff, Option.isSome_iff_ne_none,
    Option.isSome_iff_ne_none]
  exact not_congr same

theorem l2View_eq (rep : shared.Represents heap side) : shared.l2View = side.l2View := by
  have walked := rep.levels.forall₂_entries
  rw [l2View, BookSide.l2View]
  generalize shared.levels.entries = entries at walked ⊢
  generalize side.levels.entries = values at walked ⊢
  induction walked with
  | nil => rfl
  | cons both _ ih =>
      rw [List.map_cons, List.map_cons, ih, both.1, both.2.quantity_eq]

theorem bookCrossedWithPrice_eq (rep : shared.Represents heap side) (price : P) :
    shared.bookCrossedWithPrice price = side.bookCrossedWithPrice price := by
  rw [bookCrossedWithPrice, BookSide.bookCrossedWithPrice]
  rcases rep.levels.begin?_cases with
    ⟨none, valueNone⟩ | ⟨key, level, value, first, valueFirst, both⟩
  · rw [none, valueNone]
  · rw [first, valueFirst]
    simp only [both.price_eq]

/-- A side does not notice writes to objects that it does not link. -/
theorem frame (rep : shared.Represents heap side)
    (same : ∀ {pointer : Pointer} {order : Order P}, shared.Links pointer →
      heap.objects[pointer]? = some order → later.objects[pointer]? = some order)
    (made : heap.nodesMade ≤ later.nodesMade) : shared.Represents later side := by
  have kept : ∀ {key : P} {node : Node}, node ∈ shared.nodesAt key →
      later.objects[node.pointer]? = heap.objects[node.pointer]? := by
    intro key node mem
    obtain ⟨order, -, found⟩ := rep.object_of_node mem
    rw [found]
    exact same ⟨key, node, mem, rfl⟩ found
  refine { rep with levels := ?_, handlers := ?_, made := ?_ }
  · intro key
    cases found : shared.levels.find? key with
    | none =>
        rw [rep.levels.none_iff.mp found]
        exact .none
    | some level =>
        obtain ⟨value, valueFound, represents⟩ := rep.levels.of_some found
        rw [valueFound]
        refine .some { represents with orders := represents.orders.congr ?_ }
        intro node mem
        exact kept (nodesAt_of_find? found ▸ mem)
  · intro id handler
    rw [rep.handlers]
    constructor
    · rintro ⟨key, order, mem, found, sameId⟩
      exact ⟨key, order, mem, (kept mem).trans found, sameId⟩
    · rintro ⟨key, order, mem, found, sameId⟩
      exact ⟨key, order, mem, (kept mem).symm.trans found, sameId⟩
  · intro key node mem
    exact (rep.made key node mem).trans_le made

/-- A side does not notice new objects. -/
theorem alloc (rep : shared.Represents heap side) (order : Order P) :
    shared.Represents { heap with objects := heap.objects ++ [order] } side := by
  refine rep.frame ?_ le_rfl
  intro pointer old _ found
  obtain ⟨inside, -⟩ := List.getElem?_eq_some_iff.mp found
  rw [List.getElem?_append_left inside, found]

end Represents

end SharedSide

end OrderBook
