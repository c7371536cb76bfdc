import OrderBook.BookRuns
import OrderBook.SharedSnapshot

/-!
# Calls of a side through pointers

A side can be driven by its own operations, `modifyOrder` among them, which no
message reaches.  At the same price it writes the quantity of the order in place; at
another price it makes a new object with the fills of the old one.  Every sequence of
calls through pointers does what it does on orders.
-/

namespace OrderBook

open FueledLoop SharedHeap

variable {P : Type} [LinearOrder P] [Zero P] {isSell : Bool}

namespace SharedSide

/-- A call of a side.  An order that is passed in is a new object. -/
def call (fuel : Nat) (shared : SharedSide P isSell) :
    SideCall P → Program (Order P) (SharedSide P isSell)
  | .addOrder order => do
      let pointer ← makeShared order
      shared.addOrder pointer
  | .removeOrder id => shared.removeOrder id
  | .modifyOrder odid quantity price => shared.modifyOrder odid quantity price
  | .processCrossedOrder order => do
      let pointer ← makeShared order
      let (next, _) ← shared.processCrossedOrder fuel pointer
      return next
  | .processOrderCancel id quantity price => do
      let (next, _) ← shared.processOrderCancel id quantity price
      return next
  | .processTrade trade => do
      let (next, _) ← shared.processTrade fuel trade
      return next
  | .processL2Snapshot snapshot => do
      let (next, _) ← shared.processL2Snapshot snapshot
      return next

variable {heap : Heap (Order P)} {shared : SharedSide P isSell} {side : BookSide P isSell}

theorem Represents.modifyOrder (rep : shared.Represents heap side) (odid quantity : ℤ)
    (price : P) :
    Simulates (fun next later value => next.Represents later value)
      (shared.modifyOrder odid quantity price heap) (side.modifyOrder odid quantity price) := by
  rw [SharedSide.modifyOrder]
  cases mapped : shared.orderMap.find? odid with
  | none =>
      have absent : side.getOrder? odid = none := by
        cases found : side.getOrder? odid with
        | none => rfl
        | some order =>
            have present := BookSide.existOrder_of_getOrder? found
            rw [← rep.existOrder_eq, existOrder, mapped] at present
            cases present
      rw [BookSide.modifyOrder, absent]
      exact .ok rep
  | some handler =>
      obtain ⟨key, order, mem, object, rfl⟩ := rep.handlers.mp mapped
      obtain ⟨resting, restingMem, restingFound⟩ := rep.object_of_node mem
      rw [object, Option.some.injEq] at restingFound
      subst restingFound
      obtain rfl : order.price = key := rep.linked.order_price restingMem
      have found := rep.linked.getOrder?_of_mem restingMem
      dsimp only
      rw [load_bind object]
      by_cases same : order.price = price
      · subst same
        rw [if_pos rfl]
        obtain ⟨levelQty, valueFound⟩ := rep.linked.exists_level restingMem
        have sharedFound := rep.find?_ofNodes valueFound
        have nonempty : shared.nodesAt order.price ≠ [] := List.ne_nil_of_mem mem
        have written := rep.written object (rep.owns_of_mem mem object) nonempty
          (fun other => { other with quantity := quantity }) (fun _ => rfl) (fun _ => rfl)
          (fun _ => rfl) (levelQty + (quantity - order.quantity))
        have nodup := rep.linked.nodup order.price
        obtain ⟨front, back, split⟩ := List.append_of_mem restingMem
        rw [split] at valueFound nodup
        rw [split, L3PriceLevel.map_atId nodup] at written
        rw [rep.linked.modifyOrder_samePrice valueFound, getL3Level_of_find? sharedFound,
          bind_of_run]
        · exact .ok written
        · rw [SharedLevel.modifyOrder, load_bind object, assertThat_of rfl, bind_of_run rfl,
            store_bind object]
          rfl
      · rw [if_neg same, BookSide.modifyOrder, found]
        dsimp only
        rw [if_neg same, makeShared_bind]
        apply ((rep.alloc _).removeOrder order.odid).bind_ok
        rintro removed _ ⟨removedRep, rfl, -⟩
        have made : (heap.objects ++ [(Order.new order.odid order.isSell quantity price).fill
            order.filledQuantity])[heap.objects.length]? = some ((Order.new order.odid
              order.isSell quantity price).fill order.filledQuantity) := by simp
        exact (removedRep.addOrder made).mono fun _ _ _ added => added.1

theorem Represents.call (rep : shared.Represents heap side) (fuel : Nat)
    (sideCall : SideCall P) :
    Simulates (fun next later value => next.Represents later value)
      (shared.call fuel sideCall heap) (side.call fuel sideCall) := by
  cases sideCall with
  | addOrder order =>
      have made : (heap.objects ++ [order])[heap.objects.length]? = some order := by simp
      rw [SharedSide.call, makeShared_bind]
      exact ((rep.alloc order).addOrder made).mono fun _ _ _ added => added.1
  | removeOrder id => exact (rep.removeOrder id).mono fun _ _ _ removed => removed.1
  | modifyOrder odid quantity price => exact rep.modifyOrder odid quantity price
  | processCrossedOrder order =>
      have made : (heap.objects ++ [order])[heap.objects.length]? = some order := by simp
      rw [SharedSide.call, makeShared_bind, BookSide.call]
      apply ((rep.alloc order).processCrossedOrder made fuel).bind
      rintro ⟨next, events⟩ later ⟨value, filled, valueEvents⟩ ⟨steps, -⟩
      exact .ok steps.represents
  | processOrderCancel id quantity price =>
      apply (rep.processOrderCancel id quantity price).bind_ok
      rintro ⟨next, events⟩ later ⟨steps, -⟩
      exact .ok steps.represents
  | processTrade trade =>
      apply (rep.processTrade fuel trade).bind
      rintro ⟨next, events⟩ later ⟨value, valueEvents⟩ ⟨steps, -⟩
      exact .ok steps.represents
  | processL2Snapshot snapshot =>
      apply (rep.processL2Snapshot snapshot).bind
      rintro ⟨next, events⟩ later ⟨value, valueEvents⟩ ⟨steps, -⟩
      exact .ok steps.represents

end SharedSide

/-- Every sequence of calls of a side through pointers halts as it does on orders, or leads to
a side with the same orders. -/
theorem sharedCalls_refine (isSell : Bool) (fuel : Nat) (calls : List (SideCall P)) :
    Simulates (fun last final result => last.Represents final result)
      (calls.foldlM (SharedSide.call fuel) (SharedSide.empty : SharedSide P isSell) .empty)
      (calls.foldlM (BookSide.call fuel) (BookSide.empty : BookSide P isSell)) := by
  refine (Simulates.foldlM (fun rest valueRest last final result => rest = valueRest ∧
    last.Represents final result) ?_ rfl ⟨rfl, SharedSide.represents_empty .empty⟩).mono ?_
  · rintro sideCall rest valueCall valueRest shared heap side ⟨same, rep⟩
    obtain ⟨rfl, rfl⟩ := List.cons_eq_cons.mp same
    exact (rep.call fuel sideCall).mono fun _ _ _ nextRep => ⟨rfl, nextRep⟩
  · rintro last final result ⟨-, rep⟩
    exact rep

end OrderBook
