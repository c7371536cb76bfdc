import OrderBook.BookRuns
import OrderBook.SharedMessages

/-!
# Runs through pointers

The program of the source, with its pointers and iterators, refines the book of
orders over whole runs.  It halts as the book of orders does and never by a bad
use of memory, it emits the same events, and its lists, handlers and objects stay
linked as they must be.  No message writes an order in any other way than by
filling it, and none writes an order that has left the book.
-/

namespace OrderBook

open FueledLoop InputRun SharedHeap

variable {P : Type} [LinearOrder P] [Zero P]

/-- Process messages one after another and collect the events. -/
def SmartOrderBook.processStream (fuel : Nat) (book : SmartOrderBook P)
    (messages : List (Message P)) : Except Halt (SmartOrderBook P × OrderInfoVec P) :=
  messages.foldlM
    (fun state message => do
      let (next, events) ← state.1.process fuel message
      return (next, state.2 ++ events))
    (book, [])

namespace SharedBook

def processStream (fuel : Nat) (shared : SharedBook P) (messages : List (Message P)) :
    Program (Order P) (SharedBook P × OrderInfoVec P) :=
  messages.foldlM
    (fun state message => do
      let (next, events) ← state.1.process fuel message
      return (next, state.2 ++ events))
    (shared, [])

/-- The lists, handlers and objects of a book fit together: a handler is exactly a node of
some list, the nodes of a list are distinct, a list holds the orders of its price and
side, and no object is in two places. -/
structure WellLinked (shared : SharedBook P) (heap : Heap (Order P)) : Prop where
  iters : ∀ (isSell : Bool) (key : P),
    (((shared.sides isSell).nodesAt key).map Node.iter).Nodup
  handler : ∀ (isSell : Bool) (id : ℤ) (handler : SharedHandler),
    (shared.sides isSell).orderMap.find? id = some handler ↔
      (shared.sides isSell).Handles heap id handler
  object : ∀ (isSell : Bool) (key : P), ∀ node ∈ (shared.sides isSell).nodesAt key,
    ∃ order, heap.objects[node.pointer]? = some order ∧ order.price = key ∧
      order.isSell = isSell
  oncePerObject : ∀ (first second : Bool) (firstKey secondKey : P),
    ∀ node ∈ (shared.sides first).nodesAt firstKey,
      ∀ other ∈ (shared.sides second).nodesAt secondKey, node.pointer = other.pointer →
        first = second ∧ firstKey = secondKey ∧ node = other
  counted : ∀ (isSell : Bool) (key : P) (level : SharedLevel P),
    (shared.sides isSell).levels.find? key = some level →
      level.price = key ∧ level.numOrders = level.orders.length ∧ level.orders ≠ []

variable {heap : Heap (Order P)} {shared : SharedBook P} {book : SmartOrderBook P}

omit [Zero P] in
theorem Represents.wellLinked (rep : shared.Represents heap book) : shared.WellLinked heap where
  iters isSell := (rep isSell).iters
  handler isSell id handler := (rep isSell).handlers
  object isSell key node mem := by
    obtain ⟨order, orderMem, found⟩ := (rep isSell).object_of_node mem
    exact ⟨order, found, (rep isSell).linked.order_price orderMem,
      (rep isSell).linked.order_isSell orderMem⟩
  oncePerObject first second firstKey secondKey node mem other otherMem samePointer := by
    obtain rfl : first = second := rep.one_side ⟨firstKey, node, mem, samePointer⟩
      ⟨secondKey, other, otherMem, rfl⟩
    exact ⟨rfl, (rep first).pointer_unique mem otherMem samePointer⟩
  counted isSell key level found := by
    obtain ⟨value, valueFound, represents⟩ := (rep isSell).levels.of_some found
    have linked := (rep isSell).linked.level valueFound
    have sameLength := represents.orders.length_eq
    refine ⟨represents.price_eq.trans linked.price_eq, ?_, ?_⟩
    · rw [represents.numOrders_eq, linked.numOrders_eq, sameLength]
    · intro none
      rw [none] at sameLength
      exact linked.nonempty (List.length_eq_zero_iff.mp sameLength.symm)

/-- What a stream of messages leads to through pointers and on orders. -/
theorem Represents.processStream (rep : shared.Represents heap book) (fuel : Nat)
    (messages : List (Message P)) :
    Simulates (fun last final result => StepsTo heap shared last.1 final result.1 ∧
        last.2 = result.2)
      (shared.processStream fuel messages heap) (book.processStream fuel messages) := by
  refine (Simulates.foldlM (fun rest valueRest last final result => rest = valueRest ∧
    StepsTo heap shared last.1 final result.1 ∧ last.2 = result.2) ?_ rfl
    ⟨rfl, .refl rep, rfl⟩).mono ?_
  · rintro message rest valueMessage valueRest ⟨next, events⟩ later ⟨value, _⟩ ⟨same, steps, rfl⟩
    obtain ⟨rfl, rfl⟩ := List.cons_eq_cons.mp same
    apply (steps.represents.process fuel message).bind
    rintro ⟨last, newEvents⟩ final ⟨result, _⟩ ⟨lastSteps, rfl⟩
    exact .ok ⟨rfl, steps.trans lastSteps, rfl⟩
  · rintro last final result ⟨-, steps, sameEvents⟩
    exact ⟨steps, sameEvents⟩

end SharedBook

/-- The program with its pointers refines the book of orders: over every stream of messages it
halts as the book of orders does, or returns the same events and a book with the same orders. -/
theorem sharedStream_refines (fuel : Nat) (messages : List (Message P)) :
    Simulates (fun last final result => last.1.Represents final result.1 ∧ last.2 = result.2)
      ((SharedBook.empty : SharedBook P).processStream fuel messages .empty)
      ((SmartOrderBook.empty : SmartOrderBook P).processStream fuel messages) := by
  refine ((SharedBook.represents_empty .empty).processStream fuel messages).mono ?_
  rintro last final result ⟨steps, sameEvents⟩
  exact ⟨steps.represents, sameEvents⟩

/-- A stream that the program with its pointers handles. -/
theorem SharedBook.exists_represents {fuel : Nat} {messages : List (Message P)}
    {shared : SharedBook P} {events : OrderInfoVec P} {heap : Heap (Order P)}
    (processed : (SharedBook.empty : SharedBook P).processStream fuel messages .empty =
      .ok ((shared, events), heap)) : ∃ book, shared.Represents heap book := by
  have simulates := (SharedBook.represents_empty (P := P) .empty).processStream fuel messages
  rw [processed] at simulates
  obtain ⟨⟨book, valueEvents⟩, -, steps, -⟩ := simulates.of_ok
  exact ⟨book, steps.represents⟩

theorem wellLinked_of_stream {fuel : Nat} {messages : List (Message P)} {shared : SharedBook P}
    {events : OrderInfoVec P} {heap : Heap (Order P)}
    (processed : (SharedBook.empty : SharedBook P).processStream fuel messages .empty =
      .ok ((shared, events), heap)) : shared.WellLinked heap := by
  obtain ⟨book, rep⟩ := SharedBook.exists_represents processed
  exact rep.wellLinked

theorem wellLinked_of_sampleMessages :
    ∃ shared events heap, SharedBook.empty.processStream 9 sampleMessages .empty =
        .ok ((shared, events), heap) ∧ heap.objects.length = 3 ∧ shared.WellLinked heap := by
  have evaluated : ((SharedBook.empty.processStream 9 sampleMessages .empty).toOption.map
      fun outcome => outcome.2.objects.length) = some 3 := by decide +kernel
  obtain ⟨⟨⟨shared, events⟩, heap⟩, processed, made⟩ := Option.map_eq_some_iff.mp evaluated
  have returned := toOption_eq_some.mp processed
  exact ⟨shared, events, heap, returned, made, wellLinked_of_stream returned⟩

/-- Later messages change no more of an order than its filled quantity, and leave an order
alone that is in no list. -/
theorem leftOrders_untouched {fuel : Nat} {earlier later : List (Message P)}
    {shared next : SharedBook P} {events newEvents : OrderInfoVec P} {heap final : Heap (Order P)}
    (processed : (SharedBook.empty : SharedBook P).processStream fuel earlier .empty =
      .ok ((shared, events), heap))
    (continued : shared.processStream fuel later heap = .ok ((next, newEvents), final))
    {pointer : Pointer} {order : Order P} (found : heap.objects[pointer]? = some order) :
    (∃ qty, final.objects[pointer]? = some (order.fill qty)) ∧
      (¬ shared.Links pointer →
        final.objects[pointer]? = some order ∧ ¬ next.Links pointer) := by
  obtain ⟨book, rep⟩ := SharedBook.exists_represents processed
  have simulates := rep.processStream fuel later
  rw [continued] at simulates
  obtain ⟨⟨value, valueEvents⟩, -, steps, -⟩ := simulates.of_ok
  constructor
  · obtain ⟨now, nowFound, rfl | ⟨-, qty, rfl⟩⟩ := steps.evolves found
    · exact ⟨0, by rw [nowFound, Order.fill_zero]⟩
    · exact ⟨qty, nowFound⟩
  · intro unlinked
    refine ⟨steps.evolves.unchanged found unlinked, fun linked => ?_⟩
    rcases steps.links linked with before | outside
    · exact unlinked before
    · obtain ⟨inside, -⟩ := List.getElem?_eq_some_iff.mp found
      exact absurd outside (by omega)

omit [Zero P] in
theorem SharedBook.not_links {shared : SharedBook P} {pointer : Pointer}
    (absent : ∀ isSell, ∀ entry ∈ (shared.sides isSell).levels.entries,
      ∀ node ∈ entry.2.orders, node.pointer ≠ pointer) : ¬ shared.Links pointer := by
  rintro ⟨isSell, key, node, mem, samePointer⟩
  cases found : (shared.sides isSell).levels.find? key with
  | none => simp [SharedSide.nodesAt, found] at mem
  | some level =>
      rw [SharedSide.nodesAt_of_find? found] at mem
      exact absent isSell (key, level) (SortedMap.find?_eq_some_iff.mp found) node mem samePointer

/-- The first ask is filled and gone when the trade and the snapshot arrive. -/
theorem leftOrders_of_sampleMessages :
    ∃ shared events heap next newEvents final,
      SharedBook.empty.processStream 9 (sampleMessages.take 3) .empty =
        .ok ((shared, events), heap) ∧
      shared.processStream 9 (sampleMessages.drop 3) heap = .ok ((next, newEvents), final) ∧
      (∃ qty, final.objects[0]? = some (Order.fill ⟨1, true, 10, 100, 10⟩ qty)) ∧
      ¬ shared.Links 0 ∧ final.objects[0]? = some ⟨1, true, 10, 100, 10⟩ ∧ ¬ next.Links 0 := by
  have evaluated : ((SharedBook.empty.processStream 9 (sampleMessages.take 3) .empty).toOption.bind
      fun outcome => (outcome.1.1.processStream 9 (sampleMessages.drop 3) outcome.2).toOption.map
        fun _ => (outcome.2.objects[0]?, decide (∀ isSell,
          ∀ entry ∈ (outcome.1.1.sides isSell).levels.entries, ∀ node ∈ entry.2.orders,
            node.pointer ≠ 0))) = some (some ⟨1, true, 10, 100, 10⟩, true) := by decide +kernel
  obtain ⟨⟨⟨shared, events⟩, heap⟩, processed, rest⟩ := Option.bind_eq_some_iff.mp evaluated
  obtain ⟨⟨⟨next, newEvents⟩, final⟩, continued, seen⟩ := Option.map_eq_some_iff.mp rest
  obtain ⟨found, absent⟩ := Prod.ext_iff.mp seen
  have firstReturned := toOption_eq_some.mp processed
  have secondReturned := toOption_eq_some.mp continued
  have unlinked := SharedBook.not_links (of_decide_eq_true absent)
  obtain ⟨filled, untouched⟩ := leftOrders_untouched firstReturned secondReturned found
  exact ⟨shared, events, heap, next, newEvents, final, firstReturned, secondReturned, filled,
    unlinked, untouched unlinked⟩

end OrderBook
