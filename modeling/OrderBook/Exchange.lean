import OrderBook.CrossedOrder
import OrderBook.SmartOrderBook

/-!
# The exchange behind the streams

The book is fed by an exchange that is assumed to handle limit orders by price and
time, to publish the messages of each of its three streams in order, and to send a
snapshot after every event that changes its L2 view.  This is that exchange, with
nothing of the book in it: each side is one list of orders, the next one to trade
first.
-/

namespace OrderBook

variable {P : Type} [LinearOrder P]

/-- The resting orders of each side, the next one to trade first. -/
structure Exchange (P : Type) where
  orders : Bool → List (Order P)

/-- One execution: the resting order, what it gives, and the orders of its side that are
left. -/
structure Execution (P : Type) where
  resting : Order P
  quantity : ℤ
  left : List (Order P)

/-- The trade that the exchange publishes. -/
def Execution.trade (execution : Execution P) : TradeMessage P :=
  ⟨execution.quantity, execution.resting.price⟩

/-- The execution as an event of the resting order. -/
def Execution.event (isSell : Bool) (execution : Execution P) : OrderInfo P :=
  ⟨.exec, execution.resting.odid, isSell, execution.quantity, execution.resting.price⟩

/-- What an incoming order executes on the side `isSell`, one order after the other. -/
def sweep (isSell : Bool) (price : P) : ℤ → List (Order P) → List (Execution P)
  | _, [] => []
  | qty, first :: others =>
      if qty ≤ 0 ∨ ¬ BookSide.Crosses isSell price first.price then []
      else if qty < first.getRemainingQuantity then [⟨first, qty, first.fill qty :: others⟩]
      else ⟨first, first.getRemainingQuantity, others⟩ ::
        sweep isSell price (qty - first.getRemainingQuantity) others

/-- A new order stands behind the orders of its price. -/
def enqueue (isSell : Bool) (order : Order P) (orders : List (Order P)) : List (Order P) :=
  (orders.filter fun other => ¬ PriceComparator isSell order.price other.price) ++
    order :: orders.filter fun other => PriceComparator isSell order.price other.price

/-- The L2 view of orders listed by price. -/
def levelsOf : List (Order P) → L2SnapshotSide P
  | [] => []
  | order :: orders =>
      match levelsOf orders with
      | [] => [⟨order.price, order.getRemainingQuantity⟩]
      | level :: levels =>
          if level.price = order.price then
            ⟨level.price, order.getRemainingQuantity + level.quantity⟩ :: levels
          else ⟨order.price, order.getRemainingQuantity⟩ :: level :: levels

/-! ### Executions -/

/-- The executions of an incoming order are the pieces that fill it along the orders it
crosses. -/
theorem sweep_eq {isSell : Bool} {price : P} {crossing beyond : List (Order P)} {qty : ℤ}
    (nonneg : 0 ≤ qty) (remain : AllRemain crossing)
    (crosses : ∀ order ∈ crossing, BookSide.Crosses isSell price order.price)
    (stops : ∀ order ∈ beyond, ¬ BookSide.Crosses isSell price order.price) :
    (sweep isSell price qty (crossing ++ beyond)).map
        (fun execution => (execution.resting, execution.quantity)) = fills qty crossing ∧
      ((sweep isSell price qty (crossing ++ beyond)).map Execution.left).getLastD
        (crossing ++ beyond) = fillFront qty crossing ++ beyond := by
  induction crossing generalizing qty with
  | nil =>
      cases beyond with
      | nil => exact ⟨rfl, rfl⟩
      | cons first others =>
          have stop : sweep isSell price qty ([] ++ first :: others) = [] :=
            if_pos (Or.inr (stops first List.mem_cons_self))
          rw [stop]
          exact ⟨rfl, rfl⟩
  | cons first crossing ih =>
      have firstPos := remain.head
      rw [List.cons_append, sweep]
      rcases Int.lt_or_eq_of_le nonneg with pos | rfl
      · rw [if_neg (by simp [crosses first List.mem_cons_self, pos])]
        rw [fills_cons first crossing pos.ne']
        by_cases short : qty < first.getRemainingQuantity
        · rw [if_pos short, min_eq_left short.le, sub_self, fills_zero]
          refine ⟨rfl, ?_⟩
          simp [fillFront, QueueFill.remaining, not_le.mpr short]
        · have covers : first.getRemainingQuantity ≤ qty := not_lt.mp short
          obtain ⟨pieces, left⟩ := ih (sub_nonneg.mpr covers) remain.tail
            fun order mem => crosses order (List.mem_cons_of_mem _ mem)
          rw [if_neg short, min_eq_right covers, List.map_cons, List.map_cons, pieces,
            List.getLastD_cons, left]
          refine ⟨rfl, ?_⟩
          simp [fillFront, QueueFill.remaining, covers]
      · rw [if_pos (Or.inl (le_refl 0)), fills_zero, fillFront_zero remain]
        exact ⟨rfl, rfl⟩

theorem sweep_remain {isSell : Bool} {price : P} {orders : List (Order P)} {qty : ℤ}
    (remain : AllRemain orders) :
    ∀ execution ∈ sweep isSell price qty orders, AllRemain execution.left := by
  induction orders generalizing qty with
  | nil => simp [sweep]
  | cons first others ih =>
      intro execution mem
      rw [sweep] at mem
      split at mem
      · cases mem
      · split at mem
        · next within =>
            obtain rfl := List.mem_singleton.mp mem
            refine List.forall_mem_cons.mpr ⟨?_, remain.tail⟩
            rw [Order.remaining_fill]
            omega
        · rcases List.mem_cons.mp mem with rfl | later
          · exact remain.tail
          · exact ih remain.tail execution later

/-! ### Views -/

theorem exists_price_of_mem_levelsOf {orders : List (Order P)} {level : L2PriceLevel P}
    (mem : level ∈ levelsOf orders) : ∃ order ∈ orders, order.price = level.price := by
  induction orders generalizing level with
  | nil => cases mem
  | cons order orders ih =>
      cases viewEq : levelsOf orders with
      | nil =>
          simp only [levelsOf, viewEq, List.mem_singleton] at mem
          exact ⟨order, List.mem_cons_self, by rw [mem]⟩
      | cons first levels =>
          rw [viewEq] at ih
          have later (other : L2PriceLevel P) (otherMem : other ∈ first :: levels) :
              ∃ found ∈ order :: orders, found.price = other.price := by
            obtain ⟨found, foundMem, priceEq⟩ := ih otherMem
            exact ⟨found, List.mem_cons_of_mem _ foundMem, priceEq⟩
          simp only [levelsOf, viewEq] at mem
          split at mem
          · rcases List.mem_cons.mp mem with rfl | inLevels
            · exact later first List.mem_cons_self
            · exact later _ (List.mem_cons_of_mem _ inLevels)
          · rcases List.mem_cons.mp mem with rfl | inLevels
            · exact ⟨order, List.mem_cons_self, rfl⟩
            · exact later _ inLevels

theorem levelsOf_pos {orders : List (Order P)} (remain : AllRemain orders) :
    ∀ level ∈ levelsOf orders, 0 < level.quantity := by
  induction orders with
  | nil => simp [levelsOf]
  | cons order orders ih =>
      have later := ih remain.tail
      have first := remain.head
      rw [levelsOf]
      split
      · simpa using first
      · next level levels viewEq =>
          rw [viewEq, List.forall_mem_cons] at later
          split
          · exact List.forall_mem_cons.mpr ⟨add_pos first later.1, later.2⟩
          · exact List.forall_mem_cons.mpr ⟨first, List.forall_mem_cons.mpr later⟩

/-- The orders of one price show as one level. -/
theorem levelsOf_append {key : P} {orders rest : List (Order P)} (some : orders ≠ [])
    (here : ∀ order ∈ orders, order.price = key)
    (elsewhere : ∀ order ∈ rest, order.price ≠ key) :
    levelsOf (orders ++ rest) = ⟨key, totalRemaining orders⟩ :: levelsOf rest := by
  induction orders with
  | nil => exact absurd rfl some
  | cons order orders ih =>
      obtain ⟨rfl, others⟩ := List.forall_mem_cons.mp here
      rw [List.cons_append, levelsOf]
      cases orders with
      | nil =>
          rw [List.nil_append]
          cases viewEq : levelsOf rest with
          | nil => simp [totalRemaining]
          | cons level levels =>
              have different : level.price ≠ order.price := by
                obtain ⟨found, foundMem, priceEq⟩ :=
                  exists_price_of_mem_levelsOf (viewEq ▸ List.mem_cons_self : level ∈ levelsOf rest)
                rw [← priceEq]
                exact elsewhere found foundMem
              simp [different, totalRemaining]
      | cons second orders =>
          rw [ih (List.cons_ne_nil _ _) others]
          simp [totalRemaining]

/-- Another quantity at the first price. -/
theorem viewWith_first {key : P} {rest : List (Order P)}
    (elsewhere : ∀ order ∈ rest, order.price ≠ key) (old quantity : ℤ) :
    viewWith (⟨key, old⟩ :: levelsOf rest) key quantity = ⟨key, quantity⟩ :: levelsOf rest := by
  have unchanged : ((levelsOf rest).map fun level =>
      if level.price = key then (⟨key, quantity⟩ : L2PriceLevel P) else level) =
        levelsOf rest := by
    nth_rewrite 2 [← List.map_id (levelsOf rest)]
    apply List.map_congr_left
    intro level mem
    obtain ⟨order, orderMem, priceEq⟩ := exists_price_of_mem_levelsOf mem
    exact if_neg (priceEq ▸ elsewhere order orderMem)
  rw [viewWith, List.map_cons, unchanged, if_pos rfl]

/-- A level of a map, with its orders and its quantity as they must be. -/
theorem levelsOf_flatMap (isSell : Bool) {entries : List (P × L3PriceLevel P)}
    (fits : ∀ entry ∈ entries, entry.2.Linked isSell entry.1 ∧
      entry.2.quantity = totalRemaining entry.2.orders)
    (distinct : entries.Pairwise fun first second => first.1 ≠ second.1) :
    levelsOf (entries.flatMap fun entry => entry.2.orders) =
      entries.map fun entry => ⟨entry.1, entry.2.quantity⟩ := by
  induction entries with
  | nil => rfl
  | cons entry entries ih =>
      obtain ⟨⟨linked, counted⟩, others⟩ := List.forall_mem_cons.mp fits
      obtain ⟨different, laterDistinct⟩ := List.pairwise_cons.mp distinct
      rw [List.flatMap_cons, List.map_cons, ← ih others laterDistinct, counted]
      apply levelsOf_append linked.nonempty linked.order_price
      intro order mem
      obtain ⟨other, otherMem, orderMem⟩ := List.mem_flatMap.mp mem
      rw [(others other otherMem).1.order_price order orderMem]
      exact (different other otherMem).symm

namespace Exchange

def empty : Exchange P := ⟨fun _ => []⟩

def setSide (exchange : Exchange P) (isSell : Bool) (orders : List (Order P)) : Exchange P :=
  ⟨Function.update exchange.orders isSell orders⟩

/-- The snapshot that the exchange publishes. -/
def view (exchange : Exchange P) : SnapshotMessage P :=
  ⟨levelsOf (exchange.orders false), levelsOf (exchange.orders true)⟩

/-- The executions of an incoming order. -/
def executions (exchange : Exchange P) (msg : OrderMessage P) : List (Execution P) :=
  sweep (!msg.isSell) msg.price msg.quantity (exchange.orders (!msg.isSell))

/-- What an incoming order does not execute. -/
def unexecuted (exchange : Exchange P) (msg : OrderMessage P) : ℤ :=
  msg.quantity - ((exchange.executions msg).map Execution.quantity).sum

/-- The exchange after the executions of an incoming order. -/
def executed (exchange : Exchange P) (msg : OrderMessage P) : Exchange P :=
  exchange.setSide (!msg.isSell)
    (((exchange.executions msg).map Execution.left).getLastD (exchange.orders (!msg.isSell)))

/-- An incoming order is executed and what it does not execute rests. -/
def place (exchange : Exchange P) (msg : OrderMessage P) : Exchange P :=
  if exchange.unexecuted msg = 0 then exchange.executed msg
  else (exchange.executed msg).setSide msg.isSell
    (enqueue msg.isSell (msg.toOrder.fill (msg.quantity - exchange.unexecuted msg))
      (exchange.orders msg.isSell))

def withdraw (exchange : Exchange P) (isSell : Bool) (id : ℤ) : Exchange P :=
  exchange.setSide isSell ((exchange.orders isSell).filter fun order => order.odid ≠ id)

/-- A new order that is filled by what it meets, or executes nothing and rests. -/
def Placeable (exchange : Exchange P) (msg : OrderMessage P) : Prop :=
  0 < msg.quantity ∧ (∀ isSell, msg.id ∉ ids (exchange.orders isSell)) ∧
    (exchange.unexecuted msg = 0 ∨ exchange.executions msg = [])

/-- What the events of an incoming order are. -/
def placeEvents (exchange : Exchange P) (msg : OrderMessage P) : OrderInfoVec P :=
  (exchange.executions msg).map (Execution.event (!msg.isSell)) ++
    if exchange.unexecuted msg = 0 then []
    else [⟨.add, msg.id, msg.isSell, exchange.unexecuted msg, msg.price⟩]

/-- The snapshots of an incoming order: one after each execution, and one when it rests. -/
def placeSnapshots (exchange : Exchange P) (msg : OrderMessage P) : List (SnapshotMessage P) :=
  ((exchange.executions msg).map fun execution =>
      (exchange.setSide (!msg.isSell) execution.left).view) ++
    if exchange.unexecuted msg = 0 then [] else [(exchange.place msg).view]

/-- What members do at the exchange. -/
inductive Action (P : Type) where
  | place (msg : OrderMessage P)
  | withdraw (order : Order P)
  | replace (msg : OrderMessage P)
  deriving DecidableEq, Repr

/-- The message of the order stream. -/
def Action.message : Action P → Message P
  | .place msg => .add msg
  | .withdraw order =>
      .cancel ⟨.cancel, order.odid, order.isSell, order.getRemainingQuantity, order.price⟩
  | .replace msg => .modify msg

/-- The exchange that an order meets: a replaced order is withdrawn first. -/
def before (exchange : Exchange P) : Action P → Exchange P
  | .place _ => exchange
  | .withdraw order => exchange.withdraw order.isSell order.odid
  | .replace msg => exchange.withdraw msg.isSell msg.id

def act (exchange : Exchange P) (action : Action P) : Exchange P :=
  match action with
  | .place msg | .replace msg => (exchange.before action).place msg
  | .withdraw _ => exchange.before action

/-- The trade stream of an action. -/
def trades (exchange : Exchange P) (action : Action P) : List (TradeMessage P) :=
  match action with
  | .place msg | .replace msg => ((exchange.before action).executions msg).map Execution.trade
  | .withdraw _ => []

/-- The snapshot stream of an action.  A replaced order leaves and comes back within one
event, so only its executions and its rest show. -/
def snapshots (exchange : Exchange P) (action : Action P) : List (SnapshotMessage P) :=
  match action with
  | .place msg | .replace msg => (exchange.before action).placeSnapshots msg
  | .withdraw _ => [(exchange.act action).view]

/-- The order events of an action: a replaced order is one event. -/
def events (exchange : Exchange P) : Action P → OrderInfoVec P
  | .place msg => exchange.placeEvents msg
  | .withdraw order =>
      [⟨.cancel, order.odid, order.isSell, order.getRemainingQuantity, order.price⟩]
  | .replace msg => [⟨.modif, msg.id, msg.isSell, msg.quantity, msg.price⟩]

/-- Actions on orders that rest, with new orders that are filled or let rest. -/
def Allows (exchange : Exchange P) : Action P → Prop
  | .place msg => exchange.Placeable msg
  | .withdraw order => order ∈ exchange.orders order.isSell
  | .replace msg => msg.id ∈ ids (exchange.orders msg.isSell) ∧
      (exchange.withdraw msg.isSell msg.id).Placeable msg

instance (exchange : Exchange P) (msg : OrderMessage P) : Decidable (exchange.Placeable msg) :=
  inferInstanceAs (Decidable (_ ∧ _ ∧ _))

instance (exchange : Exchange P) : DecidablePred exchange.Allows
  | .place msg => inferInstanceAs (Decidable (exchange.Placeable msg))
  | .withdraw order => inferInstanceAs (Decidable (order ∈ exchange.orders order.isSell))
  | .replace _ => inferInstanceAs (Decidable (_ ∧ _))

def actAll (exchange : Exchange P) (actions : List (Action P)) : Exchange P :=
  actions.foldl act exchange

/-- The order events of a run of actions. -/
def eventsOf : Exchange P → List (Action P) → OrderInfoVec P
  | _, [] => []
  | exchange, action :: actions =>
      exchange.events action ++ (exchange.act action).eventsOf actions

end Exchange

/-! ### Feeds -/

/-- The messages of the other two streams, each stream in order. -/
inductive Interleaves :
    List (TradeMessage P) → List (SnapshotMessage P) → List (Message P) → Prop
  | nil : Interleaves [] [] []
  | trade {trade : TradeMessage P} {trades : List (TradeMessage P)}
      {snapshots : List (SnapshotMessage P)} {late : List (Message P)} :
      Interleaves trades snapshots late →
        Interleaves (trade :: trades) snapshots (.trade trade :: late)
  | snapshot {snapshot : SnapshotMessage P} {trades : List (TradeMessage P)}
      {snapshots : List (SnapshotMessage P)} {late : List (Message P)} :
      Interleaves trades snapshots late →
        Interleaves trades (snapshot :: snapshots) (.snapshot snapshot :: late)

/-- What the exchange feeds into the book while members act: the order stream leads, and the
trades and the snapshots of an action come in any order before the next action. -/
inductive Feed : Exchange P → List (Exchange.Action P) → List (Message P) → Prop
  | nil {exchange : Exchange P} : Feed exchange [] []
  | cons {exchange : Exchange P} {action : Exchange.Action P}
      {actions : List (Exchange.Action P)} (late : List (Message P)) {messages : List (Message P)} :
      exchange.Allows action →
        Interleaves (exchange.trades action) (exchange.snapshots action) late →
          Feed (exchange.act action) actions messages →
            Feed exchange (action :: actions) (action.message :: (late ++ messages))

end OrderBook
