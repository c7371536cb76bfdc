import OrderBook.InputRun
import OrderBook.MessageHandlers

/-!
# Runs of a side and of the book

A side is driven by calls of its operations and the book by messages.  Every
call that returns keeps the representation invariant, so it holds after every
run from the empty state.
-/

namespace OrderBook

open FueledLoop InputRun

variable {P : Type} [LinearOrder P] {slack : Set ℤ}

/-! ### Messages -/

/-- Every quantity of a message is positive. -/
def Message.Positive : Message P → Prop
  | .add msg => 0 < msg.quantity
  | .cancel msg => 0 < msg.quantity
  | .modify msg => 0 < msg.quantity
  | .trade msg => 0 < msg.quantity
  | .snapshot msg => ∀ isSell, ∀ l2Level ∈ msg.levels isSell, 0 < l2Level.quantity

instance (message : Message P) : Decidable message.Positive :=
  match message with
  | .add msg => inferInstanceAs (Decidable (0 < msg.quantity))
  | .cancel msg => inferInstanceAs (Decidable (0 < msg.quantity))
  | .modify msg => inferInstanceAs (Decidable (0 < msg.quantity))
  | .trade msg => inferInstanceAs (Decidable (0 < msg.quantity))
  | .snapshot msg => inferInstanceAs
      (Decidable (∀ isSell, ∀ l2Level ∈ msg.levels isSell, 0 < l2Level.quantity))

/-- Each side of a snapshot shows a price at most once. -/
def Message.DistinctPrices : Message P → Prop
  | .snapshot msg => ∀ isSell, ((msg.levels isSell).map L2PriceLevel.price).Nodup
  | _ => True

instance (message : Message P) : Decidable message.DistinctPrices :=
  match message with
  | .snapshot msg => inferInstanceAs
      (Decidable (∀ isSell, ((msg.levels isSell).map L2PriceLevel.price).Nodup))
  | .add _ | .cancel _ | .modify _ | .trade _ => inferInstanceAs (Decidable True)

/-- The calls that drive a side. -/
inductive SideCall (P : Type) where
  | addOrder (order : Order P)
  | removeOrder (id : ℤ)
  | modifyOrder (odid quantity : ℤ) (price : P)
  | processCrossedOrder (order : Order P)
  | processOrderCancel (id quantity : ℤ) (price : P)
  | processTrade (trade : Trade P)
  | processL2Snapshot (snapshot : L2SnapshotSide P)
  deriving DecidableEq, Repr

/-- What the callers of a side promise. -/
def SideCall.Allowed {isSell : Bool} (side : BookSide P isSell) : SideCall P → Prop
  | .addOrder order => order.isSell = isSell ∧ order.IsOpen
  | .removeOrder _ => True
  | .modifyOrder odid quantity _ =>
      ∀ order, side.getOrder? odid = some order → order.filledQuantity < quantity
  | .processCrossedOrder order => 0 < order.quantity
  | .processOrderCancel _ quantity _ => 0 < quantity
  | .processTrade trade => 0 < trade.quantity
  | .processL2Snapshot snapshot =>
      (∀ l2Level ∈ snapshot, 0 < l2Level.quantity) ∧
        (snapshot.map L2PriceLevel.price).Nodup

variable [Zero P]

/-- The side after a call. -/
def BookSide.call {isSell : Bool} (fuel : Nat) (side : BookSide P isSell) :
    SideCall P → Except Halt (BookSide P isSell)
  | .addOrder order => side.addOrder order
  | .removeOrder id => return side.removeOrder id
  | .modifyOrder odid quantity price => side.modifyOrder odid quantity price
  | .processCrossedOrder order => do
      let (next, _, _) ← side.processCrossedOrder fuel order
      return next
  | .processOrderCancel id quantity price =>
      return (side.processOrderCancel id quantity price).1
  | .processTrade trade => do
      let (next, _) ← side.processTrade fuel trade
      return next
  | .processL2Snapshot snapshot => do
      let (next, _) ← side.processL2Snapshot snapshot
      return next

/-- An allowed call that returns. -/
def BookSide.CallStep {isSell : Bool} (side : BookSide P isSell) (sideCall : SideCall P)
    (next : BookSide P isSell) : Prop :=
  sideCall.Allowed side ∧ Returns (fun fuel => side.call fuel sideCall) next

/-- A message whose processing returns. -/
def SmartOrderBook.MessageStep (book : SmartOrderBook P) (message : Message P)
    (next : SmartOrderBook P) : Prop :=
  ∃ events, Returns (fun fuel => book.process fuel message) (next, events)

/-! ### Every step keeps the invariant -/

namespace BookSide

variable {isSell : Bool} {side next : BookSide P isSell}

theorem Valid.processCrossedOrder (valid : side.Valid slack) {order filled : Order P}
    {events : OrderInfoVec P}
    (returns : Returns (fun fuel => side.processCrossedOrder fuel order)
      (next, filled, events)) : next.Valid slack := by
  have opposite : order.isSell ≠ isSell := by
    obtain ⟨fuel, returned⟩ := returns
    obtain ⟨_, checked, _⟩ := bind_eq_ok.mp returned
    exact assertThat_eq_ok.mp checked
  by_cases nonneg : 0 ≤ order.getRemainingQuantity
  · obtain ⟨final, finalEvents, finalReturns, outcome⟩ :=
      valid.processCrossedOrder_returns opposite nonneg
    have same := Returns.unique (processCrossedOrder_monotone side order) returns finalReturns
    cases same
    exact outcome.valid
  · have same := Returns.unique (processCrossedOrder_monotone side order) returns
      (valid.linked.processCrossedOrder_idle opposite (not_le.mp nonneg).le)
    cases same
    exact valid

theorem call_monotone (side : BookSide P isSell) (sideCall : SideCall P) :
    FuelMonotone fun fuel => side.call fuel sideCall := by
  cases sideCall with
  | addOrder order => exact FuelMonotone.const _
  | removeOrder id => exact FuelMonotone.const _
  | modifyOrder odid quantity price => exact FuelMonotone.const _
  | processCrossedOrder order =>
      exact (processCrossedOrder_monotone side order).bind fun _ => FuelMonotone.const _
  | processOrderCancel id quantity price => exact FuelMonotone.const _
  | processTrade trade =>
      exact (processTrade_monotone side trade).bind fun _ => FuelMonotone.const _
  | processL2Snapshot snapshot => exact FuelMonotone.const _

/-- A call has one result. -/
theorem CallStep.unique {first second : BookSide P isSell} {sideCall : SideCall P}
    (stepped : side.CallStep sideCall first) (otherStepped : side.CallStep sideCall second) :
    first = second :=
  Returns.unique (call_monotone side sideCall) stepped.2 otherStepped.2

theorem Valid.callStep (valid : side.Valid slack) (zeroMem : 0 ∈ slack) {sideCall : SideCall P}
    (stepped : side.CallStep sideCall next) : next.Valid slack := by
  obtain ⟨allowed, fuel, returned⟩ := stepped
  cases sideCall with
  | addOrder order => exact valid.addOrder zeroMem allowed.2 returned
  | removeOrder id =>
      cases returned
      exact valid.removeOrder id
  | modifyOrder odid quantity price =>
      exact valid.modifyOrder zeroMem (fun {order} found => allowed order found) returned
  | processCrossedOrder order =>
      obtain ⟨⟨final, filled, events⟩, crossed, finalEq⟩ := bind_eq_ok.mp returned
      cases finalEq
      exact valid.processCrossedOrder ⟨fuel, crossed⟩
  | processOrderCancel id quantity price =>
      cases returned
      exact valid.processOrderCancel id (le_of_lt allowed) price
  | processTrade trade =>
      obtain ⟨⟨final, events⟩, traded, finalEq⟩ := bind_eq_ok.mp returned
      cases finalEq
      obtain ⟨other, otherEvents, otherReturns, outcome⟩ :=
        valid.processTrade_returns trade (le_of_lt allowed)
      have same := Returns.unique (processTrade_monotone side trade) ⟨fuel, traded⟩ otherReturns
      cases same
      exact outcome.valid
  | processL2Snapshot snapshot =>
      obtain ⟨⟨final, events⟩, reconciled, finalEq⟩ := bind_eq_ok.mp returned
      cases finalEq
      obtain ⟨other, otherEvents, otherReturned, otherValid⟩ :=
        valid.processL2Snapshot_distinct zeroMem allowed.1 allowed.2
      rw [reconciled] at otherReturned
      cases otherReturned
      exact otherValid

end BookSide

namespace SmartOrderBook

variable {book next : SmartOrderBook P}

theorem Valid.processSnapshotMessage (valid : book.Valid slack) (zeroMem : 0 ∈ slack)
    {msg : SnapshotMessage P}
    (positive : ∀ isSell, ∀ l2Level ∈ msg.levels isSell, 0 < l2Level.quantity)
    (fits : (∀ isSell, ((msg.levels isSell).map L2PriceLevel.price).Nodup) ∨
      BookSide.Widens slack) {events : OrderInfoVec P}
    (returned : book.processSnapshotMessage msg = .ok (next, events)) : next.Valid slack := by
  obtain ⟨sideEvents, -, sides⟩ := processSnapshotMessage_eq_ok.mp returned
  intro isSell
  rcases fits with distinct | widens
  · obtain ⟨final, finalEvents, finalReturned, finalValid⟩ :=
      (valid isSell).processL2Snapshot_distinct zeroMem (positive isSell) (distinct isSell)
    rw [sides isSell] at finalReturned
    cases finalReturned
    exact finalValid
  · exact (valid isSell).processL2Snapshot zeroMem widens (positive isSell) (sides isSell)

theorem processOrderModifyMessage_monotone (book : SmartOrderBook P) (msg : OrderMessage P) :
    FuelMonotone fun fuel => book.processOrderModifyMessage fuel msg := by
  unfold processOrderModifyMessage
  split
  · exact FuelMonotone.const _
  · exact (processOrderAddMessage_monotone _ _).bind fun _ => FuelMonotone.const _

theorem process_monotone (book : SmartOrderBook P) (message : Message P) :
    FuelMonotone fun fuel => book.process fuel message := by
  cases message with
  | add msg => exact processOrderAddMessage_monotone book msg
  | cancel msg => exact FuelMonotone.const _
  | modify msg => exact processOrderModifyMessage_monotone book msg
  | trade msg => exact processTradeMessage_monotone book msg
  | snapshot msg => exact FuelMonotone.const _

/-- A message has one outcome. -/
theorem MessageStep.unique {first second : SmartOrderBook P} {message : Message P}
    (stepped : book.MessageStep message first) (otherStepped : book.MessageStep message second) :
    first = second := by
  obtain ⟨events, returns⟩ := stepped
  obtain ⟨otherEvents, otherReturns⟩ := otherStepped
  exact congrArg Prod.fst (Returns.unique (process_monotone book message) returns otherReturns)

theorem MessageStep.cancel_eq {msg : OrderMessage P}
    (stepped : book.MessageStep (.cancel msg) next) :
    next = (book.processOrderCancelMessage msg).1 := by
  obtain ⟨events, fuel, returned⟩ := stepped
  exact (congrArg Prod.fst (Except.ok.inj returned)).symm

/-- Modifying an order that does not rest does nothing, and else it is a cancel and an add. -/
theorem MessageStep.modify_cases {msg : OrderMessage P}
    (stepped : book.MessageStep (.modify msg) next) :
    next = book ∨ ∃ order, book.getOrder? msg.id = some order ∧
      (book.processOrderCancelMessage ⟨.cancel, msg.id, msg.isSell, order.getRemainingQuantity,
        msg.price⟩).1.MessageStep (.add ⟨.add, msg.id, msg.isSell, msg.quantity, msg.price⟩)
          next := by
  obtain ⟨events, returns⟩ := stepped
  cases found : book.getOrder? msg.id with
  | none => exact .inl (modify_absent found returns)
  | some order => exact .inr ⟨order, rfl, modify_returns found returns⟩

/-- Every message keeps the invariant: exactly when snapshots show distinct prices,
and up to a slack that may widen otherwise. -/
theorem Valid.messageStep (valid : book.Valid slack) (zeroMem : 0 ∈ slack)
    {message : Message P} (positive : message.Positive)
    (fits : message.DistinctPrices ∨ BookSide.Widens slack)
    (stepped : book.MessageStep message next) : next.Valid slack := by
  cases message with
  | add msg =>
      obtain ⟨events, returns⟩ := stepped
      exact valid.processOrderAddMessage zeroMem positive returns
  | cancel msg =>
      rw [stepped.cancel_eq]
      exact valid.processOrderCancelMessage (le_of_lt positive)
  | modify msg =>
      rcases stepped.modify_cases with rfl | ⟨order, found, addEvents, added⟩
      · exact valid
      · have remains := (valid.getOrder?_isOpen found).remaining_pos
        have cancelled : (book.processOrderCancelMessage ⟨.cancel, msg.id, msg.isSell,
            order.getRemainingQuantity, msg.price⟩).1.Valid slack :=
          valid.processOrderCancelMessage remains.le
        exact cancelled.processOrderAddMessage zeroMem positive added
  | trade msg =>
      obtain ⟨events, returns⟩ := stepped
      obtain ⟨sideEvents, -, outcome⟩ := valid.tradeOutcome (le_of_lt positive) returns
      exact fun isSell => (outcome isSell).valid
  | snapshot msg =>
      obtain ⟨events, fuel, returned⟩ := stepped
      exact valid.processSnapshotMessage zeroMem positive fits returned

end SmartOrderBook

/-! ### Runs -/

/-- Process messages one after another. -/
def SmartOrderBook.processAll (fuel : Nat) (book : SmartOrderBook P)
    (messages : List (Message P)) : Except Halt (SmartOrderBook P) :=
  messages.foldlM (fun state message => Prod.fst <$> state.process fuel message) book

theorem SmartOrderBook.run_of_processAll (fuel : Nat) {book final : SmartOrderBook P}
    {messages : List (Message P)} (processed : book.processAll fuel messages = .ok final) :
    Run SmartOrderBook.MessageStep book messages final := by
  induction messages generalizing book with
  | nil =>
      cases processed
      exact Run.start
  | cons message messages ih =>
      rw [processAll, List.foldlM_cons] at processed
      obtain ⟨next, stepped, later⟩ := bind_eq_ok.mp processed
      cases returned : book.process fuel message with
      | error halt =>
          rw [returned] at stepped
          cases stepped
      | ok result =>
          rw [returned] at stepped
          cases stepped
          exact Run.cons ⟨result.2, fuel, returned⟩ (ih later)

/-- A state of the book that messages with positive quantities lead to. -/
def SmartOrderBook.Reachable (book : SmartOrderBook P) : Prop :=
  ∃ messages, Run SmartOrderBook.MessageStep .empty messages book ∧
    ∀ message ∈ messages, message.Positive

/-- Without a promise on the prices of snapshots, a level may hold more than its
quantity field says, never less. -/
theorem SmartOrderBook.Reachable.valid {book : SmartOrderBook P} (reachable : book.Reachable) :
    book.Valid {gap | 0 ≤ gap} := by
  obtain ⟨messages, run, positive⟩ := reachable
  exact run.invariant Message.Positive _ SmartOrderBook.valid_empty
    (fun positive valid stepped =>
      valid.messageStep BookSide.zero_mem_nonneg positive (Or.inr BookSide.widens_nonneg)
        stepped) positive

theorem SmartOrderBook.valid_of_messages {messages : List (Message P)}
    {book : SmartOrderBook P} (run : Run SmartOrderBook.MessageStep .empty messages book)
    (allowed : ∀ message ∈ messages, message.Positive ∧ message.DistinctPrices) :
    book.Valid {0} :=
  run.invariant (fun message => message.Positive ∧ message.DistinctPrices) _
    SmartOrderBook.valid_empty
    (fun allowed valid stepped =>
      valid.messageStep (Set.mem_singleton 0) allowed.1 (Or.inl allowed.2) stepped)
    allowed

/-- The representation invariant holds after every run of a side and of the book. -/
theorem repInvariant_of_run :
    (∀ (isSell : Bool) (calls : List (SideCall P)) (side : BookSide P isSell),
      Run BookSide.CallStep .empty calls side → side.RepInvariant) ∧
    ∀ (messages : List (Message P)) (book : SmartOrderBook P),
      Run SmartOrderBook.MessageStep .empty messages book →
      (∀ message ∈ messages, message.Positive ∧ message.DistinctPrices) →
      ∀ isSell, (book.sides isSell).RepInvariant := by
  constructor
  · intro isSell calls side run
    rw [BookSide.repInvariant_iff_valid]
    exact run.invariant (fun _ => True) _ BookSide.valid_empty
      (fun _ valid stepped => valid.callStep (Set.mem_singleton 0) stepped)
      (fun _ _ => trivial)
  · intro messages book run allowed isSell
    rw [BookSide.repInvariant_iff_valid]
    exact run.invariant (fun message => message.Positive ∧ message.DistinctPrices) _
      SmartOrderBook.valid_empty
      (fun allowed valid stepped =>
        valid.messageStep (Set.mem_singleton 0) allowed.1 (Or.inl allowed.2) stepped)
      allowed isSell

/-- A bid that crosses one of two asks, and a snapshot on top of it. -/
def sampleMessages : List (Message ℤ) :=
  [.add ⟨.add, 1, true, 10, 100⟩, .add ⟨.add, 2, true, 5, 101⟩,
    .add ⟨.add, 3, false, 12, 100⟩, .trade ⟨10, 100⟩, .snapshot ⟨[⟨100, 1⟩], []⟩]

theorem repInvariant_of_sampleMessages :
    (∃ side : BookSide ℤ true,
      Run BookSide.CallStep .empty
        [.addOrder ⟨1, true, 10, 100, 0⟩, .processTrade ⟨4, 100⟩] side ∧
      side.RepInvariant) ∧
    ∃ book, Run SmartOrderBook.MessageStep .empty sampleMessages book ∧
      ∀ isSell, (book.sides isSell).RepInvariant := by
  constructor
  · have run : ∃ side : BookSide ℤ true, Run BookSide.CallStep .empty
        [.addOrder ⟨1, true, 10, 100, 0⟩, .processTrade ⟨4, 100⟩] side :=
      ⟨_, Run.cons ⟨⟨rfl, by decide, by decide⟩, 5, rfl⟩
        (Run.cons ⟨show (0 : ℤ) < 4 by decide, 5, rfl⟩ Run.start)⟩
    obtain ⟨side, run⟩ := run
    exact ⟨side, run, repInvariant_of_run.1 true _ side run⟩
  · have processed : ∃ book, SmartOrderBook.empty.processAll 9 sampleMessages = .ok book :=
      ⟨_, rfl⟩
    obtain ⟨book, processed⟩ := processed
    have run := SmartOrderBook.run_of_processAll 9 processed
    refine ⟨book, run, repInvariant_of_run.2 sampleMessages book run ?_⟩
    decide

end OrderBook
