import OrderBook.BookRuns

/-!
# Order ids

Ids come from the exchange, one for each `ADD` message, and from a counter that
starts at 100 in every reconciliation of every side.  Cancels, trades and the
removals of a reconciliation bring no id into the book.  As long as no invented
id meets a resting one, no id rests on both sides and no order is dropped by
`addOrder`.
-/

namespace OrderBook

open FueledLoop InputRun

variable {P : Type} [LinearOrder P] {slack : Set ℤ}

namespace BookSide

variable {isSell : Bool} {side next : BookSide P isSell}

/-- No id comes to rest. -/
def IdsWithin (next side : BookSide P isSell) : Prop :=
  ∀ id, next.existOrder id = true → side.existOrder id = true

theorem IdsWithin.of_orderMap (mapEq : next.orderMap = side.orderMap) : next.IdsWithin side := by
  intro id rests
  rwa [existOrder, ← mapEq]

omit [LinearOrder P] in
theorem mem_ids_fillFront {qty id : ℤ} {orders : List (Order P)} (nonneg : 0 ≤ qty)
    (mem : id ∈ ids (fillFront qty orders)) : id ∈ ids orders := by
  obtain ⟨order, orderMem, rfl⟩ := List.mem_map.mp mem
  obtain ⟨old, oldMem, taken, -, -, rfl⟩ := mem_fillFront nonneg orderMem
  exact List.mem_map.mpr ⟨old, oldMem, rfl⟩

theorem CrossOutcome.idsWithin (valid : side.Valid slack) {price : P} {qty : ℤ}
    (nonneg : 0 ≤ qty) {events : OrderInfoVec P}
    (outcome : CrossOutcome slack side price qty next events) : next.IdsWithin side := by
  intro id rests
  rw [outcome.valid.linked.existOrder_iff_resting, outcome.resting_eq] at rests
  rw [valid.linked.existOrder_iff_resting, restingOrders_eq side price]
  rw [ids, List.map_append, List.mem_append] at rests ⊢
  exact rests.imp_left (mem_ids_fillFront nonneg)

theorem TradeOutcome.idsWithin (valid : side.Valid slack) {trade : Trade P}
    {events : OrderInfoVec P} (outcome : TradeOutcome slack side trade next events) :
    next.IdsWithin side := by
  intro id rests
  obtain ⟨key, mem⟩ := outcome.valid.linked.existOrder_iff.mp rests
  refine valid.linked.existOrder_iff.mpr ⟨key, ?_⟩
  rw [ordersAt, outcome.levels_eq, find?_putOrders] at mem
  split at mem
  · next same =>
      subst same
      split at mem
      · cases mem
      · exact mem_ids_fillFront restQty_nonneg mem
  · rw [find?_retainedLevels] at mem
    split at mem
    · cases mem
    · exact mem

/-- The ids that a snapshot brings to a side: its levels with more quantity than the book
are numbered from 100 on. -/
def inventedIds (side : BookSide P isSell) (snapshot : L2SnapshotSide P) : List ℤ :=
  if side.l2SnapQueue = [] then
    (List.range (side.inventions snapshot).length).map fun index : ℕ => 100 + (index : ℤ)
  else []

theorem mem_inventedIds (idle : side.l2SnapQueue = []) {snapshot : L2SnapshotSide P} {id : ℤ} :
    id ∈ side.inventedIds snapshot ↔
      100 ≤ id ∧ id < 100 + (side.inventions snapshot).length := by
  rw [inventedIds, if_pos idle, List.mem_map]
  constructor
  · rintro ⟨index, mem, rfl⟩
    have := List.mem_range.mp mem
    omega
  · rintro ⟨low, high⟩
    exact ⟨(id - 100).toNat, List.mem_range.mpr (by omega), by omega⟩

variable [Zero P]

theorem removeOrder_idsWithin (side : BookSide P isSell) (id : ℤ) :
    (side.removeOrder id).IdsWithin side := by
  intro other rests
  unfold removeOrder at rests
  split at rests
  · exact rests
  · rw [existOrder, SortedMap.find?_erase] at rests
    split at rests
    · cases rests
    · exact rests

theorem Valid.processOrderCancel_idsWithin (valid : side.Valid slack) (id : ℤ) {quantity : ℤ}
    (nonneg : 0 ≤ quantity) (price : P) :
    (side.processOrderCancel id quantity price).1.IdsWithin side := by
  rw [processOrderCancel_eq valid.ledgers.remove_pos id nonneg price]
  split
  · exact removeOrder_idsWithin _ id
  · exact IdsWithin.of_orderMap rfl

/-- The ids after a snapshot are old or invented. -/
theorem Valid.existOrder_snapshot (valid : side.Valid slack) (zeroMem : 0 ∈ slack)
    {snapshot : L2SnapshotSide P} (positive : ∀ l2Level ∈ snapshot, 0 < l2Level.quantity)
    (distinct : (snapshot.map L2PriceLevel.price).Nodup) {events : OrderInfoVec P}
    (returned : side.processL2Snapshot snapshot = .ok (next, events)) {id : ℤ}
    (rests : next.existOrder id = true) :
    side.existOrder id = true ∨ id ∈ side.inventedIds snapshot := by
  by_cases idle : side.l2SnapQueue = []
  · rw [processL2Snapshot_reconciles idle, valid.reconcile_eq zeroMem positive distinct] at returned
    cases returned
    have compared := existOrder_of_fillGroups rests
    rw [BookSide.comparedSide, existOrder_inventAll] at compared
    exact compared.imp_right (mem_inventedIds idle).mpr
  · obtain ⟨queue, expected⟩ := processL2Snapshot_expecting idle snapshot
    rw [expected] at returned
    cases returned
    exact Or.inl rests

/-- The state of the first pass at a level for which an order is invented. -/
theorem Valid.firstPass_at (valid : side.Valid slack) (zeroMem : 0 ∈ slack)
    {front back : L2SnapshotSide P} {l2Level : L2PriceLevel P}
    (positive : ∀ other ∈ front ++ l2Level :: back, 0 < other.quantity)
    (distinct : ((front ++ l2Level :: back).map L2PriceLevel.price).Nodup)
    {state : ReconcileState P isSell}
    (passed : front.foldlM reconcileLevel ⟨side, [], [], 100⟩ = .ok state)
    (lacks : ∀ level, state.side.levels.find? l2Level.price = some level →
      level.quantity < l2Level.quantity) :
    state.side = side.inventAll 100 (side.inventions front) ∧
      state.fakeOrderId = 100 + (side.inventions front).length ∧
      (side.inventions front).length < (side.inventions (front ++ l2Level :: back)).length := by
  rw [List.map_append, List.nodup_append] at distinct
  have frontPositive : ∀ other ∈ front, 0 < other.quantity :=
    fun other mem => positive other (List.mem_append_left _ mem)
  rw [valid.firstPass_eq zeroMem frontPositive distinct.1] at passed
  cases passed
  refine ⟨rfl, rfl, ?_⟩
  have unchanged : (side.inventAll 100 (side.inventions front)).levels.find? l2Level.price =
      side.levels.find? l2Level.price := by
    refine find?_inventAll_of_ne ?_ 100
    intro piece mem same
    obtain ⟨other, otherMem, -, rfl⟩ := mem_inventions.mp mem
    exact distinct.2.2 _ (List.mem_map_of_mem otherMem) _ List.mem_cons_self same.symm
  have more : side.quantityAt l2Level.price < l2Level.quantity := by
    have pos := positive l2Level (by simp)
    cases found : side.levels.find? l2Level.price with
    | none => simpa [quantityAt, found] using pos
    | some level => simpa [quantityAt, found] using lacks level (unchanged.trans found)
  simp [inventions, more]

end BookSide

namespace SmartOrderBook

variable [Zero P] {book : SmartOrderBook P}

/-- The calls of `addOrder` while a message is processed, with the side as it is at the
call and the id of the order. -/
inductive AddOrderCall (book : SmartOrderBook P) :
    Message P → (isSell : Bool) → BookSide P isSell → ℤ → Prop
  | add {msg : OrderMessage P} {fuel : Nat} {own : BookSide P msg.isSell} {matched : ℤ}
      {uncrossed : SmartOrderBook P} {filled : Order P} {events : OrderInfoVec P} :
      (book.sides msg.isSell).matchPendingLiqAdd fuel msg.quantity msg.price =
        .ok (own, matched) →
      (msg.toOrder.fill matched).getRemainingQuantity ≠ 0 →
      (book.setSide msg.isSell own).uncross fuel msg (msg.toOrder.fill matched) =
        .ok (uncrossed, filled, events) →
      filled.getRemainingQuantity ≠ 0 →
      AddOrderCall book (.add msg) msg.isSell (uncrossed.sides msg.isSell) filled.odid
  | snapshot {msg : SnapshotMessage P} {isSell : Bool} {front back : L2SnapshotSide P}
      {l2Level : L2PriceLevel P} {state : BookSide.ReconcileState P isSell} :
      (book.sides isSell).l2SnapQueue = [] →
      msg.levels isSell = front ++ l2Level :: back →
      front.foldlM BookSide.reconcileLevel ⟨book.sides isSell, [], [], 100⟩ = .ok state →
      (∀ level, state.side.levels.find? l2Level.price = some level →
        level.quantity < l2Level.quantity) →
      AddOrderCall book (.snapshot msg) isSell state.side state.fakeOrderId

/-- An `ADD` message calls `addOrder` with its id, on a side with the same ids as before. -/
theorem Valid.call_of_add (valid : book.Valid slack) {msg : OrderMessage P}
    (pos : 0 < msg.quantity) {fuel : Nat} {own : BookSide P msg.isSell} {matched : ℤ}
    {uncrossed : SmartOrderBook P} {filled : Order P} {events : OrderInfoVec P}
    (absorbed : (book.sides msg.isSell).matchPendingLiqAdd fuel msg.quantity msg.price =
      .ok (own, matched))
    (crossed : (book.setSide msg.isSell own).uncross fuel msg (msg.toOrder.fill matched) =
      .ok (uncrossed, filled, events)) :
    (uncrossed.sides msg.isSell).orderMap = (book.sides msg.isSell).orderMap ∧
      filled.odid = msg.id := by
  obtain ⟨ownValid, -, matchedLe, ownEq⟩ :=
    (valid msg.isSell).matchPendingLiqAdd pos.le absorbed
  have bookValid : (book.setSide msg.isSell own).Valid slack :=
    forall_side msg.isSell (by simpa using ownValid) (by simpa using valid (!msg.isSell))
  have nonneg : 0 ≤ (msg.toOrder.fill matched).getRemainingQuantity := by
    rw [Order.remaining_fill, OrderMessage.toOrder, Order.remaining_new]
    omega
  obtain ⟨final, returns, -, ownAfter⟩ := bookValid.uncross_returns
    (show (msg.toOrder.fill matched).isSell = msg.isSell from rfl) rfl nonneg
  have same := Returns.unique (uncross_monotone _ _ _) ⟨fuel, crossed⟩ returns
  cases same
  refine ⟨?_, rfl⟩
  rw [ownAfter, sides_setSide_self, ownEq]
  rfl

end SmartOrderBook

/-! ### Runs with their ids -/

/-- The id that a message announces. -/
def Message.addIds : Message P → List ℤ
  | .add msg => [msg.id]
  | _ => []

/-- Everything but a modification. -/
def Message.NoModify : Message P → Prop
  | .modify _ => False
  | _ => True

instance (message : Message P) : Decidable message.NoModify :=
  match message with
  | .modify _ => inferInstanceAs (Decidable False)
  | .add _ | .cancel _ | .trade _ | .snapshot _ => inferInstanceAs (Decidable True)

/-- The ids that a message makes the book invent. -/
def SmartOrderBook.inventedIds (book : SmartOrderBook P) : Message P → List ℤ
  | .snapshot msg =>
      (book.sides false).inventedIds msg.bidLevels ++ (book.sides true).inventedIds msg.askLevels
  | _ => []

theorem SmartOrderBook.existOrder_eq_false {book : SmartOrderBook P} {id : ℤ} :
    book.existOrder id = false ↔ ∀ isSell, (book.sides isSell).existOrder id = false := by
  rw [existOrder, Bool.or_eq_false_iff]
  exact ⟨fun both => forall_side false both.1 both.2,
    fun both => ⟨both false, both true⟩⟩

/-- A book with the ids that `ADD` messages have announced and those it has invented. -/
structure History (P : Type) [LinearOrder P] where
  book : SmartOrderBook P
  added : List ℤ
  invented : List ℤ

namespace History

variable {history next : History P} {message : Message P}

def empty : History P := ⟨.empty, [], []⟩

/-- No invented id meets a resting one: an `ADD` message does not have the id of an
invented order that still rests, a snapshot invents no id that rests, and it invents
on one side only. -/
def Fits (history : History P) : Message P → Prop
  | .add msg => msg.id ∈ history.invented → history.book.existOrder msg.id = false
  | .snapshot msg =>
      (∀ id ∈ history.book.inventedIds (.snapshot msg), history.book.existOrder id = false) ∧
        ((history.book.sides false).inventedIds msg.bidLevels = [] ∨
          (history.book.sides true).inventedIds msg.askLevels = [])
  | _ => True

/-- Every resting id was announced or invented, and rests on one side only. -/
structure UniqueIds (history : History P) : Prop where
  valid : history.book.Valid {0}
  known : ∀ isSell id, (history.book.sides isSell).existOrder id = true →
    id ∈ history.added ∨ id ∈ history.invented
  apart : ∀ isSell id, (history.book.sides isSell).existOrder id = true →
    (history.book.sides (!isSell)).existOrder id = false

theorem uniqueIds_empty : (empty : History P).UniqueIds where
  valid := SmartOrderBook.valid_empty
  known _ _ rests := nomatch rests
  apart _ _ rests := nomatch rests

/-- The id of an `ADD` message does not rest yet. -/
theorem UniqueIds.add_fresh (unique : history.UniqueIds) {msg : OrderMessage P}
    (fits : history.Fits (.add msg)) (fresh : msg.id ∉ history.added) (isSell : Bool) :
    (history.book.sides isSell).existOrder msg.id = false := by
  by_contra rests
  rw [Bool.not_eq_false] at rests
  rcases unique.known isSell msg.id rests with announced | invented
  · exact fresh announced
  · rw [SmartOrderBook.existOrder_eq_false.mp (fits invented) isSell] at rests
    cases rests

variable [Zero P]

/-- A message whose processing returns, with its ids. -/
def Step (history : History P) (message : Message P) (next : History P) : Prop :=
  history.book.MessageStep message next.book ∧
    next.added = history.added ++ message.addIds ∧
    next.invented = history.invented ++ history.book.inventedIds message

/-- A message that brings new ids, on one side each, keeps the ids apart. -/
theorem UniqueIds.of_news (unique : history.UniqueIds) (stepped : history.Step message next)
    (valid : next.book.Valid {0}) (news : Bool → List ℤ)
    (within : ∀ isSell id, (next.book.sides isSell).existOrder id = true →
      (history.book.sides isSell).existOrder id = true ∨ id ∈ news isSell)
    (fresh : ∀ isSell, ∀ id ∈ news isSell, ∀ side,
      (history.book.sides side).existOrder id = false)
    (once : ∀ isSell, ∀ id ∈ news isSell, id ∉ news (!isSell))
    (known : ∀ isSell, ∀ id ∈ news isSell,
      id ∈ message.addIds ∨ id ∈ history.book.inventedIds message) : next.UniqueIds := by
  refine ⟨valid, ?_, ?_⟩
  · intro isSell id rests
    rw [stepped.2.1, stepped.2.2, List.mem_append, List.mem_append]
    rcases within isSell id rests with old | new
    · exact (unique.known isSell id old).imp Or.inl Or.inl
    · exact (known isSell id new).imp Or.inr Or.inr
  · intro isSell id rests
    rw [Bool.eq_false_iff]
    intro otherRests
    rcases within isSell id rests with old | new
    · rcases within (!isSell) id otherRests with otherOld | otherNew
      · rw [unique.apart isSell id old] at otherOld
        cases otherOld
      · rw [fresh (!isSell) id otherNew isSell] at old
        cases old
    · rcases within (!isSell) id otherRests with otherOld | otherNew
      · rw [fresh isSell id new (!isSell)] at otherOld
        cases otherOld
      · exact once isSell id new otherNew

theorem UniqueIds.add (unique : history.UniqueIds) {msg : OrderMessage P}
    (pos : 0 < msg.quantity) (fits : history.Fits (.add msg)) (fresh : msg.id ∉ history.added)
    (stepped : history.Step (.add msg) next) : next.UniqueIds := by
  obtain ⟨events, returns⟩ := stepped.1
  have nextValid := unique.valid.processOrderAddMessage (Set.mem_singleton 0) pos returns
  obtain ⟨own, matched, ⟨fuel, absorbed⟩, outcome⟩ := unique.valid.addOutcome pos returns
  obtain ⟨-, -, matchedLe, ownEq⟩ :=
    (unique.valid msg.isSell).matchPendingLiqAdd pos.le absorbed
  refine unique.of_news stepped nextValid
    (fun isSell => if isSell = msg.isSell then [msg.id] else []) ?_ ?_ ?_ ?_
  · refine SmartOrderBook.forall_side msg.isSell ?_ ?_
    · intro id rests
      rw [if_pos rfl, List.mem_singleton]
      by_cases enough : msg.quantity - matched ≤ history.book.crossingTotal msg
      · rw [(outcome.filled enough).1, ownEq] at rests
        exact Or.inl rests
      · rw [(outcome.rests (not_le.mp enough)).1, ownEq] at rests
        exact BookSide.existOrder_withOrder rests
    · intro id rests
      exact Or.inl (outcome.crossed.idsWithin (unique.valid _) (sub_nonneg.mpr matchedLe) id rests)
  · intro isSell id mem side
    split at mem
    · rw [List.mem_singleton.mp mem]
      exact unique.add_fresh fits fresh side
    · cases mem
  · intro isSell id mem otherMem
    split at mem
    · next same =>
        rw [same, if_neg (Bool.not_ne_self msg.isSell)] at otherMem
        cases otherMem
    · cases mem
  · intro isSell id mem
    split at mem
    · exact Or.inl mem
    · cases mem

theorem UniqueIds.snapshot (unique : history.UniqueIds) {msg : SnapshotMessage P}
    (positive : (Message.snapshot msg).Positive) (distinct : (Message.snapshot msg).DistinctPrices)
    (fits : history.Fits (.snapshot msg)) (stepped : history.Step (.snapshot msg) next) :
    next.UniqueIds := by
  obtain ⟨events, fuel, returned⟩ := stepped.1
  have nextValid := unique.valid.processSnapshotMessage (Set.mem_singleton 0) positive
    (Or.inl distinct) returned
  obtain ⟨sideEvents, -, sides⟩ := SmartOrderBook.processSnapshotMessage_eq_ok.mp returned
  have listed : ∀ isSell, ∀ id ∈ (history.book.sides isSell).inventedIds (msg.levels isSell),
      id ∈ history.book.inventedIds (.snapshot msg) :=
    SmartOrderBook.forall_side false (fun _ => List.mem_append_left _)
      (fun _ => List.mem_append_right _)
  refine unique.of_news stepped nextValid
    (fun isSell => (history.book.sides isSell).inventedIds (msg.levels isSell)) ?_ ?_ ?_ ?_
  · intro isSell id rests
    exact (unique.valid isSell).existOrder_snapshot (Set.mem_singleton 0) (positive isSell)
      (distinct isSell) (sides isSell) rests
  · intro isSell id mem side
    exact SmartOrderBook.existOrder_eq_false.mp (fits.1 id (listed isSell id mem)) side
  · refine SmartOrderBook.forall_side false ?_ ?_
    · intro id mem otherMem
      rcases fits.2 with none | none
      · exact absurd (none ▸ mem) List.not_mem_nil
      · exact absurd (none ▸ otherMem) List.not_mem_nil
    · intro id mem otherMem
      rcases fits.2 with none | none
      · exact absurd (none ▸ otherMem) List.not_mem_nil
      · exact absurd (none ▸ mem) List.not_mem_nil
  · intro isSell id mem
    exact Or.inr (listed isSell id mem)

/-- One message that fits. -/
theorem UniqueIds.step (unique : history.UniqueIds)
    (allowed : message.Positive ∧ message.DistinctPrices ∧ message.NoModify)
    (fits : history.Fits message) (fresh : ∀ id ∈ message.addIds, id ∉ history.added)
    (stepped : history.Step message next) : next.UniqueIds := by
  have nextValid := unique.valid.messageStep (Set.mem_singleton 0) allowed.1 (Or.inl allowed.2.1)
    stepped.1
  have noNews : (∀ isSell, (next.book.sides isSell).IdsWithin (history.book.sides isSell)) →
      next.UniqueIds := fun within =>
    unique.of_news stepped nextValid (fun _ => []) (fun isSell id rests =>
      Or.inl (within isSell id rests)) (fun _ _ mem => nomatch mem) (fun _ _ mem => nomatch mem)
      (fun _ _ mem => nomatch mem)
  cases message with
  | add msg => exact unique.add allowed.1 fits (fresh msg.id List.mem_cons_self) stepped
  | cancel msg =>
      apply noNews
      rw [stepped.1.cancel_eq]
      refine SmartOrderBook.forall_side msg.isSell ?_ ?_
      · rw [SmartOrderBook.processOrderCancelMessage, SmartOrderBook.sides_setSide_self]
        exact (unique.valid msg.isSell).processOrderCancel_idsWithin msg.id (le_of_lt allowed.1)
          msg.price
      · rw [SmartOrderBook.processOrderCancelMessage, SmartOrderBook.sides_setSide_not]
        exact BookSide.IdsWithin.of_orderMap rfl
  | modify msg => exact allowed.2.2.elim
  | trade msg =>
      obtain ⟨events, returns⟩ := stepped.1
      obtain ⟨sideEvents, -, outcome⟩ := unique.valid.tradeOutcome (le_of_lt allowed.1) returns
      exact noNews fun isSell => (outcome isSell).idsWithin (unique.valid isSell)
  | snapshot msg => exact unique.snapshot allowed.1 allowed.2.1 fits stepped

/-- Every call of `addOrder` for a message that fits is under a free id. -/
theorem UniqueIds.call_fresh (unique : history.UniqueIds)
    (allowed : message.Positive ∧ message.DistinctPrices ∧ message.NoModify)
    (fits : history.Fits message) (fresh : ∀ id ∈ message.addIds, id ∉ history.added)
    {isSell : Bool} {side : BookSide P isSell} {id : ℤ}
    (call : history.book.AddOrderCall message isSell side id) : side.existOrder id = false := by
  cases call with
  | add absorbed _ crossed _ =>
      obtain ⟨mapEq, idEq⟩ := unique.valid.call_of_add allowed.1 absorbed crossed
      rw [idEq, BookSide.existOrder, mapEq]
      exact unique.add_fresh fits (fresh _ List.mem_cons_self) _
  | @snapshot msg _ front back l2Level state idle levelsEq passed lacks =>
      have positive := allowed.1 isSell
      have distinct := allowed.2.1 isSell
      rw [levelsEq] at positive distinct
      obtain ⟨sideEq, idEq, counted⟩ := (unique.valid isSell).firstPass_at (Set.mem_singleton 0)
        positive distinct passed lacks
      have listed : state.fakeOrderId ∈ history.book.inventedIds (.snapshot msg) := by
        have mem : state.fakeOrderId ∈
            (history.book.sides isSell).inventedIds (msg.levels isSell) := by
          rw [BookSide.mem_inventedIds idle, levelsEq, idEq]
          omega
        cases isSell with
        | false => exact List.mem_append_left _ mem
        | true => exact List.mem_append_right _ mem
      have free := SmartOrderBook.existOrder_eq_false.mp (fits.1 _ listed) isSell
      rw [Bool.eq_false_iff, sideEq, Ne, BookSide.existOrder_inventAll]
      rintro (rests | ⟨-, early⟩)
      · rw [free] at rests
        cases rests
      · omega

/-- A message that fits, with its ids. -/
def FittingStep (history : History P) (message : Message P) (next : History P) : Prop :=
  history.Fits message ∧ history.Step message next

theorem uniqueIds_of_fitting {messages : List (Message P)} {last : History P}
    (run : Run FittingStep .empty messages last)
    (allowed : ∀ message ∈ messages,
      message.Positive ∧ message.DistinctPrices ∧ message.NoModify)
    (distinct : (messages.flatMap Message.addIds).Nodup) :
    last.UniqueIds ∧ last.added = messages.flatMap Message.addIds := by
  induction run with
  | start => exact ⟨uniqueIds_empty, rfl⟩
  | @step messages message state next run stepped ih =>
      rw [List.flatMap_append, List.nodup_append] at distinct
      obtain ⟨unique, addedEq⟩ := ih (fun other mem => allowed other (List.mem_append_left _ mem))
        distinct.1
      have fresh : ∀ id ∈ message.addIds, id ∉ state.added := by
        intro id mem earlier
        rw [addedEq] at earlier
        exact distinct.2.2 id earlier id (by simpa using mem) rfl
      refine ⟨unique.step (allowed message (by simp)) stepped.1 fresh stepped.2, ?_⟩
      rw [stepped.2.2.1, addedEq, List.flatMap_append]
      simp

end History

/-- In every run of fitting messages in which no two `ADD` messages have the same id, no
id rests on both sides, and no further message that fits calls `addOrder` under an id
that rests on the side. -/
theorem uniqueIds_of_fitting_run [Zero P] {messages : List (Message P)} {last : History P}
    (run : Run History.FittingStep .empty messages last)
    (allowed : ∀ message ∈ messages,
      message.Positive ∧ message.DistinctPrices ∧ message.NoModify)
    (distinct : (messages.flatMap Message.addIds).Nodup) :
    (∀ id, ¬ ((last.book.sides false).existOrder id = true ∧
      (last.book.sides true).existOrder id = true)) ∧
    ∀ message : Message P, last.Fits message →
      message.Positive ∧ message.DistinctPrices ∧ message.NoModify →
      ((messages ++ [message]).flatMap Message.addIds).Nodup →
      ∀ (isSell : Bool) (side : BookSide P isSell) (id : ℤ),
        last.book.AddOrderCall message isSell side id → side.existOrder id = false := by
  obtain ⟨unique, addedEq⟩ := History.uniqueIds_of_fitting run allowed distinct
  constructor
  · rintro id ⟨bidRests, askRests⟩
    rw [show (last.book.sides true).existOrder id = false from unique.apart false id bidRests]
      at askRests
    cases askRests
  · intro message fits messageAllowed distinctAll isSell side id call
    refine unique.call_fresh messageAllowed fits ?_ call
    intro id mem earlier
    rw [List.flatMap_append, List.nodup_append] at distinctAll
    rw [addedEq] at earlier
    exact distinctAll.2.2 id earlier id (by simpa using mem) rfl

/-- An ask, and a snapshot that shows it with a bid nobody has announced. -/
def inventedBidMessages : List (Message ℤ) :=
  [.add ⟨.add, 1, true, 10, 101⟩, .snapshot ⟨[⟨99, 5⟩], [⟨101, 10⟩]⟩]

def loneAskBook : SmartOrderBook ℤ :=
  ((SmartOrderBook.empty.processAll 9 (inventedBidMessages.take 1)).toOption).getD .empty

def inventedBidBook : SmartOrderBook ℤ :=
  ((SmartOrderBook.empty.processAll 9 inventedBidMessages).toOption).getD .empty

/-- The invented bid takes the id 100, which no order has. -/
theorem uniqueIds_of_inventedBid :
    (inventedBidBook.sides false).existOrder 100 = true ∧
      ∀ id, ¬ ((inventedBidBook.sides false).existOrder id = true ∧
        (inventedBidBook.sides true).existOrder id = true) := by
  have first : History.FittingStep (P := ℤ) .empty (.add ⟨.add, 1, true, 10, 101⟩)
      ⟨loneAskBook, [1], []⟩ :=
    ⟨(fun invented => nomatch invented), ⟨_, 9, rfl⟩, rfl, rfl⟩
  have second : History.FittingStep (P := ℤ) ⟨loneAskBook, [1], []⟩
      (.snapshot ⟨[⟨99, 5⟩], [⟨101, 10⟩]⟩) ⟨inventedBidBook, [1], [100]⟩ :=
    ⟨⟨by decide, Or.inr (by decide)⟩, ⟨_, 9, rfl⟩, rfl, by decide⟩
  have run : Run History.FittingStep .empty inventedBidMessages
      ⟨inventedBidBook, [1], [100]⟩ := .step (.step .start first) second
  exact ⟨by decide, (uniqueIds_of_fitting_run run (by decide) (by decide)).1⟩

/-- A snapshot for an empty book, with one level on each side. -/
def bothInventedMessages : List (Message ℤ) := [.snapshot ⟨[⟨99, 5⟩], [⟨101, 7⟩]⟩]

def bothInventedBook : SmartOrderBook ℤ :=
  ((SmartOrderBook.empty.processAll 9 bothInventedMessages).toOption).getD .empty

/-- Both sides number their invented orders from 100 on. -/
theorem bothInvented_share_id :
    Run SmartOrderBook.MessageStep .empty bothInventedMessages bothInventedBook ∧
      (∀ message ∈ bothInventedMessages,
        message.Positive ∧ message.DistinctPrices ∧ message.NoModify) ∧
      (bothInventedMessages.flatMap Message.addIds).Nodup ∧
      ¬ ∀ id, ¬ ((bothInventedBook.sides false).existOrder id = true ∧
        (bothInventedBook.sides true).existOrder id = true) := by
  refine ⟨SmartOrderBook.run_of_processAll 9 rfl, by decide, by decide, ?_⟩
  intro apart
  exact apart 100 (by decide)

end OrderBook
