import OrderBook.BoundedCalls

/-!
# Snapshots on a bounded side

The first pass of the reconciliation adds at most the quantities that the snapshot shows.
The orders listed for removal rest in the book, each of them once, so every removal takes
what is there.
-/

namespace OrderBook.BookSide

open FueledLoop

variable {P : Type} [LinearOrder P] {isSell : Bool} {bound : ℤ} {side : BookSide P isSell}
  {store : ℤ → Except Halt ℤ}

/-! ### The first pass -/

omit [LinearOrder P] in
theorem frontOrders_agrees (keeps : Stored.Keeps store bound) {orders : List (Order P)}
    (fits : ∀ order ∈ orders, order.Fits bound) {qty : ℤ} (nonneg : 0 ≤ qty)
    (small : qty ≤ bound) :
    Stored.Side.frontOrders store qty orders = .ok (frontOrders qty orders) := by
  induction orders generalizing qty with
  | nil => rfl
  | cons order orders ih =>
      unfold Stored.Side.frontOrders frontOrders QueueFill.pieces
      by_cases done : qty = 0
      · rw [if_pos done, if_pos done]
        rfl
      · have orderFits := fits order List.mem_cons_self
        have orderNonneg := orderFits.remaining_nonneg
        rw [if_neg done, if_neg done, keeps.remaining orderFits, ok_bind,
          keeps _ (by omega) (by omega), ok_bind,
          ih (fun other mem => fits other (List.mem_cons_of_mem order mem)) (by omega) (by omega),
          ok_bind]
        rfl

/-- What the levels of a snapshot show together. -/
def shownQty (snapshot : L2SnapshotSide P) : ℤ := (snapshot.map L2PriceLevel.quantity).sum

omit [LinearOrder P] in
theorem shownQty_nonneg {snapshot : L2SnapshotSide P}
    (positive : ∀ l2Level ∈ snapshot, 0 < l2Level.quantity) : 0 ≤ shownQty snapshot :=
  QueueFill.sum_map_nonneg fun l2Level mem => (positive l2Level mem).le

/-- The levels still to come fit on top of every entry. -/
structure ReconcileBounded (bound : ℤ) (later : L2SnapshotSide P)
    (state : ReconcileState P isSell) : Prop where
  side : state.side.Bounded bound
  positive : ∀ l2Level ∈ later, 0 < l2Level.quantity
  room : ∀ price, qtyAt state.side.pendingLiqAddQty price + shownQty later ≤ bound

variable [Zero P]

theorem Bounded.addLiquidity {state : ReconcileState P isSell}
    (bounded : state.side.Bounded bound) (keeps : Stored.Keeps store bound) {qty : ℤ} {price : P}
    (nonneg : 0 ≤ qty) (ledgerRoom : qtyAt state.side.pendingLiqAddQty price + qty ≤ bound)
    (levelRoom : state.side.quantityAt price + qty ≤ bound) :
    Agrees (Stored.Side.addLiquidity store state qty price) (addLiquidity state qty price)
      fun next => next.side.Bounded bound ∧ next.side.pendingLiqAddQty =
        credit state.side.pendingLiqAddQty price qty := by
  have levelNonneg := bounded.level_nonneg price
  have fits : (Order.new state.fakeOrderId isSell qty price).Fits bound :=
    ⟨le_rfl, nonneg, show qty ≤ bound by omega⟩
  have small : ({ state.side with
      pendingLiqAddQty := credit state.side.pendingLiqAddQty price qty } :
        BookSide P isSell).quantityAt price +
      (Order.new state.fakeOrderId isSell qty price).getRemainingQuantity ≤ bound := by
    rw [Order.remaining_new]
    exact levelRoom
  rw [Stored.Side.addLiquidity,
    keeps.credit (bounded.add_nonneg price) nonneg ledgerRoom, ok_bind]
  apply ((bounded.creditAdd nonneg ledgerRoom).addOrder keeps fits small).bind
  rintro next - ⟨nextBounded, addEq, -⟩
  exact .ok ⟨nextBounded, addEq⟩

theorem ReconcileBounded.reconcileLevel {l2Level : L2PriceLevel P} {later : L2SnapshotSide P}
    {state : ReconcileState P isSell} (holds : ReconcileBounded bound (l2Level :: later) state)
    (keeps : Stored.Keeps store bound) :
    Agrees (Stored.Side.reconcileLevel store state l2Level) (reconcileLevel state l2Level)
      (ReconcileBounded bound later) := by
  have pos := holds.positive l2Level List.mem_cons_self
  have laterPos : ∀ other ∈ later, 0 < other.quantity :=
    fun other mem => holds.positive other (List.mem_cons_of_mem l2Level mem)
  have laterNonneg := shownQty_nonneg laterPos
  have room : ∀ price, qtyAt state.side.pendingLiqAddQty price +
      (l2Level.quantity + shownQty later) ≤ bound := by
    intro price
    simpa [shownQty] using holds.room price
  have entryNonneg := holds.side.add_nonneg
  have atPrice := room l2Level.price
  have entryAt := entryNonneg l2Level.price
  -- adding at most what the level shows leaves room for the later levels
  have added : ∀ qty, 0 ≤ qty → qty ≤ l2Level.quantity →
      state.side.quantityAt l2Level.price + qty ≤ bound →
      Agrees (Stored.Side.addLiquidity store state qty l2Level.price)
        (BookSide.addLiquidity state qty l2Level.price) (ReconcileBounded bound later) := by
    intro qty nonneg small levelRoom
    apply (holds.side.addLiquidity keeps nonneg (by omega) levelRoom).mono
    rintro next ⟨nextBounded, addEq⟩
    refine ⟨nextBounded, laterPos, fun price => ?_⟩
    have atOther := room price
    rw [addEq, qtyAt_credit]
    split
    · omega
    · omega
  have untouched : ∀ pending : List (Order P × ℤ),
      ReconcileBounded bound later { state with pendingOrders := pending } := by
    intro pending
    refine ⟨holds.side, laterPos, fun price => ?_⟩
    have atOther := room price
    simp only
    omega
  unfold Stored.Side.reconcileLevel BookSide.reconcileLevel
  cases found : state.side.levels.find? l2Level.price with
  | none =>
      have quantityEq := quantityAt_of_none found
      exact added _ pos.le le_rfl (by omega)
  | some level =>
      have quantityEq := quantityAt_of_find? found
      have levelNonneg := holds.side.level_nonneg l2Level.price
      have levelLe := holds.side.level_le l2Level.price
      rw [quantityEq] at levelNonneg levelLe
      refine .ite (fun less => ?_) fun _ => .ite (fun more => ?_) fun _ => .ok (untouched _)
      · have fits : ∀ order ∈ level.orders, order.Fits bound := by
          intro order mem
          rw [← ordersAt_of_find? found] at mem
          exact holds.side.fits mem
        rw [keeps _ (by omega) (by omega), ok_bind,
          frontOrders_agrees keeps fits (by omega) (by omega), ok_bind]
        exact .ok (untouched _)
      · rw [keeps _ (by omega) (by omega), ok_bind]
        exact added _ (by omega) (by omega) (by omega)

theorem Bounded.firstPass {held : ℤ} (bounded : side.Bounded held)
    (keeps : Stored.Keeps store bound) {snapshot : L2SnapshotSide P}
    (positive : ∀ l2Level ∈ snapshot, 0 < l2Level.quantity)
    (le : held ≤ bound) (room : held + shownQty snapshot ≤ bound) :
    Agrees (snapshot.foldlM (Stored.Side.reconcileLevel store) ⟨side, [], [], 100⟩)
      (snapshot.foldlM reconcileLevel ⟨side, [], [], 100⟩) fun compared =>
        compared.side.Bounded bound := by
  have start : ReconcileBounded bound snapshot
      (⟨side, [], [], 100⟩ : ReconcileState P isSell) := by
    refine ⟨bounded.mono le, positive, fun price => ?_⟩
    have entryLe := bounded.add_le price
    simp only
    omega
  exact (Agrees.foldlM (ReconcileBounded bound)
    (fun _ _ _ holds => holds.reconcileLevel keeps) start).mono fun _ last => last.side

/-! ### The orders to remove -/

omit [Zero P] in
theorem Bounded.missingOrders (bounded : side.Bounded bound) (keeps : Stored.Keeps store bound)
    (snapshot : L2SnapshotSide P) :
    Stored.Side.missingOrders store side snapshot = .ok (side.missingOrders snapshot) := by
  have listed : ∀ entry ∈ side.levels.entries,
      (if entry.1 ∈ snapshot.map L2PriceLevel.price then return []
        else entry.2.orders.mapM fun order => do
          let remaining ← Stored.getRemainingQuantity store order
          return (order, remaining) : Except Halt (List (Order P × ℤ))) =
        .ok (if entry.1 ∈ snapshot.map L2PriceLevel.price then []
          else entry.2.orders.map fun order => (order, order.getRemainingQuantity)) := by
    intro entry entryMem
    have found := SortedMap.find?_eq_some_iff.mpr entryMem
    by_cases shown : entry.1 ∈ snapshot.map L2PriceLevel.price
    · rw [if_pos shown, if_pos shown]
      rfl
    · rw [if_neg shown, if_neg shown]
      apply mapM_eq_map
      intro order mem
      rw [← ordersAt_of_find? found] at mem
      rw [keeps.remaining (bounded.fits mem)]
      rfl
  rw [Stored.Side.missingOrders, mapM_eq_map listed, ok_bind, BookSide.missingOrders,
    List.flatMap_def]
  rfl

/-- The orders that the third loop still has to come to: they rest as they were listed, each
of them once, and have the listed quantity left. -/
structure Outstanding (later : List ((Order P × ℤ) × Nat)) (state : RemovalState P isSell) :
    Prop where
  distinct : (later.map fun entry => entry.1.1.odid).Nodup
  resting : ∀ entry ∈ later, entry.1.1 ∈ state.side.ordersAt entry.1.1.price
  fits : ∀ entry ∈ later, 0 ≤ entry.1.2 ∧ entry.1.2 ≤ entry.1.1.getRemainingQuantity
  untouched : ∀ entry ∈ later, state.filled entry.1.1.odid = 0

/-- The third loop is at these orders, and the side it has got to is bounded. -/
structure RemovalBounded (bound : ℤ) (later : List ((Order P × ℤ) × Nat))
    (state : RemovalState P isSell) : Prop where
  side : state.side.Bounded bound
  outstanding : Outstanding later state

section Outstanding

omit [Zero P]

variable {entry : (Order P × ℤ) × Nat} {later : List ((Order P × ℤ) × Nat)}
  {state : RemovalState P isSell}

/-- The orders to come are other orders, so an update of this one leaves them alone. -/
theorem Outstanding.tail (holds : Outstanding (entry :: later) state) {next : BookSide P isSell}
    (touches : Touches entry.1.1.odid state.side next) (events : OrderInfoVec P)
    {filled : ℤ → ℤ} (filledEq : ∀ id, id ≠ entry.1.1.odid → filled id = state.filled id) :
    Outstanding later ⟨next, events, filled⟩ := by
  obtain ⟨fresh, laterDistinct⟩ := List.nodup_cons.mp holds.distinct
  have different : ∀ other ∈ later, other.1.1.odid ≠ entry.1.1.odid :=
    fun other mem same => fresh (List.mem_map.mpr ⟨other, mem, same⟩)
  refine ⟨laterDistinct, ?_, ?_, ?_⟩
  · intro other mem
    exact touches.others (holds.resting other (List.mem_cons_of_mem _ mem)) (different other mem)
  · intro other mem
    exact holds.fits other (List.mem_cons_of_mem _ mem)
  · intro other mem
    exact (filledEq _ (different other mem)).trans
      (holds.untouched other (List.mem_cons_of_mem _ mem))

/-- The order that the loop has come to is the listed one. -/
theorem Outstanding.current (holds : Outstanding (entry :: later) state) :
    entry.1.1.fill (state.filled entry.1.1.odid) = entry.1.1 := by
  rw [holds.untouched entry List.mem_cons_self, Order.fill_zero]

end Outstanding

theorem RemovalBounded.removePending {num : Nat} {entry : (Order P × ℤ) × Nat}
    {later : List ((Order P × ℤ) × Nat)} {state : RemovalState P isSell}
    (holds : RemovalBounded bound (entry :: later) state) (keeps : Stored.Keeps store bound) :
    Agrees (Stored.Side.removePending store num state entry) (removePending num state entry)
      (RemovalBounded bound later) := by
  obtain ⟨bounded, outstanding⟩ := holds
  have resting := outstanding.resting _ List.mem_cons_self
  obtain ⟨nonneg, covered⟩ := outstanding.fits _ List.mem_cons_self
  unfold Stored.Side.removePending BookSide.removePending
  simp only [outstanding.current]
  rw [keeps.remaining (bounded.fits resting), ok_bind]
  refine .ite (fun _ => ?_) fun _ => .ite (fun _ => ?_) fun _ => ?_
  · apply (bounded.removeOrder keeps entry.1.1.odid).bind_ok
    rintro ⟨nextBounded, touches⟩
    exact .ok ⟨nextBounded, outstanding.tail touches _ fun _ _ => rfl⟩
  · apply (bounded.fillLevelOrder keeps resting nonneg covered).bind
    rintro next - ⟨nextBounded, touches⟩
    exact .ok ⟨nextBounded, outstanding.tail touches _ fun id other =>
      Function.update_of_ne other _ _⟩
  · exact .ok ⟨bounded, outstanding.tail ⟨fun mem _ => mem, rfl, rfl⟩ _ fun _ _ => rfl⟩

omit [Zero P] in
theorem Linked.groupFills_nodup (linked : side.Linked) {groups : List (P × ℤ)}
    (distinct : (groups.map Prod.fst).Nodup) :
    ((side.groupFills groups).map fun piece => piece.1.odid).Nodup := by
  have inGroup : ∀ (key : P) (qty : ℤ), ((fills qty (side.ordersAt key)).map
      fun piece => piece.1.odid).Sublist (ids (side.ordersAt key)) := by
    intro key qty
    have ahead := (QueueFill.pieces_ahead Order.getRemainingQuantity qty
      (side.ordersAt key)).sublist.map Order.odid
    rwa [List.map_map] at ahead
  induction groups with
  | nil => exact List.nodup_nil
  | cons group groups ih =>
      obtain ⟨fresh, laterDistinct⟩ := List.nodup_cons.mp distinct
      rw [groupFills, List.flatMap_cons, List.map_append]
      refine List.nodup_append.mpr
        ⟨(linked.nodup group.1).sublist (inGroup group.1 group.2), ih laterDistinct, ?_⟩
      rintro id inFirst other inLater rfl
      obtain ⟨piece, pieceMem, rfl⟩ := List.mem_map.mp inLater
      obtain ⟨later, laterMem, taken⟩ := List.mem_flatMap.mp pieceMem
      have firstId := (inGroup group.1 group.2).subset inFirst
      have laterId := (inGroup later.1 later.2).subset (List.mem_map_of_mem taken)
      exact fresh (linked.price_unique firstId laterId ▸ List.mem_map_of_mem laterMem)

omit [Zero P] in
/-- What is listed for removal is outstanding before the loop. -/
theorem Valid.outstanding_groupFills {slack : Set ℤ} (valid : side.Valid slack)
    {groups : List (P × ℤ)} (nonneg : ∀ group ∈ groups, 0 ≤ group.2)
    (distinct : (groups.map Prod.fst).Nodup) (events : OrderInfoVec P) :
    Outstanding (side.groupFills groups).zipIdx
      (⟨side, events, fun _ => 0⟩ : RemovalState P isSell) := by
  have listed : ∀ entry ∈ (side.groupFills groups).zipIdx,
      entry.1.1 ∈ side.ordersAt entry.1.1.price ∧
        0 ≤ entry.1.2 ∧ entry.1.2 ≤ entry.1.1.getRemainingQuantity := by
    intro entry mem
    obtain ⟨group, groupMem, taken⟩ := List.mem_flatMap.mp (fst_mem_of_mem_zipIdx mem)
    obtain ⟨rests, pos, covered⟩ :=
      QueueFill.mem_pieces (valid.allRemain group.1) (nonneg group groupMem) taken
    rw [valid.linked.order_price rests]
    exact ⟨rests, pos.le, covered⟩
  have idsEq : ((side.groupFills groups).zipIdx.map fun entry => entry.1.1.odid) =
      (side.groupFills groups).map fun piece => piece.1.odid := by
    conv_rhs => rw [← List.zipIdx_map_fst 0 (side.groupFills groups), List.map_map]
    rfl
  refine ⟨?_, fun entry mem => (listed entry mem).1, fun entry mem => (listed entry mem).2,
    fun _ _ => rfl⟩
  rw [idsEq]
  exact valid.linked.groupFills_nodup distinct

theorem Bounded.thirdPass (bounded : side.Bounded bound) {slack : Set ℤ}
    (valid : side.Valid slack) (keeps : Stored.Keeps store bound) (num : Nat)
    {groups : List (P × ℤ)} (nonneg : ∀ group ∈ groups, 0 ≤ group.2)
    (distinct : (groups.map Prod.fst).Nodup) (events : OrderInfoVec P) :
    Agrees ((side.groupFills groups).zipIdx.foldlM (Stored.Side.removePending store num)
        ⟨side, events, fun _ => 0⟩)
      ((side.groupFills groups).zipIdx.foldlM (removePending num) ⟨side, events, fun _ => 0⟩)
      fun removed => removed.side.Bounded bound := by
  have start : RemovalBounded bound (side.groupFills groups).zipIdx
      (⟨side, events, fun _ => 0⟩ : RemovalState P isSell) :=
    ⟨bounded, valid.outstanding_groupFills nonneg distinct events⟩
  exact (Agrees.foldlM (RemovalBounded bound)
    (fun _ _ _ holds => holds.removePending keeps) start).mono fun _ last => last.side

/-! ### The call -/

theorem Bounded.reconcile {held : ℤ} (bounded : side.Bounded held) (valid : side.Valid {0})
    (keeps : Stored.Keeps store bound) {snapshot : L2SnapshotSide P}
    (positive : ∀ l2Level ∈ snapshot, 0 < l2Level.quantity)
    (distinct : (snapshot.map L2PriceLevel.price).Nodup)
    (le : held ≤ bound) (room : held + shownQty snapshot ≤ bound) :
    Agrees (Stored.Side.reconcile store side snapshot) (side.reconcile snapshot) fun result =>
      result.1.Bounded bound := by
  have zeroMem : (0 : ℤ) ∈ ({0} : Set ℤ) := Set.mem_singleton 0
  have comparedValid := valid.comparedSide zeroMem snapshot
  apply (bounded.firstPass keeps positive le room).bind
  intro compared passed comparedBounded
  rw [valid.firstPass_eq zeroMem positive distinct, Except.ok.injEq] at passed
  subst passed
  simp only [List.nil_append] at comparedBounded ⊢
  rw [comparedBounded.missingOrders keeps, ok_bind]
  have pendingEq := comparedValid.pendingOrders_eq distinct
  unfold comparedSide at pendingEq comparedValid
  rw [pendingEq]
  refine (comparedBounded.thirdPass comparedValid keeps _
    (Valid.removals_nonneg comparedValid) (removals_nodup distinct) _).bind ?_
  intro removed _ removedBounded
  exact .ok removedBounded

theorem Bounded.processL2Snapshot {held : ℤ} (bounded : side.Bounded held)
    (valid : side.Valid {0}) (keeps : Stored.Keeps store bound) {snapshot : L2SnapshotSide P}
    (positive : ∀ l2Level ∈ snapshot, 0 < l2Level.quantity)
    (distinct : (snapshot.map L2PriceLevel.price).Nodup)
    (le : held ≤ bound) (room : held + shownQty snapshot ≤ bound) :
    Agrees (Stored.Side.processL2Snapshot store side snapshot) (side.processL2Snapshot snapshot)
      fun result => result.1.Bounded bound := by
  unfold Stored.Side.processL2Snapshot BookSide.processL2Snapshot
  cases side.l2SnapQueue with
  | nil => exact bounded.reconcile valid keeps positive distinct le room
  | cons expected later =>
      have kept := bounded.mono le
      refine .ite (fun _ => ?_) fun _ => .ok kept
      exact .ok (kept.withLedgers rfl rfl kept.add kept.remove)

end OrderBook.BookSide
