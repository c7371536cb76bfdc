import Mathlib.Algebra.Order.Floor.Div
import OrderBook.PriceTimePriority
import OrderBook.SnapshotEffect

/-!
# Which removals are guessed as executions

A snapshot that lacks quantity leaves `processL2Snapshot` to guess what happened to
the orders that are gone: the first 30 percent of them are reported as executed and
the others as cancelled.  The candidates are the orders of the lowered levels,
followed by those of the missing levels, each of the two best price first.  So the
guess follows price priority exactly when the cut separates the two as it should.
-/

namespace OrderBook

variable {P : Type} [LinearOrder P]

/-! ### Cutting a list -/

section Cut

variable {α β : Type*}

/-- Items before a cut are treated in one way and the others in another. -/
theorem map_zipIdx_cut (early late : α → β) (items : List α) (cut start : Nat) :
    ((items.zipIdx start).map fun entry =>
        if entry.2 < cut then early entry.1 else late entry.1) =
      (items.take (cut - start)).map early ++ (items.drop (cut - start)).map late := by
  induction items generalizing start with
  | nil => simp
  | cons item items ih =>
      rw [List.zipIdx_cons, List.map_cons, ih]
      by_cases inside : start < cut
      · have more : cut - start = cut - (start + 1) + 1 := by omega
        rw [if_pos inside, more]
        rfl
      · have here : cut - start = 0 := by omega
        have later : cut - (start + 1) = 0 := by omega
        rw [if_neg inside, here, later]
        rfl

/-- In a sorted list the last item is not before the others. -/
theorem le_getLast? {le : α → α → Prop} {items : List α} (sorted : items.Pairwise le)
    {item last : α} (mem : item ∈ items) (isLast : last ∈ items.getLast?) :
    item = last ∨ le item last := by
  obtain ⟨front, rfl⟩ := List.getLast?_eq_some_iff.mp isLast
  rcases List.mem_append.mp mem with inFront | atEnd
  · exact Or.inr ((List.pairwise_append.mp sorted).2.2 item inFront last List.mem_cons_self)
  · exact Or.inl (List.mem_singleton.mp atEnd)

theorem head?_le {le : α → α → Prop} {items : List α} (sorted : items.Pairwise le)
    {item head : α} (mem : item ∈ items) (isHead : head ∈ items.head?) :
    item = head ∨ le head item := by
  obtain ⟨others, rfl⟩ := List.head?_eq_some_iff.mp isHead
  rcases List.mem_cons.mp mem with same | later
  · exact Or.inl same
  · exact Or.inr ((List.pairwise_cons.mp sorted).1 item later)

theorem le_of_cut {le : α → α → Prop} {items : List α} (sorted : items.Pairwise le) {cut : Nat}
    {early late : α} (earlyMem : early ∈ items.take cut) (lateMem : late ∈ items.drop cut) :
    le early late := by
  rw [← List.take_append_drop cut items, List.pairwise_append] at sorted
  exact sorted.2.2 early earlyMem late lateMem

/-- A cut through two sorted lists, one behind the other, separates better items from worse
ones exactly when the last item of the first list before the cut and the first item of
the second list behind it are in order. -/
theorem cut_sorted_iff {le : α → α → Prop} [IsTrans α le] {first second : List α}
    (firstSorted : first.Pairwise le) (secondSorted : second.Pairwise le) (cut : Nat) :
    (∀ early ∈ (first ++ second).take cut, ∀ late ∈ (first ++ second).drop cut, le early late) ↔
      ∀ last ∈ (first.take cut).getLast?, ∀ head ∈ (second.drop (cut - first.length)).head?,
        le last head := by
  rw [List.take_append, List.drop_append]
  constructor
  · intro separated last isLast head isHead
    exact separated last (List.mem_append_left _ (List.mem_of_getLast? isLast)) head
      (List.mem_append_right _ (List.mem_of_mem_head? isHead))
  · intro ordered early earlyMem late lateMem
    rcases List.mem_append.mp earlyMem with inFirst | inSecond
    · rcases List.mem_append.mp lateMem with behind | beyond
      · exact le_of_cut firstSorted inFirst behind
      · obtain ⟨last, isLast⟩ := Option.isSome_iff_exists.mp
          (List.getLast?_isSome.mpr (List.ne_nil_of_mem inFirst))
        obtain ⟨head, isHead⟩ := Option.isSome_iff_exists.mp
          (List.isSome_head?.mpr (List.ne_nil_of_mem beyond))
        have between := ordered last isLast head isHead
        have fromEarly : le early head := by
          rcases le_getLast? (firstSorted.sublist (List.take_sublist _ _)) inFirst isLast with
            rfl | before
          · exact between
          · exact Trans.trans before between
        rcases head?_le (secondSorted.sublist (List.drop_sublist _ _)) beyond isHead with
          rfl | after
        · exact fromEarly
        · exact Trans.trans fromEarly after
    · rcases List.mem_append.mp lateMem with behind | beyond
      · -- the cut lies in the second list, and nothing of the first one is behind it
        have inside := List.length_pos_of_mem behind
        have outside := List.length_pos_of_mem inSecond
        rw [List.length_drop] at inside
        rw [List.length_take] at outside
        omega
      · exact le_of_cut secondSorted inSecond beyond

end Cut

namespace BookSide

variable {isSell : Bool} {side : BookSide P isSell} {snapshot : L2SnapshotSide P} {key : P}
  {slack : Set ℤ}

/-- An event that takes quantity from an order. -/
def Removes (e : OrderInfo P) : Prop := e.event = .exec ∨ e.event = .cancel

instance (e : OrderInfo P) : Decidable (Removes e) := inferInstanceAs (Decidable (_ ∨ _))

/-- The guesses among the events: 30 percent of the removals, rounded up, are executions; no
cancelled order has a better price than an executed one; and at each price the removed
orders are the first ones of the queue, those executed before those cancelled. -/
structure PriorityGuess (side : BookSide P isSell) (events : OrderInfoVec P) : Prop where
  count : events.countP (fun e => e.event = .exec) = 3 * events.countP (fun e => Removes e) ⌈/⌉ 10
  price : ∀ executed ∈ events, executed.event = .exec → ∀ cancelled ∈ events,
    cancelled.event = .cancel → ¬ PriceComparator isSell cancelled.price executed.price
  queue : ∀ key, (events.filter fun e => Removes e ∧ e.price = key).map OrderInfo.odid <+:
    ids (side.ordersAt key)
  fifo : ∀ key, (events.filter fun e => Removes e ∧ e.price = key).Pairwise
    fun first second => second.event = .exec → first.event = .exec

/-- A snapshot is reconciled with guesses that follow price priority. -/
def GuessesByPriority [Zero P] (side : BookSide P isSell) (snapshot : L2SnapshotSide P) : Prop :=
  ∃ final events, side.processL2Snapshot snapshot = .ok (final, events) ∧
    side.PriorityGuess events

/-- The orders at the front of the lowered levels, with what the snapshot lacks of them. -/
def loweredOrders (side : BookSide P isSell) (snapshot : L2SnapshotSide P) :
    List (Order P × ℤ) :=
  side.groupFills (side.lowerings snapshot)

/-- The number of removals that are guessed as executions. -/
def guessedNum (side : BookSide P isSell) (snapshot : L2SnapshotSide P) : Nat :=
  executedOrderNum
    ((side.loweredOrders snapshot).length + (side.missingOrders snapshot).length)

/-- The last lowered order that is guessed as executed is not behind the first missing order
that is guessed as cancelled. -/
def CutInOrder (side : BookSide P isSell) (snapshot : L2SnapshotSide P) : Prop :=
  ∀ last ∈ ((side.loweredOrders snapshot).take (side.guessedNum snapshot)).getLast?,
    ∀ first ∈ ((side.missingOrders snapshot).drop
      (side.guessedNum snapshot - (side.loweredOrders snapshot).length)).head?,
        ¬ PriceComparator isSell first.1.price last.1.price

/-! ### The events -/

/-- The cancels among the guesses. -/
def guessedCancels (isSell : Bool) (taken : List (Order P × ℤ)) : OrderInfoVec P :=
  taken.map fun piece => ⟨.cancel, piece.1.odid, isSell, piece.2, piece.1.price⟩

omit [LinearOrder P] in
theorem pendingEvents_eq (isSell : Bool) (pieces : List (Order P × ℤ)) (num : Nat) :
    pieces.zipIdx.map (pendingEvent isSell num) =
      execEvents isSell (pieces.take num) ++ guessedCancels isSell (pieces.drop num) := by
  rw [execEvents, guessedCancels, ← Nat.sub_zero num, ← map_zipIdx_cut, Nat.sub_zero]
  apply List.map_congr_left
  intro entry mem
  unfold pendingEvent
  split <;> rfl

/-- The orders of the levels that the snapshot lacks, by the map of these levels. -/
theorem missingOrders_eq_retain (side : BookSide P isSell) (snapshot : L2SnapshotSide P) :
    side.missingOrders snapshot =
      (side.levels.retain fun key => key ∉ snapshot.map L2PriceLevel.price).entries.flatMap
        fun entry => entry.2.orders.map fun order => (order, order.getRemainingQuantity) := by
  simp only [missingOrders, SortedMap.retain]
  induction side.levels.entries with
  | nil => rfl
  | cons entry entries ih =>
      rw [List.flatMap_cons, ih, List.filter_cons]
      by_cases shown : entry.1 ∈ snapshot.map L2PriceLevel.price
      · simp [shown]
      · simp [shown]

/-- Orders are invented at prices that the snapshot shows. -/
theorem missingOrders_comparedSide (side : BookSide P isSell) (snapshot : L2SnapshotSide P) :
    (side.comparedSide snapshot).missingOrders snapshot = side.missingOrders snapshot := by
  rw [missingOrders_eq_retain, missingOrders_eq_retain]
  have same : ((side.comparedSide snapshot).levels.retain fun key =>
      key ∉ snapshot.map L2PriceLevel.price) =
        side.levels.retain fun key => key ∉ snapshot.map L2PriceLevel.price := by
    apply SortedMap.ext_find?
    intro key
    rw [SortedMap.find?_retain, SortedMap.find?_retain]
    split
    · next absent =>
        exact find?_comparedSide_of_not_mem fun invented =>
          absent (shown_of_mem_inventions invented)
    · rfl
  rw [same]

/-- Everything that a snapshot removes: first from the lowered levels, then from the missing
ones. -/
def removedOrders (side : BookSide P isSell) (snapshot : L2SnapshotSide P) :
    List (Order P × ℤ) :=
  side.loweredOrders snapshot ++ side.missingOrders snapshot

section Events

variable [Zero P] (valid : side.Valid slack) (zeroMem : 0 ∈ slack)
  (distinct : (snapshot.map L2PriceLevel.price).Nodup)

include valid zeroMem distinct

theorem Valid.groupFills_removals :
    (side.comparedSide snapshot).groupFills (side.removals snapshot) =
      side.removedOrders snapshot := by
  have compared := valid.comparedSide zeroMem snapshot
  rw [← compared.pendingOrders_eq distinct, missingOrders_comparedSide]
  rfl

theorem Valid.reconcileEvents_eq :
    side.reconcileEvents snapshot = addEvents isSell (side.inventions snapshot) ++
      (execEvents isSell ((side.removedOrders snapshot).take (side.guessedNum snapshot)) ++
        guessedCancels isSell
          ((side.removedOrders snapshot).drop (side.guessedNum snapshot))) := by
  rw [reconcileEvents, valid.groupFills_removals zeroMem distinct, pendingEvents_eq, guessedNum,
    ← List.length_append]
  rfl

end Events

theorem executedOrderNum_eq (size : Nat) : executedOrderNum size = 3 * size ⌈/⌉ 10 := by
  rw [executedOrderNum, Nat.ceilDiv_eq_add_pred_div]
  rfl

theorem executedOrderNum_le (size : Nat) : executedOrderNum size ≤ size := by
  unfold executedOrderNum
  omega

/-! ### What the guesses look like -/

section Guesses

variable {invented : List (P × ℤ)} {executed cancelled : List (Order P × ℤ)}

omit [LinearOrder P] in
theorem countP_exec :
    (addEvents isSell invented ++ (execEvents isSell executed ++
      guessedCancels isSell cancelled)).countP (fun e => e.event = .exec) = executed.length := by
  simp [addEvents, execEvents, guessedCancels, List.countP_map, Function.comp_def]

omit [LinearOrder P] in
theorem countP_removes :
    (addEvents isSell invented ++ (execEvents isSell executed ++
      guessedCancels isSell cancelled)).countP (fun e => Removes e) =
        executed.length + cancelled.length := by
  simp [addEvents, execEvents, guessedCancels, List.countP_map, Function.comp_def, Removes]

/-- The removals at a price, in the order of the events. -/
theorem filter_removes (key : P) :
    (addEvents isSell invented ++ (execEvents isSell executed ++
      guessedCancels isSell cancelled)).filter (fun e => Removes e ∧ e.price = key) =
        execEvents isSell (executed.filter fun piece => piece.1.price = key) ++
          guessedCancels isSell (cancelled.filter fun piece => piece.1.price = key) := by
  simp [addEvents, execEvents, guessedCancels, List.filter_map, Function.comp_def, Removes]

end Guesses

/-! ### Price and time -/

/-- The price of the first order is at least as good as that of the second. -/
def NotBehind (isSell : Bool) (first second : Order P × ℤ) : Prop :=
  ¬ PriceComparator isSell second.1.price first.1.price

instance : IsTrans (Order P × ℤ) (NotBehind isSell) where
  trans first second third before later behind := by
    rcases trichotomous_of (PriceComparator isSell) second.1.price third.1.price with
      better | same | worse
    · exact before (Trans.trans better behind)
    · exact before (same ▸ behind)
    · exact later worse

/-- Orders taken from levels in the order of their prices are sorted. -/
theorem Valid.groupFills_sorted (valid : side.Valid slack) {groups : List (P × ℤ)}
    (nonneg : ∀ group ∈ groups, 0 ≤ group.2)
    (sorted : (groups.map Prod.fst).Pairwise (PriceComparator isSell)) :
    (side.groupFills groups).Pairwise (NotBehind isSell) := by
  have priceEq : ∀ group ∈ groups, ∀ piece ∈ fills group.2 (side.ordersAt group.1),
      piece.1.price = group.1 := by
    intro group mem piece taken
    exact valid.linked.order_price
      (QueueFill.mem_pieces (valid.allRemain group.1) (nonneg group mem) taken).1
  rw [groupFills, List.pairwise_flatMap]
  constructor
  · intro group mem
    apply List.pairwise_of_forall_mem_list
    intro first firstMem second secondMem
    rw [NotBehind, priceEq group mem first firstMem, priceEq group mem second secondMem]
    exact irrefl group.1
  · rw [List.pairwise_map] at sorted
    refine sorted.imp_of_mem fun {first second} firstMem secondMem before => ?_
    intro piece pieceMem other otherMem
    rw [NotBehind, priceEq first firstMem piece pieceMem, priceEq second secondMem other otherMem]
    exact asymm before

/-- The orders that distinct groups take at one price. -/
theorem Valid.groupFills_filter (valid : side.Valid slack) {groups : List (P × ℤ)}
    (nonneg : ∀ group ∈ groups, 0 ≤ group.2) (distinct : (groups.map Prod.fst).Nodup) (key : P) :
    ((side.groupFills groups).filter fun piece => piece.1.price = key) =
      fills (amountAt groups key) (side.ordersAt key) := by
  induction groups with
  | nil => exact (fills_zero _).symm
  | cons group groups ih =>
      rw [List.map_cons, List.nodup_cons] at distinct
      rw [List.forall_mem_cons] at nonneg
      have priceEq : ∀ piece ∈ fills group.2 (side.ordersAt group.1), piece.1.price = group.1 :=
        fun piece taken => valid.linked.order_price
          (QueueFill.mem_pieces (valid.allRemain group.1) nonneg.1 taken).1
      rw [groupFills, List.flatMap_cons, List.filter_append]
      have others := ih nonneg.2 distinct.2
      rw [groupFills] at others
      have amountEq : amountAt (group :: groups) key =
          (if group.1 = key then group.2 else 0) + amountAt groups key :=
        QueueFill.takenFrom_cons id group groups key
      rw [others, amountEq]
      by_cases same : group.1 = key
      · subst same
        have rest : amountAt groups group.1 = 0 := amountAt_of_not_mem distinct.1
        rw [List.filter_eq_self.mpr fun piece taken => decide_eq_true (priceEq piece taken)]
        simp [rest]
      · rw [List.filter_eq_nil_iff.mpr fun piece taken => by
          simpa [priceEq piece taken] using same]
        simp [same]

section Priority

variable [Zero P] (valid : side.Valid {0})
  (positive : ∀ l2Level ∈ snapshot, 0 < l2Level.quantity)
  (sorted : (snapshot.map L2PriceLevel.price).Pairwise (PriceComparator isSell))

omit [Zero P] in
include sorted in
theorem prices_nodup : (snapshot.map L2PriceLevel.price).Nodup :=
  sorted.imp ne_of_better

omit [Zero P] in
include valid sorted in
/-- Each of the two lists of candidates has its best price first. -/
theorem Valid.removed_sorted :
    (side.loweredOrders snapshot).Pairwise (NotBehind isSell) ∧
      (side.missingOrders snapshot).Pairwise (NotBehind isSell) := by
  constructor
  · apply valid.groupFills_sorted
    · intro group mem
      obtain ⟨l2Level, -, less, rfl⟩ := mem_lowerings.mp mem
      exact (sub_pos.mpr less).le
    · exact sorted.sublist (keys_filterMap_ite (fun _ => rfl) snapshot)
  · rw [valid.missingOrders_eq]
    apply valid.groupFills_sorted
    · intro group mem
      obtain ⟨entry, entryMem, -, rfl⟩ := mem_dropped.mp mem
      have found := SortedMap.find?_eq_some_iff.mpr entryMem
      rw [← ordersAt_of_find? found]
      exact (valid.allRemain entry.1).total_nonneg
    · exact (List.pairwise_map.mpr side.levels.sorted).sublist
        (keys_filterMap_ite (fun _ => rfl) side.levels.entries)

include valid sorted in
/-- The guesses follow price priority exactly when the cut is in order. -/
theorem Valid.prices_iff :
    (∀ executed ∈ side.reconcileEvents snapshot, executed.event = .exec →
      ∀ cancelled ∈ side.reconcileEvents snapshot, cancelled.event = .cancel →
        ¬ PriceComparator isSell cancelled.price executed.price) ↔
      side.CutInOrder snapshot := by
  obtain ⟨loweredSorted, missingSorted⟩ := valid.removed_sorted sorted
  have cut := cut_sorted_iff loweredSorted missingSorted (side.guessedNum snapshot)
  refine Iff.trans ?_ cut
  rw [valid.reconcileEvents_eq (Set.mem_singleton 0) (prices_nodup sorted)]
  constructor
  · intro separated early earlyMem late lateMem
    exact separated ⟨.exec, early.1.odid, isSell, early.2, early.1.price⟩
      (List.mem_append_right _ (List.mem_append_left _ (List.mem_map_of_mem earlyMem))) rfl
      ⟨.cancel, late.1.odid, isSell, late.2, late.1.price⟩
      (List.mem_append_right _ (List.mem_append_right _ (List.mem_map_of_mem lateMem))) rfl
  · intro ordered executed executedMem isExec cancelled cancelledMem isCancel
    have early : ∃ piece ∈ (side.removedOrders snapshot).take (side.guessedNum snapshot),
        executed.price = piece.1.price := by
      simp only [List.mem_append, addEvents, execEvents, guessedCancels, List.mem_map]
        at executedMem
      rcases executedMem with ⟨_, -, rfl⟩ | ⟨piece, mem, rfl⟩ | ⟨_, -, rfl⟩
      · cases isExec
      · exact ⟨piece, mem, rfl⟩
      · cases isExec
    have late : ∃ piece ∈ (side.removedOrders snapshot).drop (side.guessedNum snapshot),
        cancelled.price = piece.1.price := by
      simp only [List.mem_append, addEvents, execEvents, guessedCancels, List.mem_map]
        at cancelledMem
      rcases cancelledMem with ⟨_, -, rfl⟩ | ⟨_, -, rfl⟩ | ⟨piece, mem, rfl⟩
      · cases isCancel
      · cases isCancel
      · exact ⟨piece, mem, rfl⟩
    obtain ⟨first, firstMem, firstPrice⟩ := early
    obtain ⟨second, secondMem, secondPrice⟩ := late
    rw [firstPrice, secondPrice]
    exact ordered first firstMem second secondMem

include valid positive sorted in
/-- At each price the removed orders are the first ones of the queue. -/
theorem Valid.removed_ahead (key : P) :
    ((side.removedOrders snapshot).filter fun piece => piece.1.price = key).map
        (fun piece => piece.1.odid) <+: ids (side.ordersAt key) := by
  have distinct := prices_nodup sorted
  have compared := valid.comparedSide (Set.mem_singleton 0) snapshot
  rw [← valid.groupFills_removals (Set.mem_singleton 0) distinct,
    compared.groupFills_filter compared.removals_nonneg (removals_nodup distinct)]
  by_cases removed : key ∈ (side.removals snapshot).map Prod.fst
  · obtain ⟨qty, mem⟩ := exists_amount removed
    have notInvented := (valid.removal_fits positive distinct mem).1
    rw [ordersAt_congr (find?_comparedSide_of_not_mem notInvented)]
    have ahead := (QueueFill.pieces_ahead Order.getRemainingQuantity
      (amountAt (side.removals snapshot) key) (side.ordersAt key)).map Order.odid
    rwa [List.map_map] at ahead
  · rw [amountAt_of_not_mem removed, fills_zero]
    exact List.nil_prefix

include valid positive sorted in
theorem Valid.priorityGuess_iff :
    side.PriorityGuess (side.reconcileEvents snapshot) ↔ side.CutInOrder snapshot := by
  have prices := valid.prices_iff sorted
  refine ⟨fun guess => prices.mp guess.price, fun ordered => ⟨?_, prices.mpr ordered, ?_, ?_⟩⟩
  all_goals rw [valid.reconcileEvents_eq (Set.mem_singleton 0) (prices_nodup sorted)]
  · have lengthEq : (side.removedOrders snapshot).length =
        (side.loweredOrders snapshot).length + (side.missingOrders snapshot).length :=
      List.length_append
    have fits : side.guessedNum snapshot ≤ (side.removedOrders snapshot).length := by
      rw [lengthEq]
      exact executedOrderNum_le _
    rw [countP_exec, countP_removes, ← List.length_append, List.take_append_drop,
      List.length_take, min_eq_left fits, guessedNum, executedOrderNum_eq, lengthEq]
  · intro key
    rw [filter_removes]
    have ahead := valid.removed_ahead positive sorted key
    rw [← List.take_append_drop (side.guessedNum snapshot) (side.removedOrders snapshot),
      List.filter_append, List.map_append] at ahead
    simpa [execEvents, guessedCancels, Function.comp_def] using ahead
  · intro key
    rw [filter_removes, List.pairwise_append]
    refine ⟨?_, ?_, ?_⟩
    · apply List.pairwise_of_forall_mem_list
      intro first firstMem _ _ _
      obtain ⟨piece, -, rfl⟩ := List.mem_map.mp firstMem
      rfl
    · apply List.pairwise_of_forall_mem_list
      intro _ _ second secondMem isExec
      obtain ⟨piece, -, rfl⟩ := List.mem_map.mp secondMem
      cases isExec
    · intro first firstMem _ _ _
      obtain ⟨piece, -, rfl⟩ := List.mem_map.mp firstMem
      rfl

end Priority

end BookSide

/-- For a snapshot that no one expects, the guesses follow price priority exactly when the last
lowered order that is guessed as executed is not behind the first missing order that is
guessed as cancelled.  The number of executions and the order of the queues are as they
should be in any case. -/
theorem processL2Snapshot_guesses_iff [Zero P] {isSell : Bool} {side : BookSide P isSell}
    (rep : side.RepInvariant) (idle : side.l2SnapQueue = []) {snapshot : L2SnapshotSide P}
    (positive : ∀ l2Level ∈ snapshot, 0 < l2Level.quantity)
    (sorted : (snapshot.map L2PriceLevel.price).Pairwise (PriceComparator isSell)) :
    side.GuessesByPriority snapshot ↔ side.CutInOrder snapshot := by
  have valid := BookSide.repInvariant_iff_valid.mp rep
  have returned := valid.reconcile_eq (Set.mem_singleton 0) positive
    (BookSide.prices_nodup sorted)
  rw [← BookSide.processL2Snapshot_reconciles idle] at returned
  rw [← valid.priorityGuess_iff positive sorted]
  constructor
  · rintro ⟨final, events, otherReturned, guess⟩
    cases returned.symm.trans otherReturned
    exact guess
  · intro guess
    exact ⟨_, _, returned, guess⟩

/-- Of two asks the better one is lowered and the other one is missing. -/
theorem twoPrice_guesses : twoPriceSide.GuessesByPriority [⟨100, 4⟩] := by
  apply (processL2Snapshot_guesses_iff (BookSide.repInvariant_iff_valid.mpr twoPriceSide_valid)
    rfl (by decide) (by decide)).mpr
  unfold BookSide.CutInOrder
  decide

/-- The better ask is missing and the other one is lowered: the lowered one comes first and is
guessed as executed at 101, the better one as cancelled at 100. -/
theorem twoPrice_missing_not_guessed :
    twoPriceSide.RepInvariant ∧ twoPriceSide.l2SnapQueue = [] ∧
      ¬ twoPriceSide.GuessesByPriority [⟨101, 3⟩] := by
  refine ⟨BookSide.repInvariant_iff_valid.mpr twoPriceSide_valid, rfl, ?_⟩
  rintro ⟨final, events, returned, guess⟩
  have reconciled : ((twoPriceSide.processL2Snapshot [⟨101, 3⟩]).toOption.map Prod.snd) =
      some [⟨.exec, 2, true, 2, 101⟩, ⟨.cancel, 1, true, 10, 100⟩] := by decide
  rw [returned] at reconciled
  cases reconciled
  have better := guess.price ⟨.exec, 2, true, 2, 101⟩ (by simp) rfl ⟨.cancel, 1, true, 10, 100⟩
    (by simp) rfl
  revert better
  decide

end OrderBook
