import OrderBook.BookSideProcess
import OrderBook.InputRun

/-!
# Snapshots that a side expects

A side saves its view after every change that a snapshot will show.  While the
queue of saved views is not empty, a snapshot either is its front and is dropped
from it, or differs from it and is ignored.  Once the queue is empty, the current
view has nothing to reconcile.
-/

namespace OrderBook

open FueledLoop InputRun

variable {P : Type} [LinearOrder P] {isSell : Bool}

/-- The snapshots of a queue in their order and then a last one, with any snapshots in
between that differ from the front of the queue at their time. -/
inductive Woven (last : L2SnapshotSide P) :
    List (L2SnapshotSide P) → List (L2SnapshotSide P) → Prop
  | last : Woven last [] [last]
  | expected {front : L2SnapshotSide P} {queue feed : List (L2SnapshotSide P)} :
      Woven last queue feed → Woven last (front :: queue) (front :: feed)
  | polluted {front other : L2SnapshotSide P} {queue feed : List (L2SnapshotSide P)} :
      other ≠ front → Woven last (front :: queue) feed →
        Woven last (front :: queue) (other :: feed)

omit [LinearOrder P] in
theorem woven_append (last : L2SnapshotSide P) (queue : List (L2SnapshotSide P)) :
    Woven last queue (queue ++ [last]) := by
  induction queue with
  | nil => exact Woven.last
  | cons front queue ih => exact Woven.expected ih

namespace BookSide

variable [Zero P] {side : BookSide P isSell}

/-- A call of `processL2Snapshot` that returns no event. -/
def SilentSnapshot (side : BookSide P isSell) (snapshot : L2SnapshotSide P)
    (next : BookSide P isSell) : Prop :=
  side.processL2Snapshot snapshot = .ok (next, [])

/-- The first pass does nothing on levels that the side shows itself. -/
theorem firstPass_shown {entries : List (P × L3PriceLevel P)}
    (shown : ∀ entry ∈ entries, entry ∈ side.levels.entries) (id : ℤ) :
    (entries.map fun entry => (⟨entry.1, entry.2.quantity⟩ : L2PriceLevel P)).foldlM
      reconcileLevel ⟨side, [], [], id⟩ = .ok ⟨side, [], [], id⟩ := by
  induction entries with
  | nil => rfl
  | cons entry entries ih =>
      obtain ⟨key, level⟩ := entry
      have found : side.levels.find? key = some level :=
        SortedMap.find?_eq_some_iff.mpr (shown _ List.mem_cons_self)
      have same : reconcileLevel ⟨side, [], [], id⟩ ⟨key, level.quantity⟩ =
          .ok ⟨side, [], [], id⟩ := by
        simp [reconcileLevel, found]
      rw [List.map_cons, List.foldlM_cons, same, ok_bind]
      exact ih fun other mem => shown other (List.mem_cons_of_mem _ mem)

omit [Zero P] in
theorem missingOrders_l2View (side : BookSide P isSell) : side.missingOrders side.l2View = [] := by
  apply List.flatMap_eq_nil_iff.mpr
  intro entry mem
  have shown : entry.1 ∈ side.l2View.map L2PriceLevel.price :=
    List.mem_map.mpr ⟨_, List.mem_map_of_mem mem, rfl⟩
  rw [if_pos shown]

/-- A side that is compared with its own view stays as it is. -/
theorem reconcile_l2View (side : BookSide P isSell) :
    side.reconcile side.l2View = .ok (side, []) := by
  have compared : side.l2View.foldlM reconcileLevel ⟨side, [], [], 100⟩ =
      .ok ⟨side, [], [], 100⟩ := firstPass_shown (fun _ mem => mem) 100
  rw [reconcile, compared, ok_bind]
  simp [missingOrders_l2View]

theorem silentSnapshot_current (idle : side.l2SnapQueue = []) :
    side.SilentSnapshot side.l2View side := by
  unfold SilentSnapshot processL2Snapshot
  rw [idle]
  exact side.reconcile_l2View

theorem silentSnapshot_expected {front : L2SnapshotSide P} {queue : List (L2SnapshotSide P)}
    (expecting : side.l2SnapQueue = front :: queue) :
    side.SilentSnapshot front { side with l2SnapQueue := queue } := by
  simp [SilentSnapshot, processL2Snapshot, expecting]

theorem silentSnapshot_polluted {front other : L2SnapshotSide P}
    {queue : List (L2SnapshotSide P)} (expecting : side.l2SnapQueue = front :: queue)
    (different : other ≠ front) : side.SilentSnapshot other side := by
  simp [SilentSnapshot, processL2Snapshot, expecting, different.symm]

/-- Only the queue changes while expected and polluted snapshots arrive. -/
theorem run_of_woven {queue feed : List (L2SnapshotSide P)}
    (expecting : side.l2SnapQueue = queue) (woven : Woven side.l2View queue feed) :
    Run SilentSnapshot side feed { side with l2SnapQueue := [] } := by
  generalize viewEq : side.l2View = view at woven
  induction woven generalizing side with
  | last =>
      have idle : { side with l2SnapQueue := [] } = side := by rw [← expecting]
      rw [idle, ← viewEq]
      exact Run.cons (silentSnapshot_current expecting) Run.start
  | @expected front queue feed woven ih =>
      have dropped := silentSnapshot_expected expecting
      exact Run.cons dropped (@ih { side with l2SnapQueue := queue } rfl viewEq)
  | polluted different woven ih =>
      exact Run.cons (silentSnapshot_polluted expecting different) (ih expecting viewEq)

theorem SilentSnapshot.unique {first second : BookSide P isSell} {snapshot : L2SnapshotSide P}
    (silent : side.SilentSnapshot snapshot first)
    (other : side.SilentSnapshot snapshot second) : first = second := by
  have same := silent.symm.trans other
  cases same
  rfl

/-- Part of the way only the queue has changed, too. -/
theorem frame_of_woven {view : L2SnapshotSide P} {queue feed : List (L2SnapshotSide P)}
    (woven : Woven view queue feed) (expecting : side.l2SnapQueue = queue)
    (viewEq : side.l2View = view) {earlier later : List (L2SnapshotSide P)}
    {state : BookSide P isSell} (split : feed = earlier ++ later)
    (run : Run SilentSnapshot side earlier state) :
    ∃ left, state = { side with l2SnapQueue := left } := by
  induction woven generalizing side earlier with
  | last =>
      rcases run.of_front split with rfl | ⟨second, rest, stepped, afterwards, tailEq⟩
      · exact ⟨_, rfl⟩
      · obtain ⟨rfl, -⟩ := List.append_eq_nil_iff.mp tailEq.symm
        subst viewEq
        obtain rfl := stepped.unique (silentSnapshot_current expecting)
        exact ⟨_, afterwards.eq_start⟩
  | @expected front queue feed woven ih =>
      rcases run.of_front split with rfl | ⟨second, rest, stepped, afterwards, tailEq⟩
      · exact ⟨_, rfl⟩
      · obtain rfl := stepped.unique (silentSnapshot_expected expecting)
        exact @ih { side with l2SnapQueue := queue } rfl viewEq _ tailEq afterwards
  | polluted different woven ih =>
      rcases run.of_front split with rfl | ⟨second, rest, stepped, afterwards, tailEq⟩
      · exact ⟨_, rfl⟩
      · obtain rfl := stepped.unique (silentSnapshot_polluted expecting different)
        exact ih expecting viewEq tailEq afterwards

end BookSide

/-- The views that a side has saved, and then its current view, are dropped one by one
without an event, also with polluted snapshots in between.  All the way only the queue
changes, and it is empty in the end. -/
theorem expectedSnapshots_noop [Zero P] (side : BookSide P isSell) :
    Run BookSide.SilentSnapshot side (side.l2SnapQueue ++ [side.l2View])
      { side with l2SnapQueue := [] } ∧
    ∀ feed, Woven side.l2View side.l2SnapQueue feed →
      Run BookSide.SilentSnapshot side feed { side with l2SnapQueue := [] } ∧
      ∀ earlier later state, feed = earlier ++ later →
        Run BookSide.SilentSnapshot side earlier state →
          state.levels = side.levels ∧ state.orderMap = side.orderMap ∧
            state.pendingLiqRemoveQty = side.pendingLiqRemoveQty ∧
            state.pendingLiqAddQty = side.pendingLiqAddQty := by
  constructor
  · exact BookSide.run_of_woven rfl (woven_append _ _)
  · intro feed woven
    constructor
    · exact BookSide.run_of_woven rfl woven
    · intro earlier later state split run
      obtain ⟨left, rfl⟩ := BookSide.frame_of_woven woven rfl rfl split run
      exact ⟨rfl, rfl, rfl, rfl⟩

/-- An ask of which a trade has taken a part: the side expects to see what is left. -/
def partTradedSide : BookSide ℤ true :=
  ((do
    let resting ← BookSide.empty.addOrder ⟨1, true, 10, 100, 0⟩
    let (traded, _) ← resting.processTrade 9 ⟨4, 100⟩
    return traded : Except Halt (BookSide ℤ true)).toOption).getD .empty

/-- A snapshot of the time before the trade is ignored. -/
theorem partTradedSide_noop :
    Run BookSide.SilentSnapshot partTradedSide [[⟨100, 10⟩], [⟨100, 6⟩], [⟨100, 6⟩]]
      { partTradedSide with l2SnapQueue := [] } := by
  have woven : Woven [⟨100, 6⟩] [[⟨100, 6⟩]]
      [[⟨100, 10⟩], [⟨100, 6⟩], ([⟨100, 6⟩] : L2SnapshotSide ℤ)] :=
    .polluted (by decide) (.expected .last)
  exact ((expectedSnapshots_noop partTradedSide).2 _ woven).1

end OrderBook
