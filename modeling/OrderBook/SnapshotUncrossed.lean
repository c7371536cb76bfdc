import OrderBook.Uncrossed

/-!
# Snapshots and the uncrossed book

Each side compares its half of a snapshot with its own queue of expected ones.
When both sides reconcile, the book takes over the prices of the snapshot; when
none does, its levels stay.  When only one side reconciles, its new prices meet
levels of the other side that the snapshot does not show.
-/

namespace OrderBook

open FueledLoop InputRun

variable {P : Type} [LinearOrder P]

namespace BookSide

variable {isSell : Bool} {side : BookSide P isSell}

/-- A reconciliation puts a new order at this price: the snapshot shows more than the
side holds, and the invented id is free. -/
def AddsAt (side : BookSide P isSell) (snapshot : L2SnapshotSide P) (price : P) : Prop :=
  ∃ (i : Nat) (qty : ℤ), (side.inventions snapshot)[i]? = some (price, qty) ∧
    side.existOrder (100 + i) = false

theorem AddsAt.shown {snapshot : L2SnapshotSide P} {price : P}
    (adds : side.AddsAt snapshot price) : price ∈ snapshot.map L2PriceLevel.price := by
  obtain ⟨i, qty, at?, -⟩ := adds
  obtain ⟨l2Level, mem, -, pieceEq⟩ := mem_inventions.mp (List.mem_of_getElem? at?)
  cases pieceEq
  exact List.mem_map_of_mem mem

/-- The levels of a side after its half of a snapshot. -/
theorem Valid.existLevel_snapshot [Zero P] (valid : side.Valid {gap | 0 ≤ gap})
    {snapshot : L2SnapshotSide P} (positive : ∀ l2Level ∈ snapshot, 0 < l2Level.quantity)
    (distinct : (snapshot.map L2PriceLevel.price).Nodup) :
    ∃ final events, side.processL2Snapshot snapshot = .ok (final, events) ∧
      (side.l2SnapQueue ≠ [] → ∀ key, final.existLevel key = side.existLevel key) ∧
      (side.l2SnapQueue = [] → ∀ key, final.existLevel key = true ↔
        key ∈ snapshot.map L2PriceLevel.price ∧
          (side.existLevel key = true ∨ side.AddsAt snapshot key)) := by
  by_cases idle : side.l2SnapQueue = []
  · refine ⟨side.reconciled snapshot, _, (processL2Snapshot_reconciles idle).trans
      (valid.reconcile_eq zero_mem_nonneg positive distinct), fun busy => (busy idle).elim,
      fun _ key => ?_⟩
    rw [valid.existLevel_reconciled positive distinct, BookSide.comparedSide, existLevel_inventAll]
    rfl
  · obtain ⟨queue, returned⟩ := processL2Snapshot_expecting idle snapshot
    exact ⟨_, _, returned, fun _ _ => rfl, fun empty => (idle empty).elim⟩

end BookSide

/-- The bids of a snapshot are below its asks. -/
def SnapshotMessage.Uncrossed (msg : SnapshotMessage P) : Prop :=
  ∀ bid ∈ msg.bidLevels, ∀ ask ∈ msg.askLevels, bid.price < ask.price

instance (msg : SnapshotMessage P) : Decidable msg.Uncrossed :=
  inferInstanceAs (Decidable (∀ bid ∈ msg.bidLevels, ∀ ask ∈ msg.askLevels, bid.price < ask.price))

theorem SnapshotMessage.uncrossed_iff {msg : SnapshotMessage P} (isSell : Bool) :
    msg.Uncrossed ↔ ∀ {own other : P}, own ∈ (msg.levels isSell).map L2PriceLevel.price →
      other ∈ (msg.levels (!isSell)).map L2PriceLevel.price →
        PriceComparator (!isSell) own other := by
  simp only [List.mem_map]
  constructor
  · rintro apart own other ⟨ownLevel, ownMem, rfl⟩ ⟨otherLevel, otherMem, rfl⟩
    cases isSell with
    | false => exact apart ownLevel ownMem otherLevel otherMem
    | true => exact apart otherLevel otherMem ownLevel ownMem
  · intro apart bid bidMem ask askMem
    cases isSell with
    | false => exact apart ⟨bid, bidMem, rfl⟩ ⟨ask, askMem, rfl⟩
    | true => exact apart ⟨ask, askMem, rfl⟩ ⟨bid, bidMem, rfl⟩

namespace SmartOrderBook

/-- No price that only one side takes over from a snapshot crosses the other side. -/
def SnapshotFits (book : SmartOrderBook P) (msg : SnapshotMessage P) : Prop :=
  ∀ isSell, (book.sides isSell).l2SnapQueue = [] → (book.sides (!isSell)).l2SnapQueue ≠ [] →
    ∀ price, (book.sides isSell).AddsAt (msg.levels isSell) price →
      ∀ other, (book.sides (!isSell)).existLevel other = true →
        PriceComparator (!isSell) price other

/-- What is known of the levels after a snapshot decides whether they are crossed. -/
theorem uncrossed_iff_snapshotFits {book final : SmartOrderBook P} {msg : SnapshotMessage P}
    (uncrossed : book.Uncrossed) (apart : msg.Uncrossed)
    (busy : ∀ isSell, (book.sides isSell).l2SnapQueue ≠ [] → ∀ key,
      (final.sides isSell).existLevel key = (book.sides isSell).existLevel key)
    (idle : ∀ isSell, (book.sides isSell).l2SnapQueue = [] → ∀ key,
      (final.sides isSell).existLevel key = true ↔
        key ∈ (msg.levels isSell).map L2PriceLevel.price ∧
          ((book.sides isSell).existLevel key = true ∨
            (book.sides isSell).AddsAt (msg.levels isSell) key)) :
    final.Uncrossed ↔ book.SnapshotFits msg := by
  constructor
  · intro finalUncrossed isSell ownIdle otherBusy price adds other present
    apply (uncrossed_iff isSell).mp finalUncrossed
    · exact (idle isSell ownIdle price).mpr ⟨adds.shown, Or.inr adds⟩
    · rwa [busy (!isSell) otherBusy other]
  · intro fits
    -- only one of the sides reconciles
    have oneIdle : ∀ isSell, (book.sides isSell).l2SnapQueue = [] →
        (book.sides (!isSell)).l2SnapQueue ≠ [] → final.Uncrossed := by
      intro isSell ownIdle otherBusy
      rw [uncrossed_iff isSell]
      intro own other ownPresent otherPresent
      rw [busy (!isSell) otherBusy other] at otherPresent
      rcases ((idle isSell ownIdle own).mp ownPresent).2 with old | adds
      · exact (uncrossed_iff isSell).mp uncrossed old otherPresent
      · exact fits isSell ownIdle otherBusy own adds other otherPresent
    by_cases bidIdle : (book.sides false).l2SnapQueue = []
    · by_cases askIdle : (book.sides true).l2SnapQueue = []
      · rw [uncrossed_iff false]
        intro own other ownPresent otherPresent
        exact (SnapshotMessage.uncrossed_iff false).mp apart
          ((idle false bidIdle own).mp ownPresent).1
          ((idle true askIdle other).mp otherPresent).1
      · exact oneIdle false bidIdle askIdle
    · by_cases askIdle : (book.sides true).l2SnapQueue = []
      · exact oneIdle true askIdle bidIdle
      · have bothBusy : ∀ isSell, (book.sides isSell).l2SnapQueue ≠ [] :=
          forall_side false bidIdle askIdle
        apply uncrossed.of_narrows
        intro isSell price present
        rwa [← busy isSell (bothBusy isSell) price]

end SmartOrderBook

/-- A snapshot with bids below its asks leaves a reachable uncrossed book uncrossed
exactly when no price that only one side takes over crosses the other side. -/
theorem snapshot_uncrossed_iff_fits [Zero P] {book : SmartOrderBook P}
    (reachable : book.Reachable) (uncrossed : book.Uncrossed) {msg : SnapshotMessage P}
    (positive : ∀ isSell, ∀ l2Level ∈ msg.levels isSell, 0 < l2Level.quantity)
    (distinct : ∀ isSell, ((msg.levels isSell).map L2PriceLevel.price).Nodup)
    (apart : msg.Uncrossed) :
    (∃ final events, book.processSnapshotMessage msg = .ok (final, events) ∧
        final.Uncrossed) ↔ book.SnapshotFits msg := by
  choose final events returned busy idle using fun isSell =>
    (reachable.valid isSell).existLevel_snapshot (positive isSell) (distinct isSell)
  have processed : book.processSnapshotMessage msg =
      .ok (⟨final⟩, events false ++ events true) :=
    SmartOrderBook.processSnapshotMessage_eq_ok.mpr ⟨events, rfl, returned⟩
  have decided : (⟨final⟩ : SmartOrderBook P).Uncrossed ↔ book.SnapshotFits msg :=
    SmartOrderBook.uncrossed_iff_snapshotFits uncrossed apart busy idle
  constructor
  · rintro ⟨other, otherEvents, otherProcessed, otherUncrossed⟩
    rw [processed] at otherProcessed
    cases otherProcessed
    exact decided.mp otherUncrossed
  · intro fits
    exact ⟨_, _, processed, decided.mpr fits⟩

/-- An ask of which a bid takes a part: the ask side expects a snapshot. -/
def partMessages : List (Message ℤ) :=
  [.add ⟨.add, 1, true, 10, 100⟩, .add ⟨.add, 2, false, 5, 100⟩]

def partBook : SmartOrderBook ℤ :=
  ((SmartOrderBook.empty.processAll 9 partMessages).toOption).getD .empty

theorem partBook_reachable : partBook.Reachable :=
  ⟨partMessages, SmartOrderBook.run_of_processAll 9 rfl, by decide⟩

theorem partBook_uncrossed : partBook.Uncrossed :=
  SmartOrderBook.uncrossed_iff_lt.mpr fun present => nomatch (show false = true from present)

/-- The bid side takes over a bid at 99.  The ask side expects another snapshot and keeps its
ask at 100. -/
theorem snapshot_of_partBook_uncrossed :
    ∃ final events, partBook.processSnapshotMessage ⟨[⟨99, 5⟩], [⟨102, 10⟩]⟩ =
      .ok (final, events) ∧ final.Uncrossed := by
  refine (snapshot_uncrossed_iff_fits partBook_reachable partBook_uncrossed (by decide) (by decide)
    (by decide)).mpr ?_
  intro isSell idle _ price adds other present
  cases isSell with
  | false =>
      have priceEq : price = 99 := by simpa [SnapshotMessage.levels] using adds.shown
      have otherEq : other = 100 := by
        obtain ⟨level, found⟩ := BookSide.existLevel_iff.mp present
        have mem : (other, level) ∈ (partBook.sides true).levels.entries :=
          SortedMap.find?_eq_some_iff.mp found
        have askPrices : (partBook.sides true).levels.entries.map Prod.fst = [100] := rfl
        simpa [askPrices] using List.mem_map_of_mem (f := Prod.fst) mem
      rw [priceEq, otherEq]
      decide
  | true =>
      have waits : (partBook.sides true).l2SnapQueue = [[⟨100, 5⟩]] := rfl
      rw [waits] at idle
      cases idle

/-- A snapshot of a market that has moved up. -/
def higherSnapshot : SnapshotMessage ℤ := ⟨[⟨101, 5⟩], [⟨102, 10⟩]⟩

/-- The bid side takes over the bid at 101 while the ask at 100 stays. -/
theorem snapshot_crosses_book :
    partBook.Reachable ∧ partBook.Uncrossed ∧
      (∀ isSell, ∀ l2Level ∈ higherSnapshot.levels isSell, 0 < l2Level.quantity) ∧
      (∀ isSell, ((higherSnapshot.levels isSell).map L2PriceLevel.price).Nodup) ∧
      higherSnapshot.Uncrossed ∧
      ∃ final events, partBook.processSnapshotMessage higherSnapshot = .ok (final, events) ∧
        ¬ final.Uncrossed := by
  refine ⟨partBook_reachable, partBook_uncrossed, by decide, by decide, by decide, _, _, rfl, ?_⟩
  intro finalUncrossed
  have crossed : (101 : ℤ) < 100 := finalUncrossed (101, _) rfl (100, _) rfl
  exact absurd crossed (by decide)

end OrderBook
