import OrderBook.PendingAdd

/-!
# Draining the expected liquidity

An order should drain the ledger of expected liquidity greedily: entry by entry
from the first key on, until the order or the ledger is used up, with every used
entry erased.  `matchPendingLiqAdd` does so exactly as long as it uses up no entry
under another key than the limit of the order.
-/

namespace OrderBook

open FueledLoop

variable {P : Type} [LinearOrder P]

namespace BookSide

variable {isSell : Bool} {before : P → P → Prop}

/-! ### Ledgers as queues -/

/-- Take a part of an entry. -/
def cutEntry (entry : P × ℤ) (taken : ℤ) : P × ℤ := (entry.1, entry.2 - taken)

omit [LinearOrder P] in
theorem cutEntry_lawful : QueueFill.Lawful (Prod.snd : P × ℤ → ℤ) cutEntry where
  size_cut _ _ := rfl
  cut_cut entry first second := by simp only [cutEntry, sub_sub]
  cut_zero entry := by simp only [cutEntry, sub_zero]

/-- All the quantity that a ledger holds. -/
def ledgerTotal (pending : SortedMap P ℤ before) : ℤ := QueueFill.total Prod.snd pending.entries

/-- The entries left after a quantity is taken from the first keys on. -/
def drainedEntries (quantity : ℤ) (entries : List (P × ℤ)) : List (P × ℤ) :=
  QueueFill.remaining Prod.snd cutEntry quantity entries

theorem positiveLedger_iff [IsStrictTotalOrder P before] {pending : SortedMap P ℤ before} :
    PositiveLedger pending ↔ QueueFill.Positive Prod.snd pending.entries := by
  constructor
  · intro positive entry mem
    exact positive (SortedMap.find?_eq_some_iff.mpr mem)
  · intro positive price qty found
    exact positive (price, qty) (SortedMap.find?_eq_some_iff.mp found)

/-- An order of this limit may meet the first entry. -/
def ReachesFirst (side : BookSide P isSell) (price : P) : Prop :=
  ∃ first held, side.pendingLiqAddQty.begin? = some (first, held) ∧ Reaches isSell price first

/-- The call returns.  Without an entry in reach nothing is matched; otherwise the order
and the entries, from the first key on, use each other up.  All entries that are left
are positive, and the matched quantity is what the ledger has lost. -/
def DrainsGreedily (side : BookSide P isSell) (quantity : ℤ) (price : P) : Prop :=
  ∃ final matched,
    Returns (fun fuel => side.matchPendingLiqAdd fuel quantity price) (final, matched) ∧
    (¬ side.ReachesFirst price →
      matched = 0 ∧ final.pendingLiqAddQty = side.pendingLiqAddQty) ∧
    (side.ReachesFirst price →
      matched = min quantity (ledgerTotal side.pendingLiqAddQty) ∧
        final.pendingLiqAddQty.entries =
          drainedEntries quantity side.pendingLiqAddQty.entries) ∧
    PositiveLedger final.pendingLiqAddQty ∧
    ledgerTotal final.pendingLiqAddQty = ledgerTotal side.pendingLiqAddQty - matched

section Drain

variable {side : BookSide P isSell} {price first : P} {held quantity : ℤ}
  {others : List (P × ℤ)}

/-- Without an entry in reach the loop ends at once. -/
theorem matchLoop_beyond (beyond : ¬ side.ReachesFirst price) (quantity : ℤ) :
    Returns (fun fuel => loop (matchPendingLiqAddBody isSell quantity price) fuel
      (side.pendingLiqAddQty, 0)) (side.pendingLiqAddQty, 0) := by
  apply Returns.of_done
  cases begins : side.pendingLiqAddQty.begin? with
  | none => exact matchBody_empty _ _ _ begins
  | some entry =>
      exact matchBody_beyond _ _ begins fun reaches => beyond ⟨_, _, begins, reaches⟩

theorem drainsGreedily_of_beyond (positive : PositiveLedger side.pendingLiqAddQty)
    (beyond : ¬ side.ReachesFirst price) : side.DrainsGreedily quantity price := by
  exact ⟨side, 0, matchPendingLiqAdd_of_loop (matchLoop_beyond beyond quantity), fun _ => ⟨rfl, rfl⟩,
    fun reaches => (beyond reaches).elim, positive, (sub_zero _).symm⟩

/-- With an entry in reach it is enough that the loop drains the queue of entries. -/
theorem drainsGreedily_of_loop (positive : PositiveLedger side.pendingLiqAddQty)
    (pos : 0 < quantity) (reaches : side.ReachesFirst price)
    {ledger : SortedMap P ℤ (PriceComparator isSell)} {matched : ℤ}
    (looped : Returns (fun fuel => loop (matchPendingLiqAddBody isSell quantity price) fuel
      (side.pendingLiqAddQty, 0)) (ledger, matched))
    (matchedEq : matched = min quantity (ledgerTotal side.pendingLiqAddQty))
    (entriesEq : ledger.entries = drainedEntries quantity side.pendingLiqAddQty.entries) :
    side.DrainsGreedily quantity price := by
  have entriesPos := positiveLedger_iff.mp positive
  refine ⟨_, matched, matchPendingLiqAdd_of_loop looped, fun beyond => (beyond reaches).elim,
    fun _ => ⟨matchedEq, entriesEq⟩, positiveLedger_iff.mpr ?_, ?_⟩
  · rw [entriesEq]
    exact entriesPos.remaining cutEntry_lawful
  · rw [ledgerTotal, entriesEq, matchedEq]
    exact QueueFill.total_remaining cutEntry_lawful entriesPos pos.le

/-- A call that returns is a loop that returns. -/
theorem loop_of_matchPendingLiqAdd {final : BookSide P isSell} {matched : ℤ}
    (returns : Returns (fun fuel => side.matchPendingLiqAdd fuel quantity price)
      (final, matched)) :
    Returns (fun fuel => loop (matchPendingLiqAddBody isSell quantity price) fuel
      (side.pendingLiqAddQty, 0)) (final.pendingLiqAddQty, matched) := by
  obtain ⟨fuel, returned⟩ := returns
  obtain ⟨⟨ledger, taken⟩, looped, finalEq⟩ := bind_eq_ok.mp returned
  cases finalEq
  exact ⟨fuel, looped⟩

/-- Using up an entry under another key never leads to a ledger of positive entries: the
loop does not end, or leaves the entry at zero. -/
theorem not_positive_of_usedUp {pending ledger : SortedMap P ℤ (PriceComparator isSell)}
    {matched last : ℤ} (begins : pending.begin? = some (first, held))
    (reaches : Reaches isSell price first) (different : price ≠ first) (heldPos : 0 < held)
    (enough : matched + held ≤ quantity)
    (looped : Returns (fun fuel => loop (matchPendingLiqAddBody isSell quantity price) fuel
      (pending, matched)) (ledger, last)) : ¬ PositiveLedger ledger := by
  intro positive
  rcases enough.lt_or_eq with less | all
  · obtain ⟨fuel, returned⟩ := looped
    have never := matchLoop_diverges begins reaches different heldPos.le less fuel
    cases never.symm.trans returned
  · have covered := matchLoop_covered begins reaches (show quantity - matched ≤ held by omega)
    have same := Returns.unique (loop_monotone _) looped covered
    cases same
    have left := SortedMap.find?_of_begin?
      (begin?_drainFirst begins different (quantity - matched))
    have := positive left
    omega

variable {pending : SortedMap P ℤ (PriceComparator isSell)}

theorem entries_drainFirst_short (entriesEq : pending.entries = (first, held) :: others)
    {taken : ℤ} (short : taken < held) :
    (drainFirst pending price first held taken).entries = (first, held - taken) :: others := by
  rw [drainFirst, if_neg (by omega)]
  exact SortedMap.entries_insert_first entriesEq _

theorem entries_drainFirst_atLimit (entriesEq : pending.entries = (first, held) :: others) :
    (drainFirst pending first first held held).entries = others := by
  rw [drainFirst, if_pos (sub_self held), SortedMap.erase_insert]
  exact SortedMap.entries_erase_first entriesEq

/-- A limit that reaches the first key reaches every other key too. -/
theorem Reaches.other (reaches : Reaches isSell price first)
    (entriesEq : pending.entries = (first, held) :: others) {entry : P × ℤ}
    (mem : entry ∈ others) : Reaches isSell price entry.1 ∧ price ≠ entry.1 := by
  have sorted := pending.sorted
  rw [entriesEq, List.pairwise_cons] at sorted
  have later : PriceComparator isSell first entry.1 := sorted.1 entry mem
  constructor
  · intro better
    exact reaches (Trans.trans later better)
  · rintro rfl
    exact reaches later

/-- The ledger by whether its first key is the limit: the first entry under another key, and
what is held at the limit. -/
theorem elsewhere_of_eq (entriesEq : pending.entries = (price, held) :: others) :
    (pending.entries.filter fun entry => entry.1 ≠ price) = others ∧
      qtyAt pending price = held := by
  have reaches : Reaches isSell price price := irrefl price
  constructor
  · rw [entriesEq, List.filter_cons_of_neg (by simp)]
    exact List.filter_eq_self.mpr fun entry mem =>
      decide_eq_true (reaches.other entriesEq mem).2.symm
  · exact qtyAt_of_find? (SortedMap.find?_eq_some_iff.mpr (by simp [entriesEq]))

theorem elsewhere_of_ne (entriesEq : pending.entries = (first, held) :: others)
    (reaches : Reaches isSell price first) (different : price ≠ first) :
    (pending.entries.filter fun entry => entry.1 ≠ price) = (first, held) :: others ∧
      qtyAt pending price = 0 := by
  have othersKept : others.filter (fun entry => entry.1 ≠ price) = others :=
    List.filter_eq_self.mpr fun entry mem =>
      decide_eq_true (reaches.other entriesEq mem).2.symm
  have absent : pending.find? price = none := by
    refine SortedMap.find?_eq_none_iff.mpr fun qty mem => ?_
    rw [entriesEq] at mem
    rcases List.mem_cons.mp mem with atFirst | later
    · exact different (congrArg Prod.fst atFirst)
    · exact (reaches.other entriesEq later).2 rfl
  constructor
  · rw [entriesEq, List.filter_cons_of_pos (by simpa using different.symm), othersKept]
  · simp [qtyAt, absent]

theorem total_pos_entries (positive : PositiveLedger pending)
    (entriesEq : pending.entries = (first, held) :: others) :
    0 < held ∧ ledgerTotal pending = held + QueueFill.total Prod.snd others ∧
      QueueFill.Positive Prod.snd others := by
  have entriesPos := positiveLedger_iff.mp positive
  rw [entriesEq] at entriesPos
  refine ⟨entriesPos.head, ?_, entriesPos.tail⟩
  rw [ledgerTotal, entriesEq, QueueFill.total_cons]

/-- One pass of the loop takes from the ledger what it matches. -/
theorem ledgerTotal_drainFirst (reaches : Reaches isSell price first)
    (begins : pending.begin? = some (first, held)) (taken : ℤ) :
    ledgerTotal (drainFirst pending price first held taken) = ledgerTotal pending - taken := by
  obtain ⟨others, entriesEq⟩ := SortedMap.begin?_eq_some_iff.mp begins
  have lowered := SortedMap.entries_insert_first entriesEq (held - taken)
  have totalEq : ledgerTotal pending = held + QueueFill.total Prod.snd others := by
    rw [ledgerTotal, entriesEq, QueueFill.total_cons]
  have loweredTotal : ledgerTotal (pending.insert first (held - taken)) =
      ledgerTotal pending - taken := by
    rw [totalEq, ledgerTotal, lowered, QueueFill.total_cons]
    omega
  unfold drainFirst
  split
  · next nothing =>
      by_cases same : price = first
      · rw [same, SortedMap.erase_insert, ledgerTotal, SortedMap.entries_erase_first entriesEq,
          totalEq]
        omega
      · have absent : (pending.insert first (held - taken)).find? price = none := by
          refine SortedMap.find?_eq_none_iff.mpr fun qty mem => ?_
          rw [lowered] at mem
          rcases List.mem_cons.mp mem with atFirst | later
          · exact same (congrArg Prod.fst atFirst)
          · exact (reaches.other entriesEq later).2 rfl
        rw [SortedMap.erase_of_find?_none absent, loweredTotal]
  · exact loweredTotal

/-- Whenever `matchPendingLiqAdd` returns, the matched quantity is what the ledger has
lost. -/
theorem ledgerTotal_matchPendingLiqAdd {final : BookSide P isSell} {matched : ℤ}
    (returns : Returns (fun fuel => side.matchPendingLiqAdd fuel quantity price)
      (final, matched)) :
    ledgerTotal final.pendingLiqAddQty = ledgerTotal side.pendingLiqAddQty - matched := by
  have stepKept : ∀ (state following : SortedMap P ℤ (PriceComparator isSell) × ℤ),
      ledgerTotal state.1 + state.2 = ledgerTotal side.pendingLiqAddQty →
      (matchPendingLiqAddBody isSell quantity price state = .ok (.next following) ∨
        matchPendingLiqAddBody isSell quantity price state = .ok (.done following)) →
      ledgerTotal following.1 + following.2 = ledgerTotal side.pendingLiqAddQty := by
    rintro ⟨ledger, taken⟩ following holds stepped
    cases begins : ledger.begin? with
    | none =>
        rw [matchBody_empty _ _ _ begins] at stepped
        rcases stepped with stepped | stepped
        · cases stepped
        · cases stepped
          exact holds
    | some entry =>
        by_cases reaches : Reaches isSell price entry.1
        · have lost := ledgerTotal_drainFirst reaches begins
            (min entry.2 (quantity - taken))
          rw [matchBody_reaches quantity taken begins reaches] at stepped
          have followingEq : following =
              (drainFirst ledger price entry.1 entry.2 (min entry.2 (quantity - taken)),
                taken + min entry.2 (quantity - taken)) := by
            split at stepped
            · simpa [eq_comm] using stepped
            · simpa [eq_comm] using stepped
          rw [followingEq, lost]
          simp only at holds ⊢
          omega
        · rw [matchBody_beyond _ _ begins reaches] at stepped
          rcases stepped with stepped | stepped
          · cases stepped
          · cases stepped
            exact holds
  obtain ⟨fuel, looped⟩ := loop_of_matchPendingLiqAdd returns
  obtain ⟨last, holds, finished⟩ := loop_invariant
    (fun state => ledgerTotal state.1 + state.2 = ledgerTotal side.pendingLiqAddQty)
    (fun state following holds continued => stepKept state following holds (Or.inl continued))
    (by simp) looped
  have ended := stepKept last _ holds (Or.inr finished)
  simp only at ended
  omega

/-- The first entry is at another key than the limit. -/
theorem drainsGreedily_iff_of_ne (positive : PositiveLedger side.pendingLiqAddQty)
    (pos : 0 < quantity) (entriesEq : side.pendingLiqAddQty.entries = (first, held) :: others)
    (reaches : Reaches isSell price first) (different : price ≠ first) :
    side.DrainsGreedily quantity price ↔ quantity < held := by
  have begins := SortedMap.begin?_eq_some_iff.mpr ⟨others, entriesEq⟩
  obtain ⟨heldPos, totalEq, othersPos⟩ := total_pos_entries positive entriesEq
  have othersNonneg := othersPos.total_nonneg
  constructor
  · rintro ⟨final, matched, returns, -, -, finalPositive, -⟩
    by_contra covers
    exact not_positive_of_usedUp begins reaches different heldPos (by omega)
      (loop_of_matchPendingLiqAdd returns) finalPositive
  · intro short
    refine drainsGreedily_of_loop positive pos ⟨first, held, begins, reaches⟩
      (matchLoop_covered begins reaches (by omega)) (by omega) ?_
    rw [sub_zero, entries_drainFirst_short entriesEq short, entriesEq, drainedEntries,
      QueueFill.remaining, if_neg (not_le.mpr short)]
    rfl

/-- The first entry is at the limit: once it is used up the next one is at another key. -/
theorem drainsGreedily_iff_of_eq (positive : PositiveLedger side.pendingLiqAddQty)
    (pos : 0 < quantity) (entriesEq : side.pendingLiqAddQty.entries = (price, held) :: others) :
    side.DrainsGreedily quantity price ↔ ∀ other ∈ others.head?, quantity < held + other.2 := by
  have begins := SortedMap.begin?_eq_some_iff.mpr ⟨others, entriesEq⟩
  obtain ⟨heldPos, totalEq, othersPos⟩ := total_pos_entries positive entriesEq
  have othersNonneg := othersPos.total_nonneg
  have reaches : Reaches isSell price price := irrefl price
  have reachesFirst : side.ReachesFirst price := ⟨price, held, begins, reaches⟩
  rcases lt_or_ge held quantity with more | enough
  · have step := matchBody_reaches quantity 0 begins reaches
    have all : min held (quantity - 0) = held := by omega
    rw [all, zero_add, if_neg (by omega)] at step
    have erased := entries_drainFirst_atLimit entriesEq
    cases othersEq : others with
    | nil =>
        simp only [List.head?_nil, Option.mem_def, reduceCtorEq, false_implies, implies_true,
          iff_true]
        rw [othersEq] at erased
        refine drainsGreedily_of_loop positive pos reachesFirst
          (Returns.of_next step (Returns.of_done (matchBody_empty _ _ _
            (SortedMap.begin?_eq_none_iff.mpr erased)))) ?_ ?_
        · rw [totalEq, othersEq, QueueFill.total_nil]
          omega
        · rw [erased, entriesEq, othersEq, drainedEntries, QueueFill.remaining,
            if_pos more.le, QueueFill.remaining]
    | cons next rest =>
        rw [othersEq] at erased othersPos totalEq
        obtain ⟨nextReaches, nextDifferent⟩ := reaches.other entriesEq
          (show next ∈ others by rw [othersEq]; exact List.mem_cons_self)
        have nextBegins := SortedMap.begin?_eq_some_iff.mpr ⟨rest, erased⟩
        have restNonneg := othersPos.tail.total_nonneg
        simp only [List.head?_cons, Option.mem_def, Option.some.injEq, forall_eq']
        constructor
        · rintro ⟨final, matched, returns, -, -, finalPositive, -⟩
          by_contra covers
          exact not_positive_of_usedUp nextBegins nextReaches nextDifferent othersPos.head
            (by omega) ((loop_of_matchPendingLiqAdd returns).after_next step) finalPositive
        · intro short
          have nextShort : quantity - held < next.2 := by omega
          refine drainsGreedily_of_loop positive pos reachesFirst
            (Returns.of_next step (matchLoop_covered nextBegins nextReaches (by omega))) ?_ ?_
          · rw [totalEq, QueueFill.total_cons]
            omega
          · rw [entries_drainFirst_short erased nextShort, entriesEq, othersEq, drainedEntries,
              QueueFill.remaining, if_pos more.le, QueueFill.remaining,
              if_neg (not_le.mpr nextShort)]
            rfl
  · have holds : ∀ other ∈ others.head?, quantity < held + other.2 := by
      intro other first
      have := othersPos other (List.mem_of_mem_head? first)
      omega
    refine iff_of_true ?_ holds
    refine drainsGreedily_of_loop positive pos reachesFirst
      (matchLoop_covered begins reaches (by omega)) (by omega) ?_
    rw [sub_zero, entriesEq, drainedEntries, QueueFill.remaining]
    rcases enough.lt_or_eq with short | exactly
    · rw [entries_drainFirst_short entriesEq short, if_neg (not_le.mpr short)]
      rfl
    · rw [exactly, entries_drainFirst_atLimit entriesEq, if_pos le_rfl, sub_self,
        QueueFill.remaining_zero cutEntry_lawful othersPos]

end Drain

/-! ### When the call returns

Entries that are used up under another key stay in the ledger at zero, so from here on
entries are only known not to be negative. -/

section Ends

variable {side : BookSide P isSell} {price first : P} {held quantity : ℤ}
  {others : List (P × ℤ)}

/-- The entries under other keys than the limit of an order. -/
def elsewhere (side : BookSide P isSell) (price : P) : List (P × ℤ) :=
  side.pendingLiqAddQty.entries.filter fun entry => entry.1 ≠ price

/-- The order uses up what is held at its limit and the first entry elsewhere, and wants
more: the loop meets that entry for ever. -/
def AbsorbsForever (side : BookSide P isSell) (quantity : ℤ) (price : P) : Prop :=
  side.ReachesFirst price ∧
    ∃ other ∈ (side.elsewhere price).head?, qtyAt side.pendingLiqAddQty price + other.2 < quantity

/-- Not all of the order is absorbed: it reaches no entry, or uses up the only one. -/
def LeavesRest (side : BookSide P isSell) (quantity : ℤ) (price : P) : Prop :=
  side.ReachesFirst price →
    side.elsewhere price = [] ∧ qtyAt side.pendingLiqAddQty price < quantity

/-- The loop from an entry at another key than the limit. -/
theorem matchLoop_elsewhere {pending : SortedMap P ℤ (PriceComparator isSell)} {matched : ℤ}
    (begins : pending.begin? = some (first, held)) (reaches : Reaches isSell price first)
    (different : price ≠ first) (nonneg : 0 ≤ held) :
    (matched + held < quantity ∧ ∀ fuel,
        loop (matchPendingLiqAddBody isSell quantity price) fuel (pending, matched) =
          .error .outOfFuel) ∨
      quantity ≤ matched + held ∧ ∃ ledger,
        Returns (fun fuel => loop (matchPendingLiqAddBody isSell quantity price) fuel
          (pending, matched)) (ledger, quantity) := by
  rcases lt_or_ge (matched + held) quantity with short | covers
  · exact Or.inl ⟨short, matchLoop_diverges begins reaches different nonneg short⟩
  · exact Or.inr ⟨covers, _, matchLoop_covered begins reaches (by omega)⟩

/-- The loop never ends, or ends with a part of the order matched. -/
def AbsorbEnds (side : BookSide P isSell) (quantity : ℤ) (price : P) : Prop :=
  (side.AbsorbsForever quantity price ∧ ∀ fuel,
      loop (matchPendingLiqAddBody isSell quantity price) fuel (side.pendingLiqAddQty, 0) =
        .error .outOfFuel) ∨
    ¬ side.AbsorbsForever quantity price ∧ ∃ ledger matched,
      Returns (fun fuel => loop (matchPendingLiqAddBody isSell quantity price) fuel
        (side.pendingLiqAddQty, 0)) (ledger, matched) ∧
      (matched < quantity ↔ side.LeavesRest quantity price)

theorem absorbEnds_of_beyond (pos : 0 < quantity) (beyond : ¬ side.ReachesFirst price) :
    side.AbsorbEnds quantity price := by
  exact Or.inr ⟨fun never => beyond never.1, _, _, matchLoop_beyond beyond quantity,
    iff_of_true pos fun reaches => (beyond reaches).elim⟩

/-- The first entry is at another key than the limit. -/
theorem absorbEnds_of_ne (nonneg : ∀ entry ∈ side.pendingLiqAddQty.entries, 0 ≤ entry.2)
    (entriesEq : side.pendingLiqAddQty.entries = (first, held) :: others)
    (reaches : Reaches isSell price first) (different : price ≠ first) :
    side.AbsorbEnds quantity price := by
  have begins := SortedMap.begin?_eq_some_iff.mpr ⟨others, entriesEq⟩
  have reachesFirst : side.ReachesFirst price := ⟨first, held, begins, reaches⟩
  have heldNonneg : 0 ≤ held := nonneg (first, held) (by simp [entriesEq])
  obtain ⟨othersEq, notHeld⟩ := elsewhere_of_ne entriesEq reaches different
  have never_iff : side.AbsorbsForever quantity price ↔ held < quantity := by
    rw [AbsorbsForever, elsewhere, othersEq, notHeld]
    simp [reachesFirst]
  have absorbed : ¬ side.LeavesRest quantity price := by
    intro leaves
    have none := (leaves reachesFirst).1
    rw [elsewhere, othersEq] at none
    cases none
  unfold AbsorbEnds
  rw [never_iff]
  rcases matchLoop_elsewhere begins reaches different heldNonneg with
    ⟨short, never⟩ | ⟨covers, ledger, looped⟩
  · exact Or.inl ⟨by omega, never⟩
  · exact Or.inr ⟨by omega, ledger, quantity, looped, iff_of_false (lt_irrefl _) absorbed⟩

/-- The first entry is at the limit. -/
theorem absorbEnds_of_eq (nonneg : ∀ entry ∈ side.pendingLiqAddQty.entries, 0 ≤ entry.2)
    (entriesEq : side.pendingLiqAddQty.entries = (price, held) :: others) :
    side.AbsorbEnds quantity price := by
  have begins := SortedMap.begin?_eq_some_iff.mpr ⟨others, entriesEq⟩
  have reaches : Reaches isSell price price := irrefl price
  have reachesFirst : side.ReachesFirst price := ⟨price, held, begins, reaches⟩
  obtain ⟨othersEq, heldEq⟩ := elsewhere_of_eq entriesEq
  have never_iff : side.AbsorbsForever quantity price ↔
      ∃ other ∈ others.head?, held + other.2 < quantity := by
    simp only [AbsorbsForever, reachesFirst, true_and, elsewhere, othersEq, heldEq]
  have leaves_iff : side.LeavesRest quantity price ↔ others = [] ∧ held < quantity := by
    simp only [LeavesRest, reachesFirst, true_implies, elsewhere, othersEq, heldEq]
  unfold AbsorbEnds
  rw [never_iff, leaves_iff]
  rcases lt_or_ge held quantity with more | enough
  · -- the entry at the limit is erased, and the loop goes on with the others
    have step := matchBody_reaches quantity 0 begins reaches
    have all : min held (quantity - 0) = held := by omega
    rw [all, zero_add, if_neg (by omega)] at step
    have erased := entries_drainFirst_atLimit entriesEq
    cases others with
    | nil =>
        refine Or.inr ⟨by simp, _, held, Returns.of_next step (Returns.of_done
          (matchBody_empty _ _ _ (SortedMap.begin?_eq_none_iff.mpr erased))), ?_⟩
        exact iff_of_true more ⟨rfl, more⟩
    | cons next rest =>
        obtain ⟨nextReaches, nextDifferent⟩ := reaches.other entriesEq List.mem_cons_self
        have nextBegins := SortedMap.begin?_eq_some_iff.mpr ⟨rest, erased⟩
        have nextNonneg : 0 ≤ next.2 := nonneg next (by simp [entriesEq])
        simp only [List.head?_cons, Option.mem_def, Option.some.injEq, exists_eq_left']
        rcases matchLoop_elsewhere nextBegins nextReaches nextDifferent nextNonneg with
          ⟨short, never⟩ | ⟨covers, ledger, looped⟩
        · refine Or.inl ⟨short, fun fuel => ?_⟩
          cases fuel with
          | zero => rfl
          | succ fuel => simpa only [loop, step] using never fuel
        · refine Or.inr ⟨by omega, ledger, quantity, Returns.of_next step looped, ?_⟩
          exact iff_of_false (lt_irrefl _) fun leaves => List.cons_ne_nil _ _ leaves.1
  · refine Or.inr ⟨?_, _, quantity, matchLoop_covered begins reaches (by omega), ?_⟩
    · rintro ⟨other, isFirst, short⟩
      have othersNonneg := nonneg other
        (by rw [entriesEq]; exact List.mem_cons_of_mem _ (List.mem_of_mem_head? isFirst))
      omega
    · exact iff_of_false (lt_irrefl _) fun leaves => absurd leaves.2 (not_lt.mpr enough)

theorem absorbEnds (nonneg : ∀ entry ∈ side.pendingLiqAddQty.entries, 0 ≤ entry.2)
    (pos : 0 < quantity) (price : P) : side.AbsorbEnds quantity price := by
  by_cases reachesFirst : side.ReachesFirst price
  · obtain ⟨first, held, begins, reaches⟩ := reachesFirst
    obtain ⟨others, entriesEq⟩ := SortedMap.begin?_eq_some_iff.mp begins
    by_cases same : price = first
    · subst same
      exact absorbEnds_of_eq nonneg entriesEq
    · exact absorbEnds_of_ne nonneg entriesEq reaches same
  · exact absorbEnds_of_beyond pos reachesFirst

/-- `matchPendingLiqAdd` returns exactly when the order does not absorb for ever. -/
theorem Valid.matchPendingLiqAdd_returns_iff {slack : Set ℤ} (valid : side.Valid slack)
    (pos : 0 < quantity) (price : P) :
    (∃ result, Returns (fun fuel => side.matchPendingLiqAdd fuel quantity price) result) ↔
      ¬ side.AbsorbsForever quantity price := by
  have nonneg : ∀ entry ∈ side.pendingLiqAddQty.entries, 0 ≤ entry.2 := fun entry mem =>
    valid.ledgers.add_nonneg (SortedMap.find?_eq_some_iff.mpr mem)
  rcases absorbEnds nonneg pos price with ⟨forever, never⟩ | ⟨ends, ledger, matched, looped, -⟩
  · refine iff_of_false ?_ (not_not.mpr forever)
    rintro ⟨⟨final, matched⟩, returns⟩
    obtain ⟨fuel, returned⟩ := loop_of_matchPendingLiqAdd returns
    cases (never fuel).symm.trans returned
  · exact iff_of_true ⟨_, matchPendingLiqAdd_of_loop looped⟩ ends

/-- Whenever it returns, a part of the order is left exactly when the ledger has no more. -/
theorem Valid.matched_lt_iff {slack : Set ℤ} (valid : side.Valid slack) (pos : 0 < quantity)
    {final : BookSide P isSell} {matched : ℤ}
    (returns : Returns (fun fuel => side.matchPendingLiqAdd fuel quantity price)
      (final, matched)) : matched < quantity ↔ side.LeavesRest quantity price := by
  have nonneg : ∀ entry ∈ side.pendingLiqAddQty.entries, 0 ≤ entry.2 := fun entry mem =>
    valid.ledgers.add_nonneg (SortedMap.find?_eq_some_iff.mpr mem)
  have ended := loop_of_matchPendingLiqAdd returns
  rcases absorbEnds nonneg pos price with ⟨-, never⟩ | ⟨-, ledger, other, looped, leaves_iff⟩
  · obtain ⟨fuel, returned⟩ := ended
    cases (never fuel).symm.trans returned
  · cases Returns.unique (loop_monotone _) ended looped
    exact leaves_iff

/-- The call depends on the ledger of expected liquidity only. -/
theorem matchPendingLiqAdd_congr {other final : BookSide P isSell} {matched : ℤ}
    (sameLedger : other.pendingLiqAddQty = side.pendingLiqAddQty)
    (returns : Returns (fun fuel => side.matchPendingLiqAdd fuel quantity price)
      (final, matched)) :
    Returns (fun fuel => other.matchPendingLiqAdd fuel quantity price)
      ({ other with pendingLiqAddQty := final.pendingLiqAddQty }, matched) := by
  apply matchPendingLiqAdd_of_loop
  rw [sameLedger]
  exact loop_of_matchPendingLiqAdd returns

/-- An order that leaves a rest does not absorb for ever. -/
theorem LeavesRest.not_forever (leaves : side.LeavesRest quantity price) :
    ¬ side.AbsorbsForever quantity price := by
  rintro ⟨reaches, other, isFirst, -⟩
  rw [(leaves reaches).1] at isFirst
  cases isFirst

end Ends

end BookSide

/-- `matchPendingLiqAdd` drains the ledger greedily exactly when the order uses up no entry
under another key than its limit: what is held at the limit together with the first
entry elsewhere is more than its quantity, if the order reaches the first key at all. -/
theorem matchPendingLiqAdd_greedy_iff {isSell : Bool} {side : BookSide P isSell}
    (positive : PositiveLedger side.pendingLiqAddQty) {quantity : ℤ} (pos : 0 < quantity)
    (price : P) :
    side.DrainsGreedily quantity price ↔
      (side.ReachesFirst price →
        ∀ other ∈ (side.pendingLiqAddQty.entries.filter fun entry => entry.1 ≠ price).head?,
          quantity < qtyAt side.pendingLiqAddQty price + other.2) := by
  by_cases reachesFirst : side.ReachesFirst price
  · simp only [reachesFirst, true_implies]
    obtain ⟨first, held, begins, reaches⟩ := reachesFirst
    obtain ⟨others, entriesEq⟩ := SortedMap.begin?_eq_some_iff.mp begins
    by_cases same : price = first
    · subst same
      obtain ⟨othersEq, heldEq⟩ := BookSide.elsewhere_of_eq entriesEq
      rw [BookSide.drainsGreedily_iff_of_eq positive pos entriesEq, othersEq, heldEq]
    · obtain ⟨othersEq, notHeld⟩ := BookSide.elsewhere_of_ne entriesEq reaches same
      rw [BookSide.drainsGreedily_iff_of_ne positive pos entriesEq reaches same, othersEq,
        notHeld]
      simp
  · simp only [reachesFirst, false_implies, iff_true]
    exact BookSide.drainsGreedily_of_beyond positive reachesFirst

/-- An ask side that has seen a trade of 30 at 99 and no order for it. -/
def tradedSide : BookSide ℤ true :=
  ((BookSide.empty.processTrade 9 ⟨30, 99⟩).toOption.map Prod.fst).getD .empty

theorem tradedSide_positive : PositiveLedger tradedSide.pendingLiqAddQty :=
  BookSide.positiveLedger_iff.mpr
    (show ∀ entry ∈ tradedSide.pendingLiqAddQty.entries, 0 < entry.2 by decide)

/-- An order that takes a part of the expected liquidity. -/
theorem matchPendingLiqAdd_part_greedy : tradedSide.DrainsGreedily 10 98 := by
  apply (matchPendingLiqAdd_greedy_iff tradedSide_positive (by decide) 98).mpr
  intro _ other first
  cases first
  decide

/-- An order of a better limit that wants more than is expected: the loop never ends. -/
theorem matchPendingLiqAdd_more_not_greedy :
    PositiveLedger tradedSide.pendingLiqAddQty ∧
      (∀ fuel, tradedSide.matchPendingLiqAdd fuel 40 98 = .error .outOfFuel) ∧
      ¬ tradedSide.DrainsGreedily 40 98 := by
  have reaches : BookSide.Reaches true (98 : ℤ) 99 := by
    unfold BookSide.Reaches
    decide
  have never : ∀ fuel, tradedSide.matchPendingLiqAdd fuel 40 98 = .error .outOfFuel :=
    BookSide.matchPendingLiqAdd_diverges rfl reaches (by decide) (by decide) (by decide)
  refine ⟨tradedSide_positive, never, ?_⟩
  rintro ⟨final, matched, ⟨fuel, returned⟩, -⟩
  cases (never fuel).symm.trans returned

end OrderBook
