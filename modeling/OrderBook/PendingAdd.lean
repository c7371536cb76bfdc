import OrderBook.ProcessTrade

/-!
# Absorbing new orders by expected liquidity

`matchPendingLiqAdd` lets a new order meet the quantity that earlier trades and
snapshots announced.  Whenever it returns, the matched quantity lies between zero
and the quantity of the order.  It need not return: an entry drained to zero under
another price than the order's is not erased, and the loop then meets the empty
entry for ever.
-/

namespace OrderBook.BookSide

open FueledLoop

variable {P : Type} [LinearOrder P] {isSell : Bool} {slack : Set ℤ}

/-- An order of limit `price` may meet the expected liquidity at `first`. -/
def Reaches (isSell : Bool) (price first : P) : Prop := ¬ PriceComparator isSell first price

/-- The ledger after `taken` of the first entry is matched. -/
def drainFirst (pending : SortedMap P ℤ (PriceComparator isSell)) (price first : P)
    (held taken : ℤ) : SortedMap P ℤ (PriceComparator isSell) :=
  if held - taken = 0 then (pending.insert first (held - taken)).erase price
  else pending.insert first (held - taken)

section Body

variable {pending : SortedMap P ℤ (PriceComparator isSell)} {first : P} {held : ℤ}
  (price : P) (quantity matched : ℤ)

theorem matchBody_empty (none : pending.begin? = none) :
    matchPendingLiqAddBody isSell quantity price (pending, matched) =
      .ok (.done (pending, matched)) := by
  simp [matchPendingLiqAddBody, none]

theorem matchBody_beyond {price : P} (some : pending.begin? = some (first, held))
    (beyond : ¬ Reaches isSell price first) :
    matchPendingLiqAddBody isSell quantity price (pending, matched) =
      .ok (.done (pending, matched)) := by
  have better := priceComparator_iff.mp (not_not.mp beyond)
  have canMatch : (if isSell then decide (price ≤ first) else decide (price ≥ first)) =
      false := by
    cases isSell <;> simpa using better
  simp [matchPendingLiqAddBody, some, canMatch]

theorem matchBody_reaches {price : P} (some : pending.begin? = some (first, held))
    (reaches : Reaches isSell price first) :
    matchPendingLiqAddBody isSell quantity price (pending, matched) =
      if matched + min held (quantity - matched) = quantity then
        .ok (.done (drainFirst pending price first held (min held (quantity - matched)),
          matched + min held (quantity - matched)))
      else
        .ok (.next (drainFirst pending price first held (min held (quantity - matched)),
          matched + min held (quantity - matched))) := by
  have notBetter := mt priceComparator_iff.mpr reaches
  have canMatch : (if isSell then decide (price ≤ first) else decide (price ≥ first)) =
      true := by
    cases isSell <;> simpa using notBetter
  simp [matchPendingLiqAddBody, some, canMatch, drainFirst]

end Body

theorem find?_drainFirst {pending : SortedMap P ℤ (PriceComparator isSell)}
    {price first key : P} {held taken qty : ℤ}
    (found : (drainFirst pending price first held taken).find? key = some qty) :
    (key = first ∧ qty = held - taken) ∨ pending.find? key = some qty := by
  have lookup : (pending.insert first (held - taken)).find? key = some qty := by
    unfold drainFirst at found
    split at found
    · rw [SortedMap.find?_erase] at found
      split at found
      · cases found
      · exact found
    · exact found
  rw [SortedMap.find?_insert] at lookup
  split at lookup
  · next same =>
      cases lookup
      exact Or.inl ⟨same, rfl⟩
  · exact Or.inr lookup

/-! ### What holds whenever the loop is left -/

/-- No entry is negative and the matched quantity stays within the order's. -/
def AbsorbInvariant (quantity : ℤ)
    (state : SortedMap P ℤ (PriceComparator isSell) × ℤ) : Prop :=
  (∀ {key : P} {qty : ℤ}, state.1.find? key = some qty → 0 ≤ qty) ∧
    0 ≤ state.2 ∧ state.2 ≤ quantity

theorem AbsorbInvariant.drainFirst {pending : SortedMap P ℤ (PriceComparator isSell)}
    {first : P} {held matched quantity : ℤ}
    (holds : AbsorbInvariant quantity (pending, matched))
    (some : pending.begin? = some (first, held)) (price : P) :
    AbsorbInvariant quantity
      (drainFirst pending price first held (min held (quantity - matched)),
        matched + min held (quantity - matched)) := by
  obtain ⟨nonneg, matchedNonneg, matchedLe⟩ := holds
  have heldNonneg : 0 ≤ held := nonneg (SortedMap.find?_of_begin? some)
  simp only at matchedNonneg matchedLe
  refine ⟨?_, ?_, ?_⟩
  · intro key qty found
    rcases find?_drainFirst found with ⟨-, rfl⟩ | old
    · omega
    · exact nonneg old
  · simp only
    omega
  · simp only
    omega

/-- One iteration keeps the invariant, whether it goes on or leaves the loop. -/
theorem AbsorbInvariant.body {price : P} {quantity : ℤ}
    {state following : SortedMap P ℤ (PriceComparator isSell) × ℤ}
    (holds : AbsorbInvariant quantity state)
    (stepped : matchPendingLiqAddBody isSell quantity price state = .ok (.next following) ∨
      matchPendingLiqAddBody isSell quantity price state = .ok (.done following)) :
    AbsorbInvariant quantity following := by
  obtain ⟨pending, matched⟩ := state
  cases begins : pending.begin? with
  | none =>
      rw [matchBody_empty _ _ _ begins] at stepped
      simp only [Except.ok.injEq, reduceCtorEq, false_or, Flow.done.injEq] at stepped
      rwa [← stepped]
  | some entry =>
      obtain ⟨first, held⟩ := entry
      by_cases reaches : Reaches isSell price first
      · have kept := holds.drainFirst begins price
        rw [matchBody_reaches _ _ begins reaches] at stepped
        split at stepped <;>
          simp only [Except.ok.injEq, reduceCtorEq, false_or, or_false, Flow.done.injEq,
            Flow.next.injEq] at stepped <;>
          rwa [← stepped]
      · rw [matchBody_beyond _ _ begins reaches] at stepped
        simp only [Except.ok.injEq, reduceCtorEq, false_or, Flow.done.injEq] at stepped
        rwa [← stepped]

theorem matchPendingLiqAdd_monotone (side : BookSide P isSell) (quantity : ℤ) (price : P) :
    FuelMonotone fun fuel => side.matchPendingLiqAdd fuel quantity price :=
  (loop_monotone _).bind fun _ => FuelMonotone.const _

/-- Whenever `matchPendingLiqAdd` returns, it has only changed its ledger. -/
theorem Valid.matchPendingLiqAdd {side final : BookSide P isSell} (valid : side.Valid slack)
    {fuel : Nat} {quantity matched : ℤ} {price : P} (nonneg : 0 ≤ quantity)
    (returned : side.matchPendingLiqAdd fuel quantity price = .ok (final, matched)) :
    final.Valid slack ∧ 0 ≤ matched ∧ matched ≤ quantity ∧
      final = { side with pendingLiqAddQty := final.pendingLiqAddQty } := by
  simp only [BookSide.matchPendingLiqAdd, bind_eq_ok] at returned
  obtain ⟨⟨ledger, total⟩, looped, finalEq⟩ := returned
  cases finalEq
  have start : AbsorbInvariant quantity (side.pendingLiqAddQty, (0 : ℤ)) :=
    ⟨valid.ledgers.add_nonneg, le_refl 0, nonneg⟩
  obtain ⟨last, holds, finished⟩ := loop_invariant (AbsorbInvariant quantity)
    (fun _ _ holds continued => holds.body (Or.inl continued)) start looped
  obtain ⟨ledgerNonneg, matchedNonneg, matchedLe⟩ := holds.body (Or.inr finished)
  exact ⟨valid.congr rfl rfl ⟨valid.ledgers.remove_pos, ledgerNonneg⟩,
    matchedNonneg, matchedLe, rfl⟩

/-! ### The first entry decides -/

section First

variable {pending : SortedMap P ℤ (PriceComparator isSell)} {price first : P}
  {held quantity matched : ℤ}

/-- A first entry that covers what is left of the order ends the loop. -/
theorem matchLoop_covered (begins : pending.begin? = some (first, held))
    (reaches : Reaches isSell price first) (covers : quantity - matched ≤ held) :
    Returns (fun fuel => loop (matchPendingLiqAddBody isSell quantity price) fuel
      (pending, matched))
      (drainFirst pending price first held (quantity - matched), quantity) := by
  have step := matchBody_reaches quantity matched begins reaches
  rw [min_eq_right covers, add_sub_cancel, if_pos rfl] at step
  exact Returns.of_done step

/-- Under another price than the order's the first entry stays, even when nothing is left. -/
theorem begin?_drainFirst (begins : pending.begin? = some (first, held))
    (different : price ≠ first) (taken : ℤ) :
    (drainFirst pending price first held taken).begin? = some (first, held - taken) := by
  obtain ⟨others, entriesEq⟩ := SortedMap.begin?_eq_some_iff.mp begins
  have lowered := SortedMap.entries_insert_first entriesEq (held - taken)
  refine SortedMap.begin?_eq_some_iff.mpr ?_
  unfold drainFirst
  split
  · refine ⟨others.filter fun entry => entry.1 ≠ price, ?_⟩
    change (pending.insert first (held - taken)).entries.filter _ = _
    rw [lowered, List.filter_cons_of_pos (by simpa using different.symm)]
  · exact ⟨others, lowered⟩

/-- Once it is drained there it is met again for ever. -/
theorem matchLoop_diverges (begins : pending.begin? = some (first, held))
    (reaches : Reaches isSell price first) (different : price ≠ first) (nonneg : 0 ≤ held)
    (short : matched + held < quantity) (fuel : Nat) :
    loop (matchPendingLiqAddBody isSell quantity price) fuel (pending, matched) =
      .error .outOfFuel := by
  refine loop_diverges (fun state => ∃ left : ℤ,
    state.1.begin? = some (first, left) ∧ 0 ≤ left ∧ state.2 + left < quantity) ?_
    ⟨held, begins, nonneg, short⟩ fuel
  rintro ⟨ledger, taken⟩ ⟨left, leftFirst, leftNonneg, more⟩
  simp only at more
  have step := matchBody_reaches quantity taken leftFirst reaches
  have all : min left (quantity - taken) = left := by omega
  rw [all, if_neg (by omega)] at step
  refine ⟨_, step, 0, ?_, le_rfl, by simpa using more⟩
  rw [begin?_drainFirst leftFirst different, sub_self]

end First

/-! ### A ledger with a single entry -/

/-- The ledger that expects `held` at one price. -/
def onlyPending (first : P) (held : ℤ) : SortedMap P ℤ (PriceComparator isSell) :=
  SortedMap.empty.insert first held

theorem begin?_onlyPending (first : P) (held : ℤ) :
    (onlyPending first held : SortedMap P ℤ (PriceComparator isSell)).begin? =
      some (first, held) := by
  simp [onlyPending, SortedMap.insert, SortedMap.empty, SortedMap.begin?]

theorem drainFirst_onlyPending (isSell : Bool) (price first : P) (held taken : ℤ) :
    drainFirst (onlyPending first held : SortedMap P ℤ (PriceComparator isSell)) price first
        held taken =
      if held - taken = 0 ∧ price = first then .empty else onlyPending first (held - taken) := by
  apply SortedMap.ext_find?
  intro key
  unfold drainFirst onlyPending
  rw [SortedMap.insert_insert]
  by_cases drained : held - taken = 0
  · by_cases same : price = first
    · simp only [drained, same, if_true, and_self, SortedMap.find?_erase,
        SortedMap.find?_insert, SortedMap.find?_empty]
      split <;> rfl
    · simp only [drained, same, if_true, and_false, if_false, SortedMap.find?_erase,
        SortedMap.find?_insert, SortedMap.find?_empty]
      by_cases atPrice : key = price
      · simp [atPrice, same]
      · simp [atPrice]
  · simp only [drained, false_and, if_false]

section Single

variable {side : BookSide P isSell} {price first : P} {held quantity : ℤ}

/-- A returning loop of `matchPendingLiqAdd` is a returning call. -/
theorem matchPendingLiqAdd_of_loop {ledger : SortedMap P ℤ (PriceComparator isSell)}
    {matched : ℤ}
    (looped : Returns (fun fuel => loop (matchPendingLiqAddBody isSell quantity price) fuel
      (side.pendingLiqAddQty, 0)) (ledger, matched)) :
    Returns (fun fuel => side.matchPendingLiqAdd fuel quantity price)
      ({ side with pendingLiqAddQty := ledger }, matched) := by
  obtain ⟨fuel, returned⟩ := looped
  exact ⟨fuel, by simp [matchPendingLiqAdd, returned]⟩

/-- Nothing is expected. -/
theorem matchPendingLiqAdd_empty (none : side.pendingLiqAddQty = .empty) (quantity : ℤ)
    (price : P) :
    Returns (fun fuel => side.matchPendingLiqAdd fuel quantity price) (side, 0) :=
  matchPendingLiqAdd_of_loop (Returns.of_done (matchBody_empty _ _ _ (by rw [none]; rfl)))

/-- Liquidity expected at the limit of the order is drained and its entry erased. -/
theorem matchPendingLiqAdd_atLimit (only : side.pendingLiqAddQty = onlyPending price held)
    (fits : held ≤ quantity) :
    Returns (fun fuel => side.matchPendingLiqAdd fuel quantity price)
      ({ side with pendingLiqAddQty := .empty }, held) := by
  have reaches : Reaches isSell price price := irrefl price
  have step := matchBody_reaches quantity 0 (begin?_onlyPending price held) reaches
  have taken : min held (quantity - 0) = held := by omega
  have erased := drainFirst_onlyPending isSell price price held held
  rw [if_pos ⟨sub_self held, rfl⟩] at erased
  rw [taken, zero_add, erased, ← only] at step
  apply matchPendingLiqAdd_of_loop
  split at step
  · exact Returns.of_done step
  · exact Returns.of_next step (Returns.of_done (matchBody_empty _ _ _ rfl))

/-- Liquidity expected at another price that the order reaches, and that is just
its quantity: the drained entry stays in the ledger. -/
theorem matchPendingLiqAdd_drained (only : side.pendingLiqAddQty = onlyPending first quantity)
    (reaches : Reaches isSell price first) (different : price ≠ first) :
    Returns (fun fuel => side.matchPendingLiqAdd fuel quantity price)
      ({ side with pendingLiqAddQty := onlyPending first 0 }, quantity) := by
  have stays := drainFirst_onlyPending isSell price first quantity quantity
  rw [if_neg (by simp [different]), sub_self] at stays
  have looped := matchLoop_covered (begin?_onlyPending first quantity) reaches
    (show quantity - 0 ≤ quantity by omega)
  rw [sub_zero, stays, ← only] at looped
  exact matchPendingLiqAdd_of_loop looped

/-- Liquidity expected at another price that the order reaches, and that is less
than its quantity: the loop never ends. -/
theorem matchPendingLiqAdd_diverges (only : side.pendingLiqAddQty = onlyPending first held)
    (reaches : Reaches isSell price first) (different : price ≠ first) (nonneg : 0 ≤ held)
    (short : held < quantity) (fuel : Nat) :
    side.matchPendingLiqAdd fuel quantity price = .error .outOfFuel := by
  have never : loop (matchPendingLiqAddBody isSell quantity price) fuel
      (side.pendingLiqAddQty, 0) = .error .outOfFuel := by
    rw [only]
    exact matchLoop_diverges (begin?_onlyPending first held) reaches different nonneg
      (by omega) fuel
  simp only [matchPendingLiqAdd, never]
  rfl

end Single

end OrderBook.BookSide
