import Mathlib.Algebra.Order.BigOperators.Group.List
import OrderBook.BookSide

/-!
# Pending ledgers

A ledger maps prices to pending quantities; a price without entry has nothing
pending.  A ledger whose entries are all positive is known from its quantities,
so crediting and matching are calculations with quantities.
-/

namespace OrderBook

variable {P : Type} [LinearOrder P]

section AnyOrder

variable {before : P → P → Prop}

/-- The quantity pending at a price. -/
def qtyAt (pending : SortedMap P ℤ before) (price : P) : ℤ :=
  (pending.find? price).getD 0

/-- Every entry of a ledger is positive. -/
def PositiveLedger (pending : SortedMap P ℤ before) : Prop :=
  ∀ ⦃price : P⦄ ⦃qty : ℤ⦄, pending.find? price = some qty → 0 < qty

theorem qtyAt_of_find? {pending : SortedMap P ℤ before} {price : P} {qty : ℤ}
    (found : pending.find? price = some qty) : qtyAt pending price = qty := by
  simp [qtyAt, found]

theorem PositiveLedger.qtyAt_nonneg {pending : SortedMap P ℤ before}
    (positive : PositiveLedger pending) (price : P) : 0 ≤ qtyAt pending price := by
  cases found : pending.find? price with
  | none => simp [qtyAt, found]
  | some qty =>
      have := positive found
      rw [qtyAt_of_find? found]
      omega

theorem PositiveLedger.find?_eq {pending : SortedMap P ℤ before}
    (positive : PositiveLedger pending) (price : P) :
    pending.find? price =
      if qtyAt pending price = 0 then none else some (qtyAt pending price) := by
  cases found : pending.find? price with
  | none => simp [qtyAt, found]
  | some qty =>
      have := positive found
      rw [qtyAt_of_find? found, if_neg (by omega)]

variable [IsStrictTotalOrder P before]

/-- Positive ledgers with the same quantities are the same ledger. -/
theorem PositiveLedger.ext {first second : SortedMap P ℤ before}
    (firstPos : PositiveLedger first) (secondPos : PositiveLedger second)
    (same : ∀ price, qtyAt first price = qtyAt second price) : first = second := by
  apply SortedMap.ext_find?
  intro price
  rw [firstPos.find?_eq, secondPos.find?_eq, same]

@[simp]
theorem qtyAt_erase (pending : SortedMap P ℤ before) (key price : P) :
    qtyAt (pending.erase key) price = if price = key then 0 else qtyAt pending price := by
  simp only [qtyAt, SortedMap.find?_erase]
  split <;> rfl

variable [DecidableRel before]

@[simp]
theorem qtyAt_insert (pending : SortedMap P ℤ before) (key price : P) (qty : ℤ) :
    qtyAt (pending.insert key qty) price = if price = key then qty else qtyAt pending price := by
  simp only [qtyAt, SortedMap.find?_insert]
  split <;> rfl

theorem qtyAt_credit (pending : SortedMap P ℤ before) (key price : P) (qty : ℤ) :
    qtyAt (credit pending key qty) price =
      qtyAt pending price + if price = key then qty else 0 := by
  rw [credit, qtyAt_insert]
  split
  · next same => rw [same, qtyAt]
  · simp

theorem PositiveLedger.credit {pending : SortedMap P ℤ before}
    (positive : PositiveLedger pending) {key : P} {qty : ℤ} (pos : 0 < qty) :
    PositiveLedger (credit pending key qty) := by
  intro price held found
  rw [OrderBook.credit, SortedMap.find?_insert] at found
  split at found
  · cases found
    have := positive.qtyAt_nonneg key
    simp only [qtyAt] at this
    omega
  · exact positive found

end AnyOrder

/-! ### Matching expected removals -/

/-- The ledger after `qty` of the entry at `price` is matched. -/
def debit (pending : SortedMap P ℤ (· < ·)) (price : P) (qty : ℤ) : SortedMap P ℤ (· < ·) :=
  if qtyAt pending price - qty = 0 then pending.erase price
  else pending.insert price (qtyAt pending price - qty)

theorem qtyAt_debit (pending : SortedMap P ℤ (· < ·)) (key price : P) (qty : ℤ) :
    qtyAt (debit pending key qty) price =
      qtyAt pending price - if price = key then qty else 0 := by
  unfold debit
  split
  · next used =>
      rw [qtyAt_erase]
      split
      · next same =>
          subst same
          omega
      · simp
  · rw [qtyAt_insert]
    split
    · next same => rw [same]
    · simp

theorem PositiveLedger.debit {pending : SortedMap P ℤ (· < ·)}
    (positive : PositiveLedger pending) {key : P} {qty : ℤ}
    (covered : qty ≤ qtyAt pending key) : PositiveLedger (debit pending key qty) := by
  intro price held found
  unfold OrderBook.debit at found
  split at found
  · rw [SortedMap.find?_erase] at found
    split at found
    · cases found
    · exact positive found
  · next left =>
      rw [SortedMap.find?_insert] at found
      split at found
      · cases found
        omega
      · exact positive found

theorem debit_zero {pending : SortedMap P ℤ (· < ·)} (positive : PositiveLedger pending)
    (price : P) : debit pending price 0 = pending := by
  apply PositiveLedger.ext (positive.debit (positive.qtyAt_nonneg price)) positive
  intro other
  rw [qtyAt_debit]
  simp

/-- Matching a removal takes what the ledger has, up to the quantity. -/
theorem BookSide.matchPendingLiqRemove_eq {isSell : Bool} {side : BookSide P isSell}
    (positive : PositiveLedger side.pendingLiqRemoveQty) {quantity : ℤ} (nonneg : 0 ≤ quantity)
    (price : P) :
    side.matchPendingLiqRemove quantity price =
      ({ side with
          pendingLiqRemoveQty := debit side.pendingLiqRemoveQty price
            (min (qtyAt side.pendingLiqRemoveQty price) quantity) },
        min (qtyAt side.pendingLiqRemoveQty price) quantity) := by
  cases found : side.pendingLiqRemoveQty.find? price with
  | none =>
      have nothing : qtyAt side.pendingLiqRemoveQty price = 0 := by simp [qtyAt, found]
      simp only [matchPendingLiqRemove, found, nothing, min_eq_left nonneg,
        debit_zero positive]
  | some held =>
      simp only [matchPendingLiqRemove, found, qtyAt_of_find? found, debit,
        SortedMap.erase_insert]

/-! ### Crediting executions -/

/-- Credit a ledger with every execution of an event list. -/
def creditEvents (pending : SortedMap P ℤ (· < ·)) (events : OrderInfoVec P) :
    SortedMap P ℤ (· < ·) :=
  events.foldl
    (fun pending e =>
      if e.event = OrderEvent.exec then credit pending e.price e.quantity else pending)
    pending

@[simp]
theorem creditEvents_nil (pending : SortedMap P ℤ (· < ·)) : creditEvents pending [] = pending :=
  rfl

theorem creditEvents_cons (pending : SortedMap P ℤ (· < ·)) (e : OrderInfo P)
    (events : OrderInfoVec P) :
    creditEvents pending (e :: events) =
      creditEvents
        (if e.event = OrderEvent.exec then credit pending e.price e.quantity else pending)
        events :=
  rfl

theorem creditEvents_append (pending : SortedMap P ℤ (· < ·))
    (first second : OrderInfoVec P) :
    creditEvents pending (first ++ second) =
      creditEvents (creditEvents pending first) second := by
  simp [creditEvents, List.foldl_append]

/-- The quantity executed at a price in an event list. -/
def execQtyAt (events : OrderInfoVec P) (price : P) : ℤ :=
  (events.map fun e =>
    if e.event = OrderEvent.exec ∧ e.price = price then e.quantity else 0).sum

theorem execQtyAt_append (first second : OrderInfoVec P) (price : P) :
    execQtyAt (first ++ second) price = execQtyAt first price + execQtyAt second price := by
  simp [execQtyAt]

theorem execQtyAt_nonneg {events : OrderInfoVec P} (positive : ∀ e ∈ events, 0 < e.quantity)
    (price : P) : 0 ≤ execQtyAt events price := by
  apply List.sum_nonneg
  intro qty mem
  obtain ⟨e, eMem, rfl⟩ := List.mem_map.mp mem
  have := positive e eMem
  split <;> omega

theorem qtyAt_creditEvents (pending : SortedMap P ℤ (· < ·)) (events : OrderInfoVec P)
    (price : P) :
    qtyAt (creditEvents pending events) price =
      qtyAt pending price + execQtyAt events price := by
  induction events generalizing pending with
  | nil => simp [execQtyAt]
  | cons e events ih =>
      rw [creditEvents_cons, ih]
      simp only [execQtyAt, List.map_cons, List.sum_cons]
      by_cases executed : e.event = OrderEvent.exec
      · simp only [executed, if_true, true_and, qtyAt_credit, @eq_comm P price]
        omega
      · simp [executed]

theorem PositiveLedger.creditEvents {pending : SortedMap P ℤ (· < ·)}
    (positive : PositiveLedger pending) {events : OrderInfoVec P}
    (eventsPos : ∀ e ∈ events, 0 < e.quantity) :
    PositiveLedger (creditEvents pending events) := by
  induction events generalizing pending with
  | nil => exact positive
  | cons e events ih =>
      rw [creditEvents_cons]
      refine ih ?_ (fun later mem => eventsPos later (by simp [mem]))
      split
      · exact positive.credit (eventsPos e (by simp))
      · exact positive

/-- Settling the first execution of a credited list. -/
theorem debit_creditEvents {pending : SortedMap P ℤ (· < ·)} (positive : PositiveLedger pending)
    {e : OrderInfo P} {events : OrderInfoVec P} (executed : e.event = .exec)
    (eventsPos : ∀ other ∈ e :: events, 0 < other.quantity) :
    e.quantity ≤ qtyAt (creditEvents pending (e :: events)) e.price ∧
      debit (creditEvents pending (e :: events)) e.price e.quantity =
        creditEvents pending events := by
  have laterPos : ∀ other ∈ events, 0 < other.quantity :=
    fun other mem => eventsPos other (List.mem_cons_of_mem _ mem)
  have split : ∀ price, execQtyAt (e :: events) price =
      (if price = e.price then e.quantity else 0) + execQtyAt events price := by
    intro price
    simp only [execQtyAt, List.map_cons, List.sum_cons, executed, true_and, @eq_comm P price]
  have covered : e.quantity ≤ qtyAt (creditEvents pending (e :: events)) e.price := by
    have := positive.qtyAt_nonneg e.price
    have := execQtyAt_nonneg laterPos e.price
    rw [qtyAt_creditEvents, split, if_pos rfl]
    omega
  refine ⟨covered, PositiveLedger.ext ((positive.creditEvents eventsPos).debit covered)
    (positive.creditEvents laterPos) ?_⟩
  intro price
  rw [qtyAt_debit, qtyAt_creditEvents, qtyAt_creditEvents, split]
  omega

end OrderBook
