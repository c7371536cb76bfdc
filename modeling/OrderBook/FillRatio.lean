import OrderBook.BinaryRounding
import OrderBook.BookSideProcess

/-!
# The fill ratio in double precision

The reconciliation with a snapshot reports as executed the first
`ceil(0.3 * pending_orders.size())` of the orders it lowers.  The source computes this
number in doubles: the literal is not three tenths, and the product is rounded before
it is rounded up.  Neither changes the outcome, for any number of orders that memory
can hold.
-/

namespace OrderBook

open BinaryRounding

/-- The digits of a double. -/
def doublePrecision : Nat := 53

/-- The unit in which the literal and the product are counted is `2 ^ -54`. -/
def ratioUnit : Nat := 2 ^ 54

/-- The literal `0.3`, in units of `2 ^ -54`. -/
def fillRatio : Nat := nearestQuotient (3 * ratioUnit) 10

/-- `ceil` of a number of units of `2 ^ -54`. -/
def ceilUnits (units : Nat) : Nat := (units + (ratioUnit - 1)) / ratioUnit

/-- `ceil(0.3 * size)` in doubles: the size is converted, the product is rounded and the
result is rounded up. -/
def executedOrderNumDouble (size : Nat) : Nat :=
  ceilUnits (round doublePrecision (fillRatio * round doublePrecision size))

/-- The literal takes all digits of a double and no more, and is a fifth of a unit short of
three tenths. -/
theorem fillRatio_spec : 2 ^ (doublePrecision - 1) ≤ fillRatio ∧ fillRatio < 2 ^ doublePrecision ∧
    10 * fillRatio + 2 = 3 * ratioUnit := by
  decide

theorem ceilUnits_eq {units whole : Nat} (above : whole * ratioUnit < units)
    (below : units ≤ (whole + 1) * ratioUnit) : ceilUnits units = whole + 1 := by
  simp only [ceilUnits, ratioUnit] at *
  omega

/-- The first `executedOrderNum size` indices are those below three tenths of the size. -/
theorem lt_executedOrderNum_iff (index size : Nat) :
    index < BookSide.executedOrderNum size ↔ 10 * index < 3 * size := by
  simp only [BookSide.executedOrderNum]
  omega

/-- The rounded product lies between a number just above the integer below the ceiling and
the ceiling itself: both have few enough digits to bound it. -/
theorem round_product_bounds {size : Nat} (whole : Nat) (small : size < 2 ^ 50)
    (above : 10 * whole < 3 * size) (below : 3 * size ≤ 10 * (whole + 1)) :
    whole * ratioUnit < round doublePrecision (fillRatio * size) ∧
      round doublePrecision (fillRatio * size) ≤ (whole + 1) * ratioUnit := by
  have ratio := fillRatio_spec.2.2
  have scaled : 10 * (fillRatio * size) + 2 * size = 3 * size * ratioUnit := by
    rw [← Nat.mul_assoc, ← Nat.add_mul, ratio, Nat.mul_right_comm]
  have lower : Representable doublePrecision ((16 * whole + 1) * 2 ^ 50) :=
    ⟨16 * whole + 1, 50, by simp only [doublePrecision]; omega, rfl⟩
  have upper : Representable doublePrecision ((whole + 1) * ratioUnit) :=
    ⟨whole + 1, 54, by simp only [doublePrecision]; omega, rfl⟩
  constructor
  · refine lt_of_lt_of_le ?_ (lower.le_round ?_)
    · simp only [ratioUnit]
      omega
    · simp only [ratioUnit] at scaled
      omega
  · apply upper.round_le
    simp only [ratioUnit] at scaled ⊢
    omega

/-- In doubles the number of orders reported as executed is three tenths of all, rounded up, as
in exact arithmetic: the order at an index is reported as executed exactly when ten times
the index is less than three times the number of orders. -/
theorem executedOrderNum_in_doubles {size : Nat} (small : size < 2 ^ 50) :
    executedOrderNumDouble size = BookSide.executedOrderNum size ∧
      ∀ index, index < executedOrderNumDouble size ↔ 10 * index < 3 * size := by
  have same : executedOrderNumDouble size = BookSide.executedOrderNum size := by
    have converted : round doublePrecision size = size :=
      Representable.round_eq ⟨size, 0, by simp only [doublePrecision]; omega, by simp⟩
    rw [executedOrderNumDouble, converted]
    rcases Nat.eq_zero_or_pos size with rfl | pos
    · decide
    · obtain ⟨whole, wholeEq⟩ : ∃ whole, BookSide.executedOrderNum size = whole + 1 :=
        ⟨BookSide.executedOrderNum size - 1, by simp only [BookSide.executedOrderNum]; omega⟩
      simp only [BookSide.executedOrderNum] at wholeEq ⊢
      obtain ⟨above, below⟩ := round_product_bounds whole small (by omega) (by omega)
      rw [ceilUnits_eq above below, wholeEq]
  refine ⟨same, fun index => ?_⟩
  rw [same, lt_executedOrderNum_iff]

theorem executedOrderNum_of_ten :
    executedOrderNumDouble 10 = 3 ∧ ∀ index, index < executedOrderNumDouble 10 ↔ index < 3 := by
  obtain ⟨same, iff⟩ := executedOrderNum_in_doubles (show 10 < 2 ^ 50 by decide)
  refine ⟨same, fun index => ?_⟩
  rw [iff]
  omega

end OrderBook
