import Mathlib.Algebra.Order.Ring.Nat
import Mathlib.Data.Nat.Size

/-!
# Rounding to a fixed number of binary digits

A number with finitely many binary digits is a count of some small unit, a power of
two.  Rounding it to a given precision keeps that many leading digits and does not
depend on the unit.  What the results say is what an argument about rounded products
needs: a number that is short enough bounds the rounded number if it bounds the exact
one.
-/

namespace BinaryRounding

/-- The integer nearest to a quotient, and the even one of two. -/
def nearestQuotient (numerator denominator : Nat) : Nat :=
  let quotient := numerator / denominator
  let rest := numerator % denominator
  if 2 * rest < denominator then quotient
  else if denominator < 2 * rest then quotient + 1
  else quotient + quotient % 2

/-- The number of digits beyond the precision. -/
def excess (precision units : Nat) : Nat := units.size - precision

/-- Keep `precision` leading digits, with ties to even. -/
def round (precision units : Nat) : Nat :=
  nearestQuotient units (2 ^ excess precision units) * 2 ^ excess precision units

/-- The numbers that have no more digits than the precision. -/
def Representable (precision units : Nat) : Prop :=
  ∃ significand shift, significand < 2 ^ precision ∧ units = significand * 2 ^ shift

theorem le_nearestQuotient (numerator denominator : Nat) :
    numerator / denominator ≤ nearestQuotient numerator denominator := by
  unfold nearestQuotient
  dsimp only
  split
  · omega
  · split <;> omega

theorem nearestQuotient_le (numerator denominator : Nat) :
    nearestQuotient numerator denominator ≤ numerator / denominator + 1 := by
  unfold nearestQuotient
  dsimp only
  split
  · omega
  · split <;> omega

theorem nearestQuotient_mul (quotient : Nat) {denominator : Nat} (pos : 0 < denominator) :
    nearestQuotient (quotient * denominator) denominator = quotient := by
  simp [nearestQuotient, Nat.mul_div_cancel quotient pos, pos]

section Bounds

variable {precision units bound : Nat}

/-- With digits beyond the precision, the leading digit stands where they say. -/
theorem two_pow_le_of_excess (precision units : Nat) (long : excess precision units ≠ 0) :
    2 ^ (precision + excess precision units - 1) ≤ units := by
  have lead : precision + excess precision units - 1 < units.size := by
    simp only [excess] at long ⊢
    omega
  exact Nat.lt_size.mp lead

/-- A representable number with digits below those kept is smaller than the lead. -/
theorem lt_of_shift_lt {significand shift : Nat} (fits : significand < 2 ^ precision)
    (low : shift < excess precision units) :
    significand * 2 ^ shift < 2 ^ (precision + excess precision units - 1) := by
  calc
    significand * 2 ^ shift < 2 ^ precision * 2 ^ shift :=
      Nat.mul_lt_mul_of_pos_right fits (Nat.two_pow_pos shift)
    _ = 2 ^ (precision + shift) := (Nat.pow_add 2 precision shift).symm
    _ ≤ 2 ^ (precision + excess precision units - 1) :=
      Nat.pow_le_pow_right (by omega) (by omega)

/-- A multiple of the unit of the last digit that is kept stays below the rounded number. -/
theorem multiple_le_round {multiple : Nat}
    (below : multiple * 2 ^ excess precision units ≤ units) :
    multiple * 2 ^ excess precision units ≤ round precision units := by
  have quotient : multiple ≤ units / 2 ^ excess precision units :=
    (Nat.le_div_iff_mul_le (Nat.two_pow_pos _)).mpr below
  exact Nat.mul_le_mul_right _ (quotient.trans (le_nearestQuotient units _))

theorem round_le_multiple {multiple : Nat}
    (above : units ≤ multiple * 2 ^ excess precision units) :
    round precision units ≤ multiple * 2 ^ excess precision units := by
  have quotient : units / 2 ^ excess precision units ≤ multiple :=
    Nat.div_le_of_le_mul (by rwa [Nat.mul_comm])
  rcases Nat.lt_or_eq_of_le quotient with less | same
  · have next := nearestQuotient_le units (2 ^ excess precision units)
    exact Nat.mul_le_mul_right _ (by omega)
  · -- the bound is reached, so nothing is cut off
    have back := Nat.div_mul_le_self units (2 ^ excess precision units)
    have reached : units = multiple * 2 ^ excess precision units := by
      rw [same] at back
      omega
    have whole : nearestQuotient units (2 ^ excess precision units) = multiple :=
      (congrArg (nearestQuotient · _) reached).trans (nearestQuotient_mul _ (Nat.two_pow_pos _))
    rw [round, whole]

/-- A representable lower bound holds for the rounded number. -/
theorem Representable.le_round (representable : Representable precision bound)
    (below : bound ≤ units) : bound ≤ round precision units := by
  obtain ⟨significand, shift, fits, rfl⟩ := representable
  rcases Nat.lt_or_ge shift (excess precision units) with low | high
  · have lead := two_pow_le_of_excess precision units (by omega)
    have small := lt_of_shift_lt fits low
    cases precision with
    | zero =>
        obtain rfl : significand = 0 := by simpa using fits
        simp
    | succ digits =>
        have multiple : 2 ^ (digits + 1 + excess (digits + 1) units - 1) =
            2 ^ digits * 2 ^ excess (digits + 1) units := by
          rw [← Nat.pow_add]
          congr 1
          omega
        rw [multiple] at lead small
        exact small.le.trans (multiple_le_round lead)
  · obtain ⟨extra, rfl⟩ := Nat.exists_eq_add_of_le' high
    rw [Nat.pow_add, ← Nat.mul_assoc] at below ⊢
    exact multiple_le_round below

/-- A representable upper bound holds for the rounded number. -/
theorem Representable.round_le (representable : Representable precision bound)
    (above : units ≤ bound) : round precision units ≤ bound := by
  obtain ⟨significand, shift, fits, rfl⟩ := representable
  rcases Nat.lt_or_ge shift (excess precision units) with low | high
  · have lead := two_pow_le_of_excess precision units (by omega)
    have small := lt_of_shift_lt fits low
    omega
  · obtain ⟨extra, rfl⟩ := Nat.exists_eq_add_of_le' high
    rw [Nat.pow_add, ← Nat.mul_assoc] at above ⊢
    exact round_le_multiple above

theorem Representable.round_eq (representable : Representable precision units) :
    round precision units = units :=
  Nat.le_antisymm (representable.round_le (Nat.le_refl units))
    (representable.le_round (Nat.le_refl units))

end Bounds

end BinaryRounding
