import TokenSearch.Binary32.Elementary
import TokenSearch.Proofs.Binary32.Arithmetic

/-!
Signs of exponentials, logarithms and powers. They follow from the last step of each, which gives a
pattern a sign, whatever the enclosures before it are.
-/

namespace TokenSearch

theorem BinaryFormat.nearestScaled_le_infinity (F : BinaryFormat) (m : Nat) (e : Int) :
    F.nearestScaled m e ≤ F.infinity := by
  unfold nearestScaled
  split <;> exact F.nearest_le_infinity _ _

namespace Binary32

variable {x y : Binary32}

theorem firstAgreed_le (enclose : Precision → Int × Enclosure) (ladder : List Precision) :
    firstAgreed enclose ladder ≤ 0x7f800000 := by
  have scaled (m : Nat) (e : Int) :=
    infinity_eq ▸ BinaryFormat.binary32.nearestScaled_le_infinity m e
  induction ladder with
  | nil => exact Nat.zero_le _
  | cons p finer ih =>
    unfold firstAgreed
    dsimp only
    split
    · exact scaled _ _
    · cases finer with
      | nil => exact scaled _ _
      | cons q rest => exact ih

theorem zero_le (number : x.isNaN = false) (positive : x.negative = false) : zero.le x = true := by
  have value : x.signed = x.magnitude := by rw [signed, if_neg (by simp [positive])]
  exact le_iff.2 ⟨isNaN_zero, number, value ▸ Int.natCast_nonneg _⟩

theorem expOf_positive (e : Precision → Enclosure) :
    (expOf e).isNaN = false ∧ (expOf e).negative = false := by
  unfold expOf
  dsimp only
  split
  · decide
  · split
    · decide
    · exact ⟨isNaN_ofMagnitude (firstAgreed_le _ _), negative_ofMagnitude (firstAgreed_le _ _)⟩

theorem exp_nonneg (number : x.isNaN = false) : zero.le x.exp = true := by
  unfold exp
  rw [number, if_neg (by decide)]
  split
  · split <;> decide
  · exact zero_le (expOf_positive _).1 (expOf_positive _).2

@[simp] theorem exp_zero : zero.exp = one := by decide +kernel

theorem log_nonneg (h : one.le x = true) : zero.le x.log = true := by
  obtain ⟨-, number, le⟩ := le_iff.1 h
  have units : 2 ^ 149 ≤ x.units := (units_le (by decide) number).2 le
  have positive : x.negative = false := by
    by_contra negative
    have below : x.signed ≤ 0 := by
      rw [signed, if_pos (by simpa using negative)]
      exact Int.neg_nonpos_of_nonneg (Int.natCast_nonneg _)
    have unit : one.signed = 0x3f800000 := by decide
    omega
  have large : ¬ BinaryFormat.binary32.units x.magnitude < 2 ^ 149 := by
    rw [← natAbs_units]
    omega
  have some : x.magnitude ≠ 0 := by
    intro zero
    rw [zero, units_zero] at large
    exact large (by decide)
  unfold log
  rw [number, positive]
  simp only [Bool.false_eq_true, if_false, if_neg some, decide_eq_false large]
  split
  · decide
  · split
    · decide
    · exact zero_le (isNaN_ofMagnitude (firstAgreed_le _ _))
        (negative_ofMagnitude (firstAgreed_le _ _))

theorem isNaN_quiet (undefined : x.isNaN = true) : x.quiet.isNaN = true := by
  have grown : x.magnitude ≤ x.quiet.magnitude := by
    rw [magnitude_eq, magnitude_eq, quiet, UInt32.toNat_or, Nat.or_mod_two_pow]
    exact Nat.left_le_or
  rw [isNaN_iff] at undefined ⊢
  omega

theorem positive_powCount {count : Nat} (number : (powCount count y).isNaN = false) :
    (powCount count y).negative = false := by
  unfold powCount at number ⊢
  dsimp only at number ⊢
  by_cases none : y.magnitude = 0
  · rw [if_pos none]
    decide
  rw [if_neg none] at number ⊢
  by_cases unit : ofNat count = one
  · rw [if_pos unit]
    decide
  rw [if_neg unit] at number ⊢
  by_cases undefined : y.isNaN = true
  · rw [if_pos undefined, isNaN_quiet undefined] at number
    cases number
  rw [if_neg undefined] at number ⊢
  split
  · split <;> decide
  · split
    · split <;> decide
    · exact (expOf_positive _).2

/-! ## Exponents whose powers do not grow -/

/-- Zero of either sign, and what is not above `-256`: powers of two and more are all one with the
first and all zero with the second. -/
def Flat (y : Binary32) : Prop := y.magnitude = 0 ∨ y.le ⟨0xc3800000⟩ = true

theorem signed_ofNat_mono {m n : Nat} (le : m ≤ n) : (ofNat m).signed ≤ (ofNat n).signed := by
  rw [ofNat, ofNat, signed_ofMagnitude (nearest_le _ _), signed_ofMagnitude (nearest_le _ _),
    if_neg (by decide), if_neg (by decide)]
  exact Int.ofNat_le.2 (BinaryFormat.binary32.nearest_mono Nat.one_pos Nat.one_pos
    (Nat.mul_le_mul_right 1 (Nat.mul_le_mul_right _ le)))

theorem powCount_of_zero {count : Nat} (none : y.magnitude = 0) : powCount count y = one := by
  rw [powCount, if_pos none]

theorem powCount_of_steep {count : Nat} (steep : y.le ⟨0xc3800000⟩ = true) (many : 2 ≤ count) :
    powCount count y = zero := by
  obtain ⟨number, -, low⟩ := le_iff.1 steep
  rw [show (⟨0xc3800000⟩ : Binary32).signed = -0x43800000 by decide] at low
  have negative : y.negative = true := by
    by_contra positive
    rw [signed, if_neg positive] at low
    omega
  have large : 0x43800000 ≤ y.magnitude := by
    rw [signed, if_pos negative] at low
    omega
  have far : (y.isInfinite || 256 ≤ y.units.natAbs / 2 ^ 149) = true := by
    have units : BinaryFormat.binary32.units 0x43800000 ≤ BinaryFormat.binary32.units y.magnitude :=
      (BinaryFormat.binary32.units_le_units (by decide) (infinity_eq ▸ magnitude_le number)).2 large
    rw [Bool.or_eq_true, decide_eq_true_iff, natAbs_units, Nat.le_div_iff_mul_le (by decide)]
    exact .inr (Nat.le_trans (by decide) units)
  have two : (0x40000000 : Int) ≤ (ofNat count).signed :=
    Int.le_trans (by decide) (signed_ofNat_mono many)
  have ne_one : ofNat count ≠ one := fun same => by
    rw [same] at two
    exact absurd two (by decide)
  have ne_zero : ofNat count ≠ zero := fun same => by
    rw [same] at two
    exact absurd two (by decide)
  unfold powCount
  dsimp only
  rw [if_neg (by omega), if_neg ne_one, if_neg (by simp [number]), if_neg ne_zero, if_pos far,
    if_pos negative]

theorem Flat.powCount_le (flat : y.Flat) {m n : Nat} (pos : 0 < m) (le : m ≤ n) :
    (powCount n y).le (powCount m y) = true := by
  rcases flat with none | steep
  · rw [powCount_of_zero none, powCount_of_zero none]
    decide
  · rcases Nat.eq_or_lt_of_le pos with rfl | many
    · have unit : powCount 1 y = one := by simp [powCount, show ofNat 1 = one by decide]
      rcases Nat.eq_or_lt_of_le le with rfl | more
      · rw [unit]
        decide
      · rw [unit, powCount_of_steep steep more]
        decide
    · rw [powCount_of_steep steep many, powCount_of_steep steep (Nat.le_trans many le)]
      decide

end Binary32

end TokenSearch
