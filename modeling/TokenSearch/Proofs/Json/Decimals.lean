import TokenSearch.Json.Number
import TokenSearch.Proofs.Binary32.Order

/-!
The values of numbers in JSON text, told by their digits and not by a reader. A reader rounds an
integer of 64 bits to binary32 at once. Any other number goes through binary64, with best effort: a
short one becomes the nearest binary64 number, and the others are off by less than `2⁻⁵⁰` of
themselves before the last rounding. So a number has one reading in binary32 if it is short, or if
nothing that near to it rounds to another one.
-/

namespace TokenSearch

namespace Json.NumberText

open BinaryFormat (binary64)

/-- Digits without a point or an exponent. -/
structure IsInteger (t : NumberText) (negative : Bool) (n : Nat) : Prop where
  sign : t.negative = negative
  fraction : t.fraction = []
  exponent : t.exponent = []
  value : Number.ofDigits t.whole = n

def IsWord (t : NumberText) : Prop :=
  (∃ n, t.IsInteger false n ∧ n < 2 ^ 64) ∨ ∃ n, t.IsInteger true n ∧ 0 < n ∧ n ≤ 2 ^ 63

def digits (t : NumberText) : List Nat := t.whole ++ t.fraction

def significand (t : NumberText) : Nat := Number.ofDigits t.digits

/-- The power of ten of the last digit. -/
def power (t : NumberText) : Int :=
  (if t.exponentNegative then -(Number.ofDigits t.exponent : Int) else Number.ofDigits t.exponent) -
    t.fraction.length

/-- The binary64 pattern nearest to `num / den` times the magnitude of a number. -/
def nearestTimes (t : NumberText) (num den : Nat) : Nat :=
  binary64.nearest (t.significand * 10 ^ t.power.toNat * num * binary64.unitsInOne)
    (10 ^ (-t.power).toNat * den)

def nearest (t : NumberText) : Nat := t.nearestTimes 1 1

def lower (t : NumberText) : Nat := t.nearestTimes (2 ^ 50 - 1) (2 ^ 50)

def upper (t : NumberText) : Nat := t.nearestTimes (2 ^ 50 + 1) (2 ^ 50)

/-- Both the digits and the power of ten are binary64 numbers themselves. -/
structure Short (t : NumberText) : Prop where
  significand : t.significand < 2 ^ 53
  power : t.power.natAbs ≤ 22

/-- Neither a word nor longer than a reader counts. -/
structure IsDecimal (t : NumberText) : Prop where
  other : ¬ t.IsWord
  few : t.digits.length < 2 ^ 30

/-- What a number in the range of binary64 may be read as. -/
inductive ReadAs (t : NumberText) : Binary32 → Prop
  | natural {n : Nat} : t.IsInteger false n → n < 2 ^ 64 → ReadAs t (Binary32.ofRatio n 1)
  | negative {n : Nat} : t.IsInteger true n → 0 < n → n ≤ 2 ^ 63 →
    ReadAs t (Binary32.ofRatio (-n) 1)
  | decimal {pattern : Nat} : t.IsDecimal → t.upper < binary64.infinity →
    t.lower ≤ pattern → pattern ≤ t.upper → (t.Short → pattern = t.nearest) →
    ReadAs t (Binary32.ofBinary64 t.negative pattern)

/-- A number that every reader takes for the same binary32 number. -/
inductive RoundsTo (t : NumberText) : Binary32 → Prop
  | natural {n : Nat} : t.IsInteger false n → n < 2 ^ 64 → RoundsTo t (Binary32.ofRatio n 1)
  | negative {n : Nat} : t.IsInteger true n → 0 < n → n ≤ 2 ^ 63 →
    RoundsTo t (Binary32.ofRatio (-n) 1)
  | short : t.IsDecimal → t.Short → RoundsTo t (Binary32.ofBinary64 t.negative t.nearest)
  | firm {x : Binary32} : t.IsDecimal → Binary32.ofBinary64 t.negative t.lower = x →
    Binary32.ofBinary64 t.negative t.upper = x → RoundsTo t x

/-! ## Readings -/

variable {t : NumberText} {x y : Binary32}

theorem IsInteger.unique {b : Bool} {m n : Nat} (h : t.IsInteger b m) (h' : t.IsInteger b n) :
    m = n :=
  h.value.symm.trans h'.value

theorem nearestTimes_mono {num den num' den' : Nat} (pos : 0 < den) (pos' : 0 < den')
    (le : num * den' ≤ num' * den) : t.nearestTimes num den ≤ t.nearestTimes num' den' := by
  have ten : ∀ k, 0 < 10 ^ k := fun k => Nat.pow_pos (by decide)
  refine binary64.nearest_mono (Nat.mul_pos (ten _) pos) (Nat.mul_pos (ten _) pos') ?_
  generalize t.significand * 10 ^ t.power.toNat = m, 10 ^ (-t.power).toNat = k, binary64.unitsInOne = u
  calc m * num * u * (k * den') = m * u * k * (num * den') := by ac_rfl
    _ ≤ m * u * k * (num' * den) := Nat.mul_le_mul_left _ le
    _ = m * num' * u * (k * den) := by ac_rfl

theorem lower_le_nearest : t.lower ≤ t.nearest :=
  nearestTimes_mono (by decide) (by decide) (by decide)

theorem nearest_le_upper : t.nearest ≤ t.upper :=
  nearestTimes_mono (by decide) (by decide) (by decide)

theorem Short.upper_lt (short : t.Short) : t.upper < binary64.infinity := by
  have finite : binary64.nearest (2 ^ 53 * 10 ^ 22 * (2 ^ 50 + 1) * binary64.unitsInOne)
      (2 ^ 50) < binary64.infinity := by decide +kernel
  refine Nat.lt_of_le_of_lt ?_ finite
  have ten : 0 < 10 ^ (-t.power).toNat := Nat.pow_pos (by decide)
  have power : t.power.toNat ≤ 22 := by
    have := short.power
    omega
  refine binary64.nearest_mono (Nat.mul_pos ten (by decide)) (by decide) ?_
  have scaled : t.significand * 10 ^ t.power.toNat ≤ 2 ^ 53 * 10 ^ 22 :=
    Nat.mul_le_mul (Nat.le_of_lt short.significand) (Nat.pow_le_pow_right (by decide) power)
  refine Nat.mul_le_mul ?_ (Nat.le_mul_of_pos_left _ ten)
  exact Nat.mul_le_mul_right _ (Nat.mul_le_mul_right _ scaled)

end Json.NumberText

namespace Binary32

theorem magnitude_ofBinary64 (negative : Bool) (pattern : Nat) :
    (ofBinary64 negative pattern).magnitude =
      BinaryFormat.binary32.nearest (BinaryFormat.binary64.units pattern) (2 ^ 925) :=
  magnitude_ofMagnitude (infinity_eq ▸ BinaryFormat.binary32.nearest_le_infinity _ _)

theorem ofBinary64_between {negative : Bool} {low pattern high : Nat} {x : Binary32}
    (lower : ofBinary64 negative low = x) (upper : ofBinary64 negative high = x)
    (above : low ≤ pattern) (below : pattern ≤ high)
    (finite : high ≤ BinaryFormat.binary64.infinity) : ofBinary64 negative pattern = x := by
  have mono : ∀ {p q : Nat}, p ≤ q → q ≤ BinaryFormat.binary64.infinity →
      (ofBinary64 negative p).magnitude ≤ (ofBinary64 negative q).magnitude := by
    intro p q le finite
    have pos : 0 < 2 ^ 925 := Nat.two_pow_pos 925
    rw [magnitude_ofBinary64, magnitude_ofBinary64]
    refine BinaryFormat.binary32.nearest_mono pos pos (Nat.mul_le_mul_right _ ?_)
    exact (BinaryFormat.binary64.units_le_units (Nat.le_trans le finite) finite).2 le
  have same : (ofBinary64 negative pattern).magnitude = x.magnitude :=
    Nat.le_antisymm (upper ▸ mono below finite) (lower ▸ mono above (Nat.le_trans below finite))
  rw [← upper, magnitude_ofBinary64, magnitude_ofBinary64] at same
  rw [← upper, ofBinary64, ofBinary64, same]

theorem ofBinary64_infinity (negative : Bool) :
    (ofBinary64 negative BinaryFormat.binary64.infinity).isFinite = false := by
  cases negative <;> decide +kernel

end Binary32

namespace Json.NumberText

variable {t : NumberText} {x y : Binary32}

theorem upper_lt_of_finite (finite : x.isFinite = true)
    (rounded : Binary32.ofBinary64 t.negative t.upper = x) :
    t.upper < BinaryFormat.binary64.infinity := by
  refine Nat.lt_of_le_of_ne (BinaryFormat.binary64.nearest_le_infinity _ _) fun infinite => ?_
  rw [← rounded, infinite, Binary32.ofBinary64_infinity] at finite
  cases finite

theorem RoundsTo.readAs (rounds : t.RoundsTo x) (finite : x.isFinite = true) : t.ReadAs x := by
  cases rounds with
  | natural integer fits => exact .natural integer fits
  | negative integer pos fits => exact .negative integer pos fits
  | short decimal short =>
    exact .decimal decimal short.upper_lt lower_le_nearest nearest_le_upper fun _ => rfl
  | firm decimal lower upper =>
    have inside := Binary32.ofBinary64_between lower upper lower_le_nearest nearest_le_upper
      (BinaryFormat.binary64.nearest_le_infinity _ _)
    rw [← inside]
    exact .decimal decimal (upper_lt_of_finite finite upper) lower_le_nearest nearest_le_upper
      fun _ => rfl

theorem RoundsTo.unique (rounds : t.RoundsTo x) (reads : t.ReadAs y) : y = x := by
  cases rounds with
  | natural integer fits =>
    cases reads with
    | natural integer' => rw [integer.unique integer']
    | negative integer' => exact absurd (integer.sign.symm.trans integer'.sign) (by decide)
    | decimal decimal => exact absurd (.inl ⟨_, integer, fits⟩) decimal.other
  | negative integer pos fits =>
    cases reads with
    | natural integer' => exact absurd (integer.sign.symm.trans integer'.sign) (by decide)
    | negative integer' => rw [integer.unique integer']
    | decimal decimal => exact absurd (.inr ⟨_, integer, pos, fits⟩) decimal.other
  | short decimal short =>
    cases reads with
    | natural integer fits => exact absurd (.inl ⟨_, integer, fits⟩) decimal.other
    | negative integer pos fits => exact absurd (.inr ⟨_, integer, pos, fits⟩) decimal.other
    | decimal _ _ _ _ exact => rw [exact short]
  | firm decimal lower upper =>
    cases reads with
    | natural integer fits => exact absurd (.inl ⟨_, integer, fits⟩) decimal.other
    | negative integer pos fits => exact absurd (.inr ⟨_, integer, pos, fits⟩) decimal.other
    | decimal _ _ above below =>
      exact Binary32.ofBinary64_between lower upper above below
        (BinaryFormat.binary64.nearest_le_infinity _ _)

/-- The number `1.6796384453773499` may be read as either of two neighbours. -/
example :
    let t : NumberText := ⟨false, [1], [6, 7, 9, 6, 3, 8, 4, 4, 5, 3, 7, 7, 3, 4, 9, 9], false, []⟩
    ¬ t.Short ∧ Binary32.ofBinary64 false t.lower = ⟨0x3fd6fe64⟩ ∧
      Binary32.ofBinary64 false t.upper = ⟨0x3fd6fe65⟩ :=
  ⟨fun short => absurd short.significand (by decide +kernel), by decide +kernel⟩

end Json.NumberText

end TokenSearch
