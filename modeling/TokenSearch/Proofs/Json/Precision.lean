import Mathlib.Algebra.Order.Field.Power
import TokenSearch.Proofs.Binary.Error
import TokenSearch.Proofs.Json.Decimals

/-!
The precision of the conversion to binary64. The digits that are left out change a number by less
than one part in `2⁶⁰`, and the significand, the powers of ten and the quotients between are each
rounded once; so the number that is rounded last is within `2⁻⁵⁰` of the one that was written. A
short number meets no rounding before the last.
-/

namespace TokenSearch.Json

namespace Number

/-! ## Digits -/

section Digits

variable {n k a b : Nat} {digits whole fraction : List Nat}

theorem foldl_digits (n : Nat) (digits : List Nat) :
    digits.foldl (fun n d => n * 10 + d) n = n * 10 ^ digits.length + ofDigits digits := by
  induction digits generalizing n with
  | nil => simp [ofDigits]
  | cons d digits ih =>
    rw [ofDigits, List.foldl_cons, List.foldl_cons, ih, ih (0 * 10 + d), List.length_cons]
    ring

theorem ofDigits_append (ds es : List Nat) :
    ofDigits (ds ++ es) = ofDigits ds * 10 ^ es.length + ofDigits es := by
  rw [ofDigits, List.foldl_append, foldl_digits]
  rfl

theorem ofDigits_lt (decimal : ∀ d ∈ digits, d < 10) : ofDigits digits < 10 ^ digits.length := by
  induction digits with
  | nil => decide
  | cons d digits ih =>
    have first := decimal d List.mem_cons_self
    have others := ih fun d h => decimal d (List.mem_cons_of_mem _ h)
    have split := ofDigits_append [d] digits
    rw [List.singleton_append] at split
    rw [split, List.length_cons, Nat.pow_succ]
    have : ofDigits [d] ≤ 9 := by
      rw [ofDigits, List.foldl_cons, List.foldl_nil]
      omega
    nlinarith

theorem accumulate_spec (n : Nat) (digits : List Nat) :
    ∃ taken, digits = taken ++ (accumulate n digits).2 ∧
      (accumulate n digits).1 = n * 10 ^ taken.length + ofDigits taken ∧
      ∀ d ∈ (accumulate n digits).2.head?, 2 ^ 64 ≤ (accumulate n digits).1 * 10 + d := by
  induction digits generalizing n with
  | nil => exact ⟨[], rfl, by simp [accumulate, ofDigits], by simp [accumulate]⟩
  | cons d digits ih =>
    rw [accumulate]
    split_ifs with fits
    · obtain ⟨taken, split, value, full⟩ := ih (n * 10 + d)
      refine ⟨d :: taken, congrArg (d :: ·) split, ?_, full⟩
      rw [value, ← foldl_digits, ← foldl_digits, List.foldl_cons]
    · refine ⟨[], rfl, by simp [ofDigits], fun e head => ?_⟩
      cases head
      exact Nat.not_lt.1 fits

theorem accumulate_lt (small : n < 2 ^ 64) (digits : List Nat) :
    (accumulate n digits).1 < 2 ^ 64 := by
  induction digits generalizing n with
  | nil => exact small
  | cons d digits ih =>
    rw [accumulate]
    split_ifs with fits
    · exact ih fits
    · exact small

theorem close_of_leading (long : 2 ^ 60 ≤ n) (ha : n * k ≤ a ∧ a ≤ (n + 1) * k)
    (hb : n * k ≤ b ∧ b ≤ (n + 1) * k) : Close 1 (a : ℚ) b := by
  have factor : ((n : ℚ) + 1) * shrink ≤ n := by
    have : (2 : ℚ) ^ 60 ≤ n := by exact_mod_cast long
    rw [shrink]
    linarith
  have below : ∀ {a b : Nat}, a ≤ (n + 1) * k → n * k ≤ b → (a : ℚ) * shrink ^ 1 ≤ b := by
    intro a b upper lower
    have upper' : (a : ℚ) ≤ (n + 1) * k := by exact_mod_cast upper
    have lower' : (n : ℚ) * k ≤ b := by exact_mod_cast lower
    calc (a : ℚ) * shrink ^ 1 ≤ (n + 1) * k * shrink := by
          rw [pow_one]
          exact mul_le_mul_of_nonneg_right upper' shrink_pos.le
      _ = (n + 1) * shrink * k := by ring
      _ ≤ n * k := mul_le_mul_of_nonneg_right factor (Nat.cast_nonneg k)
      _ ≤ b := lower'
  exact ⟨below ha.2 hb.1, below hb.2 ha.1⟩

theorem two_pow_le_of_full {d : Nat} (decimal : d < 10) (full : 2 ^ 64 ≤ n * 10 + d) :
    2 ^ 60 ≤ n := by omega

theorem ofDigits_append_bounds (taken : List Nat) {left : List Nat} (decimal : ∀ d ∈ left, d < 10) :
    ofDigits taken * 10 ^ left.length ≤ ofDigits (taken ++ left) ∧
      ofDigits (taken ++ left) ≤ (ofDigits taken + 1) * 10 ^ left.length := by
  have small := ofDigits_lt decimal
  rw [ofDigits_append, Nat.succ_mul]
  omega

def leading (whole fraction : List Nat) : Nat := (accumulate (accumulate 0 whole).1 fraction).1

def leftOut (whole fraction : List Nat) : Nat :=
  (accumulate 0 whole).2.length + (accumulate (accumulate 0 whole).1 fraction).2.length

theorem leading_lt (whole fraction : List Nat) : leading whole fraction < 2 ^ 64 :=
  accumulate_lt (accumulate_lt (by decide) whole) fraction

theorem close_leading (decimal : ∀ d ∈ whole ++ fraction, d < 10) :
    Close 1 ((leading whole fraction * 10 ^ leftOut whole fraction : Nat) : ℚ)
      (ofDigits (whole ++ fraction)) := by
  unfold leading leftOut
  obtain ⟨taken, split, value, full⟩ := accumulate_spec 0 whole
  generalize accumulate 0 whole = first at *
  obtain ⟨taken', split', value', full'⟩ := accumulate_spec first.1 fraction
  generalize accumulate first.1 fraction = second at *
  obtain ⟨n, dropped⟩ := first
  obtain ⟨s, ignored⟩ := second
  dsimp only at *
  rw [Nat.zero_mul, Nat.zero_add] at value
  subst split split'
  -- The digit that did not fit shows that those before it are many.
  rcases dropped with _ | ⟨d, dropped⟩
  · have value' : s = ofDigits (taken ++ taken') := by rw [value', value, ofDigits_append]
    rcases ignored with _ | ⟨d, ignored⟩
    · rw [value']
      simpa using Close.refl (k := 1) (Nat.cast_nonneg (α := ℚ) (ofDigits (taken ++ taken')))
    · have here : d < 10 := decimal d (by simp)
      have left : ∀ e ∈ d :: ignored, e < 10 := fun e h => decimal e (by simp_all)
      have bounds := ofDigits_append_bounds (taken ++ taken') left
      rw [← value', List.append_assoc] at bounds
      rw [List.append_nil, List.length_nil, Nat.zero_add]
      exact close_of_leading (two_pow_le_of_full here (full' d rfl))
        ⟨le_rfl, Nat.mul_le_mul_right _ (Nat.le_succ s)⟩ bounds
  · have here : d < 10 := decimal d (by simp)
    have left : ∀ e ∈ (d :: dropped) ++ (taken' ++ ignored), e < 10 := fun e h =>
      decimal e (by simp_all)
    have bounds := ofDigits_append_bounds taken left
    have small : ofDigits taken' < 10 ^ taken'.length := ofDigits_lt fun e h => decimal e (by simp_all)
    rw [← value, ← List.append_assoc taken] at bounds
    refine close_of_leading (two_pow_le_of_full here (full d rfl)) ?_ bounds
    have power : 10 ^ ((d :: dropped) ++ (taken' ++ ignored)).length =
        10 ^ taken'.length * 10 ^ ((d :: dropped).length + ignored.length) := by
      rw [← Nat.pow_add]
      congr 1
      simp only [List.length_append]
      omega
    rw [power, value', ← Nat.mul_assoc, ← Nat.mul_assoc, Nat.succ_mul]
    exact ⟨Nat.mul_le_mul_right _ (Nat.le_add_right _ _), Nat.mul_le_mul_right _ (by omega)⟩

theorem accumulate_eq (n : Nat) (digits : List Nat)
    (fits : n * 10 ^ digits.length + ofDigits digits < 2 ^ 64) :
    accumulate n digits = (n * 10 ^ digits.length + ofDigits digits, []) := by
  obtain ⟨taken, split, value, full⟩ := accumulate_spec n digits
  generalize accumulate n digits = result at *
  obtain ⟨s, left⟩ := result
  dsimp only at *
  cases left with
  | nil => rw [split, List.append_nil, value]
  | cons d left =>
    -- With one digit more it would be too large, and the others only add to it.
    have longer : s * 10 + d ≤ n * 10 ^ digits.length + ofDigits digits := by
      have pos : 0 < 10 ^ left.length := Nat.pow_pos (by decide)
      rw [← foldl_digits, split, List.foldl_append, List.foldl_cons, foldl_digits, foldl_digits,
        ← value]
      exact Nat.le_trans (Nat.le_mul_of_pos_right _ pos) (Nat.le_add_right _ _)
    exact absurd (full d rfl) (Nat.not_le.2 (Nat.lt_of_le_of_lt longer fits))

theorem accumulate_of_fits (whole fraction : List Nat)
    (fits : ofDigits (whole ++ fraction) < 2 ^ 64) :
    accumulate 0 whole = (ofDigits whole, []) ∧
      accumulate (ofDigits whole) fraction = (ofDigits (whole ++ fraction), []) := by
  rw [ofDigits_append] at fits ⊢
  refine ⟨?_, accumulate_eq _ _ fits⟩
  have pos : 0 < 10 ^ fraction.length := Nat.pow_pos (by decide)
  have : ofDigits whole ≤ ofDigits whole * 10 ^ fraction.length := Nat.le_mul_of_pos_right _ pos
  simpa using accumulate_eq 0 whole (by omega)

end Digits

/-! ## Roundings on the way -/

section Roundings

open BinaryFormat (binary64)

variable {m n s k : Nat}

theorem unitsInOne_pos : 0 < binary64.unitsInOne := Nat.two_pow_pos _

theorem cast_unitsInOne_pos : (0 : ℚ) < binary64.unitsInOne := Nat.cast_pos.2 unitsInOne_pos

theorem patternOf_eq (n : Nat) : patternOf n = binary64.nearest (n * binary64.unitsInOne) 1 := rfl

theorem divide_eq (a b : Nat) :
    divide a b = binary64.nearest (binary64.units a * binary64.unitsInOne) (binary64.units b) := rfl

theorem multiply_eq (a b : Nat) :
    multiply a b = binary64.nearest (binary64.units a * binary64.units b) binary64.unitsInOne := rfl

theorem patternOf_mono (le : m ≤ n) : patternOf m ≤ patternOf n :=
  binary64.nearest_mono Nat.one_pos Nat.one_pos
    (Nat.mul_le_mul_right 1 (Nat.mul_le_mul_right binary64.unitsInOne le))

theorem patternOf_lt_infinity (le : n ≤ 10 ^ maxPower) : patternOf n < binary64.infinity :=
  Nat.lt_of_le_of_lt (patternOf_mono le) (by decide +kernel)

theorem ten_pow_le (le : k ≤ maxPower) : 10 ^ k ≤ 10 ^ maxPower := Nat.pow_le_pow_right (by decide) le

theorem le_ten_pow (small : s < 2 ^ 64) : s ≤ 10 ^ maxPower :=
  Nat.le_trans (Nat.le_trans (Nat.le_of_lt small) (by decide : 2 ^ 64 ≤ 10 ^ 20))
    (ten_pow_le (by decide))

theorem close_patternOf (pos : 0 < n) (le : n ≤ 10 ^ maxPower) :
    Close 1 (binary64.units (patternOf n)) (n * binary64.unitsInOne) := by
  have normal : 2 ^ 52 ≤ n * binary64.unitsInOne :=
    Nat.le_trans (Nat.pow_le_pow_right (by decide) (by decide))
      (Nat.le_mul_of_pos_left binary64.unitsInOne pos)
  have rounded := BinaryFormat.close_nearest Nat.one_pos (patternOf_lt_infinity le)
    (by rw [Nat.cast_one, div_one]; exact_mod_cast normal)
  rw [Nat.cast_one, div_one, Nat.cast_mul] at rounded
  exact rounded

theorem units_patternOf_pos (pos : 0 < n) (le : n ≤ 10 ^ maxPower) :
    0 < binary64.units (patternOf n) := by
  have scaled : (0 : ℚ) < n * binary64.unitsInOne := mul_pos (Nat.cast_pos.2 pos) cast_unitsInOne_pos
  have above := (close_patternOf pos le).2
  have factor : 0 < shrink ^ 1 := pow_pos shrink_pos 1
  exact_mod_cast lt_of_lt_of_le (mul_pos scaled factor) above

theorem units_patternOf (small : m < 2 ^ 53) (le : m * 2 ^ k ≤ 10 ^ maxPower) :
    binary64.units (patternOf (m * 2 ^ k)) = m * 2 ^ k * binary64.unitsInOne := by
  have whole : m * 2 ^ k * binary64.unitsInOne = m * 2 ^ (k + binary64.unitScale) := by
    rw [BinaryFormat.unitsInOne, Nat.mul_assoc, ← Nat.pow_add]
  have scale_le : binary64.scale (m * 2 ^ k * binary64.unitsInOne) ≤ k + binary64.unitScale := by
    rw [whole, BinaryFormat.scale, show binary64.fractionBits = 52 from rfl]
    generalize k + binary64.unitScale = shift
    rcases Nat.eq_zero_or_pos m with rfl | pos
    · simp
    · have nonzero : m * 2 ^ shift ≠ 0 := (Nat.mul_pos pos (Nat.two_pow_pos _)).ne'
      have below : m * 2 ^ shift < 2 ^ (53 + shift) := by
        rw [Nat.pow_add]
        exact Nat.mul_lt_mul_of_pos_right small (Nat.two_pow_pos _)
      have := (Nat.log2_lt nonzero).2 below
      omega
  obtain ⟨j, multiple⟩ : 2 ^ binary64.scale (m * 2 ^ k * binary64.unitsInOne) ∣
      m * 2 ^ k * binary64.unitsInOne := by
    rw [whole] at scale_le ⊢
    exact Dvd.dvd.mul_left (Nat.pow_dvd_pow 2 scale_le) m
  rw [patternOf_eq, binary64.units_nearest Nat.one_pos (patternOf_lt_infinity le), Nat.div_one,
    Nat.one_mul]
  generalize m * 2 ^ k * binary64.unitsInOne = value at *
  generalize binary64.scale value = scale at *
  rw [multiple, Nat.mul_comm (2 ^ scale) j, roundQuotient_mul j (Nat.two_pow_pos scale)]

end Roundings

end Number

/-! ## The value of a number -/

namespace NumberText

open BinaryFormat (binary64)

variable {t : NumberText} {num den : Nat}

def magnitude (t : NumberText) : ℚ := t.significand * 10 ^ t.power

theorem magnitude_nonneg (t : NumberText) : 0 ≤ t.magnitude :=
  mul_nonneg (Nat.cast_nonneg _) (zpow_nonneg (by norm_num) _)

theorem ten_zpow (e : Int) : (10 : ℚ) ^ e = (10 ^ e.toNat : Nat) / (10 ^ (-e).toNat : Nat) := by
  obtain ⟨n, rfl | rfl⟩ := e.eq_nat_or_neg
  · simp
  · simp

theorem cast_nearestTimes (t : NumberText) (pos : 0 < den) :
    ((t.significand * 10 ^ t.power.toNat * num * binary64.unitsInOne : Nat) : ℚ) /
        (10 ^ (-t.power).toNat * den : Nat) =
      t.magnitude * (num / den) * binary64.unitsInOne := by
  have den_ne : (den : ℚ) ≠ 0 := Nat.cast_ne_zero.2 pos.ne'
  rw [magnitude, ten_zpow]
  generalize binary64.unitsInOne = scale
  push_cast
  field_simp

theorem le_nearestTimes {a b : Nat} (pos : 0 < den) (pos' : 0 < b)
    (le : (a : ℚ) / b ≤ t.magnitude * (num / den) * binary64.unitsInOne) :
    binary64.nearest a b ≤ t.nearestTimes num den := by
  rw [← cast_nearestTimes t pos] at le
  exact binary64.nearest_le_nearest pos' (Nat.mul_pos (Nat.pow_pos (by decide)) pos) le

theorem nearestTimes_le {a b : Nat} (pos : 0 < den) (pos' : 0 < b)
    (le : t.magnitude * (num / den) * binary64.unitsInOne ≤ (a : ℚ) / b) :
    t.nearestTimes num den ≤ binary64.nearest a b := by
  rw [← cast_nearestTimes t pos] at le
  exact binary64.nearest_le_nearest (Nat.mul_pos (Nat.pow_pos (by decide)) pos) pos' le

theorem nearest_between (pos : 0 < den)
    (close : Close 7 (num / den) (t.magnitude * binary64.unitsInOne)) :
    t.lower ≤ binary64.nearest num den ∧ binary64.nearest num den ≤ t.upper := by
  have value := mul_nonneg t.magnitude_nonneg (Nat.cast_nonneg (α := ℚ) binary64.unitsInOne)
  obtain ⟨above, below⟩ := close.within (by positivity) value
  constructor
  · refine nearestTimes_le (by decide) pos (le_of_eq_of_le ?_ above)
    generalize binary64.unitsInOne = scale
    norm_num
    ring
  · refine le_nearestTimes (by decide) pos (below.trans_eq ?_)
    generalize binary64.unitsInOne = scale
    norm_num
    ring

theorem nearest_eq (pos : 0 < den)
    (value : (num / den : ℚ) = t.magnitude * binary64.unitsInOne) :
    binary64.nearest num den = t.nearest := by
  refine Nat.le_antisymm (le_nearestTimes Nat.one_pos pos (le_of_eq ?_))
    (nearestTimes_le Nat.one_pos pos (le_of_eq ?_)) <;>
  rw [value, Nat.cast_one, div_one, mul_one]

theorem magnitude_lt_of_finite (finite : t.upper < binary64.infinity) :
    t.magnitude < 2 * 10 ^ Number.maxPower := by
  by_contra large
  have infinite : binary64.nearest (2 * 10 ^ Number.maxPower * binary64.unitsInOne) 1 =
      binary64.infinity := by decide +kernel
  have above : binary64.nearest (2 * 10 ^ Number.maxPower * binary64.unitsInOne) 1 ≤ t.upper := by
    refine le_nearestTimes (by decide) Nat.one_pos ?_
    rw [Nat.cast_one, div_one, Nat.cast_mul]
    refine mul_le_mul_of_nonneg_right ?_ (Nat.cast_nonneg _)
    have factor : (1 : ℚ) ≤ (2 ^ 50 + 1 : Nat) / (2 ^ 50 : Nat) := by norm_num
    calc ((2 * 10 ^ Number.maxPower : Nat) : ℚ) ≤ t.magnitude := by
          push_cast
          exact not_lt.1 large
      _ ≤ _ := le_mul_of_one_le_right t.magnitude_nonneg factor
  exact absurd finite (Nat.not_lt.2 (infinite ▸ above))

theorem upper_eq_zero {a b : Nat} (pos : 0 < b) (le : t.magnitude ≤ 2 * (a / b))
    (small : a * 8 * binary64.unitsInOne ≤ b) : t.upper = 0 := by
  have below : t.upper ≤ binary64.nearest 1 2 := by
    refine nearestTimes_le (by decide) (by decide) ?_
    have factor : ((2 ^ 50 + 1 : Nat) : ℚ) / (2 ^ 50 : Nat) ≤ 2 := by norm_num
    have quarter : t.magnitude * (4 * binary64.unitsInOne) ≤ 1 := by
      have unit := Nat.cast_nonneg (α := ℚ) binary64.unitsInOne
      have small' : (a : ℚ) * 8 * binary64.unitsInOne ≤ b := by exact_mod_cast small
      calc t.magnitude * (4 * binary64.unitsInOne)
          ≤ 2 * (a / b) * (4 * binary64.unitsInOne) := mul_le_mul_of_nonneg_right le (by linarith)
        _ = a * 8 * binary64.unitsInOne / b := by ring
        _ ≤ 1 := (div_le_one (Nat.cast_pos.2 pos)).2 small'
    calc t.magnitude * ((2 ^ 50 + 1 : Nat) / (2 ^ 50 : Nat)) * binary64.unitsInOne
        ≤ t.magnitude * 2 * binary64.unitsInOne :=
          mul_le_mul_of_nonneg_right (mul_le_mul_of_nonneg_left factor t.magnitude_nonneg)
            (Nat.cast_nonneg _)
      _ ≤ (1 : Nat) / (2 : Nat) := by
          push_cast
          linarith
  exact Nat.le_zero.1 (below.trans_eq (by decide))

theorem significand_eq_zero (le : t.magnitude * shrink ^ 1 ≤ 0) : t.significand = 0 := by
  by_contra nonzero
  have pos : (0 : ℚ) < t.significand := Nat.cast_pos.2 (Nat.pos_of_ne_zero nonzero)
  have magnitude : 0 < t.magnitude := mul_pos pos (zpow_pos (by norm_num) _)
  exact absurd le (not_le.2 (mul_pos magnitude (pow_pos shrink_pos 1)))

theorem upper_of_significand_eq_zero (zero : t.significand = 0) : t.upper = 0 :=
  upper_eq_zero (a := 0) Nat.one_pos (by simp [magnitude, zero])
    (by rw [Nat.zero_mul 8, Nat.zero_mul]; exact Nat.zero_le 1)

theorem between_of_upper_eq_zero (zero : t.upper = 0) : t.lower ≤ 0 ∧ 0 ≤ t.upper :=
  ⟨zero ▸ lower_le_nearest.trans nearest_le_upper, Nat.zero_le _⟩

end NumberText

namespace Number

open BinaryFormat (binary64)

variable {t : NumberText} {s k : Nat}

@[simp] theorem divide_zero (b : Nat) : divide 0 b = 0 := by
  simp [divide_eq, show binary64.units 0 = 0 by decide]

@[simp] theorem scaleDown_zero (places : Nat) : scaleDown 0 places = 0 := by
  rw [scaleDown]
  split_ifs with few zero
  · exact divide_zero _
  · rfl
  · exact absurd rfl zero

@[simp] theorem patternOf_zero : patternOf 0 = 0 := by simp [patternOf_eq]

@[simp] theorem scale?_zero (e : Int) : scale? 0 e = some 0 := by
  cases e with
  | ofNat k => rw [scale?, if_pos rfl]
  | negSucc k => simp [scale?]

theorem patternOf_ne_zero (pos : 0 < s) : patternOf s ≠ 0 := by
  have one : 0 < patternOf 1 := by decide +kernel
  exact (Nat.lt_of_lt_of_le one (patternOf_mono pos)).ne'

theorem close_quotient {a j : Nat} {c : ℚ}
    (value : Close j (binary64.units a) (c * binary64.unitsInOne)) (nonneg : 0 ≤ c) (le : k ≤ maxPower) :
    Close (j + 1) ((binary64.units a * binary64.unitsInOne : Nat) /
        binary64.units (patternOf (10 ^ k)))
      (c / (10 ^ k : Nat) * binary64.unitsInOne) := by
  have ten : 0 < 10 ^ k := Nat.pow_pos (by decide)
  rw [Nat.cast_mul]
  exact value.quotient (close_patternOf ten (ten_pow_le le)) (Nat.cast_nonneg _)
    (Nat.cast_pos.2 (units_patternOf_pos ten (ten_pow_le le))) nonneg (Nat.cast_pos.2 ten)
    cast_unitsInOne_pos

theorem divide_between {a j : Nat} {c : ℚ} (few : j ≤ 5)
    (dividend : Close j (binary64.units a) (c * binary64.unitsInOne)) (nonneg : 0 ≤ c)
    (le : k ≤ maxPower) (value : Close 1 (c / (10 ^ k : Nat)) t.magnitude) :
    t.lower ≤ divide a (patternOf (10 ^ k)) ∧ divide a (patternOf (10 ^ k)) ≤ t.upper := by
  have ten : 0 < 10 ^ k := Nat.pow_pos (by decide)
  have close := (close_quotient dividend nonneg le).trans (value.mul_right cast_unitsInOne_pos.le)
  exact NumberText.nearest_between (units_patternOf_pos ten (ten_pow_le le))
    (close.mono (by omega) (div_nonneg (Nat.cast_nonneg _) (Nat.cast_nonneg _))
      (mul_nonneg t.magnitude_nonneg cast_unitsInOne_pos.le))

theorem divide_le {a b : Nat} (finite : a ≤ binary64.infinity)
    (large : binary64.unitsInOne ≤ binary64.units b) : divide a b ≤ a := by
  have pos := Nat.lt_of_lt_of_le unitsInOne_pos large
  rw [divide_eq]
  generalize binary64.unitsInOne = u at *
  calc binary64.nearest (binary64.units a * u) (binary64.units b)
      ≤ binary64.nearest (binary64.units a * binary64.units b) (binary64.units b) :=
        binary64.nearest_mono pos pos (Nat.mul_le_mul_right _ (Nat.mul_le_mul_left _ large))
    _ = a := binary64.nearest_units_mul finite pos

theorem divide_mono {a a' b : Nat} (pos : 0 < binary64.units b) (finite : a' ≤ binary64.infinity)
    (le : a ≤ a') : divide a b ≤ divide a' b := by
  have units := (binary64.units_le_units (le.trans finite) finite).2 le
  rw [divide_eq, divide_eq]
  generalize binary64.unitsInOne = u
  exact binary64.nearest_mono pos pos (Nat.mul_le_mul_right _ (Nat.mul_le_mul_right u units))

theorem one_le_maxPower :
    binary64.unitsInOne ≤ binary64.units (patternOf (10 ^ maxPower)) := by decide +kernel

theorem divide_divide_eq_zero (small : s < 2 ^ 64) :
    divide (divide (patternOf s) (patternOf (10 ^ maxPower))) (patternOf (10 ^ maxPower)) = 0 := by
  have largest : divide (divide (patternOf (2 ^ 64)) (patternOf (10 ^ maxPower)))
      (patternOf (10 ^ maxPower)) = 0 := by decide +kernel
  have ten : 0 < binary64.units (patternOf (10 ^ maxPower)) :=
    Nat.lt_of_lt_of_le unitsInOne_pos one_le_maxPower
  refine Nat.le_zero.1 (le_of_le_of_eq ?_ largest)
  exact divide_mono ten (binary64.nearest_le_infinity _ _)
    (divide_mono ten (binary64.nearest_le_infinity _ _) (patternOf_mono (Nat.le_of_lt small)))

theorem scaleDown_of_divide_eq_zero {a : Nat} (many : maxPower < k)
    (zero : divide a (patternOf (10 ^ maxPower)) = 0) : scaleDown a k = 0 := by
  rw [scaleDown, if_neg (Nat.not_le.2 many), zero, scaleDown_zero]
  exact ite_self 0

section Scaling

variable (pos : 0 < s) (small : s < 2 ^ 64)
include pos small

theorem multiply_between (le : k ≤ maxPower)
    (value : Close 1 (s * (10 ^ k : Nat) : ℚ) t.magnitude) :
    t.lower ≤ multiply (patternOf s) (patternOf (10 ^ k)) ∧
      multiply (patternOf s) (patternOf (10 ^ k)) ≤ t.upper := by
  have ten : 0 < 10 ^ k := Nat.pow_pos (by decide)
  have product := (close_patternOf pos (le_ten_pow small)).product
    (close_patternOf ten (ten_pow_le le)) (Nat.cast_nonneg _) (Nat.cast_nonneg _)
    (Nat.cast_nonneg _) (Nat.cast_nonneg _) cast_unitsInOne_pos
  rw [← Nat.cast_mul] at product
  have close := product.trans (value.mul_right cast_unitsInOne_pos.le)
  exact NumberText.nearest_between unitsInOne_pos
    (close.mono (by decide) (div_nonneg (Nat.cast_nonneg _) (Nat.cast_nonneg _))
      (mul_nonneg t.magnitude_nonneg cast_unitsInOne_pos.le))

theorem close_divide :
    Close 5 (binary64.units (divide (patternOf s) (patternOf (10 ^ maxPower))))
      (s / (10 ^ maxPower : Nat) * binary64.unitsInOne) := by
  have ten : 0 < binary64.units (patternOf (10 ^ maxPower)) :=
    units_patternOf_pos (Nat.pow_pos (by decide)) le_rfl
  have finite := patternOf_lt_infinity (le_ten_pow small)
  have lower := (divide_le (Nat.le_of_lt finite) one_le_maxPower).trans_lt finite
  have large : (3 : ℚ) * 2 ^ 49 ≤ (binary64.units (patternOf s) * binary64.unitsInOne : Nat) /
      binary64.units (patternOf (10 ^ maxPower)) := by
    have one : 3 * 2 ^ 49 * binary64.units (patternOf (10 ^ maxPower)) ≤
        binary64.units (patternOf 1) * binary64.unitsInOne := by decide +kernel
    have more : binary64.units (patternOf 1) ≤ binary64.units (patternOf s) :=
      (binary64.units_le_units (binary64.nearest_le_infinity _ _) (Nat.le_of_lt finite)).2
        (patternOf_mono pos)
    have enough := one.trans (Nat.mul_le_mul_right _ more)
    rw [le_div_iff₀ (Nat.cast_pos.2 ten)]
    generalize binary64.units (patternOf s) * binary64.unitsInOne = dividend,
      binary64.units (patternOf (10 ^ maxPower)) = divisor at *
    exact_mod_cast enough
  exact (BinaryFormat.close_nearest_of_le ten lower large).trans
    (close_quotient (close_patternOf pos (le_ten_pow small)) (Nat.cast_nonneg _) le_rfl)

theorem scaleDown_between (value : Close 1 (s / (10 ^ k : Nat)) t.magnitude) :
    t.lower ≤ scaleDown (patternOf s) k ∧ scaleDown (patternOf s) k ≤ t.upper := by
  rcases le_or_gt k maxPower with few | many
  · rw [scaleDown, if_pos few]
    exact divide_between (by decide) (close_patternOf pos (le_ten_pow small)) (Nat.cast_nonneg _) few
      value
  obtain ⟨j, rfl⟩ := Nat.exists_eq_add_of_le (Nat.le_of_lt many)
  rw [scaleDown, if_neg (Nat.not_le.2 many), if_neg (patternOf_ne_zero pos), Nat.add_sub_cancel_left]
  rcases le_or_gt j maxPower with few' | many'
  · rw [scaleDown, if_pos few']
    refine divide_between le_rfl (close_divide pos small)
      (div_nonneg (Nat.cast_nonneg _) (Nat.cast_nonneg _)) few' ?_
    rwa [div_div, ← Nat.cast_mul, ← Nat.pow_add]
  · -- Two whole steps down leave nothing, and the number itself is as small.
    rw [scaleDown_of_divide_eq_zero many' (divide_divide_eq_zero small)]
    have tiny : 2 ^ 64 * 8 * binary64.unitsInOne ≤ 10 ^ (maxPower + (maxPower + 1)) := by
      decide +kernel
    refine NumberText.between_of_upper_eq_zero (NumberText.upper_eq_zero
      (Nat.pow_pos (by decide)) (value.le_two_mul t.magnitude_nonneg) ?_)
    exact (Nat.mul_le_mul_right _ (Nat.mul_le_mul_right 8 (Nat.le_of_lt small))).trans
      (tiny.trans (Nat.pow_le_pow_right (by decide) (Nat.add_le_add_left many' _)))

end Scaling

theorem scale?_between {e : Int} (small : s < 2 ^ 64) (value : Close 1 (s * 10 ^ e) t.magnitude)
    (finite : t.upper < binary64.infinity) :
    ∃ p, scale? (patternOf s) e = some p ∧ t.lower ≤ p ∧ p ≤ t.upper := by
  rcases Nat.eq_zero_or_pos s with rfl | pos
  · have zero := t.upper_of_significand_eq_zero (t.significand_eq_zero (by simpa using value.2))
    exact ⟨0, by simp, NumberText.between_of_upper_eq_zero zero⟩
  cases e with
  | ofNat k =>
    rw [Int.ofNat_eq_natCast, zpow_natCast] at value
    have few : k ≤ maxPower := by
      by_contra many
      have below := NumberText.magnitude_lt_of_finite finite
      have above := value.symm.le_two_mul (by positivity)
      have one : (1 : ℚ) ≤ s := by exact_mod_cast pos
      have ten : (10 : ℚ) ^ (maxPower + 1) ≤ 10 ^ k :=
        pow_le_pow_right₀ (by norm_num) (Nat.lt_of_not_le many)
      have power : (0 : ℚ) < 10 ^ maxPower := by positivity
      rw [pow_succ] at ten
      nlinarith
    have between := multiply_between (k := k) (t := t) pos small few (by push_cast; exact value)
    have fits := (Nat.lt_of_le_of_lt between.2 finite).ne
    refine ⟨_, ?_, between⟩
    rw [scale?, if_neg (patternOf_ne_zero pos), if_neg (Nat.not_lt.2 few)]
    exact if_neg fits
  | negSucc k =>
    refine ⟨_, rfl, scaleDown_between pos small ?_⟩
    rwa [zpow_negSucc, ← div_eq_mul_inv, ← Nat.cast_ofNat (n := 10), ← Nat.cast_pow] at value

/-! ## Short numbers -/

theorem units_patternOf_ten_pow (few : k ≤ 22) :
    binary64.units (patternOf (10 ^ k)) = 10 ^ k * binary64.unitsInOne := by
  have small : 5 ^ k < 2 ^ 53 :=
    Nat.lt_of_le_of_lt (Nat.pow_le_pow_right (by decide) few) (by decide)
  have split : 10 ^ k = 5 ^ k * 2 ^ k := by rw [← Nat.mul_pow]
  have le := ten_pow_le (few.trans (by decide))
  rw [split] at le ⊢
  exact units_patternOf small le

theorem units_patternOf_small (small : s < 2 ^ 53) :
    binary64.units (patternOf s) = s * binary64.unitsInOne := by
  have exact := units_patternOf (k := 0) small
    (by rw [Nat.pow_zero, Nat.mul_one]; exact le_ten_pow (small.trans (by decide)))
  rwa [Nat.pow_zero, Nat.mul_one] at exact

theorem scale?_exact {pattern : Nat} (short : t.Short)
    (read : scale? (patternOf t.significand) t.power = some pattern) : pattern = t.nearest := by
  rcases Nat.eq_zero_or_pos t.significand with zero | pos
  · have nearest := NumberText.nearest_le_upper.trans_eq (t.upper_of_significand_eq_zero zero)
    have none : pattern = 0 := by simpa [zero, eq_comm] using read
    exact none.trans (Nat.le_zero.1 nearest).symm
  have unit := cast_unitsInOne_pos
  have bound := short.power
  cases power : t.power with
  | ofNat k =>
    have few : k ≤ 22 := by rwa [power] at bound
    rw [power, scale?, if_neg (patternOf_ne_zero pos),
      if_neg (Nat.not_lt.2 (few.trans (by decide)))] at read
    have product : multiply (patternOf t.significand) (patternOf (10 ^ k)) = pattern :=
      (Option.ite_none_left_eq_some.1 read).2 |> Option.some.inj
    rw [← product, multiply_eq, units_patternOf_small short.significand, units_patternOf_ten_pow few]
    refine NumberText.nearest_eq unitsInOne_pos ?_
    rw [NumberText.magnitude, power, Int.ofNat_eq_natCast, zpow_natCast]
    push_cast
    generalize (binary64.unitsInOne : ℚ) = u at *
    field_simp
  | negSucc k =>
    have few : k + 1 ≤ 22 := by
      rw [power] at bound
      exact bound
    rw [power, scale?, scaleDown, if_pos (few.trans (by decide))] at read
    have ten : 0 < 10 ^ (k + 1) * binary64.unitsInOne :=
      Nat.mul_pos (Nat.pow_pos (by decide)) unitsInOne_pos
    rw [← Option.some.inj read, divide_eq, units_patternOf_small short.significand,
      units_patternOf_ten_pow few]
    refine NumberText.nearest_eq ten ?_
    rw [NumberText.magnitude, power, zpow_negSucc]
    push_cast
    generalize (binary64.unitsInOne : ℚ) = u at *
    field_simp

/-! ## Decimals -/

theorem significand_of_large_exponent (few : t.digits.length < 2 ^ 30)
    (finite : t.upper < binary64.infinity) (large : 2 ^ 31 ≤ ofDigits t.exponent)
    (positive : t.exponentNegative = false) : t.significand = 0 := by
  have fraction : t.fraction.length ≤ t.digits.length := by
    rw [NumberText.digits, List.length_append]
    exact Nat.le_add_left _ _
  by_contra nonzero
  have below := NumberText.magnitude_lt_of_finite finite
  have one : (1 : ℚ) ≤ t.significand := by exact_mod_cast Nat.pos_of_ne_zero nonzero
  have power : ((maxPower + 1 : Nat) : Int) ≤ t.power := by
    rw [NumberText.power, positive, if_neg (by decide), maxPower]
    omega
  have ten : (10 : ℚ) ^ (maxPower + 1) ≤ 10 ^ t.power := by
    rw [← zpow_natCast]
    exact zpow_le_zpow_right₀ (by norm_num) power
  have magnitude : (10 : ℚ) ^ t.power ≤ t.magnitude :=
    le_mul_of_one_le_left (zpow_nonneg (by norm_num) _) one
  have least : (0 : ℚ) < 10 ^ maxPower := pow_pos (by norm_num) _
  rw [pow_succ] at ten
  linarith

theorem upper_of_large_exponent (few : t.digits.length < 2 ^ 30)
    (decimal : ∀ d ∈ t.digits, d < 10) (large : 2 ^ 31 ≤ ofDigits t.exponent)
    (negative : t.exponentNegative = true) : t.upper = 0 := by
  -- The digits are fewer than the exponent takes away.
  obtain ⟨more, sum⟩ := Nat.exists_eq_add_of_le
    (show t.digits.length + 400 ≤ ofDigits t.exponent by omega)
  refine NumberText.upper_eq_zero (a := t.significand) (b := 10 ^ (t.digits.length + 400))
    (Nat.pow_pos (by decide)) ?_ ?_
  · have power : t.power ≤ -((t.digits.length + 400 : Nat) : Int) := by
      rw [NumberText.power, negative, if_pos rfl]
      omega
    have ten : (10 : ℚ) ^ t.power ≤ ((10 ^ (t.digits.length + 400) : Nat) : ℚ)⁻¹ := by
      rw [Nat.cast_pow, Nat.cast_ofNat, ← zpow_natCast, ← zpow_neg]
      exact zpow_le_zpow_right₀ (by norm_num) power
    have magnitude := mul_le_mul_of_nonneg_left ten (Nat.cast_nonneg (α := ℚ) t.significand)
    rw [← div_eq_mul_inv] at magnitude
    have nonneg := div_nonneg (Nat.cast_nonneg (α := ℚ) t.significand)
      (Nat.cast_nonneg (α := ℚ) (10 ^ (t.digits.length + 400)))
    exact magnitude.trans (by linarith)
  · have units : 8 * binary64.unitsInOne ≤ 10 ^ 400 := by decide +kernel
    rw [Nat.mul_assoc, Nat.pow_add]
    exact Nat.mul_le_mul (ofDigits_lt decimal).le units

theorem large_exponent (few : t.digits.length < 2 ^ 30) (decimal : ∀ d ∈ t.digits, d < 10)
    (finite : t.upper < binary64.infinity) (large : 2 ^ 31 ≤ ofDigits t.exponent) :
    t.upper = 0 ∧ (t.exponentNegative = false → t.significand = 0) := by
  have zero := significand_of_large_exponent few finite large
  refine ⟨?_, zero⟩
  cases sign : t.exponentNegative with
  | false => exact t.upper_of_significand_eq_zero (zero sign)
  | true => exact upper_of_large_exponent few decimal large sign

theorem floatOf?_between (few : t.digits.length < 2 ^ 30) (decimal : ∀ d ∈ t.digits, d < 10)
    (finite : t.upper < binary64.infinity) {left : Nat} (small : s < 2 ^ 64)
    (value : Close 1 ((s * 10 ^ left : Nat) : ℚ) t.significand) :
    ∃ p, floatOf? t s (left - t.fraction.length) = some (.float t.negative p) ∧
      t.lower ≤ p ∧ p ≤ t.upper ∧
      (t.Short → left = 0 → s = t.significand → p = t.nearest) := by
  rcases Nat.lt_or_ge (ofDigits t.exponent) (2 ^ 31) with counted | large
  · have shifted : (left - t.fraction.length : Int) +
        (if t.exponentNegative then -(ofDigits t.exponent : Int) else ofDigits t.exponent) =
        left + t.power := by
      rw [NumberText.power]
      omega
    have scaled : Close 1 (s * 10 ^ (left + t.power)) t.magnitude := by
      have ten : (0 : ℚ) ≤ 10 ^ t.power := zpow_nonneg (by norm_num) _
      have product := value.mul_right ten
      rwa [Nat.cast_mul, Nat.cast_pow, Nat.cast_ofNat, mul_assoc, ← zpow_natCast,
        ← zpow_add₀ (by norm_num)] at product
    obtain ⟨p, read, lower, upper⟩ := scale?_between small scaled finite
    refine ⟨p, ?_, lower, upper, ?_⟩
    · rw [floatOf?, if_neg (Nat.not_le.2 counted)]
      dsimp only
      rw [shifted, read, Option.map_some]
    · rintro short rfl rfl
      rw [Nat.cast_zero, Int.zero_add] at read
      exact scale?_exact short read
  · obtain ⟨upper, positive⟩ := large_exponent few decimal finite large
    have nearest := Nat.le_zero.1 (NumberText.nearest_le_upper.trans_eq upper)
    refine ⟨0, ?_, (NumberText.between_of_upper_eq_zero upper).1, Nat.zero_le _,
      fun _ _ _ => nearest.symm⟩
    rw [floatOf?, if_pos large]
    refine if_neg fun overflow => ?_
    obtain ⟨nonzero, sign⟩ : s ≠ 0 ∧ t.exponentNegative = false := by simpa using overflow
    rw [positive sign, Nat.cast_zero] at value
    have pos : (0 : ℚ) < (s * 10 ^ left : Nat) :=
      Nat.cast_pos.2 (Nat.mul_pos (Nat.pos_of_ne_zero nonzero) (Nat.pow_pos (by decide)))
    exact absurd value.1 (not_le.2 (mul_pos pos (pow_pos shrink_pos 1)))

theorem ofText?_of_bare (other : ¬ t.IsWord) (whole : (accumulate 0 t.whole).2 = [])
    (fraction : t.fraction = []) (exponent : t.exponent = []) :
    ofText? t = some (.float t.negative t.nearest) := by
  obtain ⟨taken, split, value, -⟩ := accumulate_spec 0 t.whole
  have small := accumulate_lt (by decide : 0 < 2 ^ 64) t.whole
  rw [whole, List.append_nil] at split
  rw [Nat.zero_mul, Nat.zero_add, ← split] at value
  have nearest : t.nearest = patternOf (ofDigits t.whole) := by
    have power : t.power = 0 := by simp [NumberText.power, fraction, exponent, ofDigits]
    rw [NumberText.nearest, NumberText.nearestTimes, NumberText.significand, NumberText.digits,
      power, fraction, List.append_nil, patternOf_eq]
    simp only [Int.toNat_zero, Int.neg_zero, Nat.pow_zero, Nat.mul_one]
  rw [NumberText.IsWord, not_or] at other
  cases negative : t.negative with
  | false => exact absurd ⟨_, ⟨negative, fraction, exponent, rfl⟩, value ▸ small⟩ other.1
  | true =>
    have large : ¬ ofDigits t.whole = 0 → 2 ^ 63 < ofDigits t.whole := fun nonzero => by
      by_contra word
      exact other.2 ⟨_, ⟨negative, fraction, exponent, rfl⟩, Nat.pos_of_ne_zero nonzero,
        Nat.not_lt.1 word⟩
    simpa [ofText?, whole, fraction, exponent, negative, value, nearest] using large

theorem ofText?_of_decimal (isDecimal : t.IsDecimal) (decimal : ∀ d ∈ t.digits, d < 10)
    (finite : t.upper < binary64.infinity) :
    ∃ p, ofText? t = some (.float t.negative p) ∧ t.lower ≤ p ∧ p ≤ t.upper ∧
      (t.Short → p = t.nearest) := by
  by_cases bare : (accumulate 0 t.whole).2 = [] ∧ t.fraction = [] ∧ t.exponent = []
  · obtain ⟨whole, fraction, exponent⟩ := bare
    exact ⟨_, ofText?_of_bare isDecimal.other whole fraction exponent, NumberText.lower_le_nearest,
      NumberText.nearest_le_upper, fun _ => rfl⟩
  obtain ⟨p, read, lower, upper, exact⟩ := floatOf?_between isDecimal.few decimal finite
    (leading_lt t.whole t.fraction) (close_leading decimal)
  refine ⟨p, ?_, lower, upper, fun short => ?_⟩
  · obtain ⟨taken, split, -, -⟩ := accumulate_spec (accumulate 0 t.whole).1 t.fraction
    have ignored_le := congrArg List.length split
    rw [List.length_append] at ignored_le
    have places : ((accumulate 0 t.whole).2.length : Int) -
        (t.fraction.length - (accumulate (accumulate 0 t.whole).1 t.fraction).2.length : Nat) =
        leftOut t.whole t.fraction - t.fraction.length := by
      rw [leftOut]
      omega
    rw [← read, ofText?, ← places]
    exact if_neg (by simpa [and_assoc] using bare)
  · obtain ⟨whole, fraction⟩ := accumulate_of_fits t.whole t.fraction
      (short.significand.trans (by decide))
    refine exact short ?_ ?_
    · rw [leftOut, whole, fraction]
      rfl
    · rw [leading, whole, fraction]
      rfl

end Number

end TokenSearch.Json
