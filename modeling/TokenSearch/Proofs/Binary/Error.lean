import Mathlib.Algebra.Order.Field.Basic
import Mathlib.Data.Nat.Cast.Order.Field
import Mathlib.Tactic.FieldSimp
import Mathlib.Tactic.Linarith
import Mathlib.Tactic.NormNum
import Mathlib.Tactic.Positivity
import Mathlib.Tactic.Ring
import TokenSearch.Proofs.Binary.Rounding

/-!
How far rounding moves a number. The error is half a step of the format. Where a binary64 number is
normal that is a factor of `1 - 2⁻⁵³` in one direction or the other, and such factors multiply along
a computation. A computation with few of them is off by less than `2⁻⁵⁰` of its result.
-/

namespace TokenSearch

variable {num den num' den' : Nat}

theorem abs_roundQuotient_sub_le (num : Nat) (pos : 0 < den) :
    |(roundQuotient num den : ℚ) - num / den| ≤ 1 / 2 := by
  have den_pos : (0 : ℚ) < den := Nat.cast_pos.2 pos
  have split : (num : ℚ) / den = (num / den : Nat) + (num % den : Nat) / (den : ℚ) := by
    rw [div_eq_iff den_pos.ne', add_mul, div_mul_cancel₀ _ den_pos.ne']
    exact_mod_cast (Nat.div_add_mod' num den).symm
  have part_nonneg : (0 : ℚ) ≤ (num % den : Nat) / (den : ℚ) := by positivity
  have part_le : ((num % den : Nat) : ℚ) / den ≤ 1 := by
    rw [div_le_one den_pos]
    exact_mod_cast (Nat.mod_lt num pos).le
  rw [split, abs_le, roundQuotient]
  split_ifs with up
  · have half : (1 : ℚ) / 2 ≤ (num % den : Nat) / (den : ℚ) := by
      rw [le_div_iff₀ den_pos, div_mul_eq_mul_div, one_mul, div_le_iff₀ two_pos]
      exact_mod_cast show den ≤ num % den * 2 by omega
    push_cast
    constructor <;> linarith
  · have half : ((num % den : Nat) : ℚ) / den ≤ 1 / 2 := by
      rw [div_le_iff₀ den_pos, div_mul_eq_mul_div, one_mul, le_div_iff₀ two_pos]
      exact_mod_cast show num % den * 2 ≤ den by omega
    constructor <;> linarith

namespace BinaryFormat

variable (F : BinaryFormat)

theorem units_add_mul {q s : Nat} (upper : q ≤ 2 ^ (F.fractionBits + 1))
    (lower : 0 < s → 2 ^ F.fractionBits ≤ q) :
    F.units (q + s * 2 ^ F.fractionBits) = q * 2 ^ s := by
  have power : 0 < 2 ^ F.fractionBits := Nat.two_pow_pos _
  rcases Nat.lt_or_ge q (2 ^ F.fractionBits) with small | large
  · have unscaled : s = 0 := by
      by_contra scaled
      exact absurd (lower (Nat.pos_of_ne_zero scaled)) (Nat.not_le.2 small)
    subst unscaled
    rw [Nat.zero_mul, Nat.add_zero, units, significand, if_pos small, shift,
      Nat.div_eq_of_lt small]
  obtain ⟨r, rfl⟩ := Nat.exists_eq_add_of_le large
  rw [Nat.pow_succ] at upper
  rcases Nat.lt_or_ge r (2 ^ F.fractionBits) with fits | carries
  · have pattern : 2 ^ F.fractionBits + r + s * 2 ^ F.fractionBits =
        r + 2 ^ F.fractionBits * (s + 1) := by ring
    have field : ¬ r + 2 ^ F.fractionBits * (s + 1) < 2 ^ F.fractionBits := by
      rw [Nat.mul_succ]
      omega
    rw [pattern, units, significand, if_neg field, shift, Nat.add_mul_mod_self_left,
      Nat.add_mul_div_left _ _ power, Nat.mod_eq_of_lt fits, Nat.div_eq_of_lt fits, Nat.zero_add,
      Nat.add_sub_cancel]
  · obtain rfl : r = 2 ^ F.fractionBits := by omega
    have pattern : 2 ^ F.fractionBits + 2 ^ F.fractionBits + s * 2 ^ F.fractionBits =
        2 ^ F.fractionBits * (s + 2) := by ring
    have field : ¬ 2 ^ F.fractionBits * (s + 2) < 2 ^ F.fractionBits := by
      rw [Nat.mul_succ]
      omega
    rw [pattern, units, significand, if_neg field, shift, Nat.mul_mod_right,
      Nat.mul_div_cancel_left _ power, Nat.add_zero, Nat.add_sub_assoc (by decide), Nat.pow_succ]
    ring

theorem units_nearest (pos : 0 < den) (finite : F.nearest num den < F.infinity) :
    F.units (F.nearest num den) =
      roundQuotient num (den * 2 ^ F.scale (num / den)) * 2 ^ F.scale (num / den) := by
  have pattern : F.nearest num den = roundQuotient num (den * 2 ^ F.scale (num / den)) +
      F.scale (num / den) * 2 ^ F.fractionBits := by
    refine Nat.min_eq_right (Nat.le_of_not_le fun past => ?_)
    exact absurd finite (Nat.not_lt.2 (Nat.le_min.2 ⟨le_rfl, past⟩))
  rw [pattern]
  exact F.units_add_mul (F.roundQuotient_scale_le pos) (F.le_roundQuotient_scale pos)

theorem abs_units_nearest_sub_le_half_step (pos : 0 < den)
    (finite : F.nearest num den < F.infinity) :
    |(F.units (F.nearest num den) : ℚ) - num / den| ≤ 2 ^ F.scale (num / den) / 2 := by
  have power : (0 : ℚ) < 2 ^ F.scale (num / den) := by positivity
  have rounded := abs_roundQuotient_sub_le num
    (Nat.mul_pos pos (Nat.two_pow_pos (F.scale (num / den))))
  have den_ne : (den : ℚ) ≠ 0 := Nat.cast_ne_zero.2 pos.ne'
  have scaled : (F.units (F.nearest num den) : ℚ) - num / den =
      (roundQuotient num (den * 2 ^ F.scale (num / den)) -
        num / (den * 2 ^ F.scale (num / den) : Nat)) * 2 ^ F.scale (num / den) := by
    rw [F.units_nearest pos finite]
    push_cast
    field_simp
  rw [scaled, abs_mul, abs_of_pos power]
  calc _ ≤ 1 / 2 * (2 : ℚ) ^ F.scale (num / den) := mul_le_mul_of_nonneg_right rounded power.le
    _ = _ := by ring

theorem abs_units_nearest_sub_le (pos : 0 < den) (finite : F.nearest num den < F.infinity) :
    |(F.units (F.nearest num den) : ℚ) - num / den| ≤
      max (1 / 2 : ℚ) (num / den / 2 ^ (F.fractionBits + 1)) := by
  refine (F.abs_units_nearest_sub_le_half_step pos finite).trans ?_
  rcases Nat.eq_zero_or_pos (F.scale (num / den)) with unscaled | scaled
  · rw [unscaled, pow_zero]
    exact le_max_left _ _
  · refine le_trans ?_ (le_max_right _ _)
    have floor : ((num / den : Nat) : ℚ) ≤ num / den := Nat.cast_div_le
    have step : (2 : ℚ) ^ F.fractionBits * 2 ^ F.scale (num / den) ≤ num / den :=
      le_trans (by exact_mod_cast F.two_pow_scale_le scaled) floor
    rw [div_le_div_iff₀ two_pos (by positivity), pow_succ]
    linarith

theorem nearest_le_nearest (pos : 0 < den) (pos' : 0 < den')
    (le : (num : ℚ) / den ≤ num' / den') : F.nearest num den ≤ F.nearest num' den' := by
  refine F.nearest_mono pos pos' ?_
  rw [div_le_div_iff₀ (Nat.cast_pos.2 pos) (Nat.cast_pos.2 pos')] at le
  exact_mod_cast le

end BinaryFormat

/-! ## Factors of roundings -/

/-- What one rounding to binary64 leaves of a number at least. -/
def shrink : ℚ := 1 - 1 / 2 ^ 53

theorem shrink_pos : 0 < shrink := by norm_num [shrink]

theorem shrink_le_one : shrink ≤ 1 := by norm_num [shrink]

theorem shrink_pow_le_one (k : Nat) : shrink ^ k ≤ 1 := pow_le_one₀ shrink_pos.le shrink_le_one

/-- Equal up to `k` roundings. -/
def Close (k : Nat) (a b : ℚ) : Prop := a * shrink ^ k ≤ b ∧ b * shrink ^ k ≤ a

namespace Close

variable {j k : Nat} {a b c d : ℚ}

theorem symm (h : Close k a b) : Close k b a := And.symm h

theorem refl (nonneg : 0 ≤ a) : Close k a a :=
  ⟨mul_le_of_le_one_right nonneg (shrink_pow_le_one k),
    mul_le_of_le_one_right nonneg (shrink_pow_le_one k)⟩

theorem trans (h : Close j a b) (h' : Close k b c) : Close (j + k) a c := by
  have factor : ∀ k, 0 ≤ shrink ^ k := fun k => (pow_pos shrink_pos k).le
  constructor
  · calc a * shrink ^ (j + k) = a * shrink ^ j * shrink ^ k := by ring
      _ ≤ b * shrink ^ k := mul_le_mul_of_nonneg_right h.1 (factor k)
      _ ≤ c := h'.1
  · calc c * shrink ^ (j + k) = c * shrink ^ k * shrink ^ j := by ring
      _ ≤ b * shrink ^ j := mul_le_mul_of_nonneg_right h'.2 (factor j)
      _ ≤ a := h.2

theorem mul (h : Close j a b) (h' : Close k c d) (ha : 0 ≤ a) (hb : 0 ≤ b) (hc : 0 ≤ c)
    (hd : 0 ≤ d) : Close (j + k) (a * c) (b * d) := by
  have factor : 0 ≤ shrink ^ k := (pow_pos shrink_pos k).le
  constructor
  · calc a * c * shrink ^ (j + k) = a * shrink ^ j * (c * shrink ^ k) := by ring
      _ ≤ b * d := mul_le_mul h.1 h'.1 (mul_nonneg hc factor) hb
  · calc b * d * shrink ^ (j + k) = b * shrink ^ j * (d * shrink ^ k) := by ring
      _ ≤ a * c := mul_le_mul h.2 h'.2 (mul_nonneg hd factor) ha

theorem mul_right (h : Close k a b) (hc : 0 ≤ c) : Close k (a * c) (b * c) := by
  constructor
  · calc a * c * shrink ^ k = a * shrink ^ k * c := by ring
      _ ≤ b * c := mul_le_mul_of_nonneg_right h.1 hc
  · calc b * c * shrink ^ k = b * shrink ^ k * c := by ring
      _ ≤ a * c := mul_le_mul_of_nonneg_right h.2 hc

theorem inv (h : Close k a b) (ha : 0 < a) (hb : 0 < b) : Close k a⁻¹ b⁻¹ := by
  constructor
  · rw [← one_div, ← one_div, div_mul_eq_mul_div, one_mul, div_le_div_iff₀ ha hb, one_mul, mul_comm]
    exact h.2
  · rw [← one_div, ← one_div, div_mul_eq_mul_div, one_mul, div_le_div_iff₀ hb ha, one_mul, mul_comm]
    exact h.1

theorem div (h : Close j a b) (h' : Close k c d) (ha : 0 ≤ a) (hb : 0 ≤ b) (hc : 0 < c)
    (hd : 0 < d) : Close (j + k) (a / c) (b / d) := by
  rw [div_eq_mul_inv, div_eq_mul_inv]
  exact h.mul (h'.inv hc hd) ha hb (inv_pos.2 hc).le (inv_pos.2 hd).le

theorem product {u : ℚ} (h : Close j a (c * u)) (h' : Close k b (d * u)) (ha : 0 ≤ a) (hb : 0 ≤ b)
    (hc : 0 ≤ c) (hd : 0 ≤ d) (hu : 0 < u) : Close (j + k) (a * b / u) (c * d * u) := by
  have exact := (h.mul h' ha (by positivity) hb (by positivity)).mul_right (inv_pos.2 hu).le
  convert exact using 1 <;> field_simp

theorem quotient {u : ℚ} (h : Close j a (c * u)) (h' : Close k b (d * u)) (ha : 0 ≤ a) (hb : 0 < b)
    (hc : 0 ≤ c) (hd : 0 < d) (hu : 0 < u) : Close (j + k) (a * u / b) (c / d * u) := by
  have exact := (h.mul_right hu.le).div h' (by positivity) (by positivity) hb (by positivity)
  convert exact using 1
  field_simp

theorem mono (h : Close j a b) (le : j ≤ k) (ha : 0 ≤ a) (hb : 0 ≤ b) : Close k a b := by
  have factor : shrink ^ k ≤ shrink ^ j := pow_le_pow_of_le_one shrink_pos.le shrink_le_one le
  exact ⟨(mul_le_mul_of_nonneg_left factor ha).trans h.1,
    (mul_le_mul_of_nonneg_left factor hb).trans h.2⟩

theorem le_two_mul (h : Close 1 a b) (nonneg : 0 ≤ b) : b ≤ 2 * a := by
  have factor : (1 : ℚ) / 2 ≤ shrink ^ 1 := by norm_num [shrink]
  linarith [(mul_le_mul_of_nonneg_left factor nonneg).trans h.2]

theorem of_error (nonneg : 0 ≤ b) (error : |a - b| ≤ b * (1 - shrink ^ k)) : Close k a b := by
  obtain ⟨below, above⟩ := abs_le.1 error
  have factor : 0 ≤ shrink ^ k := (pow_pos shrink_pos k).le
  constructor
  · calc a * shrink ^ k ≤ b * (2 - shrink ^ k) * shrink ^ k :=
          mul_le_mul_of_nonneg_right (by linarith) factor
      _ = b * (1 - (1 - shrink ^ k) ^ 2) := by ring
      _ ≤ b := mul_le_of_le_one_right nonneg (by linarith [sq_nonneg (1 - shrink ^ k)])
  · linarith

/-- Seven roundings are off by less than eight times `2⁻⁵³`. -/
theorem within (h : Close 7 a b) (ha : 0 ≤ a) (hb : 0 ≤ b) :
    b * (1 - 1 / 2 ^ 50) ≤ a ∧ a ≤ b * (1 + 1 / 2 ^ 50) := by
  have lower : 1 - 1 / 2 ^ 50 ≤ shrink ^ 7 := by norm_num [shrink]
  have upper : 1 ≤ shrink ^ 7 * (1 + 1 / 2 ^ 50) := by norm_num [shrink]
  constructor
  · exact (mul_le_mul_of_nonneg_left lower hb).trans h.2
  · calc a ≤ a * (shrink ^ 7 * (1 + 1 / 2 ^ 50)) := le_mul_of_one_le_right ha upper
      _ = a * shrink ^ 7 * (1 + 1 / 2 ^ 50) := by ring
      _ ≤ b * (1 + 1 / 2 ^ 50) := mul_le_mul_of_nonneg_right h.1 (by norm_num)

end Close

namespace BinaryFormat

theorem close_nearest (pos : 0 < den) (finite : binary64.nearest num den < binary64.infinity)
    (normal : (2 : ℚ) ^ 52 ≤ num / den) :
    Close 1 (binary64.units (binary64.nearest num den)) (num / den) := by
  refine .of_error (le_trans (by positivity) normal)
    ((binary64.abs_units_nearest_sub_le pos finite).trans (max_le ?_ ?_))
  · rw [pow_one, shrink]
    linarith
  · rw [pow_one, shrink, show binary64.fractionBits + 1 = 53 from rfl]
    exact le_of_eq (by ring)

theorem close_nearest_of_le (pos : 0 < den)
    (finite : binary64.nearest num den < binary64.infinity)
    (large : (3 : ℚ) * 2 ^ 49 ≤ num / den) :
    Close 3 (binary64.units (binary64.nearest num den)) (num / den) := by
  have factor : (1 : ℚ) / 2 ≤ 3 * 2 ^ 49 * (1 - shrink ^ 3) := by norm_num [shrink]
  have factor' : 1 / 2 ^ 53 ≤ 1 - shrink ^ 3 := by norm_num [shrink]
  refine .of_error (le_trans (by positivity) large)
    ((binary64.abs_units_nearest_sub_le pos finite).trans (max_le ?_ ?_))
  · exact factor.trans (mul_le_mul_of_nonneg_right large (by linarith [shrink_pow_le_one 3]))
  · rw [show binary64.fractionBits + 1 = 53 from rfl, div_eq_mul_one_div]
    exact mul_le_mul_of_nonneg_left factor' (le_trans (by positivity) large)

end BinaryFormat

end TokenSearch
