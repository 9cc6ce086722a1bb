import Mathlib.Tactic.Common
import TokenSearch.Binary.Format

/-!
Rounding keeps order, whatever the quotients are written as, and gives back what a format holds
exactly. So the patterns of a format are ordered like the units they stand for.
-/

namespace TokenSearch

variable {num den num' den' : Nat}

/-! ## Rounding a quotient -/

theorem div_le_div_of_cross (pos : 0 < den) (pos' : 0 < den') (le : num * den' ≤ num' * den) :
    num / den ≤ num' / den' := by
  rw [Nat.le_div_iff_mul_le pos']
  refine Nat.le_of_mul_le_mul_right ?_ pos
  calc num / den * den' * den = num / den * den * den' := Nat.mul_right_comm _ _ _
    _ ≤ num * den' := Nat.mul_le_mul_right _ (Nat.div_mul_le_self num den)
    _ ≤ num' * den := le

theorem roundQuotient_mono (pos : 0 < den) (pos' : 0 < den') (le : num * den' ≤ num' * den) :
    roundQuotient num den ≤ roundQuotient num' den' := by
  have quotients := div_le_div_of_cross pos pos' le
  unfold roundQuotient
  dsimp only
  rcases Nat.lt_or_ge (num / den) (num' / den') with less | same
  · split <;> split <;> omega
  · -- With the same quotient the remainders are ordered as fractions of their divisors.
    have equal : num / den = num' / den' := by omega
    have remainders : num % den * den' ≤ num' % den' * den := by
      have left : num * den' = num / den * (den * den') + num % den * den' := by
        conv_lhs => rw [← Nat.div_add_mod' num den]
        rw [Nat.add_mul, Nat.mul_assoc]
      have right : num' * den = num / den * (den * den') + num' % den' * den := by
        conv_lhs => rw [← Nat.div_add_mod' num' den']
        rw [Nat.add_mul, Nat.mul_assoc, ← equal, Nat.mul_comm den' den]
      omega
    have up : den < 2 * (num % den) ∨ 2 * (num % den) = den ∧ num / den % 2 = 1 →
        den' < 2 * (num' % den') ∨ 2 * (num' % den') = den' ∧ num' / den' % 2 = 1 := by
      rw [← equal]
      rintro (above | ⟨tie, odd⟩)
      · refine .inl (Nat.lt_of_mul_lt_mul_right (a := den) ?_)
        calc den' * den = den * den' := Nat.mul_comm _ _
          _ < 2 * (num % den) * den' := Nat.mul_lt_mul_of_pos_right above pos'
          _ ≤ 2 * (num' % den') * den := by rw [Nat.mul_assoc, Nat.mul_assoc]; omega
      · have half : den' ≤ 2 * (num' % den') := by
          refine Nat.le_of_mul_le_mul_right ?_ pos
          calc den' * den = den * den' := Nat.mul_comm _ _
            _ = 2 * (num % den) * den' := by rw [tie]
            _ ≤ 2 * (num' % den') * den := by rw [Nat.mul_assoc, Nat.mul_assoc]; omega
        exact (Nat.lt_or_eq_of_le half).imp_right fun eq => ⟨eq.symm, odd⟩
    split
    case isTrue h => exact Nat.le_of_eq (by rw [if_pos (up h), equal])
    case isFalse => split <;> omega

theorem roundQuotient_mul (k : Nat) (pos : 0 < den) : roundQuotient (k * den) den = k := by
  have none : ¬ (den < 2 * 0 ∨ 2 * 0 = den ∧ k % 2 = 1) := by omega
  simp only [roundQuotient, Nat.mul_mod_left, Nat.mul_div_left k pos, if_neg none]

theorem roundQuotient_le {k : Nat} (pos : 0 < den) (le : num ≤ k * den) :
    roundQuotient num den ≤ k := by
  have mono := roundQuotient_mono pos pos (Nat.mul_le_mul_right den le)
  rwa [roundQuotient_mul k pos] at mono

theorem le_roundQuotient {k : Nat} (pos : 0 < den) (le : k * den ≤ num) :
    k ≤ roundQuotient num den := by
  have mono := roundQuotient_mono pos pos (Nat.mul_le_mul_right den le)
  rwa [roundQuotient_mul k pos] at mono

namespace BinaryFormat

variable (F : BinaryFormat)

/-! ## The nearest pattern -/

def scale (q : Nat) : Nat := q.log2 - F.fractionBits

theorem scale_mono {q q' : Nat} (le : q ≤ q') : F.scale q ≤ F.scale q' := by
  have logs : q.log2 ≤ q'.log2 := by
    rcases Nat.eq_zero_or_pos q with rfl | pos
    · simp
    · exact (Nat.le_log2 (by omega)).2 (Nat.le_trans (Nat.log2_self_le (by omega)) le)
  exact Nat.sub_le_sub_right logs _

theorem lt_two_pow_scale (q : Nat) : q < 2 ^ (F.fractionBits + 1) * 2 ^ F.scale q := by
  rw [← Nat.pow_add]
  refine Nat.lt_of_lt_of_le Nat.lt_log2_self (Nat.pow_le_pow_right (by decide) ?_)
  unfold scale
  omega

theorem two_pow_scale_le {q : Nat} (pos : 0 < F.scale q) :
    2 ^ F.fractionBits * 2 ^ F.scale q ≤ q := by
  have log : F.fractionBits + F.scale q = q.log2 := by
    unfold scale at pos ⊢
    omega
  rw [← Nat.pow_add, log]
  refine Nat.log2_self_le fun zero => ?_
  rw [zero, scale, Nat.log2_zero, Nat.zero_sub] at pos
  exact Nat.lt_irrefl 0 pos

theorem roundQuotient_scale_le (pos : 0 < den) :
    roundQuotient num (den * 2 ^ F.scale (num / den)) ≤ 2 ^ (F.fractionBits + 1) := by
  refine roundQuotient_le (Nat.mul_pos pos (Nat.two_pow_pos _)) ?_
  have below : num < 2 ^ (F.fractionBits + 1) * 2 ^ F.scale (num / den) * den :=
    (Nat.div_lt_iff_lt_mul pos).1 (F.lt_two_pow_scale (num / den))
  calc num ≤ 2 ^ (F.fractionBits + 1) * 2 ^ F.scale (num / den) * den := Nat.le_of_lt below
    _ = 2 ^ (F.fractionBits + 1) * (den * 2 ^ F.scale (num / den)) := by
      rw [Nat.mul_assoc, Nat.mul_comm den]

theorem le_roundQuotient_scale (pos : 0 < den) (scaled : 0 < F.scale (num / den)) :
    2 ^ F.fractionBits ≤ roundQuotient num (den * 2 ^ F.scale (num / den)) := by
  refine le_roundQuotient (Nat.mul_pos pos (Nat.two_pow_pos _)) ?_
  calc 2 ^ F.fractionBits * (den * 2 ^ F.scale (num / den))
      = 2 ^ F.fractionBits * 2 ^ F.scale (num / den) * den := by
        rw [Nat.mul_assoc, Nat.mul_comm den]
    _ ≤ num / den * den := Nat.mul_le_mul_right _ (F.two_pow_scale_le scaled)
    _ ≤ num := Nat.div_mul_le_self num den

theorem nearest_mono (pos : 0 < den) (pos' : 0 < den') (le : num * den' ≤ num' * den) :
    F.nearest num den ≤ F.nearest num' den' := by
  let s := F.scale (num / den)
  let s' := F.scale (num' / den')
  have scales : s ≤ s' := F.scale_mono (div_le_div_of_cross pos pos' le)
  suffices h : roundQuotient num (den * 2 ^ s) + s * 2 ^ F.fractionBits ≤
      roundQuotient num' (den' * 2 ^ s') + s' * 2 ^ F.fractionBits from
    Nat.le_min.2 ⟨Nat.min_le_left _ _, Nat.le_trans (Nat.min_le_right _ _) h⟩
  rcases Nat.eq_or_lt_of_le scales with same | less
  · rw [← same]
    refine Nat.add_le_add_right (roundQuotient_mono (Nat.mul_pos pos (Nat.two_pow_pos _))
      (Nat.mul_pos pos' (Nat.two_pow_pos _)) ?_) _
    rw [← Nat.mul_assoc, ← Nat.mul_assoc]
    exact Nat.mul_le_mul_right _ le
  · have upper : roundQuotient num (den * 2 ^ s) ≤ 2 ^ (F.fractionBits + 1) :=
      F.roundQuotient_scale_le pos
    have lower : 2 ^ F.fractionBits ≤ roundQuotient num' (den' * 2 ^ s') :=
      F.le_roundQuotient_scale pos' (Nat.lt_of_le_of_lt (Nat.zero_le s) less)
    have next : (s + 1) * 2 ^ F.fractionBits ≤ s' * 2 ^ F.fractionBits :=
      Nat.mul_le_mul_right _ less
    rw [Nat.succ_mul] at next
    rw [Nat.pow_succ] at upper
    omega

theorem nearest_units {m : Nat} (finite : m ≤ F.infinity) : F.nearest (F.units m) 1 = m := by
  have power : 0 < 2 ^ F.fractionBits := Nat.two_pow_pos _
  suffices h : roundQuotient (F.units m) (2 ^ F.scale (F.units m)) +
      F.scale (F.units m) * 2 ^ F.fractionBits = m by
    rw [nearest, Nat.div_one, Nat.one_mul]
    exact (congrArg (min F.infinity) h).trans (Nat.min_eq_right finite)
  by_cases small : m < 2 ^ F.fractionBits
  · have units : F.units m = m := by
      rw [BinaryFormat.units, significand, if_pos small, shift, Nat.div_eq_of_lt small,
        Nat.zero_sub, Nat.pow_zero, Nat.mul_one]
    have scale : F.scale m = 0 := by
      by_contra scaled
      have large := F.two_pow_scale_le (Nat.pos_of_ne_zero scaled)
      exact absurd (Nat.le_trans (Nat.le_mul_of_pos_right _ (Nat.two_pow_pos _)) large) (by omega)
    simp [units, scale]
  · let t := F.shift m
    have fraction : m % 2 ^ F.fractionBits < 2 ^ F.fractionBits := Nat.mod_lt _ power
    have exponent : m / 2 ^ F.fractionBits = t + 1 := by
      have pos : 0 < m / 2 ^ F.fractionBits := Nat.div_pos (by omega) power
      show _ = m / 2 ^ F.fractionBits - 1 + 1
      omega
    have units : F.units m = (2 ^ F.fractionBits + m % 2 ^ F.fractionBits) * 2 ^ t := by
      rw [BinaryFormat.units, significand, if_neg small]
    have log : (F.units m).log2 = F.fractionBits + t := by
      rw [Nat.log2_eq_iff (by rw [units]; exact Nat.mul_ne_zero (by omega) (by simp)), units,
        Nat.pow_add, Nat.add_right_comm, Nat.pow_add, Nat.pow_succ]
      exact ⟨Nat.mul_le_mul_right _ (by omega),
        Nat.mul_lt_mul_of_pos_right (by omega) (Nat.two_pow_pos t)⟩
    have scale : F.scale (F.units m) = t := by
      rw [BinaryFormat.scale, log]
      omega
    have split := Nat.div_add_mod' m (2 ^ F.fractionBits)
    rw [exponent, Nat.succ_mul] at split
    rw [scale, units, roundQuotient_mul _ (Nat.two_pow_pos t)]
    omega

theorem nearest_units_mul {m : Nat} (finite : m ≤ F.infinity) (pos : 0 < den) :
    F.nearest (F.units m * den) den = m := by
  refine (Nat.le_antisymm (F.nearest_mono pos Nat.one_pos ?_)
    (F.nearest_mono Nat.one_pos pos ?_)).trans (F.nearest_units finite)
  · exact Nat.le_of_eq (Nat.mul_one _)
  · exact Nat.le_of_eq (Nat.mul_one _).symm

theorem units_le_units {m m' : Nat} (finite : m ≤ F.infinity) (finite' : m' ≤ F.infinity) :
    F.units m ≤ F.units m' ↔ m ≤ m' := by
  have back : ∀ {a b}, a ≤ F.infinity → b ≤ F.infinity → F.units a ≤ F.units b → a ≤ b := by
    intro a b ha hb le
    have rounded := F.nearest_mono Nat.one_pos Nat.one_pos (Nat.mul_le_mul_right 1 le)
    rwa [F.nearest_units ha, F.nearest_units hb] at rounded
  refine ⟨back finite finite', fun le => ?_⟩
  by_contra above
  have le' := back finite' finite (Nat.le_of_lt (Nat.lt_of_not_le above))
  rw [Nat.le_antisymm le le'] at above
  exact above (Nat.le_refl _)

end BinaryFormat

end TokenSearch
