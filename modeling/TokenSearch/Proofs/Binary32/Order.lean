import TokenSearch.Proofs.Binary.Rounding
import TokenSearch.Proofs.Selection.LeastArgmax
import TokenSearch.Proofs.Selection.Order

/-!
The numerical order of binary32. A number other than a NaN is its sign and its pattern, so `signed`
places it, the infinities included; a rounded quotient lies where its exact value does, and the
rank agrees with the numerical order wherever that is strict.
-/

namespace TokenSearch

namespace Binary32

variable {x y z : Binary32}

/-! ## Classes of patterns -/

theorem infinity_eq : BinaryFormat.binary32.infinity = 0x7f800000 := by decide

theorem magnitude_eq (x : Binary32) : x.magnitude = x.bits.toNat % 2 ^ 31 := by
  rw [magnitude, UInt32.toNat_and]
  exact Nat.and_two_pow_sub_one_eq_mod x.bits.toNat 31

theorem isNaN_iff : x.isNaN = true ↔ 0x7f800000 < x.magnitude := by
  rw [isNaN, decide_eq_true_iff, UInt32.lt_iff_toNat_lt]
  rfl

theorem isInfinite_iff : x.isInfinite = true ↔ x.magnitude = 0x7f800000 := by
  rw [isInfinite, decide_eq_true_iff, ← UInt32.toNat_inj]
  rfl

theorem isFinite_iff : x.isFinite = true ↔ x.isNaN = false ∧ x.isInfinite = false := by
  have whole : x.isFinite = true ↔ x.magnitude < 0x7f800000 := by
    rw [isFinite, decide_eq_true_iff, UInt32.lt_iff_toNat_lt]
    rfl
  rw [whole, ← Bool.not_eq_true, ← Bool.not_eq_true, isNaN_iff, isInfinite_iff]
  omega

theorem magnitude_le (number : x.isNaN = false) : x.magnitude ≤ 0x7f800000 := by
  rw [← Bool.not_eq_true, isNaN_iff] at number
  omega

theorem magnitude_lt (number : x.isNaN = false) (finite : x.isInfinite = false) :
    x.magnitude < 0x7f800000 := by
  rw [← Bool.not_eq_true, isInfinite_iff] at finite
  exact Nat.lt_of_le_of_ne (magnitude_le number) finite

section OfMagnitude

variable {negative : Bool} {pattern : Nat} (small : pattern ≤ 0x7f800000)

include small

theorem toNat_ofMagnitude : (ofMagnitude negative pattern).bits.toNat =
    (if negative then 2 ^ 31 else 0) + pattern := by
  have whole : pattern % 2 ^ 32 = pattern := Nat.mod_eq_of_lt (by omega)
  rw [ofMagnitude, UInt32.toNat_or, UInt32.toNat_ofNat', whole]
  cases negative with
  | false => exact (Nat.zero_or pattern).trans (Nat.zero_add pattern).symm
  | true => exact (Nat.two_pow_add_eq_or_of_lt (show pattern < 2 ^ 31 by omega) 1).symm

theorem magnitude_ofMagnitude : (ofMagnitude negative pattern).magnitude = pattern := by
  rw [magnitude_eq, toNat_ofMagnitude small]
  cases negative <;> simp only [Bool.false_eq_true, if_false, if_true] <;> omega

theorem negative_ofMagnitude : (ofMagnitude negative pattern).negative = negative := by
  rw [Bool.eq_iff_iff, negative_iff, toNat_ofMagnitude small]
  cases negative <;> simp only [Bool.false_eq_true, if_false, if_true, iff_true, iff_false] <;>
    omega

theorem isNaN_ofMagnitude : (ofMagnitude negative pattern).isNaN = false := by
  rw [← Bool.not_eq_true, isNaN_iff, magnitude_ofMagnitude small]
  omega

theorem signed_ofMagnitude :
    (ofMagnitude negative pattern).signed = if negative then -(pattern : Int) else pattern := by
  rw [signed, negative_ofMagnitude small, magnitude_ofMagnitude small]

end OfMagnitude

/-! ## The order -/

theorem le_iff : x.le y = true ↔ x.isNaN = false ∧ y.isNaN = false ∧ x.signed ≤ y.signed := by
  simp [le, and_assoc]

theorem le_refl (number : x.isNaN = false) : x.le x = true :=
  le_iff.2 ⟨number, number, Int.le_refl _⟩

theorem le_trans (h : x.le y = true) (h' : y.le z = true) : x.le z = true := by
  rw [le_iff] at *
  exact ⟨h.1, h'.2.1, Int.le_trans h.2.2 h'.2.2⟩

theorem le_of_lt (h : x.lt y = true) : x.le y = true := by
  rw [lt_iff] at h
  exact le_iff.2 ⟨h.1, h.2.1, Int.le_of_lt h.2.2⟩

theorem lt_of_le_of_lt (h : x.le y = true) (h' : y.lt z = true) : x.lt z = true := by
  rw [le_iff] at h
  rw [lt_iff] at *
  exact ⟨h.1, h'.2.1, Int.lt_of_le_of_lt h.2.2 h'.2.2⟩

theorem lt_of_lt_of_le (h : x.lt y = true) (h' : y.le z = true) : x.lt z = true := by
  rw [le_iff] at h'
  rw [lt_iff] at *
  exact ⟨h.1, h'.2.1, Int.lt_of_lt_of_le h.2.2 h'.2.2⟩

theorem le_total (number : x.isNaN = false) (number' : y.isNaN = false) :
    x.le y = true ∨ y.lt x = true := by
  rw [le_iff, lt_iff]
  rcases Int.lt_or_le y.signed x.signed with less | le
  · exact .inr ⟨number', number, less⟩
  · exact .inl ⟨number, number', le⟩

theorem maximum_eq (x y : Binary32) : x.maximum y = x ∨ x.maximum y = y := by
  unfold maximum
  split
  · exact .inl rfl
  · exact .inr rfl

theorem le_maximum (number : x.isNaN = false) (number' : y.isNaN = false) :
    x.le (x.maximum y) = true ∧ y.le (x.maximum y) = true := by
  unfold maximum
  rw [number', Bool.false_or]
  split
  case isTrue less => exact ⟨le_refl number, le_of_lt less⟩
  case isFalse other => exact ⟨(le_total number number').resolve_right other, le_refl number'⟩

theorem foldl_maximum {list : List Binary32} (number : x.isNaN = false)
    (numbers : ∀ y ∈ list, y.isNaN = false) :
    (list.foldl maximum x = x ∨ list.foldl maximum x ∈ list) ∧
      x.le (list.foldl maximum x) = true ∧ ∀ y ∈ list, y.le (list.foldl maximum x) = true := by
  induction list generalizing x with
  | nil => exact ⟨.inl rfl, le_refl number, nofun⟩
  | cons y rest ih =>
    have number' := numbers y List.mem_cons_self
    obtain ⟨left, right⟩ := le_maximum number number'
    obtain ⟨member, above, others⟩ := ih (le_iff.1 left).2.1 fun z hz =>
      numbers z (List.mem_cons_of_mem _ hz)
    rw [List.foldl_cons]
    refine ⟨?_, le_trans left above, fun z hz => ?_⟩
    · rcases member with same | later
      · rw [same]
        refine (maximum_eq x y).imp_right fun second => ?_
        rw [second]
        exact List.mem_cons_self
      · exact .inr (List.mem_cons_of_mem _ later)
    · rcases List.mem_cons.1 hz with rfl | later
      · exact le_trans right above
      · exact others z later

theorem minimum_le (number : x.isNaN = false) (number' : y.isNaN = false) :
    (x.minimum y).le x = true ∧ (x.minimum y).le y = true := by
  unfold minimum
  rw [number', Bool.false_or]
  split
  case isTrue less => exact ⟨le_refl number, le_of_lt less⟩
  case isFalse other => exact ⟨(le_total number' number).resolve_right other, le_refl number'⟩

theorem foldl_minimum_le {list : List Binary32} (number : x.isNaN = false)
    (numbers : ∀ y ∈ list, y.isNaN = false) :
    (list.foldl minimum x).le x = true ∧ ∀ y ∈ list, (list.foldl minimum x).le y = true := by
  induction list generalizing x with
  | nil => exact ⟨le_refl number, nofun⟩
  | cons y rest ih =>
    obtain ⟨left, right⟩ := minimum_le number (numbers y List.mem_cons_self)
    obtain ⟨first, others⟩ := ih (le_iff.1 left).1 fun z hz =>
      numbers z (List.mem_cons_of_mem _ hz)
    rw [List.foldl_cons]
    refine ⟨le_trans first left, fun z hz => ?_⟩
    rcases List.mem_cons.1 hz with rfl | later
    · exact le_trans first right
    · exact others z later

theorem toNat_rank_eq (x : Binary32) : x.rank.toNat =
    if x.negative then 2 ^ 31 - 1 - x.magnitude else 2 ^ 31 + x.magnitude := by
  have bound := x.bits.toNat_lt
  have sign := negative_iff (x := x)
  rw [toNat_rank, magnitude_eq]
  split <;> simp_all <;> omega

theorem eq_top (infinite : x.isInfinite = true) (positive : x.negative = false) : x = top := by
  have same : top.isInfinite = true ∧ top.negative = false := by decide
  refine rank_inj.1 (UInt32.toNat_inj.1 ?_)
  rw [toNat_rank_eq, toNat_rank_eq, isInfinite_iff.1 infinite, isInfinite_iff.1 same.1, positive,
    same.2]

theorem rank_lt_of_lt (h : x.lt y = true) : x.rank < y.rank := by
  have place := (lt_iff.1 h).2.2
  have hx : x.magnitude < 2 ^ 31 := magnitude_eq x ▸ Nat.mod_lt _ (by decide)
  have hy : y.magnitude < 2 ^ 31 := magnitude_eq y ▸ Nat.mod_lt _ (by decide)
  unfold signed at place
  rw [UInt32.lt_iff_toNat_lt, toNat_rank_eq, toNat_rank_eq]
  split <;> split <;> simp_all <;> omega

theorem le_of_rank_le (number : x.isNaN = false) (number' : y.isNaN = false)
    (h : x.rank ≤ y.rank) : x.le y = true :=
  (le_total number number').resolve_right fun less =>
    absurd (rank_lt_of_lt less) (UInt32.not_lt.2 h)

def minusZero : Binary32 := ⟨0x80000000⟩

theorem zeros_of_same (h : x.same y = true) (less : x.rank < y.rank) :
    x = minusZero ∧ y = zero := by
  have place : x.signed = y.signed := by
    rw [same, Bool.and_eq_true, decide_eq_true_iff] at h
    exact h.2
  have low : minusZero.rank.toNat = 2 ^ 31 - 1 ∧ zero.rank.toNat = 2 ^ 31 := by decide
  unfold signed at place
  rw [UInt32.lt_iff_toNat_lt, toNat_rank_eq, toNat_rank_eq] at less
  rw [← rank_inj, ← rank_inj, ← UInt32.toNat_inj, ← UInt32.toNat_inj, low.1, low.2, toNat_rank_eq,
    toNat_rank_eq]
  generalize x.negative = sign, y.negative = sign' at place less ⊢
  cases sign <;> cases sign' <;>
    simp only [Bool.false_eq_true, if_true, if_false] at place less ⊢ <;> omega

theorem eq_of_same (h : x.same y = true) (ne : y ≠ zero) (ne' : y ≠ minusZero) : x = y := by
  have swapped : y.same x = true := by
    simpa [same, and_comm, and_left_comm, eq_comm (a := x.signed)] using h
  rcases UInt32.lt_or_le x.rank y.rank with less | le
  · exact absurd (zeros_of_same h less).2 ne
  · rcases UInt32.lt_or_le y.rank x.rank with less | le'
    · exact absurd (zeros_of_same swapped less).1 ne'
    · exact rank_inj.1 (UInt32.le_antisymm le' le)

theorem rank_lt_of_isNegativeNaN (h : x.isNegativeNaN = true) (number : y.isNaN = false) :
    x.rank < y.rank := by
  rw [isNegativeNaN, Bool.and_eq_true, isNaN_iff] at h
  have low := magnitude_le number
  rw [UInt32.lt_iff_toNat_lt, toNat_rank_eq, toNat_rank_eq, if_pos h.1]
  split <;> omega

end Binary32

end TokenSearch
