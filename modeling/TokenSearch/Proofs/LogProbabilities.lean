import TokenSearch.Proofs.Binary32.Elementary
import TokenSearch.Proofs.Scoring

/-!
Log-probabilities. No score of a row that can be normalised comes out positive, and the score
processors keep it so. A token that is held back gets the lowest finite number, which the penalty
for repeated tokens rescales if the sequence holds that token.
-/

namespace TokenSearch

open Binary32

def Nonpositive (row : Scores) : Prop := ∀ x ∈ row, x.le zero = true

/-! ## Normalised rows -/

structure Normalizable (row : Scores) : Prop where
  numbers : ∀ x ∈ row, x.isNaN = false
  below : ∀ x ∈ row, x ≠ Binary32.top
  finite : ∃ x ∈ row, x.isFinite = true

namespace Normalizable

variable {row : Scores} (normal : Normalizable row)

include normal

theorem largest :
    let largest := row.foldl Binary32.maximum Binary32.bottom
    largest ∈ row ∧ largest.isInfinite = false ∧ ∀ x ∈ row, x.le largest = true := by
  intro largest
  have numbers : ∀ x ∈ row.toList, x.isNaN = false :=
    fun x hx => normal.numbers x (Array.mem_toList_iff.1 hx)
  obtain ⟨member, -, above⟩ := foldl_maximum (x := Binary32.bottom) (by decide) numbers
  rw [Array.foldl_toList, Array.mem_toList_iff] at member
  rw [Array.foldl_toList] at above
  obtain ⟨x, hx, finite⟩ := normal.finite
  have high (infinite : largest.isInfinite = true) : largest.negative = false :=
    positive_of_le infinite (above x (Array.mem_toList_iff.2 hx)) (isFinite_iff.1 finite).2
  have inside : largest ∈ row := by
    refine member.resolve_left fun bottom => ?_
    have contra := high (by rw [show largest = Binary32.bottom from bottom]; decide)
    rw [show largest = Binary32.bottom from bottom] at contra
    exact absurd contra (by decide)
  refine ⟨inside, ?_, fun y hy => above y (Array.mem_toList_iff.2 hy)⟩
  by_contra infinite
  rw [Bool.not_eq_false] at infinite
  exact normal.below largest inside (eq_top infinite (high infinite))

theorem largest_le_logSumExp :
    (row.foldl Binary32.maximum Binary32.bottom).le (ScoreMatrix.logSumExp row) = true := by
  let largest := row.foldl Binary32.maximum Binary32.bottom
  obtain ⟨member, finite, above⟩ := normal.largest
  have number := normal.numbers largest member
  have nonneg : ∀ y ∈ row.toList.map fun x => (x - largest).exp, zero.le y = true := by
    intro y hy
    obtain ⟨x, hx, rfl⟩ := List.mem_map.1 hy
    have below := sub_nonpos (above x (Array.mem_toList_iff.1 hx)) (le_refl number) finite
    exact exp_nonneg (le_iff.1 below).1
  have unit : one ∈ row.toList.map fun x => (x - largest).exp := by
    refine List.mem_map.2 ⟨largest, Array.mem_toList_iff.2 member, ?_⟩
    simp [sub_self number finite]
  have sum := (le_foldl_add (le_refl isNaN_zero) nonneg).2 one unit
  have same : (row.toList.map fun x => (x - largest).exp).foldl (· + ·) zero =
      Binary32.sum (row.map fun x => (x - largest).exp) := by
    rw [Binary32.sum, ← Array.foldl_toList, Array.toList_map]
  rw [same] at sum
  have log := log_nonneg sum
  exact le_add_left number log (isNaN_add number (le_iff.1 log).2.1 fun infinite =>
    absurd (finite.symm.trans infinite) (by decide))

theorem nonpositive_logSoftmax : Nonpositive (logSoftmax row) := by
  intro y hy
  obtain ⟨x, hx, rfl⟩ := Array.mem_map.1 hy
  obtain ⟨-, finite, above⟩ := normal.largest
  exact sub_nonpos (above x hx) normal.largest_le_logSumExp finite

end Normalizable

/-! ## Score processors -/

section Processors

variable {eosToken : Token} {penalty x : Binary32} {row : Scores} {tokens : List Token}

theorem nonpositive_holdBack (nonpos : Nonpositive row) : Nonpositive (holdBack eosToken row) := by
  intro y hy
  obtain ⟨i, hi, rfl⟩ := Array.mem_mapIdx.1 hy
  split
  · decide
  · exact nonpos _ (Array.getElem_mem hi)

/-- What a token that is held back scores after a sequence. -/
def heldScore (eosToken : Token) (penalty : Binary32) (tokens : List Token) : Binary32 :=
  if eosToken ∈ tokens then ScoreMatrix.penalize penalty least else least

theorem processedRow_eq (length : Nat) :
    processedRow eosToken [.minLength length, .repetitionPenalty penalty] tokens row =
      let held := if tokens.length < length then holdBack eosToken (logSoftmax row)
        else logSoftmax row
      if penalty.same one then held else penalizeSeen penalty tokens held := rfl

section Penalty

variable (finite : penalty.isFinite = true) (positive : zero.lt penalty = true)

include finite positive

theorem penalize_nonpos (nonpos : x.le zero = true) :
    (ScoreMatrix.penalize penalty x).le zero = true := by
  obtain ⟨number, finite⟩ := isFinite_iff.1 finite
  unfold ScoreMatrix.penalize
  cases below : x.lt zero with
  | true => exact mul_nonpos below positive finite
  | false =>
    obtain ⟨sign, some⟩ := positive_of_lt positive
    have finite' : x.isInfinite = false := by
      by_contra infinite
      rw [Bool.not_eq_false] at infinite
      have far := signed_of_isInfinite infinite
      rw [if_pos (negative_of_le infinite nonpos isInfinite_zero)] at far
      rw [← Bool.not_eq_true, lt_iff] at below
      exact below ⟨(le_iff.1 nonpos).1, isNaN_zero, by rw [far]; decide⟩
    obtain ⟨quotient, value⟩ :=
      signed_div nonpos number sign finite' finite (Nat.pos_iff_ne_zero.1 some)
    rw [if_neg (by decide)]
    refine le_iff.2 ⟨quotient, isNaN_zero, ?_⟩
    rw [value]
    exact Int.neg_nonpos_of_nonneg (Int.natCast_nonneg _)

theorem nonpositive_penalizeSeen (nonpos : Nonpositive row) :
    Nonpositive (penalizeSeen penalty tokens row) := by
  intro y hy
  obtain ⟨i, hi, rfl⟩ := Array.mem_mapIdx.1 hy
  have entry := nonpos _ (Array.getElem_mem hi)
  split
  · exact penalize_nonpos finite positive entry
  · exact entry

theorem nonpositive_processedRow (normal : Normalizable row) (length : Nat) : Nonpositive
    (processedRow eosToken [.minLength length, .repetitionPenalty penalty] tokens row) := by
  have held : Nonpositive
      (if tokens.length < length then holdBack eosToken (logSoftmax row) else logSoftmax row) := by
    split
    · exact nonpositive_holdBack normal.nonpositive_logSoftmax
    · exact normal.nonpositive_logSoftmax
  rw [processedRow_eq]
  dsimp only
  split
  · exact held
  · exact nonpositive_penalizeSeen finite positive held

theorem heldScore_nonpos : (heldScore eosToken penalty tokens).le zero = true := by
  unfold heldScore
  split
  · exact penalize_nonpos finite positive (by decide)
  · decide

theorem heldScore_le_least (gentle : one.le penalty = true ∨ eosToken ∉ tokens) :
    (heldScore eosToken penalty tokens).le least = true := by
  unfold heldScore
  split
  case isTrue seen =>
    have below : least.lt zero = true := by decide
    rw [ScoreMatrix.penalize, if_pos below]
    exact mul_le below positive (isFinite_iff.1 finite).2
      (gentle.resolve_right fun fresh => fresh seen)
  case isFalse => decide

end Penalty

theorem getElem!_processedRow {length t : Nat} (short : tokens.length < length)
    (inside : t < row.size) (held : (t : Token) = eosToken) :
    (processedRow eosToken [.minLength length, .repetitionPenalty penalty] tokens row)[t]! =
      heldScore eosToken penalty tokens := by
  have size : (logSoftmax row).size = row.size := Array.size_map
  have low : (holdBack eosToken (logSoftmax row))[t]! = least := by
    rw [holdBack, getElem!_mapIdx _ (size ▸ inside), if_pos held]
  rw [processedRow_eq]
  dsimp only
  rw [if_pos short, heldScore]
  split
  case isTrue unit =>
    have neutral : ScoreMatrix.penalize penalty least = least := by
      rw [eq_of_same unit (by decide) (by decide)]
      decide +kernel
    rw [low, neutral, ite_self]
  case isFalse =>
    have inside' : t < (holdBack eosToken (logSoftmax row)).size := by
      rw [holdBack, Array.size_mapIdx, size]
      exact inside
    rw [penalizeSeen, getElem!_mapIdx _ inside', low, held]
    simp only [List.contains_iff_mem]

end Processors

end TokenSearch
