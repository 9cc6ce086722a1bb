import TokenSearch.Configuration.Basic
import TokenSearch.Selection.Shape

/-!
What the check of the settings promises to a search, and the sizes that a machine can hold.
-/

namespace TokenSearch.Configuration

/-- What the check looks for, as far as a search relies on it. -/
structure Valid (c : Configuration) : Prop where
  batch : 1 ≤ c.batchSize
  beams : 1 ≤ c.numBeams
  vocabulary : 1 ≤ c.vocabSize
  long : 1 ≤ c.maxLength
  pairs : 1 < c.numBeams → 2 ≤ c.vocabSize
  eosToken : 0 ≤ (c.eosToken : Int) ∧ (c.eosToken : Int) < c.vocabSize
  padToken : 0 ≤ (c.padToken : Int) ∧ (c.padToken : Int) < c.vocabSize
  returned : 1 ≤ c.numReturned ∧ c.numReturned ≤ c.numBeams

theorem inVocabulary_iff {c : Configuration} {t : Token} :
    c.inVocabulary t = true ↔ 0 ≤ (t : Int) ∧ (t : Int) < c.vocabSize := by
  simp [inVocabulary]

theorem valid_of_validate {c : Configuration} (h : c.validate = .ok ()) : c.Valid := by
  rw [validate_eq_ok_iff] at h
  simp only [fault?, apply_ite (· = none), reduceCtorEq, if_false_left, and_true] at h
  obtain ⟨batch, beams, vocabulary, long, pairs, eos, pad, -, returned⟩ := h
  constructor
  case batch => exact Nat.pos_of_ne_zero batch
  case beams => exact Nat.pos_of_ne_zero beams
  case vocabulary => exact Nat.pos_of_ne_zero vocabulary
  case long => exact Nat.pos_of_ne_zero long
  case pairs =>
    simp only [isBeamSearch, Bool.and_eq_true, decide_eq_true_eq] at pairs
    omega
  case eosToken => simpa [inVocabulary_iff] using eos
  case padToken => simpa [inVocabulary_iff] using pad
  case returned =>
    simp only [Bool.or_eq_true, decide_eq_true_eq] at returned
    omega

theorem penalty_of_validate {c : Configuration} (h : c.validate = .ok ()) :
    c.repetitionPenalty.isFinite = true ∧ Binary32.zero.lt c.repetitionPenalty = true := by
  rw [validate_eq_ok_iff] at h
  simp only [fault?, apply_ite (· = none), reduceCtorEq, if_false_left, and_true] at h
  obtain ⟨-, -, -, -, -, -, -, penalty, -⟩ := h
  simpa using penalty

/-- Buffers of this many entries, four bytes each, can be made. -/
structure Allocatable (c : Configuration) : Prop where
  matrix : c.batchSize * c.numBeams * c.vocabSize * 4 < 2 ^ 63
  sequences : c.batchSize * c.numBeams * c.maxLength * 4 < 2 ^ 63

/-- Beam search also stores slots and tokens as signed 32-bit words. A larger number wraps: such a
token is taken for a filler, and such a slot lies beyond every buffer. -/
structure Addressable (c : Configuration) : Prop extends c.Allocatable where
  slots : c.batchSize * c.numBeams < 2 ^ 31
  tokens : c.vocabSize ≤ 2 ^ 31

structure Runnable (c : Configuration) : Prop extends c.Valid, c.Addressable where
  many : 2 ≤ c.numBeams
  few : c.numBeams ≤ Selection.maxBeams

theorem Runnable.scratch_lt {c : Configuration} (run : c.Runnable) :
    c.batchSize * c.numBeams * (2 * c.numBeams) * (Selection.maxParts + 1) * 4 < 2 ^ 63 := by
  have few : 2 * c.numBeams ≤ 2 * 32 := Nat.mul_le_mul_left 2 run.few
  calc c.batchSize * c.numBeams * (2 * c.numBeams) * (Selection.maxParts + 1) * 4
      ≤ 2 ^ 31 * (2 * 32) * (128 + 1) * 4 :=
        Nat.mul_le_mul_right _ (Nat.mul_le_mul_right _ (Nat.mul_le_mul (Nat.le_of_lt run.slots) few))
    _ < 2 ^ 63 := by decide

end TokenSearch.Configuration
