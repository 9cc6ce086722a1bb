import TokenSearch.ScoreMatrix
import TokenSearch.Session

/-!
Buffers of a device: making one of a given length, with every entry zero, and overwriting one
with data of the same length. Scores and tokens take four bytes each, flags one.
-/

namespace TokenSearch.Buffer

variable {α : Type}

/-- `length` copies of `a`, which take `width` bytes each. -/
def filled (length width : Nat) (a : α) : Outcome (Array α) := do
  Outcome.room length width
  return Array.replicate length a

theorem filled_of_lt {length width : Nat} (a : α) (h : length * width < 2 ^ 63) :
    filled length width a = .ok (Array.replicate length a) := by
  rw [filled, Outcome.room_of_lt h]
  rfl

theorem eq_of_filled {length width : Nat} {a : α} {buffer : Array α}
    (h : filled length width a = .ok buffer) :
    length * width < 2 ^ 63 ∧ buffer = Array.replicate length a := by
  by_cases room : length * width < 2 ^ 63
  · rw [filled_of_lt a room] at h
    cases h
    exact ⟨room, rfl⟩
  · have full : Outcome.room length width = Outcome.violate .bufferTooLarge := by
      simp only [Outcome.room, Outcome.require, room, decide_false, Bool.false_eq_true, if_false]
    rw [filled, full] at h
    cases h

def scores (length : Nat) : Outcome Scores := filled length 4 Binary32.zero

def tokens (length : Nat) : Outcome Tokens := filled length 4 0

def mask (length : Nat) : Outcome (Array Bool) := filled length 1 false

/-! ## Device calls that make a buffer; a call that fails takes no room -/

def allocScores (length : Nat) : Run Scores := do
  Run.call .allocScores
  Run.ofOutcome (scores length)

def allocTokens (length : Nat) : Run Tokens := do
  Run.call .allocTokens
  Run.ofOutcome (tokens length)

def allocMask (length : Nat) : Run (Array Bool) := do
  Run.call .allocMask
  Run.ofOutcome (mask length)

/-! ## Overwriting -/

def overwriteScores (buffer data : Scores) : Outcome Scores := do
  Outcome.require (buffer.size = data.size) .writeScoresLength
  return data

def overwriteTokens (buffer data : Tokens) : Outcome Tokens := do
  Outcome.require (buffer.size = data.size) .writeTokensLength
  return data

end TokenSearch.Buffer
