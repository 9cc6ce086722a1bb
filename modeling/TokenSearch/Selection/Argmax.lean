import TokenSearch.ScoreMatrix

/-!
The best token of each row: the lowest position among the numerically largest scores, where a
NaN never counts, and zero if nothing exceeds negative infinity.
-/

namespace TokenSearch.Selection

/-- Walks over the rest of a row, which starts at `position`, with the best position and score
so far. -/
def argmaxFrom (position best : Nat) (value : Binary32) : List Binary32 → Nat
  | [] => best
  | x :: xs =>
    if value.lt x then argmaxFrom (position + 1) position x xs
    else argmaxFrom (position + 1) best value xs

def argmax (row : Scores) : Nat := argmaxFrom 0 0 Binary32.bottom row.toList

def argmaxRows (scores : Scores) (rows vocabSize : Nat) (out : Tokens) : Outcome Tokens := do
  Outcome.require (rows ≤ out.size) .outOfBounds
  let _ ← ScoreMatrix.entries scores rows vocabSize
  Outcome.require (vocabSize != 0) .arithmetic
  return out.mapIdx fun r old =>
    if r < rows then Token.ofIndex (argmax (ScoreMatrix.row scores vocabSize r)) else old

end TokenSearch.Selection
