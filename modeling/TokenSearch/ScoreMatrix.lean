import TokenSearch.Binary32.Elementary
import TokenSearch.Failure
import TokenSearch.Token

/-!
Operations on a score matrix, stored row after row in one buffer of `rows * vocabSize` entries
or more. Each one checks its ranges and then gives every entry its new value by position:
entry `i` lies in row `i / vocabSize` and column `i % vocabSize`, and entries past the matrix
stay as they are.
-/

namespace TokenSearch

abbrev Scores := Array Binary32

abbrev Tokens := Array Token

namespace ScoreMatrix

/-- The number of entries of the matrix, if the buffer has them all. -/
def entries (buffer : Scores) (rows vocabSize : Nat) : Outcome Nat := do
  let n ← Outcome.size (rows * vocabSize)
  Outcome.require (n ≤ buffer.size) .outOfBounds
  return n

def row {α : Type} (buffer : Array α) (width r : Nat) : Array α :=
  buffer.extract (r * width) (r * width + width)

/-! ## Log-softmax -/

/-- The logarithm of the sum of the exponentials of a row. The largest entry is taken out of
the sum first, so that no exponential overflows. -/
def logSumExp (row : Scores) : Binary32 :=
  let largest := row.foldl Binary32.maximum Binary32.bottom
  largest + (Binary32.sum (row.map fun x => (x - largest).exp)).log

/-- Copies the logits into the matrix and normalises every row to log-probabilities. -/
def logSoftmaxRows (logits scores : Scores) (rows vocabSize : Nat) : Outcome Scores := do
  let n ← Outcome.size (rows * vocabSize)
  Outcome.require (n ≤ logits.size && n ≤ scores.size) .softmaxBuffers
  Outcome.require (vocabSize != 0) .arithmetic
  let sums := (Array.range rows).map fun r => logSumExp (row logits vocabSize r)
  return scores.mapIdx fun i old =>
    if i < n then logits[i]! - sums[i / vocabSize]! else old

/-! ## Single entries and columns -/

def writeScore (scores : Scores) (index : Nat) (value : Binary32) : Outcome Scores := do
  Outcome.require (index < scores.size) .outOfBounds
  return scores.set! index value

def fillColumn (scores : Scores) (rows vocabSize token : Nat) (value : Binary32) :
    Outcome Scores := do
  Outcome.require (token < vocabSize) (.columnOutsideVocabulary token)
  let n ← entries scores rows vocabSize
  return scores.mapIdx fun i old =>
    if i < n && i % vocabSize = token then value else old

/-! ## Repetition penalty -/

/-- Makes a score less likely: a negative one is multiplied, any other divided. -/
def penalize (penalty score : Binary32) : Binary32 :=
  if score.lt Binary32.zero then score * penalty else score / penalty

/-- Penalises, once each, the tokens among the first `length` of each row's sequence. -/
def penalizeRepeats (sequences : Tokens) (scores : Scores)
    (rows vocabSize maxLength length : Nat) (penalty : Binary32) : Outcome Scores := do
  let n ← entries scores rows vocabSize
  Outcome.require (vocabSize != 0) .arithmetic
  if rows ≠ 0 then
    let last ← Outcome.size ((rows - 1) * maxLength)
    let stop ← Outcome.size (last + length)
    Outcome.require (stop ≤ sequences.size) .outOfBounds
  let histories := (Array.range rows).map fun r =>
    sequences.extract (r * maxLength) (r * maxLength + length)
  return scores.mapIdx fun i old =>
    if i < n && histories[i / vocabSize]!.contains ((i % vocabSize : Nat) : Token) then
      penalize penalty old
    else old

/-! ## Running scores -/

def addRowScores (scores rowScores : Scores) (rows vocabSize : Nat) : Outcome Scores := do
  let n ← entries scores rows vocabSize
  Outcome.require (vocabSize != 0) .arithmetic
  Outcome.require (rows ≤ rowScores.size) .outOfBounds
  return scores.mapIdx fun i old =>
    if i < n then old + rowScores[i / vocabSize]! else old

end ScoreMatrix

end TokenSearch
