import TokenSearch.Buffer

/-!
The score matrix of one step, filled from the model's logits and then changed in place.
-/

namespace TokenSearch

structure ScoreBuffer where
  scores : Scores
  rows : Nat
  vocabSize : Nat
deriving DecidableEq, Repr

namespace ScoreBuffer

def new (rows vocabSize : Nat) : Run ScoreBuffer := do
  let n ← Run.ofOutcome (Outcome.size (rows * vocabSize))
  return ⟨← Buffer.allocScores n, rows, vocabSize⟩

def transform (call : Call) (f : Scores → Outcome Scores) : Action ScoreBuffer Unit := do
  Action.call call
  let b ← Action.object
  let scores ← Action.ofOutcome (f b.scores)
  Action.update fun b => { b with scores }

/-- Loads the logits of exactly one position per row, normalised. -/
def setLogits (logits : Scores) : Action ScoreBuffer Unit := do
  let b ← Action.object
  let block ← Action.ofOutcome (Outcome.size (b.rows * b.vocabSize))
  Action.require (block != 0) .arithmetic
  Action.require (logits.size % block = 0) (.logitsRows logits.size b.rows b.vocabSize)
  Action.require (logits.size / block = 1) (.logitsPositions (logits.size / block))
  transform .logSoftmaxRows fun scores =>
    ScoreMatrix.logSoftmaxRows logits scores b.rows b.vocabSize

def requireSlot (b : ScoreBuffer) (slot : Nat) : Outcome Unit :=
  Outcome.require (slot < b.rows) (.slotOfScores slot b.rows)

def row (b : ScoreBuffer) (slot : Nat) : Run Scores := do
  Run.ofOutcome (b.requireSlot slot)
  Run.call .downloadScores
  return ScoreMatrix.row b.scores b.vocabSize slot

def setScore (slot token : Nat) (value : Binary32) : Action ScoreBuffer Unit := do
  let b ← Action.object
  Action.ofOutcome (b.requireSlot slot)
  Action.require (token < b.vocabSize) (.scoreOutsideVocabulary token)
  transform .writeScore fun scores =>
    ScoreMatrix.writeScore scores (slot * b.vocabSize + token) value

end ScoreBuffer

end TokenSearch
