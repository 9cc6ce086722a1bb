import TokenSearch.Selection.TwoStage

/-!
A selector owns the buffers of a two-stage selection for one batch size and beam count. It
keeps twice as many candidates as beams: at most one continuation per beam ends a sequence, so
enough of them go on.
-/

namespace TokenSearch.Selection

/-- One step's candidates, `k` per batch element, best first. -/
structure Candidates where
  scores : Scores
  tokens : Tokens
  /-- The beam within the batch element that a candidate extends. -/
  beams : Tokens
deriving DecidableEq, Repr

structure Selector where
  shape : Shape
  workspace : Workspace
deriving DecidableEq, Repr

namespace Selector

def new (batchSize numBeams vocabSize : Nat) : Run Selector := do
  Run.require (1 ≤ numBeams && numBeams ≤ maxBeams) (.selectorBeams numBeams)
  let slots ← Run.ofOutcome (Outcome.size (batchSize * numBeams))
  let k := 2 * numBeams
  let parts ← Run.ofOutcome (vocabParts slots vocabSize)
  let scratch ← Run.ofOutcome (Outcome.size (slots * k * (maxParts + 1)))
  let output ← Run.ofOutcome (Outcome.size (slots * 2))
  Run.emit (.allocatingSelector batchSize numBeams vocabSize parts scratch)
  let workspace ← Workspace.new scratch output
  return ⟨⟨batchSize, numBeams, vocabSize, k, parts⟩, workspace⟩

def select (scores : Scores) : Action Selector Unit := do
  let s ← Action.object
  let rows ← Action.ofOutcome s.shape.rows
  let entries ← Action.ofOutcome (Outcome.size (rows * s.shape.vocabSize))
  Action.require (scores.size = entries) .matrixSize
  Action.call .beamTopK
  let w ← Action.lift (beamTopK scores s.shape s.workspace)
  Action.update fun s => { s with workspace := w }

def candidates (s : Selector) : Run Candidates := do
  Run.call .downloadScores
  Run.call .downloadTokens
  Run.call .downloadTokens
  return ⟨s.workspace.scores, s.workspace.tokens, s.workspace.beams⟩

end Selector

end TokenSearch.Selection
