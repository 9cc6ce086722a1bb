import TokenSearch.Configuration.Basic
import TokenSearch.ScoreBuffer
import TokenSearch.SequenceStore
import TokenSearch.Termination

/-!
What both kinds of search share: the configuration, the sequences, the score matrix and the
end-of-run flags, with the score processors that act on them.
-/

namespace TokenSearch

structure SearchState where
  configuration : Configuration
  sequences : SequenceStore
  scores : ScoreBuffer
  termination : Termination
deriving DecidableEq, Repr

namespace SearchState

variable {α : Type}

def onSequences (x : Action SequenceStore α) : Action SearchState α :=
  Action.focus (·.sequences) (fun s sequences => { s with sequences }) x

def onScores (x : Action ScoreBuffer α) : Action SearchState α :=
  Action.focus (·.scores) (fun s scores => { s with scores }) x

def onTermination (x : Action Termination α) : Action SearchState α :=
  Action.focus (·.termination) (fun s termination => { s with termination }) x

/-- A state over the prompts, row after row in `input`. The run is done at once if they leave
no room. -/
def new (c : Configuration) (input : Tokens) : Run SearchState := do
  let slots ← Run.ofOutcome c.slots
  let sequences ← SequenceStore.new input c.batchSize c.numBeams c.maxLength
  let scores ← ScoreBuffer.new slots c.vocabSize
  let termination ← Termination.new slots c.eosToken c.padToken
  if c.maxLength ≤ sequences.length then
    let (_, termination) ← Action.on termination Termination.markDone
    return ⟨c, sequences, scores, termination⟩
  else return ⟨c, sequences, scores, termination⟩

/-! ## Score processors -/

/-- Holds back the end token while sequences are shorter than `minLength`. -/
def minLength (minLength : Nat) : Action SearchState Unit := do
  let s ← Action.object
  if s.sequences.length < minLength then
    onScores (ScoreBuffer.transform .fillTokenColumn fun scores =>
      ScoreMatrix.fillColumn scores s.scores.rows s.scores.vocabSize
        (Token.toIndex s.configuration.eosToken) Binary32.least)

/-- Penalises tokens that a slot's sequence holds already; a penalty of one does nothing. -/
def repetitionPenalty (penalty : Binary32) : Action SearchState Unit := do
  let s ← Action.object
  if !penalty.same Binary32.one then
    onScores (ScoreBuffer.transform .repetitionPenalty fun scores =>
      ScoreMatrix.penalizeRepeats s.sequences.tokens scores s.scores.rows s.scores.vocabSize
        s.sequences.maxLength s.sequences.length penalty)

end SearchState

end TokenSearch
