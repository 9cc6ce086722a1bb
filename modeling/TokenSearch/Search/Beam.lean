import TokenSearch.Search.State

/-!
Beam search: several live hypotheses per prompt, ranked anew in every step. The running score
of a slot is added to its row before the selection, and tokens, sources and running scores of
the new beams are written back after the re-ranking.
-/

namespace TokenSearch

structure BeamSearch where
  state : SearchState
  ranking : Ranking
  selector : Selection.Selector
  beamScores : Scores
  nextTokens : Tokens
  nextIndices : Tokens
deriving DecidableEq, Repr

namespace BeamSearch

variable {α : Type}

def onState (x : Action SearchState α) : Action BeamSearch α :=
  Action.focus (·.state) (fun b state => { b with state }) x

def onRanking (x : Action Ranking α) : Action BeamSearch α :=
  Action.focus (·.ranking) (fun b ranking => { b with ranking }) x

def onSelector (x : Action Selection.Selector α) : Action BeamSearch α :=
  Action.focus (·.selector) (fun b selector => { b with selector }) x

def new (c : Configuration) (input : Tokens) : Run BeamSearch := do
  Run.require (1 < c.numBeams) (.beamBeams c.numBeams)
  Run.ofOutcome (c.validate.mapError .error)
  let slots ← Run.ofOutcome c.slots
  let ranking ← Run.ofOutcome (Ranking.new c)
  let selector ← Selection.Selector.new c.batchSize c.numBeams c.vocabSize
  Run.call .uploadScores
  let nextTokens ← Buffer.allocTokens slots
  let nextIndices ← Buffer.allocTokens slots
  let state ← SearchState.new c input
  return { state, ranking, selector, beamScores := ranking.scores, nextTokens, nextIndices }

/-- Adds the running scores to the matrix and selects over it. -/
def select : Action BeamSearch Selection.Candidates := do
  let b ← Action.object
  let c := b.state.configuration
  let slots ← Action.ofOutcome c.slots
  onState (SearchState.onScores (ScoreBuffer.transform .addBeamScores fun scores =>
    ScoreMatrix.addRowScores scores b.beamScores slots c.vocabSize))
  onSelector (Selection.Selector.select (← Action.object).state.scores.scores)
  Action.call .synchronize
  Action.lift (← Action.object).selector.candidates

def writeBeams : Action BeamSearch Unit := do
  let r := (← Action.object).ranking
  Action.call .writeTokens
  let tokens ← Action.ofOutcome (Buffer.overwriteTokens (← Action.object).nextTokens r.tokens)
  Action.update fun b => { b with nextTokens := tokens }
  Action.call .writeTokens
  let indices ← Action.ofOutcome
    (Buffer.overwriteTokens (← Action.object).nextIndices r.sources)
  Action.update fun b => { b with nextIndices := indices }
  Action.call .writeScores
  let scores ← Action.ofOutcome (Buffer.overwriteScores (← Action.object).beamScores r.scores)
  Action.update fun b => { b with beamScores := scores }

def next : Action BeamSearch Unit := do
  let candidates ← select
  let b ← Action.object
  onRanking (Ranking.process b.state.sequences.view candidates)
  writeBeams

def checkForEos : Action BeamSearch Unit := do
  let b ← Action.object
  let tokens ← onState (SearchState.onTermination (Termination.check b.nextTokens))
  Action.update fun b => { b with nextTokens := tokens }
  if b.ranking.allDone then onState (SearchState.onTermination Termination.markDone)

/-- Appends the chosen tokens to the sequences that the new beams extend. -/
def append : Action BeamSearch Unit := do
  let b ← Action.object
  onState (SearchState.onSequences
    (SequenceStore.appendReordered b.nextIndices b.nextTokens))

/-- Ends elements whose sequences are full, and the run if no element goes on. -/
def isDone : Action BeamSearch Bool := do
  let length := (← Action.object).state.sequences.length
  onRanking (Action.update (Ranking.capLength length))
  if (← Action.object).ranking.allDone then
    onState (SearchState.onTermination Termination.markDone)
  onState (SearchState.onTermination Termination.isDone)

def finalize (n outputSize scoresSize : Nat) : Action BeamSearch (Tokens × Scores) := do
  let b ← Action.object
  onRanking (Ranking.finalize b.state.sequences.view n outputSize scoresSize)

end BeamSearch

end TokenSearch
