import TokenSearch.Search.State
import TokenSearch.Selection.Argmax

/-!
Greedy search: every slot appends the best token of its row.
-/

namespace TokenSearch

structure GreedySearch where
  state : SearchState
  nextTokens : Tokens
deriving DecidableEq, Repr

namespace GreedySearch

def onState {α : Type} (x : Action SearchState α) : Action GreedySearch α :=
  Action.focus (·.state) (fun g state => { g with state }) x

def new (c : Configuration) (input : Tokens) : Run GreedySearch := do
  Run.require (c.numBeams = 1) .greedyBeams
  Run.ofOutcome (c.validate.mapError .error)
  let nextTokens ← Buffer.allocTokens c.batchSize
  return ⟨← SearchState.new c input, nextTokens⟩

def next : Action GreedySearch Unit := do
  Action.call .argmaxRows
  let g ← Action.object
  let c := g.state.configuration
  let tokens ← Action.ofOutcome
    (Selection.argmaxRows g.state.scores.scores c.batchSize c.vocabSize g.nextTokens)
  Action.update fun g => { g with nextTokens := tokens }

def checkForEos : Action GreedySearch Unit := do
  let g ← Action.object
  let tokens ← onState (SearchState.onTermination (Termination.check g.nextTokens))
  Action.update fun g => { g with nextTokens := tokens }

/-- Appends the chosen tokens; a run whose sequences are full is done. -/
def append : Action GreedySearch Unit := do
  let g ← Action.object
  onState (SearchState.onSequences (SequenceStore.append g.nextTokens))
  let s := (← Action.object).state
  if s.sequences.length = s.configuration.maxLength then
    onState (SearchState.onTermination Termination.markDone)

def isDone : Action GreedySearch Bool := onState (SearchState.onTermination Termination.isDone)

/-- Reads the sequences of some slots, each padded to the full width. -/
def rows (s : SearchState) : List Nat → Run (List Token)
  | [] => return []
  | slot :: rest => do
    let row ← s.sequences.sequence slot
    let others ← rows s rest
    return Ranking.fit s.configuration.maxLength s.configuration.padToken row ++ others

/-- One row per prompt, with the score zero: no cumulative score is kept. -/
def finalize (n outputSize scoresSize : Nat) : Action GreedySearch (Tokens × Scores) := do
  let s := (← Action.object).state
  let c := s.configuration
  Action.require (n = 1) .greedyReturns
  let entries ← Action.ofOutcome (Outcome.size (c.batchSize * c.maxLength))
  Action.require (outputSize = entries) .outputSize
  Action.require (scoresSize = c.batchSize) .scoresSize
  let tokens ← Action.lift (rows s (List.range c.batchSize))
  return (tokens.toArray, Array.replicate c.batchSize Binary32.zero)

end GreedySearch

end TokenSearch
