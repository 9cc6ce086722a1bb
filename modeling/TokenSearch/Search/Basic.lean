import TokenSearch.Search.Beam
import TokenSearch.Search.Greedy

/-!
A decode run, greedy or beam. Each step sets the logits, applies the score processors, chooses
the next tokens, checks for ended sequences, appends, and asks whether the run is done.
-/

namespace TokenSearch

inductive Search where
  | greedy (g : GreedySearch)
  | beam (b : BeamSearch)
deriving DecidableEq, Repr

namespace Search

variable {α : Type}

/-- Acts on whichever kind of search this is. -/
def act (onGreedy : Action GreedySearch α) (onBeam : Action BeamSearch α) : Action Search α
  | (session, greedy g) =>
    match onGreedy (session, g) with
    | .ok a (session, g) => .ok a (session, greedy g)
    | .error f (session, g) => .error f (session, greedy g)
  | (session, beam b) =>
    match onBeam (session, b) with
    | .ok a (session, b) => .ok a (session, beam b)
    | .error f (session, b) => .error f (session, beam b)

def state : Search → SearchState
  | greedy g => g.state
  | beam b => b.state

def onState (x : Action SearchState α) : Action Search α :=
  act (GreedySearch.onState x) (BeamSearch.onState x)

/-- A search over the prompts, row after row in `input`. -/
def new (c : Configuration) (input : Tokens) : Run Search := do
  Run.ofOutcome (c.validate.mapError .error)
  Run.emit (.creatingSearch (if c.isBeamSearch then "beam" else "greedy") c.batchSize
    c.numBeams c.vocabSize c.maxLength)
  if c.isBeamSearch then return beam (← BeamSearch.new c input)
  else return greedy (← GreedySearch.new c input)

def setLogits (logits : Scores) : Action Search Unit :=
  onState (SearchState.onScores (ScoreBuffer.setLogits logits))

def minLength (value : Nat) : Action Search Unit := onState (SearchState.minLength value)

def repetitionPenalty (penalty : Binary32) : Action Search Unit :=
  onState (SearchState.repetitionPenalty penalty)

def next : Action Search Unit := act GreedySearch.next BeamSearch.next

def checkForEos : Action Search Unit := act GreedySearch.checkForEos BeamSearch.checkForEos

def append : Action Search Unit :=
  Action.logged (act GreedySearch.append BeamSearch.append) fun s =>
    .appended s.state.sequences.length

def isDone : Action Search Bool := act GreedySearch.isDone BeamSearch.isDone

/-- The best `n` rows per prompt and their scores, for buffers of these sizes. -/
def finalize (n outputSize scoresSize : Nat) : Action Search (Tokens × Scores) :=
  act (GreedySearch.finalize n outputSize scoresSize)
    (BeamSearch.finalize n outputSize scoresSize)

/-- The tokens chosen last, after the check for ended sequences. -/
def nextTokens : Search → Tokens
  | greedy g => g.nextTokens
  | beam b => b.nextTokens

/-- The slot that each live beam extends; only beam search has them. -/
def nextIndices? : Search → Option Tokens
  | greedy _ => none
  | beam b => some b.ranking.sources

end Search

end TokenSearch
