import TokenSearch.Search.Basic

/-!
Generation: a search driven by a model until it is done.
-/

namespace TokenSearch

/-- Gives the logits of every slot for the sequences as they stand. The first argument counts
the forward passes made before. -/
structure Model where
  forward : Nat → List (List Token) → Outcome Scores

namespace Model

/-- A model that gives each slot's logits from that slot's sequence alone. -/
def ofSlots (logits : List Token → List Binary32) : Model :=
  ⟨fun _ sequences => .ok (sequences.flatMap logits).toArray⟩

end Model

structure GenerationOutput where
  /-- Rows of `maxLength` tokens, `numReturned` per prompt. -/
  tokens : Tokens
  scores : Scores
  numReturned : Nat
  maxLength : Nat
deriving DecidableEq, Repr

namespace GenerationOutput

def row (o : GenerationOutput) (i : Nat) : Tokens := ScoreMatrix.row o.tokens o.maxLength i

end GenerationOutput

structure Generator where
  search : Search
  model : Model
  steps : Nat
  passes : Nat

namespace Generator

variable {α : Type}

def onSearch (x : Action Search α) : Action Generator α :=
  Action.focus (·.search) (fun g search => { g with search }) x

def new (c : Configuration) (input : Tokens) (model : Model) : Run Generator := do
  return ⟨← Search.new c input, model, 0, 0⟩

def forward : Action Generator Scores := do
  let g ← Action.object
  Action.update fun g => { g with passes := g.passes + 1 }
  Action.call .forward
  Action.ofOutcome (g.model.forward g.passes g.search.state.sequences.toList)

/-- One decode step; tells whether the run is done. -/
def step : Action Generator Bool := do
  let logits ← forward
  let c := (← Action.object).search.state.configuration
  onSearch do
    Search.setLogits logits
    Search.minLength c.minLength
    Search.repetitionPenalty c.repetitionPenalty
    Search.next
    Search.checkForEos
    Search.append
  Action.update fun g => { g with steps := g.steps + 1 }
  onSearch Search.isDone

/-- Steps until the run is done. Each step makes the sequences one token longer, so there is
room for at most `room` of them and one more step fails. -/
def stepUntilDone (room : Nat) : Action Generator Unit := do
  if ← onSearch Search.isDone then return ()
  else
    let _ ← step
    match room with
    | 0 => return ()
    | room + 1 => stepUntilDone room

def tryGenerate : Action Generator GenerationOutput := do
  let s := (← Action.object).search.state
  stepUntilDone (s.configuration.maxLength - s.sequences.length)
  let c := s.configuration
  let rows ← Action.ofOutcome (Outcome.size (c.batchSize * c.numReturned))
  let entries ← Action.ofOutcome (Outcome.size (rows * c.maxLength))
  let (tokens, scores) ← onSearch (Search.finalize c.numReturned entries rows)
  Action.emit (.generationFinished (← Action.object).steps c.batchSize c.numReturned)
  return ⟨tokens, scores, c.numReturned, c.maxLength⟩

def generate : Action Generator GenerationOutput := fun s =>
  match tryGenerate s with
  | .error (.error e) s => Action.lift (Run.abort e) s
  | result => result

end Generator

end TokenSearch
