import TokenSearch.Configuration.Basic
import TokenSearch.HypothesisPool
import TokenSearch.Selection.Selector

/-!
Re-ranking the beams of every batch element.

An element walks over its candidates from the best on. A candidate that ends its sequence goes
to the pool if it is among the first `numBeams`, and is dropped otherwise; every other
candidate becomes the next live beam, until all beams are filled. An element is done when its
pool is complete, when its candidates run out, or when its sequences are as long as allowed.
-/

namespace TokenSearch

inductive DoneReason where
  | completed
  | exhausted
  | lengthCap
deriving DecidableEq, Repr

inductive Status where
  | active
  | done (reason : DoneReason)
deriving DecidableEq, Repr, Inhabited

def Status.isDone : Status → Bool
  | active => false
  | done _ => true

/-- What one slot does next: it appends `token` to the sequence of slot `source`. -/
structure Beam where
  score : Binary32
  token : Token
  source : Token
deriving DecidableEq, Repr, Inhabited

/-- One batch element. -/
structure Element where
  status : Status
  pool : HypothesisPool
  beams : Array Beam
deriving DecidableEq, Repr, Inhabited

/-- One candidate of an element; `beam` counts within the element. -/
structure Candidate where
  score : Binary32
  token : Token
  beam : Token
deriving DecidableEq, Repr

/-- Read access to the sequences of all slots. -/
structure SequenceView where
  /-- The current length of every sequence, if there is one to measure. -/
  length : Outcome Nat
  read : Nat → Run (List Token)

structure Ranking where
  numBeams : Nat
  maxLength : Nat
  eosToken : Token
  padToken : Token
  elements : Array Element
deriving DecidableEq, Repr

/-- The score of a beam that is not in use. All beams start from one prompt; this keeps the
first step from taking the same continuation once per beam. -/
def inactiveScore : Binary32 := ⟨0xce6e6b28⟩

namespace Element

/-- Where all beams stay in their slots and append padding. -/
def idleBeam (padToken : Token) (score : Binary32) (slot : Nat) : Beam :=
  ⟨score, padToken, Token.ofIndex slot⟩

def offer (e : Element) (tokens : List Token) (sum : Binary32) : Element :=
  { e with pool := e.pool.add tokens sum }

def setBeam (e : Element) (i : Nat) (b : Beam) : Element :=
  { e with beams := e.beams.set! i b }

/-- Walks over the candidates from `rank` on and counts the beams chosen and the hypotheses
retired. `base` is the element's first slot. -/
def walk (numBeams : Nat) (eosToken : Token) (view : SequenceView) (base : Nat)
    (rank chosen retired : Nat) : List Candidate → Action Element (Nat × Nat)
  | [] => return (chosen, retired)
  | c :: rest => do
    let source ← Action.ofOutcome (Outcome.size (base + Token.toIndex c.beam))
    if c.token = eosToken then
      if numBeams ≤ rank then walk numBeams eosToken view base (rank + 1) chosen retired rest
      else
        let tokens ← Action.lift (view.read source)
        Action.update (·.offer (tokens ++ [c.token]) c.score)
        walk numBeams eosToken view base (rank + 1) chosen (retired + 1) rest
    else
      Action.update (·.setBeam chosen ⟨c.score, c.token, Token.ofIndex source⟩)
      if chosen + 1 = numBeams then return (chosen + 1, retired)
      else walk numBeams eosToken view base (rank + 1) (chosen + 1) retired rest

/-- Offers the beams from `i` on as they are, each with its token. -/
def offerBeams (view : SequenceView) : List Nat → Action Element Unit
  | [] => return ()
  | i :: rest => do
    let e ← Action.object
    let b := e.beams[i]!
    let tokens ← Action.lift (view.read (Token.toIndex b.source))
    Action.update (·.offer (tokens ++ [b.token]) b.score)
    offerBeams view rest

/-- One step of an element that is done: nothing but padding. -/
def idle (padToken : Token) (base : Nat) (e : Element) : Element :=
  { e with beams := e.beams.mapIdx fun i _ => idleBeam padToken Binary32.zero (base + i) }

/-- Ends an element whose candidates ran out; the slots without a beam go idle. -/
def exhaust (padToken : Token) (base chosen : Nat) (e : Element) : Element :=
  { e with
    status := .done .exhausted
    beams := e.beams.mapIdx fun i b =>
      if i < chosen then b else idleBeam padToken inactiveScore (base + i) }

/-- One step of the element number `index`, from sequences of `length` tokens. -/
def step (numBeams : Nat) (eosToken padToken : Token) (view : SequenceView) (length index : Nat)
    (candidates : List Candidate) : Action Element Unit := do
  let base := index * numBeams
  if (← Action.object).status.isDone then Action.update (idle padToken base)
  else
    let (chosen, retired) ← walk numBeams eosToken view base 0 0 0 candidates
    if chosen < numBeams then
      offerBeams view (List.range chosen)
      Action.update (exhaust padToken base chosen)
      Action.emit (.exhausted index chosen retired)
    else
      let e ← Action.object
      Action.require (0 < e.beams.size) .outOfBounds
      if e.pool.isComplete e.beams[0]!.score (length + 1) then
        Action.update fun e => { e with status := .done .completed }
        Action.emit (.completed index e.pool.size)
      else if 0 < retired then Action.emit (.retired index retired)

/-- Whether the live beams still count as hypotheses at the end. -/
def isOpen (e : Element) : Bool :=
  match e.status with
  | .active => true
  | .done .lengthCap => true
  | .done _ => false

/-- Offers the live beams of an open element, each as its sequence stands. -/
def closeFrom (view : SequenceView) (base : Nat) : List Nat → Action Element Unit
  | [] => return ()
  | i :: rest => do
    let tokens ← Action.lift (view.read (base + i))
    Action.update fun e => e.offer tokens e.beams[i]!.score
    closeFrom view base rest

def close (numBeams : Nat) (view : SequenceView) (index : Nat) : Action Element Unit := do
  if (← Action.object).isOpen then
    closeFrom view (index * numBeams) (List.range numBeams)

end Element

namespace Ranking

/-- All elements active, the first beam of each in use. A slot's score takes four bytes and an
element's status one. -/
def new (c : Configuration) : Outcome Ranking := do
  let slots ← c.slots
  Outcome.room slots 4
  Outcome.room c.batchSize 1
  let pool ←
    if c.batchSize = 0 then pure ⟨c.numBeams, c.lengthPenalty, c.earlyStopping, []⟩
    else HypothesisPool.new c.numBeams c.lengthPenalty c.earlyStopping
  return {
    numBeams := c.numBeams
    maxLength := c.maxLength
    eosToken := c.eosToken
    padToken := c.padToken
    elements := (Array.range c.batchSize).map fun b =>
      { status := .active
        pool
        beams := (Array.range c.numBeams).map fun i =>
          Element.idleBeam c.padToken (if i = 0 then Binary32.zero else inactiveScore)
            (b * c.numBeams + i) } }

/-! ## Views over all slots -/

def beams (r : Ranking) : Array Beam := r.elements.flatMap (·.beams)

def scores (r : Ranking) : Scores := r.beams.map (·.score)

def tokens (r : Ranking) : Tokens := r.beams.map (·.token)

def sources (r : Ranking) : Tokens := r.beams.map (·.source)

def allDone (r : Ranking) : Bool := r.elements.all (·.status.isDone)

/-! ## Steps -/

def onElement (index : Nat) (x : Action Element Unit) : Action Ranking Unit := do
  let r ← Action.object
  match r.elements[index]? with
  | none => Action.ofOutcome (.violate .outOfBounds)
  | some e =>
    Action.focus (fun _ => e) (fun r e => { r with elements := r.elements.set! index e }) x

/-- The candidates of one element, `k` of them, best first. -/
def candidatesOf (cs : Selection.Candidates) (k index : Nat) : List Candidate :=
  (List.range k).map fun i =>
    ⟨cs.scores[index * k + i]!, cs.tokens[index * k + i]!, cs.beams[index * k + i]!⟩

/-- Re-ranks one step's candidates, element after element. -/
def process (view : SequenceView) (cs : Selection.Candidates) : Action Ranking Unit := do
  let r ← Action.object
  let k ← Action.ofOutcome (Outcome.size (2 * r.numBeams))
  let expected ← Action.ofOutcome (Outcome.size (r.elements.size * k))
  Action.require
    (cs.scores.size = expected && cs.tokens.size = expected && cs.beams.size = expected)
    (.candidateCount expected)
  let length ← Action.ofOutcome view.length
  (List.range r.elements.size).forM fun b =>
    onElement b
      (Element.step r.numBeams r.eosToken r.padToken view length b (candidatesOf cs k b))

/-- Ends every element that still goes on once the sequences are as long as allowed. -/
def capLength (length : Nat) (r : Ranking) : Ranking :=
  if r.maxLength ≤ length then
    { r with elements := r.elements.map fun e =>
        if e.status.isDone then e else { e with status := .done .lengthCap } }
  else r

/-! ## Final rows -/

/-- A sequence cut or padded to `width` tokens. -/
def fit (width : Nat) (padToken : Token) (tokens : List Token) : List Token :=
  tokens.take width ++ List.replicate (width - tokens.length) padToken

@[simp] theorem length_fit (width : Nat) (padToken : Token) (tokens : List Token) :
    (fit width padToken tokens).length = width := by
  simp only [fit, List.length_append, List.length_take, List.length_replicate]
  omega

/-- The best `n` hypotheses of every element; a missing one is nothing. -/
def best (r : Ranking) (n : Nat) : Array (Option Hypothesis) :=
  r.elements.flatMap fun e =>
    let hs := e.pool.sorted
    (Array.range n).map (hs[·]?)

@[simp] theorem size_best (r : Ranking) (n : Nat) : (r.best n).size = r.elements.size * n := by
  simp [best, Array.size_flatMap, Array.map_const']

def bestRows (r : Ranking) (n : Nat) : Tokens :=
  (r.best n).flatMap fun h =>
    (fit r.maxLength r.padToken ((h.map (·.tokens)).getD [])).toArray

@[simp] theorem size_bestRows (r : Ranking) (n : Nat) :
    (r.bestRows n).size = r.elements.size * n * r.maxLength := by
  simp [bestRows, Array.size_flatMap, Array.map_const']

def bestScores (r : Ranking) (n : Nat) : Scores :=
  (r.best n).map fun h => (h.map (·.score)).getD Binary32.least

@[simp] theorem size_bestScores (r : Ranking) (n : Nat) :
    (r.bestScores n).size = r.elements.size * n := by
  simp [bestScores]

/-- The rows and scores of the best `n` hypotheses per element, for buffers of these sizes. -/
def finalize (view : SequenceView) (n outputSize scoresSize : Nat) :
    Action Ranking (Tokens × Scores) := do
  let r ← Action.object
  Action.require (1 ≤ n && n ≤ r.numBeams) (.returnCount r.numBeams n)
  let rows ← Action.ofOutcome (Outcome.size (r.elements.size * n))
  let entries ← Action.ofOutcome (Outcome.size (rows * r.maxLength))
  Action.require (outputSize = entries) .outputSize
  Action.require (scoresSize = rows) .scoresSize
  (List.range r.elements.size).forM fun b => onElement b (Element.close r.numBeams view b)
  let r ← Action.object
  return (r.bestRows n, r.bestScores n)

end Ranking

/-! ## Final rows in place -/

/-- The buffers that a caller hands over for the final rows and their scores. -/
structure FinalBuffers where
  tokens : Tokens
  scores : Scores
deriving DecidableEq, Repr, Inhabited

namespace FinalBuffers

/-- Every row padding, with the score of a missing hypothesis. -/
def blank (padToken : Token) (b : FinalBuffers) : FinalBuffers :=
  ⟨b.tokens.map fun _ => padToken, b.scores.map fun _ => Binary32.least⟩

/-- Copies tokens to the cells from `first` on. -/
def copy (first : Nat) (buffer : Tokens) : List Token → Tokens
  | [] => buffer
  | t :: rest => copy (first + 1) (buffer.set! first t) rest

/-- Writes a hypothesis to a row, cut to its width. -/
def write (width row : Nat) (h : Hypothesis) (b : FinalBuffers) : FinalBuffers :=
  ⟨copy (row * width) b.tokens (h.tokens.take width), b.scores.set! row h.score⟩

/-- Writes hypotheses to the rows from `row` on. -/
def writeFrom (width row : Nat) (b : FinalBuffers) : List Hypothesis → FinalBuffers
  | [] => b
  | h :: rest => writeFrom width (row + 1) (b.write width row h) rest

end FinalBuffers

namespace Ranking

/-- Writes the best `n` hypotheses of every element over whatever the buffers hold. -/
def writeBest (r : Ranking) (n : Nat) (b : FinalBuffers) : FinalBuffers :=
  (List.range r.elements.size).foldl
    (fun b e => b.writeFrom r.maxLength (e * n) (r.elements[e]!.pool.sorted.take n))
    (b.blank r.padToken)

/-- Finalizes into buffers of the caller, which stay as they are unless every sequence was read. -/
def finalizeInto (view : SequenceView) (n : Nat) : Action (Ranking × FinalBuffers) Unit := do
  let (_, buffers) ← Action.object
  let _ ← Action.focus (·.1) (fun (_, buffers) r => (r, buffers))
    (finalize view n buffers.tokens.size buffers.scores.size)
  Action.update fun (r, buffers) => (r, r.writeBest n buffers)

end Ranking

end TokenSearch
