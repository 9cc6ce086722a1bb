import TokenSearch.Buffer
import TokenSearch.Selection.Entry
import TokenSearch.Selection.Shape

/-!
The best continuations of every batch element, in two stages.

Every part of every row keeps its own best `k`; the parts of a row are merged; the rows of a
batch element are merged, where an entry's place becomes `beam * vocabSize + token`. The first
two results go to scratch buffers, part after part and then row after row, and the next merge
reads them back from there: a cell holds a score and a token, and a filler's token is -1.
-/

namespace TokenSearch.Selection

structure Workspace where
  scratchScores : Scores
  scratchTokens : Tokens
  scores : Scores
  tokens : Tokens
  beams : Tokens
deriving DecidableEq, Repr

namespace Entry

/-- The token that a scratch cell holds for an entry of one row. -/
def cellToken (e : Entry) : Token := (e.place.map Token.ofIndex).getD (-1)

/-- The entry of a scratch cell; its row begins at place `offset`. -/
def ofCell (offset : Nat) (score : Binary32) (token : Token) : Entry :=
  ⟨score, if token < 0 then none else some (offset + Token.toIndex token)⟩

def outScore (e : Entry) : Binary32 := if e.place.isSome then e.score else Binary32.bottom

def outToken (vocabSize : Nat) (e : Entry) : Token :=
  (e.place.map fun p => Token.ofIndex (p % vocabSize)).getD (-1)

def outBeam (vocabSize : Nat) (e : Entry) : Token :=
  (e.place.map fun p => Token.ofIndex (p / vocabSize)).getD 0

end Entry

/-- The entry at position `i` of lists of `k` entries that follow one another. -/
def entryAt (lists : Array (Array Entry)) (k i : Nat) : Entry := (lists[i / k]!)[i % k]!

/-- The lists of numbers below `count`, each computed once. -/
def tabulate (count : Nat) (list : Nat → List Entry) : Array (Array Entry) :=
  (Array.range count).map fun i => (list i).toArray

namespace Workspace

/-- Makes the buffers, `scratch` and `output` entries long. -/
def new (scratch output : Nat) : Run Workspace := do
  let scratchScores ← Buffer.allocScores scratch
  let scratchTokens ← Buffer.allocTokens scratch
  let scores ← Buffer.allocScores output
  let tokens ← Buffer.allocTokens output
  let beams ← Buffer.allocTokens output
  return ⟨scratchScores, scratchTokens, scores, tokens, beams⟩

/-- Writes lists of `k` entries to the scratch cells from `first` on. -/
def writeScratch (w : Workspace) (k first : Nat) (lists : Array (Array Entry)) : Workspace :=
  let stop := first + lists.size * k
  { w with
    scratchScores := w.scratchScores.mapIdx fun i old =>
      if first ≤ i && i < stop then (entryAt lists k (i - first)).score else old
    scratchTokens := w.scratchTokens.mapIdx fun i old =>
      if first ≤ i && i < stop then (entryAt lists k (i - first)).cellToken else old }

/-- Reads `count` scratch cells from `first` on, of a row that begins at place `offset`. -/
def readScratch (w : Workspace) (offset first count : Nat) : List Entry :=
  (List.range' first count).map fun i =>
    Entry.ofCell offset w.scratchScores[i]! w.scratchTokens[i]!

def writeOutput (w : Workspace) (k vocabSize : Nat) (lists : Array (Array Entry)) : Workspace :=
  let stop := lists.size * k
  { w with
    scores := w.scores.mapIdx fun i old =>
      if i < stop then (entryAt lists k i).outScore else old
    tokens := w.tokens.mapIdx fun i old =>
      if i < stop then (entryAt lists k i).outToken vocabSize else old
    beams := w.beams.mapIdx fun i old =>
      if i < stop then (entryAt lists k i).outBeam vocabSize else old }

/-- Whether the buffers are large enough for a shape of so many rows. -/
def fits (w : Workspace) (s : Shape) (rows : Nat) : Outcome Unit := do
  let lists ← Outcome.size (rows * s.parts)
  let inParts ← Outcome.size (lists * s.k)
  let inRows ← Outcome.size (rows * s.k)
  let inScratch ← Outcome.size (inParts + inRows)
  Outcome.require (inScratch ≤ w.scratchScores.size && inScratch ≤ w.scratchTokens.size)
    .scratchSize
  let inOutput ← Outcome.size (s.batchSize * s.k)
  Outcome.require
    (inOutput ≤ w.scores.size && inOutput ≤ w.tokens.size && inOutput ≤ w.beams.size)
    .candidateBuffers

end Workspace

/-- The best entries of one part of a row, padded to `k`. -/
def partBest (scores : Scores) (s : Shape) (partSize row part : Nat) : List Entry :=
  let first := min (part * partSize) s.vocabSize
  let stop := min ((part + 1) * partSize) s.vocabSize
  pad s.k (topK s.k ((List.range' first (stop - first)).map fun token =>
    ⟨scores[row * s.vocabSize + token]!, some token⟩))

/-- The best entries of a row, from those of its parts in the scratch cells. -/
def rowBest (s : Shape) (w : Workspace) (row : Nat) : List Entry :=
  pad s.k (topK s.k (w.readScratch 0 (row * s.parts * s.k) (s.parts * s.k)))

/-- The best entries of a batch element, from those of its rows in the scratch cells; `inParts`
cells come before them. -/
def elementBest (s : Shape) (w : Workspace) (inParts element : Nat) : List Entry :=
  pad s.k (topK s.k ((List.range s.numBeams).flatMap fun beam =>
    w.readScratch (beam * s.vocabSize) (inParts + (element * s.numBeams + beam) * s.k) s.k))

@[simp] theorem length_partBest (scores : Scores) (s : Shape) (partSize row part : Nat) :
    (partBest scores s partSize row part).length = s.k := length_pad_topK _ _

@[simp] theorem length_rowBest (s : Shape) (w : Workspace) (row : Nat) :
    (rowBest s w row).length = s.k := length_pad_topK _ _

@[simp] theorem length_elementBest (s : Shape) (w : Workspace) (inParts element : Nat) :
    (elementBest s w inParts element).length = s.k := length_pad_topK _ _

/-- Both stages over a matrix whose ranges are known to be good. -/
def twoStage (scores : Scores) (s : Shape) (rows partSize : Nat) (w : Workspace) : Workspace :=
  let inParts := rows * s.parts * s.k
  let parts := tabulate (rows * s.parts) fun i =>
    partBest scores s partSize (i / s.parts) (i % s.parts)
  let w := w.writeScratch s.k 0 parts
  let w := w.writeScratch s.k inParts (tabulate rows (rowBest s w))
  w.writeOutput s.k s.vocabSize (tabulate s.batchSize (elementBest s w inParts))

/-- The best `k` continuations of every batch element into the output buffers. -/
def beamTopK (scores : Scores) (s : Shape) (w : Workspace) : Run Workspace := do
  let rows ← Run.ofOutcome s.rows
  let partSize ← Run.ofOutcome s.partSize
  Run.ofOutcome (w.fits s rows)
  Run.emit (.selecting rows s.parts s.k)
  Run.require (s.k != 0) .arithmetic
  Run.require (rows * s.vocabSize ≤ scores.size) .outOfBounds
  return twoStage scores s rows partSize w

end TokenSearch.Selection
