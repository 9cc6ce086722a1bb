import TokenSearch.Binary32.Elementary
import TokenSearch.Failure
import TokenSearch.Token

/-!
The finished hypotheses of one batch element: a bounded pool in the order of arrival. Scores
are cumulative log-probabilities divided by a power of the length. A full pool takes a
hypothesis only if it scores above the worst one kept, and then evicts the lowest in the total
order, the earliest of several.
-/

namespace TokenSearch

structure Hypothesis where
  score : Binary32
  tokens : List Token
deriving DecidableEq, Repr

structure HypothesisPool where
  capacity : Nat
  lengthPenalty : Binary32
  earlyStopping : Bool
  kept : List Hypothesis
deriving DecidableEq, Repr, Inhabited

namespace HypothesisPool

/-- An empty pool; it makes room for one more hypothesis than it keeps. A score and the handle
of a sequence take 32 bytes together. -/
def new (capacity : Nat) (lengthPenalty : Binary32) (earlyStopping : Bool) :
    Outcome HypothesisPool := do
  let places ← Outcome.size (capacity + 1)
  Outcome.room places 32
  return ⟨capacity, lengthPenalty, earlyStopping, []⟩

def size (p : HypothesisPool) : Nat := p.kept.length

def isFull (p : HypothesisPool) : Bool := p.capacity ≤ p.size

/-- The score of a sequence of `length` tokens whose log-probabilities add up to `sum`. -/
def normalize (p : HypothesisPool) (sum : Binary32) (length : Nat) : Binary32 :=
  sum / Binary32.powCount length p.lengthPenalty

/-- The lowest score kept, and the largest finite number in an empty pool. -/
def worst (p : HypothesisPool) : Binary32 :=
  p.kept.foldl (fun low h => low.minimum h.score) Binary32.largest

/-- Removes the first hypothesis that no other one ranks below. -/
def evict (hs : List Hypothesis) : List Hypothesis :=
  hs.eraseP fun h => hs.all fun other => h.score.rank ≤ other.score.rank

def add (p : HypothesisPool) (tokens : List Token) (sum : Binary32) : HypothesisPool :=
  let score := p.normalize sum tokens.length
  if p.isFull && score.le p.worst then p
  else
    let kept := p.kept ++ [⟨score, tokens⟩]
    { p with kept := if p.capacity < kept.length then evict kept else kept }

/-- Whether the pool counts as complete while the best live beam has the cumulative score
`best` at `length`. -/
def isComplete (p : HypothesisPool) (best : Binary32) (length : Nat) : Bool :=
  p.isFull && (p.earlyStopping || (p.normalize best length).le p.worst)

/-- Best first; equal scores stay in the order of arrival. -/
def sorted (p : HypothesisPool) : List Hypothesis :=
  p.kept.mergeSort fun a b => b.score.rank ≤ a.score.rank

@[simp] theorem capacity_add (p : HypothesisPool) (tokens : List Token) (sum : Binary32) :
    (p.add tokens sum).capacity = p.capacity := by
  unfold add
  dsimp only
  split <;> rfl

@[simp] theorem lengthPenalty_add (p : HypothesisPool) (tokens : List Token) (sum : Binary32) :
    (p.add tokens sum).lengthPenalty = p.lengthPenalty := by
  unfold add
  dsimp only
  split <;> rfl

@[simp] theorem earlyStopping_add (p : HypothesisPool) (tokens : List Token) (sum : Binary32) :
    (p.add tokens sum).earlyStopping = p.earlyStopping := by
  unfold add
  dsimp only
  split <;> rfl

end HypothesisPool

end TokenSearch
