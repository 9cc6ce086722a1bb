import TokenSearch.Failure

/-!
Sizes of a two-stage selection: how many rows, how many parts a row is cut into, and how wide
a part is.
-/

namespace TokenSearch.Selection

def maxParts : Nat := 128

def maxBeams : Nat := 32

def ceilDiv (a b : Nat) : Nat := (a + b - 1) / b

/-- The number of parts a row of `vocabSize` entries is cut into when there are `slots` rows.
Few rows are cut finer, so that there is still enough to do at once. -/
def vocabParts (slots vocabSize : Nat) : Outcome Nat :=
  if slots = 0 then .violate .arithmetic
  else
    let wanted := if slots < 256 then ceilDiv 240 slots else 4
    .ok (max 1 (min (min wanted maxParts) vocabSize))

structure Shape where
  batchSize : Nat
  numBeams : Nat
  vocabSize : Nat
  k : Nat
  parts : Nat
deriving DecidableEq, Repr

namespace Shape

def rows (s : Shape) : Outcome Nat := Outcome.size (s.batchSize * s.numBeams)

/-- Width of a part; the last ones may be narrower or empty. -/
def partSize (s : Shape) : Outcome Nat :=
  if s.parts = 0 then .violate .arithmetic else .ok (ceilDiv s.vocabSize s.parts)

end Shape

end TokenSearch.Selection
