import TokenSearch.Ranking

/-!
The token sequences of all slots: rows of `maxLength` tokens in one buffer, all of the same
current length, and columns from that length on not yet written. Every step appends one token
to every row. Reordering gathers the rows into a second buffer and exchanges the two, because
a row may still be needed after its slot has a new one.
-/

namespace TokenSearch

structure SequenceStore where
  tokens : Tokens
  /-- The second buffer, with more than one beam. -/
  spare : Option Tokens
  slots : Nat
  maxLength : Nat
  length : Nat
deriving DecidableEq, Repr

namespace SequenceStore

/-! ## Buffers of rows -/

/-- Writes `tokens[r]` at column `length` of row `r`; rows without a token stay. -/
def appendColumn (sequences tokens : Tokens) (rows maxLength length : Nat) :
    Outcome Tokens := do
  Outcome.require (length < maxLength) .columnFull
  let n ← Outcome.size (rows * maxLength)
  Outcome.require (n ≤ sequences.size) .outOfBounds
  return sequences.mapIdx fun i old =>
    if i < n && i % maxLength = length then tokens[i / maxLength]?.getD old else old

theorem size_appendColumn {sequences tokens rows : Tokens} {n maxLength length : Nat}
    (h : appendColumn sequences tokens n maxLength length = .ok rows) :
    rows.size = sequences.size := by
  simp only [appendColumn, Outcome.require, Outcome.size, Outcome.violate, bind, Except.bind]
    at h
  repeat' split at h
  all_goals cases h
  exact Array.size_mapIdx

/-- Whether row `r` can be gathered: its source row and its token exist. -/
def gathers (src sources tokens : Tokens) (maxLength length r : Nat) : Bool :=
  match sources[r]?, tokens[r]? with
  | some s, some _ => Token.toIndex s * maxLength + length ≤ src.size
  | _, _ => false

/-- Makes row `r` of the result the first `length` tokens of row `sources[r]`, then
`tokens[r]`. -/
def gatherAppend (src dst sources tokens : Tokens) (rows maxLength length : Nat) :
    Outcome Tokens := do
  Outcome.require (length < maxLength) .gatherFull
  let n ← Outcome.size (rows * maxLength)
  Outcome.require (n ≤ dst.size) .outOfBounds
  Outcome.require ((List.range rows).all (gathers src sources tokens maxLength length))
    .outOfBounds
  return dst.mapIdx fun i old =>
    let r := i / maxLength
    let column := i % maxLength
    if i < n then
      if column < length then src[Token.toIndex sources[r]! * maxLength + column]!
      else if column = length then tokens[r]!
      else old
    else old

theorem size_gatherAppend {src dst sources tokens rows : Tokens} {n maxLength length : Nat}
    (h : gatherAppend src dst sources tokens n maxLength length = .ok rows) :
    rows.size = dst.size := by
  simp only [gatherAppend, Outcome.require, Outcome.size, Outcome.violate, bind, Except.bind]
    at h
  repeat' split at h
  all_goals cases h
  exact Array.size_mapIdx

def range (tokens : Tokens) (offset length : Nat) : Outcome (List Token) := do
  Outcome.require (offset + length ≤ tokens.size) .outOfBounds
  return (tokens.extract offset (offset + length)).toList

/-! ## The store -/

/-- A store that holds each prompt once per beam. The rows are laid out before the device is
called. -/
def new (input : Tokens) (batchSize numBeams maxLength : Nat) : Run SequenceStore := do
  Run.require (batchSize != 0) .noPrompts
  Run.require (input.size % batchSize = 0) (.promptRows input.size batchSize)
  let length := input.size / batchSize
  Run.require (length != 0) .promptEmpty
  Run.require (length ≤ maxLength) (.promptTooLong length maxLength)
  let slots ← Run.ofOutcome (Outcome.size (batchSize * numBeams))
  let n ← Run.ofOutcome (Outcome.size (slots * maxLength))
  let blank ← Run.ofOutcome (Buffer.tokens n)
  let tokens := blank.mapIdx fun i zero =>
    let slot := i / maxLength
    let column := i % maxLength
    if column < length then input[slot / numBeams * length + column]! else zero
  Run.call .uploadTokens
  let spare ← if 1 < numBeams then some <$> Buffer.allocTokens n else pure none
  return ⟨tokens, spare, slots, maxLength, length⟩

def requireRoom (s : SequenceStore) : Outcome Unit :=
  Outcome.require (s.length < s.maxLength) (.sequencesFull s.length)

def append (tokens : Tokens) : Action SequenceStore Unit := do
  let s ← Action.object
  Action.ofOutcome s.requireRoom
  Action.call .appendColumn
  let rows ← Action.ofOutcome (appendColumn s.tokens tokens s.slots s.maxLength s.length)
  Action.update fun s => { s with tokens := rows, length := s.length + 1 }

/-- Slot `i` becomes the sequence of slot `sources[i]` with `tokens[i]` appended. -/
def appendReordered (sources tokens : Tokens) : Action SequenceStore Unit := do
  let s ← Action.object
  Action.ofOutcome s.requireRoom
  match s.spare with
  | none => Action.ofOutcome (.violate .singleBeamReorder)
  | some spare =>
    Action.call .gatherAppend
    let rows ← Action.ofOutcome
      (gatherAppend s.tokens spare sources tokens s.slots s.maxLength s.length)
    Action.update fun s =>
      { s with tokens := rows, spare := some s.tokens, length := s.length + 1 }

def sequence (s : SequenceStore) (slot : Nat) : Run (List Token) := do
  Run.require (slot < s.slots) (.slotOfSequences slot s.slots)
  Run.call .downloadTokenRange
  Run.ofOutcome (range s.tokens (slot * s.maxLength) s.length)

/-- Every row, columns not yet written included. -/
def toHost (s : SequenceStore) : Run Tokens := do
  Run.call .downloadTokens
  return s.tokens

def view (s : SequenceStore) : SequenceView := ⟨.ok s.length, s.sequence⟩

def toList (s : SequenceStore) : List (List Token) :=
  (List.range s.slots).map fun slot =>
    (s.tokens.extract (slot * s.maxLength) (slot * s.maxLength + s.length)).toList

end SequenceStore

end TokenSearch
