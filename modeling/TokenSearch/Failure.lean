import TokenSearch.Record

/-!
The two ways an operation stops short. An `Error` is returned: a device call failed, or the
configuration is bad. A `Violation` is a broken precondition of an operation and ends the
whole run; no later operation sees the object it was called on.
-/

namespace TokenSearch

inductive FileFault where
  | notFound
  | notText
deriving DecidableEq, Repr

inductive Error where
  | device (message : String)
  | configuration (message : String)
  | file (fault : FileFault)
  | text (fault : ReadFault)
  | other (message : String)
deriving DecidableEq, Repr

namespace FileFault

def message : FileFault → String
  | notFound => "no such file"
  | notText => "file is not UTF-8 text"

end FileFault

def Error.message : Error → String
  | device m => "device error: " ++ m
  | configuration m => "invalid search configuration: " ++ m
  | file fault => "IO error: " ++ fault.message
  | text fault => "JSON parsing error: " ++ fault.message
  | other m => m

inductive Violation where
  /-- A size does not fit a machine word, or a division is by zero. -/
  | arithmetic
  /-- A buffer would take more bytes than an address can count. -/
  | bufferTooLarge
  | outOfBounds
  | writeScoresLength
  | writeTokensLength
  | softmaxBuffers
  | columnOutsideVocabulary (token : Nat)
  | scratchSize
  | candidateBuffers
  | selectorBeams (numBeams : Nat)
  | matrixSize
  | columnFull
  | gatherFull
  | noPrompts
  | promptRows (tokens batchSize : Nat)
  | promptEmpty
  | promptTooLong (length maxLength : Nat)
  | sequencesFull (length : Nat)
  | singleBeamReorder
  | slotOfSequences (slot slots : Nat)
  | slotOfScores (slot rows : Nat)
  | scoreOutsideVocabulary (token : Nat)
  | logitsRows (length rows vocabSize : Nat)
  | logitsPositions (positions : Nat)
  | candidateCount (expected : Nat)
  | returnCount (numBeams given : Nat)
  | outputSize
  | scoresSize
  | greedyBeams
  | greedyReturns
  | beamBeams (numBeams : Nat)
  | aborted (error : Error)
deriving DecidableEq, Repr

/-- The statement that was broken; the violations of sizes and bounds state none. -/
def Violation.statement? : Violation → Option String
  | arithmetic => none
  | bufferTooLarge => none
  | outOfBounds => none
  | writeScoresLength => some "write_scores: length mismatch"
  | writeTokensLength => some "write_tokens: length mismatch"
  | softmaxBuffers => some "log_softmax_rows: buffer too small"
  | columnOutsideVocabulary token =>
    some s!"fill_token_column: token {token} outside vocabulary"
  | scratchSize => some "beam_topk: scratch too small"
  | candidateBuffers => some "beam_topk: output too small"
  | selectorBeams numBeams => some s!"beam top-k supports 1..=32 beams, got {numBeams}"
  | matrixSize => some "score matrix does not match the top-k shape"
  | columnFull => some "append_column: row is full"
  | gatherFull => some "gather_append: row is full"
  | noPrompts => some "batch_size must be > 0"
  | promptRows tokens batchSize =>
    some s!"prompt of {tokens} tokens does not split into {batchSize} rows"
  | promptEmpty => some "prompt must not be empty"
  | promptTooLong length maxLength =>
    some s!"prompt length {length} exceeds max_length {maxLength}"
  | sequencesFull length => some s!"sequence length {length} already at max_length"
  | singleBeamReorder => some "append_reordered requires a multi-beam sequence store"
  | slotOfSequences slot slots => some s!"slot {slot} out of range for {slots} slots"
  | slotOfScores slot rows => some s!"slot {slot} out of range for {rows} rows"
  | scoreOutsideVocabulary token => some s!"token {token} outside vocabulary"
  | logitsRows length rows vocabSize =>
    some s!"logits of {length} elements do not divide into {rows} rows of {vocabSize}"
  | logitsPositions positions =>
    some s!"only single-position logits are supported, got input_length {positions}"
  | candidateCount expected => some s!"expected {expected} candidates"
  | returnCount numBeams given =>
    some s!"num_return_sequences must be in 1..={numBeams}, got {given}"
  | outputSize => some "output buffer size"
  | scoresSize => some "scores buffer size"
  | greedyBeams => some "greedy search runs with a single beam"
  | greedyReturns => some "greedy search returns one sequence per prompt"
  | beamBeams numBeams => some s!"beam search needs num_beams > 1, got {numBeams}"
  | aborted error => some ("beamline: " ++ error.message)

inductive Failure where
  | error (error : Error)
  | violation (violation : Violation)
deriving DecidableEq, Repr

abbrev Outcome := Except Failure

namespace Outcome

def fail {α : Type} (e : Error) : Outcome α := .error (.error e)

def violate {α : Type} (v : Violation) : Outcome α := .error (.violation v)

def require (condition : Bool) (v : Violation) : Outcome Unit :=
  if condition then .ok () else violate v

/-- A size is below `2 ^ 64`. -/
def size (n : Nat) : Outcome Nat :=
  if n < 2 ^ 64 then .ok n else violate .arithmetic

/-- A buffer of `n` entries, `width` bytes each, takes fewer than `2 ^ 63` bytes. -/
def room (n width : Nat) : Outcome Unit := require (n * width < 2 ^ 63) .bufferTooLarge

@[simp] theorem require_true (v : Violation) : require true v = .ok () := rfl

theorem size_of_lt {n : Nat} (h : n < 2 ^ 64) : size n = .ok n :=
  if_pos h

theorem room_of_lt {n width : Nat} (h : n * width < 2 ^ 63) : room n width = .ok () := by
  simp only [room, require, h, decide_true, if_true]

end Outcome

end TokenSearch
