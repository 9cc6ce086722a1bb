import TokenSearch.Binary32.Text
import TokenSearch.Configuration.Fault
import TokenSearch.Failure
import TokenSearch.Token

/-!
The settings of one decode run and the check that no device is needed for. The first setting
that is wrong, in the order of the check, is the one reported.
-/

namespace TokenSearch

structure Configuration where
  batchSize : Nat
  /-- Beams per prompt; one means greedy decoding. -/
  numBeams : Nat := 1
  vocabSize : Nat
  /-- Longest sequence, prompt included. -/
  maxLength : Nat
  eosToken : Token
  /-- Appended to sequences that have ended. -/
  padToken : Token
  /-- The end token is held back while sequences are shorter. -/
  minLength : Nat := 0
  /-- One leaves the scores alone. -/
  repetitionPenalty : Binary32 := Binary32.one
  /-- Power of the length that a finished hypothesis' score is divided by. -/
  lengthPenalty : Binary32 := Binary32.one
  /-- Whether an element is complete once it has `numBeams` finished hypotheses. -/
  earlyStopping : Bool := true
  /-- Sequences returned per prompt. -/
  numReturned : Nat := 1
deriving DecidableEq, Repr

namespace Configuration

def isBeamSearch (c : Configuration) : Bool := 1 < c.numBeams

def slots (c : Configuration) : Outcome Nat := Outcome.size (c.batchSize * c.numBeams)

def inVocabulary (c : Configuration) (t : Token) : Bool := 0 ≤ t && t < c.vocabSize

/-- The first setting that no search can run with. Beam search takes twice as many candidates
as it has beams, and `numBeams * vocabSize` must be at least that. -/
def fault? (c : Configuration) : Option SettingFault :=
  if c.batchSize = 0 then some (.zero "batch_size")
  else if c.numBeams = 0 then some (.zero "num_beams")
  else if c.vocabSize = 0 then some (.zero "vocab_size")
  else if c.maxLength = 0 then some (.zero "max_length")
  else if c.isBeamSearch && c.vocabSize < 2 then some .vocabularyTooSmall
  else if !c.inVocabulary c.eosToken then
    some (.tokenOutside "eos_token_id" c.eosToken c.vocabSize)
  else if !c.inVocabulary c.padToken then
    some (.tokenOutside "pad_token_id" c.padToken c.vocabSize)
  else if !(c.repetitionPenalty.isFinite && Binary32.zero.lt c.repetitionPenalty) then
    some (.penalty c.repetitionPenalty.text)
  else if c.numReturned = 0 || c.numBeams < c.numReturned then
    some (.returnCount c.numBeams c.numReturned)
  else none

def validate (c : Configuration) : Except Error Unit :=
  match c.fault? with
  | some fault => .error (.configuration fault.message)
  | none => .ok ()

theorem validate_eq_ok_iff {c : Configuration} : c.validate = .ok () ↔ c.fault? = none := by
  unfold validate
  cases c.fault? <;> simp

end Configuration

end TokenSearch
