import TokenSearch.Configuration.Basic
import TokenSearch.Json.Record

/-!
Reading a configuration: the settings as the fields of a record, with their names, kinds and
defaults, in any reader of records. What is read counts only if the settings pass the check.
-/

namespace TokenSearch

inductive Setting where
  | batchSize
  | numBeams
  | vocabSize
  | maxLength
  | eosToken
  | padToken
  | minLength
  | repetitionPenalty
  | lengthPenalty
  | earlyStopping
  | numReturned
deriving DecidableEq, Repr

namespace Setting

def all : List Setting :=
  [batchSize, numBeams, vocabSize, maxLength, eosToken, padToken, minLength, repetitionPenalty,
    lengthPenalty, earlyStopping, numReturned]

def name : Setting → String
  | batchSize => "batch_size"
  | numBeams => "num_beams"
  | vocabSize => "vocab_size"
  | maxLength => "max_length"
  | eosToken => "eos_token_id"
  | padToken => "pad_token_id"
  | minLength => "min_length"
  | repetitionPenalty => "repetition_penalty"
  | lengthPenalty => "length_penalty"
  | earlyStopping => "early_stopping"
  | numReturned => "num_return_sequences"

def kind : Setting → Kind
  | batchSize => .size
  | numBeams => .size
  | vocabSize => .size
  | maxLength => .size
  | eosToken => .token
  | padToken => .token
  | minLength => .size
  | repetitionPenalty => .number
  | lengthPenalty => .number
  | earlyStopping => .flag
  | numReturned => .size

def default? : (s : Setting) → Option s.kind.Value
  | batchSize => none
  | numBeams => some (1 : Nat)
  | vocabSize => none
  | maxLength => none
  | eosToken => none
  | padToken => none
  | minLength => some (0 : Nat)
  | repetitionPenalty => some Binary32.one
  | lengthPenalty => some Binary32.one
  | earlyStopping => some true
  | numReturned => some (1 : Nat)

theorem mem_all (s : Setting) : s ∈ all := by cases s <;> decide

theorem name_inj {s t : Setting} (same : s.name = t.name) : s = t := by
  have distinct : ∀ s ∈ all, ∀ t ∈ all, s.name = t.name → s = t := by decide
  exact distinct s (mem_all s) t (mem_all t) same

end Setting

namespace Configuration

def schema : Schema Setting where
  title := "struct SearchParams"
  fields := Setting.all
  name := Setting.name
  kind := Setting.kind
  default? := Setting.default?
  nodup := by decide
  complete := Setting.mem_all
  name_inj := Setting.name_inj

def ofRecord (r : schema.Record) : Configuration where
  batchSize := r .batchSize
  numBeams := r .numBeams
  vocabSize := r .vocabSize
  maxLength := r .maxLength
  eosToken := r .eosToken
  padToken := r .padToken
  minLength := r .minLength
  repetitionPenalty := r .repetitionPenalty
  lengthPenalty := r .lengthPenalty
  earlyStopping := r .earlyStopping
  numReturned := r .numReturned

end Configuration

namespace RecordReader

variable (R : RecordReader)

def configuration (text : String) : Except Error Configuration :=
  match R.read Configuration.schema text with
  | .error fault => .error (.text fault)
  | .ok r => do
    (Configuration.ofRecord r).validate
    return Configuration.ofRecord r

/-- The same from a file's bytes, if there is a file. -/
def configurationOfFile : Option ByteArray → Except Error Configuration
  | none => .error (.file .notFound)
  | some bytes =>
    match String.fromUTF8? bytes with
    | none => .error (.file .notText)
    | some text => R.configuration text

end RecordReader

namespace Configuration

/-! ## From JSON -/

def ofText : String → Except Error Configuration := Json.reader.configuration

def ofFile : Option ByteArray → Except Error Configuration := Json.reader.configurationOfFile

end Configuration

end TokenSearch
