import TokenSearch.Failure

/-!
What an operation does besides computing: it makes device calls in an order that can be
observed, it logs events, and one chosen call may be made to fail. `Run` is a computation in a
session; `Action σ` also has an object of type `σ`, and a failing step leaves both as they
were at that moment.
-/

namespace TokenSearch

/-- The device calls of a search, and the forward pass of its model. -/
inductive Call where
  | forward
  | allocScores
  | allocTokens
  | allocMask
  | allocDoneFlag
  | uploadScores
  | uploadTokens
  | writeScores
  | writeTokens
  | downloadScores
  | downloadTokens
  | downloadTokenRange
  | synchronize
  | setDoneFlag
  | readDoneFlag
  | logSoftmaxRows
  | writeScore
  | fillTokenColumn
  | repetitionPenalty
  | addBeamScores
  | argmaxRows
  | beamTopK
  | checkForEos
  | appendColumn
  | gatherAppend
deriving DecidableEq, Repr, Inhabited

inductive Level where
  | error
  | info
  | debug
  | trace
deriving DecidableEq, Repr

inductive FieldValue where
  | number (n : Nat)
  | text (s : String)
deriving DecidableEq, Repr

inductive Event where
  | aborting (error : Error)
  | creatingSearch (mode : String) (batchSize numBeams vocabSize maxLength : Nat)
  | generationFinished (steps batchSize returned : Nat)
  | allocatingSelector (batchSize numBeams vocabSize parts scratchLength : Nat)
  | appended (length : Nat)
  | exhausted (element chosen retired : Nat)
  | completed (element finished : Nat)
  | selecting (rows parts k : Nat)
  | retired (element count : Nat)
deriving DecidableEq, Repr

namespace Event

def level : Event → Level
  | aborting .. => .error
  | creatingSearch .. => .info
  | generationFinished .. => .info
  | allocatingSelector .. => .debug
  | appended .. => .debug
  | exhausted .. => .debug
  | completed .. => .debug
  | selecting .. => .trace
  | retired .. => .trace

def message : Event → String
  | aborting .. => "aborting generation"
  | creatingSearch .. => "creating search"
  | generationFinished .. => "generation finished"
  | allocatingSelector .. => "allocating beam top-k buffers"
  | appended .. => "appended next tokens"
  | exhausted .. => "batch element ran out of live beams"
  | completed .. => "batch element completed"
  | selecting .. => "beam top-k"
  | retired .. => "hypotheses retired"

def fields : Event → List (String × FieldValue)
  | aborting error => [("error", .text error.message)]
  | creatingSearch mode batchSize numBeams vocabSize maxLength =>
    [("mode", .text mode), ("batch_size", .number batchSize), ("num_beams", .number numBeams),
      ("vocab_size", .number vocabSize), ("max_length", .number maxLength)]
  | generationFinished steps batchSize returned =>
    [("steps", .number steps), ("batch_size", .number batchSize),
      ("num_return_sequences", .number returned)]
  | allocatingSelector batchSize numBeams vocabSize parts scratchLength =>
    [("batch_size", .number batchSize), ("num_beams", .number numBeams),
      ("vocab_size", .number vocabSize), ("parts", .number parts),
      ("scratch_len", .number scratchLength)]
  | appended length => [("sequence_length", .number length)]
  | exhausted element chosen count =>
    [("batch", .number element), ("chosen", .number chosen), ("retired", .number count)]
  | completed element finished => [("batch", .number element), ("finished", .number finished)]
  | selecting rows parts k => [("rows", .number rows), ("parts", .number parts), ("k", .number k)]
  | retired element count => [("batch", .number element), ("retired", .number count)]

end Event

/-- Call number `occurrence`, from zero, of one kind does nothing and fails. -/
structure Fault where
  call : Call
  occurrence : Nat
  message : String
deriving DecidableEq, Repr

/-- The calls made and events logged so far, in order, and the fault planned. -/
structure Session where
  calls : Array Call
  events : Array Event
  fault : Option Fault
deriving DecidableEq, Repr

namespace Session

def start (fault : Option Fault) : Session := ⟨#[], #[], fault⟩

/-- Whether the fault hits the next call. -/
def fails (s : Session) (call : Call) : Option Fault :=
  s.fault.filter fun f => f.call = call && s.calls.count call = f.occurrence

def record (s : Session) (call : Call) : Session := { s with calls := s.calls.push call }

def log (s : Session) (event : Event) : Session := { s with events := s.events.push event }

end Session

/-- A computation that makes calls in a session. -/
abbrev Run := EStateM Failure Session

/-- A computation that also reads and changes an object. -/
abbrev Action (σ : Type) := EStateM Failure (Session × σ)

namespace Run

/-- Makes a call that has no result of its own; the session remembers it even if it fails. -/
def call (c : Call) : Run Unit := fun s =>
  match s.fails c with
  | some fault => .error (.error (.device fault.message)) (s.record c)
  | none => .ok () (s.record c)

def emit (event : Event) : Run Unit := fun s => .ok () (s.log event)

def ofOutcome {α : Type} (x : Outcome α) : Run α := fun s =>
  match x with
  | .ok a => .ok a s
  | .error f => .error f s

def fail {α : Type} (e : Error) : Run α := ofOutcome (.fail e)

def violate {α : Type} (v : Violation) : Run α := ofOutcome (.violate v)

def require (condition : Bool) (v : Violation) : Run Unit := ofOutcome (.require condition v)

/-- Gives up a run because of an error. -/
def abort {α : Type} (e : Error) : Run α := do
  emit (.aborting e)
  violate (.aborted e)

end Run

namespace Action

variable {σ τ α : Type}

/-- Runs in the session and leaves the object alone. -/
def lift (x : Run α) : Action σ α := fun (session, object) =>
  match x session with
  | .ok a session => .ok a (session, object)
  | .error f session => .error f (session, object)

def call (c : Call) : Action σ Unit := lift (Run.call c)

def emit (event : Event) : Action σ Unit := lift (Run.emit event)

def ofOutcome (x : Outcome α) : Action σ α := lift (Run.ofOutcome x)

def require (condition : Bool) (v : Violation) : Action σ Unit := lift (Run.require condition v)

def object : Action σ σ := fun s => .ok s.2 s

def update (f : σ → σ) : Action σ Unit := fun (session, object) => .ok () (session, f object)

def focus (part : σ → τ) (put : σ → τ → σ) (x : Action τ α) : Action σ α :=
  fun (session, object) =>
    match x (session, part object) with
    | .ok a (session, p) => .ok a (session, put object p)
    | .error f (session, p) => .error f (session, put object p)

/-- Acts on an object of its own and returns it with the result. -/
def on (object : τ) (x : Action τ α) : Run (α × τ) := fun session =>
  match x (session, object) with
  | .ok a (session, object) => .ok (a, object) session
  | .error f (session, _) => .error f session

/-- Logs an event about the object after `x`, also when `x` returned an error, but not when it
broke a precondition. -/
def logged (x : Action σ α) (event : σ → Event) : Action σ α := fun s =>
  match x s with
  | .ok a (session, object) => .ok a (session.log (event object), object)
  | .error (.error e) (session, object) =>
    .error (.error e) (session.log (event object), object)
  | .error (.violation v) s => .error (.violation v) s

end Action

end TokenSearch
