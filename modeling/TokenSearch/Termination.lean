import TokenSearch.Buffer

/-!
The end of sequences and of the run: one flag per slot, set when the slot's sequence has
ended, and one flag for the whole run. A slot whose flag is set gets padding.
-/

namespace TokenSearch

structure EosCheck where
  tokens : Tokens
  mask : Array Bool
  done : Bool
deriving DecidableEq, Repr

/-- Pads the slots that ended earlier and flags those that end now; the run is done when all
slots are flagged. Slots without a token or without a flag stay as they are. -/
def checkForEos (tokens : Tokens) (mask : Array Bool) (eosToken padToken : Token)
    (done : Bool) : EosCheck :=
  let flags := mask.mapIdx fun i met => met || tokens[i]? = some eosToken
  { tokens := tokens.mapIdx fun i t => if mask[i]? = some true then padToken else t
    mask := flags
    done := done || flags.all id }

@[simp] theorem size_tokens_checkForEos (tokens : Tokens) (mask : Array Bool)
    (eosToken padToken : Token) (done : Bool) :
    (checkForEos tokens mask eosToken padToken done).tokens.size = tokens.size :=
  Array.size_mapIdx

@[simp] theorem size_mask_checkForEos (tokens : Tokens) (mask : Array Bool)
    (eosToken padToken : Token) (done : Bool) :
    (checkForEos tokens mask eosToken padToken done).mask.size = mask.size :=
  Array.size_mapIdx

structure Termination where
  mask : Array Bool
  done : Bool
  eosToken : Token
  padToken : Token
deriving DecidableEq, Repr

namespace Termination

def new (slots : Nat) (eosToken padToken : Token) : Run Termination := do
  let mask ← Buffer.allocMask slots
  Run.call .allocDoneFlag
  return ⟨mask, false, eosToken, padToken⟩

def check (tokens : Tokens) : Action Termination Tokens := do
  Action.call .checkForEos
  let t ← Action.object
  let c := checkForEos tokens t.mask t.eosToken t.padToken t.done
  Action.update fun t => { t with mask := c.mask, done := c.done }
  return c.tokens

/-- Ends the run whatever the slots' flags are. -/
def markDone : Action Termination Unit := do
  Action.call .setDoneFlag
  Action.update fun t => { t with done := true }

def isDone : Action Termination Bool := do
  Action.call .readDoneFlag
  return (← Action.object).done

end Termination

end TokenSearch
