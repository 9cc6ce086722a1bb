/-!
What can be wrong with the settings of a configuration.
-/

namespace TokenSearch

inductive SettingFault where
  | zero (setting : String)
  | vocabularyTooSmall
  | tokenOutside (setting : String) (token : Int) (vocabSize : Nat)
  | penalty (shown : String)
  | returnCount (numBeams given : Nat)
deriving DecidableEq, Repr

namespace SettingFault

def message : SettingFault → String
  | zero setting => setting ++ " must be > 0"
  | vocabularyTooSmall => "beam search needs a vocabulary of at least 2 tokens"
  | tokenOutside setting token vocabSize =>
    s!"{setting} {token} outside vocabulary of size {vocabSize}"
  | penalty shown => "repetition_penalty must be finite and > 0, got " ++ shown
  | returnCount numBeams given =>
    s!"num_return_sequences must be in 1..={numBeams}, got {given}"

end SettingFault

end TokenSearch
