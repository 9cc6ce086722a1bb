import TokenSearch.Proofs.Scoring
import TokenSearch.Proofs.Sequences
import TokenSearch.Proofs.Settings
import TokenSearch.Search.State

/-!
The part of a search that both kinds share: a new one holds the prompts, and loading logits and
processing them gives each slot's row its processed scores and touches nothing else.
-/

namespace TokenSearch

open TokenSearch.Run TokenSearch.Action

/-! ## Flags -/

section CheckForEos

variable {tokens : Tokens} {mask : Array Bool} {i : Nat} (eosToken padToken : Token) (done : Bool)

theorem getElem!_tokens_checkForEos (h : i < tokens.size) (h' : i < mask.size) :
    (checkForEos tokens mask eosToken padToken done).tokens[i]! =
      if mask[i]! then padToken else tokens[i]! := by
  rw [checkForEos, getElem!_mapIdx _ h, getElem!_pos mask i h', Array.getElem?_eq_getElem h']
  simp

theorem getElem!_mask_checkForEos (h : i < tokens.size) (h' : i < mask.size) :
    (checkForEos tokens mask eosToken padToken done).mask[i]! =
      (mask[i]! || tokens[i]! = eosToken) := by
  rw [checkForEos, getElem!_mapIdx _ h', getElem!_pos tokens i h, Array.getElem?_eq_getElem h]
  simp

end CheckForEos

theorem all_flags_iff {flags : Array Bool} {n : Nat} (size : flags.size = n) :
    flags.all id = true ↔ ∀ i < n, flags[i]! = true := by
  subst size
  rw [Array.all_eq_true]
  refine forall_congr' fun i => forall_congr' fun h => ?_
  rw [getElem!_pos flags i h]
  rfl

theorem all_flags_eq {flags : Array Bool} {f : Nat → Bool} {n : Nat} (size : flags.size = n)
    (each : ∀ i < n, flags[i]! = f i) : flags.all id = (List.range n).all f := by
  rw [Bool.eq_iff_iff, all_flags_iff size, List.all_eq_true]
  simp only [List.mem_range]
  exact forall_congr' fun i => forall_congr' fun h => by rw [each i h]

/-! ## Sizes of a configuration -/

def Configuration.slotCount (c : Configuration) : Nat := c.batchSize * c.numBeams

def Configuration.promptLength (c : Configuration) (input : Tokens) : Nat :=
  input.size / c.batchSize

theorem length_prompt {c : Configuration} {input : Tokens}
    (accepted : SequenceStore.Accepts input c.batchSize c.maxLength) {b : Nat}
    (h : b < c.batchSize) :
    (prompt input (c.promptLength input) b).length = c.promptLength input := by
  rw [prompt, Array.length_toList]
  exact ScoreMatrix.size_row h (Nat.le_of_eq accepted.size_eq.symm)

namespace Configuration

variable {c : Configuration}

theorem slotCount_of_greedy (greedy : c.numBeams = 1) : c.slotCount = c.batchSize := by
  rw [slotCount, greedy, Nat.mul_one]

theorem Valid.slotCount_pos (valid : c.Valid) : 1 ≤ c.slotCount :=
  Nat.mul_pos valid.batch valid.beams

theorem Allocatable.matrix_lt (fits : c.Allocatable) :
    c.slotCount * c.vocabSize * 4 < 2 ^ 63 := fits.matrix

theorem Allocatable.sequences_lt (fits : c.Allocatable) :
    c.slotCount * c.maxLength * 4 < 2 ^ 63 := fits.sequences

theorem Allocatable.slotCount_lt (fits : c.Allocatable) (valid : c.Valid) :
    c.slotCount * 4 < 2 ^ 63 :=
  Nat.lt_of_le_of_lt (Nat.mul_le_mul_right 4 (Nat.le_mul_of_pos_right _ valid.vocabulary))
    fits.matrix_lt

theorem Allocatable.vocabSize_lt (fits : c.Allocatable) (valid : c.Valid) :
    c.vocabSize * 4 < 2 ^ 63 :=
  Nat.lt_of_le_of_lt (Nat.mul_le_mul_right 4 (Nat.le_mul_of_pos_left _ valid.slotCount_pos))
    fits.matrix_lt

theorem slots_eq (fits : c.Allocatable) (valid : c.Valid) : c.slots = .ok c.slotCount :=
  Outcome.size_of_lt (Nat.lt_trans (Nat.lt_of_le_of_lt (Nat.le_mul_of_pos_right _ (by decide))
    (fits.slotCount_lt valid)) (by decide))

end Configuration

namespace Termination

theorem takes_markDone (t : Termination) : markDone.Takes t () { t with done := true } :=
  (takes_call _ _).bind (takes_update _ _)

theorem takes_isDone (t : Termination) : isDone.Takes t t.done t :=
  (takes_call _ _).bind <| (takes_object _).bind (takes_pure _ _)

theorem takes_check (tokens : Tokens) (t : Termination) :
    (check tokens).Takes t
      (checkForEos tokens t.mask t.eosToken t.padToken t.done).tokens
      { t with
        mask := (checkForEos tokens t.mask t.eosToken t.padToken t.done).mask
        done := (checkForEos tokens t.mask t.eosToken t.padToken t.done).done } :=
  (takes_call _ _).bind <| (takes_object _).bind <| (takes_update _ _).bind (takes_pure _ _)

end Termination

namespace SearchState

variable {c : Configuration} {s : SearchState}

structure Sound (c : Configuration) (s : SearchState) : Prop where
  configuration : s.configuration = c
  sequences : s.sequences.Sized c.slotCount c.maxLength
  rows : s.scores.rows = c.slotCount
  vocabSize : s.scores.vocabSize = c.vocabSize
  scores : s.scores.scores.size = c.slotCount * c.vocabSize
  mask : s.termination.mask.size = c.slotCount
  eosToken : s.termination.eosToken = c.eosToken
  padToken : s.termination.padToken = c.padToken

def withMatrix (s : SearchState) (m : Scores) : SearchState :=
  { s with scores := { s.scores with scores := m } }

theorem Sound.withMatrix (sound : s.Sound c) {m : Scores}
    (size : m.size = c.slotCount * c.vocabSize) :
    (s.withMatrix m).Sound c :=
  { sound with scores := size }

theorem takes_isDone (s : SearchState) :
    (onTermination Termination.isDone).Takes s s.termination.done s :=
  takes_focus (Termination.takes_isDone _)

theorem takes_markDone (s : SearchState) : (onTermination Termination.markDone).Takes s ()
    { s with termination := { s.termination with done := true } } :=
  takes_focus (Termination.takes_markDone _)

/-! ## A new state -/

theorem gives_new {input : Tokens} (valid : c.Valid) (fits : c.Allocatable)
    (accepted : SequenceStore.Accepts input c.batchSize c.maxLength) :
    ∃ s, (new c input).Gives s ∧ s.Sound c ∧ s.sequences.length = c.promptLength input ∧
      (1 < c.numBeams → s.sequences.spare.isSome = true) ∧
      (∀ i < c.slotCount,
        s.sequences.slot i = prompt input (c.promptLength input) (i / c.numBeams)) ∧
      (∀ i < c.slotCount, s.termination.mask[i]! = false) ∧
      s.termination.done = decide (c.maxLength ≤ c.promptLength input) := by
  obtain ⟨store, made, sized, length, double, slots⟩ :=
    SequenceStore.gives_new valid.batch accepted fits.sequences
  let scores : ScoreBuffer :=
    ⟨.replicate (c.slotCount * c.vocabSize) .zero, c.slotCount, c.vocabSize⟩
  let running : Termination := ⟨.replicate c.slotCount false, false, c.eosToken, c.padToken⟩
  let full := decide (c.maxLength ≤ c.promptLength input)
  have madeScores : (ScoreBuffer.new c.slotCount c.vocabSize).Gives scores := by
    have matrix := fits.matrix_lt
    exact (gives_ofOutcome (Outcome.size_of_lt (by omega))).bind <|
      (gives_allocScores matrix).bind (gives_pure _)
  have madeFlags : (Termination.new c.slotCount c.eosToken c.padToken).Gives running := by
    have slots := fits.slotCount_lt valid
    exact (gives_allocMask (by omega)).bind <| (gives_call _).bind (gives_pure _)
  have clear : ∀ i < c.slotCount, (Array.replicate c.slotCount false)[i]! = false := by
    intro i hi
    rw [getElem!_pos _ i (by simpa using hi), Array.getElem_replicate]
  have sameLength : store.length = c.promptLength input := length
  refine ⟨⟨c, store, scores, { running with done := full }⟩, ?_,
    ⟨rfl, sized, rfl, rfl, by simp [scores], by simp [running], rfl, rfl⟩,
    length, double, slots, clear, rfl⟩
  refine (gives_ofOutcome (Configuration.slots_eq fits valid)).bind <| made.bind <|
    madeScores.bind <| madeFlags.bind <| gives_ite (fun reached => ?_) fun room => ?_
  · have done : full = true := decide_eq_true (sameLength ▸ reached)
    rw [done]
    exact (gives_on (Termination.takes_markDone running)).bind (gives_pure _)
  · have notDone : full = false := decide_eq_false (sameLength ▸ room)
    rw [notDone]
    exact gives_pure _

/-! ## Scores of one step -/

section Scores

variable (valid : c.Valid) (fits : c.Allocatable) (sound : s.Sound c)

include valid fits sound

theorem takes_setLogits {logits : Scores} (size : logits.size = c.slotCount * c.vocabSize) :
    ∃ m, (onScores (ScoreBuffer.setLogits logits)).Takes s () (s.withMatrix m) ∧
      m.size = c.slotCount * c.vocabSize ∧
      ∀ r < c.slotCount, ScoreMatrix.row m c.vocabSize r =
        logSoftmax (ScoreMatrix.row logits c.vocabSize r) := by
  have matrix := fits.matrix_lt
  have block : 0 < c.slotCount * c.vocabSize := Nat.mul_pos valid.slotCount_pos valid.vocabulary
  obtain ⟨m, normalised, size', rows⟩ := ScoreMatrix.logSoftmaxRows_eq sound.scores size
    (by omega) (Nat.pos_iff_ne_zero.1 valid.vocabulary)
  rw [← sound.rows, ← sound.vocabSize] at normalised size matrix block
  have loaded : (ScoreBuffer.setLogits logits).Takes s.scores () { s.scores with scores := m } :=
    (takes_object _).bind <| (takes_ofOutcome (Outcome.size_of_lt (by omega))).bind <|
      (takes_require _ (by simpa using Nat.pos_iff_ne_zero.1 block)).bind <|
      (takes_require _ (by rw [size, Nat.mod_self]; rfl)).bind <|
      (takes_require _ (by rw [size, Nat.div_self block]; rfl)).bind <|
      (takes_call _ _).bind <| (takes_object _).bind <|
      (takes_ofOutcome normalised).bind (takes_update _ _)
  exact ⟨m, takes_focus loaded, size', rows⟩

end Scores

theorem size_of_setLogits {logits : Scores} {s' : SearchState}
    (h : (onScores (ScoreBuffer.setLogits logits)).Takes s () s') :
    logits.size = s.scores.rows * s.scores.vocabSize := by
  obtain ⟨block, size, h⟩ := Takes.of_outcome (Takes.of_object (Takes.of_focus (fun _ _ => rfl) h))
  obtain ⟨-, h⟩ := Takes.of_require h
  obtain ⟨whole, h⟩ := Takes.of_require h
  obtain ⟨one, -⟩ := Takes.of_require h
  obtain rfl := Outcome.eq_of_size size
  have split := Nat.div_add_mod logits.size (s.scores.rows * s.scores.vocabSize)
  rwa [of_decide_eq_true one, of_decide_eq_true whole, Nat.mul_one, Nat.add_zero, eq_comm] at split

end SearchState

def Processor.act : Processor → Action SearchState Unit
  | minLength length => SearchState.minLength length
  | repetitionPenalty penalty => SearchState.repetitionPenalty penalty

namespace SearchState

section Processors

variable {c : Configuration} {s : SearchState} (valid : c.Valid) (fits : c.Allocatable)
  (sound : s.Sound c)

include valid fits sound

theorem takes_minLength (length : Nat) :
    ∃ m, (minLength length).Takes s () (s.withMatrix m) ∧ m.size = c.slotCount * c.vocabSize ∧
      ∀ r < c.slotCount, ScoreMatrix.row m c.vocabSize r =
        (Processor.minLength length).onRow c.eosToken (s.sequences.slot r)
          (ScoreMatrix.row s.scores.scores c.vocabSize r) := by
  have matrix := fits.matrix_lt
  have vocabulary := fits.vocabSize_lt valid
  by_cases short : s.sequences.length < length
  · obtain ⟨m, filled, size, rows⟩ := ScoreMatrix.fillColumn_eq sound.scores (by omega)
      valid.eosToken.1 valid.eosToken.2 (by omega)
    have written : (ScoreBuffer.transform .fillTokenColumn fun scores =>
        ScoreMatrix.fillColumn scores s.scores.rows s.scores.vocabSize
          (Token.toIndex s.configuration.eosToken) Binary32.least).Takes s.scores ()
        { s.scores with scores := m } := by
      rw [sound.rows, sound.vocabSize, sound.configuration]
      exact (takes_call _ _).bind <| (takes_object _).bind <|
        (takes_ofOutcome filled).bind (takes_update _ _)
    refine ⟨m, (takes_object _).bind ?_, size, fun r hr => ?_⟩
    · rw [if_pos short]
      exact takes_focus written
    · rw [rows r hr, Processor.onRow, if_pos (by rwa [sound.sequences.length_slot hr])]
  · refine ⟨s.scores.scores, (takes_object _).bind ?_, sound.scores, fun r hr => ?_⟩
    · rw [if_neg short]
      exact takes_pure _ _
    · rw [Processor.onRow, if_neg (by rwa [sound.sequences.length_slot hr])]

theorem takes_repetitionPenalty (penalty : Binary32) :
    ∃ m, (repetitionPenalty penalty).Takes s () (s.withMatrix m) ∧
      m.size = c.slotCount * c.vocabSize ∧
      ∀ r < c.slotCount, ScoreMatrix.row m c.vocabSize r =
        (Processor.repetitionPenalty penalty).onRow c.eosToken (s.sequences.slot r)
          (ScoreMatrix.row s.scores.scores c.vocabSize r) := by
  have matrix := fits.matrix_lt
  have sequences := fits.sequences_lt
  by_cases one : penalty.same Binary32.one = true
  · refine ⟨s.scores.scores, (takes_object _).bind ?_, sound.scores, fun r hr => ?_⟩
    · rw [one]
      exact takes_pure _ _
    · rw [Processor.onRow, if_pos one]
  · obtain ⟨m, penalized, size, rows⟩ := ScoreMatrix.penalizeRepeats_eq penalty sound.scores
      (by omega) (Nat.pos_iff_ne_zero.1 valid.vocabulary) sound.sequences.tokens (by omega)
      sound.sequences.length
    have written : (ScoreBuffer.transform .repetitionPenalty fun scores =>
        ScoreMatrix.penalizeRepeats s.sequences.tokens scores s.scores.rows s.scores.vocabSize
          s.sequences.maxLength s.sequences.length penalty).Takes s.scores ()
        { s.scores with scores := m } := by
      rw [sound.rows, sound.vocabSize, sound.sequences.maxLength]
      exact (takes_call _ _).bind <| (takes_object _).bind <|
        (takes_ofOutcome penalized).bind (takes_update _ _)
    refine ⟨m, (takes_object _).bind ?_, size, fun r hr => ?_⟩
    · rw [if_pos (by simpa using one)]
      exact takes_focus written
    · rw [rows r hr, Processor.onRow, if_neg one, SequenceStore.slot, sound.sequences.maxLength]

theorem takes_processor (p : Processor) :
    ∃ m, p.act.Takes s () (s.withMatrix m) ∧ m.size = c.slotCount * c.vocabSize ∧
      ∀ r < c.slotCount, ScoreMatrix.row m c.vocabSize r =
        p.onRow c.eosToken (s.sequences.slot r)
          (ScoreMatrix.row s.scores.scores c.vocabSize r) := by
  cases p with
  | minLength length => exact takes_minLength valid fits sound length
  | repetitionPenalty penalty => exact takes_repetitionPenalty valid fits sound penalty

end Processors

end SearchState

end TokenSearch
