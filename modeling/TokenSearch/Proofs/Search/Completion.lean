import TokenSearch.Proofs.Search.Beam
import TokenSearch.Proofs.Search.Greedy

/-!
Every run on logits of the right size ends and returns its rows, whatever the logits are. A step
makes the sequences one token longer, and a search of either kind whose sequences are full says
that it is done before another token is appended.
-/

namespace TokenSearch

open TokenSearch.Run TokenSearch.Action

/-- For the sequences of all slots the model gives one row of logits each. -/
def Model.Fits (c : Configuration) (model : Model) : Prop :=
  ∀ passes sequences, sequences.length = c.slotCount →
    ∃ logits, model.forward passes sequences = .ok logits ∧
      logits.size = c.slotCount * c.vocabSize

theorem Model.fits_ofSlots {c : Configuration} {logits : List Token → List Binary32}
    (width : ∀ tokens, (logits tokens).length = c.vocabSize) : (ofSlots logits).Fits c := by
  intro passes sequences count
  exact ⟨_, rfl, by simp [List.length_flatMap, width, count]⟩

namespace Search

inductive Sound (c : Configuration) : Search → Prop
  | greedy {g : GreedySearch} (one : c.numBeams = 1) (sound : g.Sound c) : Sound c (greedy g)
  | beam {b : BeamSearch} (many : 2 ≤ c.numBeams) (sound : b.Sound c) : Sound c (beam b)

section Sound

variable {c : Configuration} {s : Search}

theorem Sound.state (sound : s.Sound c) : s.state.Sound c := by
  cases sound with
  | greedy _ sound => exact sound.state
  | beam _ sound => exact sound.state

theorem gives_new {input : Tokens} (accepted : c.validate = .ok ()) (fits : c.Addressable)
    (few : c.numBeams ≤ Selection.maxBeams)
    (prompts : SequenceStore.Accepts input c.batchSize c.maxLength) :
    ∃ s, (new c input).Gives s ∧ s.Sound c ∧
      s.state.sequences.length = c.promptLength input := by
  have valid := Configuration.valid_of_validate accepted
  rcases Nat.eq_or_lt_of_le valid.beams with one | many
  · obtain ⟨g, made, sound, length, -⟩ :=
      GreedySearch.gives_new fits.toAllocatable accepted one.symm prompts
    exact ⟨greedy g, made, .greedy one.symm sound, length⟩
  · obtain ⟨b, made, sound, -, length, -⟩ :=
      BeamSearch.gives_new accepted ⟨valid, fits, many, few⟩ prompts
    exact ⟨beam b, BeamSearch.gives_newSearch accepted many made, .beam many sound, length⟩

theorem Sound.takes_isDone (sound : s.Sound c) :
    ∃ told s', isDone.Takes s told s' ∧ s'.Sound c ∧ s'.state.sequences = s.state.sequences ∧
      s'.state.termination.done = told ∧
      (c.maxLength ≤ s.state.sequences.length → told = true) := by
  cases sound with
  | greedy one sound =>
    exact ⟨_, _, takes_greedy (GreedySearch.takes_isDone _), .greedy one sound, rfl, rfl, sound.full⟩
  | beam many sound =>
    obtain ⟨answer, sound'⟩ := BeamSearch.takes_isDone sound
    exact ⟨_, _, takes_beam answer, .beam many sound', rfl, BeamSearch.done_asked sound,
      BeamSearch.allDone_asked_of_full sound⟩

variable (valid : c.Valid) (fits : c.Addressable) (few : c.numBeams ≤ Selection.maxBeams)
  (sound : s.Sound c)

include valid fits few sound

theorem Sound.takes_decode (room : s.state.sequences.length < c.maxLength) {logits : Scores}
    (size : logits.size = c.slotCount * c.vocabSize) (processors : List Processor) :
    ∃ s', (decode logits processors).Takes s () s' ∧ s'.Sound c ∧
      s'.state.sequences.length = s.state.sequences.length + 1 := by
  cases sound with
  | greedy one sound =>
    obtain ⟨g, taken, decoded⟩ :=
      GreedySearch.takes_decode valid fits.toAllocatable one sound room size processors
    exact ⟨.greedy g, taken, .greedy one decoded.sound, decoded.length⟩
  | beam many sound =>
    obtain ⟨b, taken, decoded⟩ :=
      BeamSearch.takes_decode ⟨valid, fits, many, few⟩ sound room size processors
    exact ⟨.beam b, taken, .beam many decoded.sound, decoded.length⟩

theorem Sound.takes_finalize : ∃ tokens scores s',
    (finalize c.numReturned (c.batchSize * c.numReturned * c.maxLength)
      (c.batchSize * c.numReturned)).Takes s (tokens, scores) s' ∧ s'.state = s.state ∧
      tokens.size = c.batchSize * c.numReturned * c.maxLength ∧
      scores.size = c.batchSize * c.numReturned := by
  cases sound with
  | greedy one sound =>
    have returned := valid.returned
    have single : c.numReturned = 1 := by omega
    rw [single, Nat.mul_one]
    exact ⟨_, _, _, takes_greedy (GreedySearch.takes_finalize fits.toAllocatable one sound), rfl,
      length_flatMap_range (by simp), Array.size_replicate⟩
  | @beam b many sound =>
    have lists := Ranking.lists_best (sound.ranking.closed b.state.sequences.slot)
    exact ⟨_, _, _, takes_beam (BeamSearch.takes_finalize ⟨valid, fits, many, few⟩ sound), rfl,
      lists.size, lists.count⟩

end Sound

end Search

namespace Generator

structure Going (c : Configuration) (input : Tokens) (model : Model) (t : Nat) (g : Generator) :
    Prop where
  model : g.model = model
  steps : g.steps = t
  search : g.search.Sound c
  length : g.search.state.sequences.length = c.promptLength input + t

section Going

variable {c : Configuration} {input : Tokens} {model : Model} {t : Nat} {g : Generator}

theorem Going.takes_step (valid : c.Valid) (fits : c.Addressable)
    (few : c.numBeams ≤ Selection.maxBeams) (sized : model.Fits c) (going : Going c input model t g)
    (room : c.promptLength input + t < c.maxLength) :
    ∃ g' done, step.Takes g done g' ∧ Going c input model (t + 1) g' := by
  have sequences := going.search.state.sequences
  obtain ⟨logits, forward, size⟩ := sized g.passes g.search.state.sequences.toList
    (by rw [SequenceStore.toList_eq, List.length_map, List.length_range, sequences.slots])
  obtain ⟨s, decoded, sound, longer⟩ := going.search.takes_decode valid fits few
    (going.length ▸ room) size [.minLength c.minLength, .repetitionPenalty c.repetitionPenalty]
  obtain ⟨told, s', asked, sound', same, -⟩ := sound.takes_isDone
  rw [← going.model] at forward
  refine ⟨_, told, Generator.takes_step going.search.state.configuration forward decoded asked,
    going.model, congrArg (· + 1) going.steps, sound', ?_⟩
  show s'.state.sequences.length = _
  rw [same, longer, going.length, Nat.add_assoc]

theorem turns_going (valid : c.Valid) (fits : c.Addressable)
    (few : c.numBeams ≤ Selection.maxBeams) (sized : model.Fits c) :
    Turns (Going c input model)
      (fun t g => Going c input model t g ∧ g.search.state.termination.done = true)
      (c.maxLength - c.promptLength input) := by
  intro t g going
  obtain ⟨told, s, answer, sound, same, flag, full⟩ := going.search.takes_isDone
  have going' : Going c input model t { g with search := s } :=
    ⟨going.model, going.steps, sound, by rw [← going.length, ← same]⟩
  refine ⟨told, s, answer, fun stopped => ⟨going', flag.trans stopped⟩, fun goes => ?_⟩
  have room : c.promptLength input + t < c.maxLength := by
    refine Nat.lt_of_not_le fun reached => ?_
    exact absurd (goes.symm.trans (full (going.length ▸ reached))) (by decide)
  obtain ⟨g', done, taken, next⟩ := going'.takes_step valid fits few sized room
  exact ⟨by omega, g', done, taken, next⟩

end Going

end Generator

/-- A run on any logits of the right size returns after as many steps as it has appended tokens,
and is done then. -/
theorem runToEnd_completes {c : Configuration} (accepted : c.validate = .ok ())
    (few : c.numBeams ≤ Selection.maxBeams) (fits : c.Addressable) {input : Tokens}
    (prompts : SequenceStore.Accepts input c.batchSize c.maxLength) {model : Model}
    (sized : model.Fits c) :
    ∃ output g, (Generator.runToEnd c input model).Gives (output, g) ∧
      output.tokens.size = c.batchSize * c.numReturned * c.maxLength ∧
      output.scores.size = c.batchSize * c.numReturned ∧
      g.search.state.sequences.length = c.promptLength input + g.steps ∧
      g.search.state.sequences.length ≤ c.maxLength ∧
      g.search.state.termination.done = true ∧
      (c.promptLength input = c.maxLength → g.steps = 0) := by
  have valid := Configuration.valid_of_validate accepted
  obtain ⟨s₀, made, sound₀, length₀⟩ := Search.gives_new accepted fits few prompts
  obtain ⟨t, tokens, scores, g, given, size, count, rfl, length, le, done⟩ :=
    Generator.gives_runToEnd_of_turns (Q := fun t tokens scores g =>
        tokens.size = c.batchSize * c.numReturned * c.maxLength ∧
        scores.size = c.batchSize * c.numReturned ∧ g.steps = t ∧
        g.search.state.sequences.length = c.promptLength input + t ∧
        g.search.state.sequences.length ≤ c.maxLength ∧ g.search.state.termination.done = true)
      valid fits.toAllocatable made sound₀.state.configuration length₀ ⟨rfl, rfl, sound₀, length₀⟩
      (Generator.turns_going valid fits few sized) fun t g ⟨going, done⟩ => by
        obtain ⟨tokens, scores, s, finalized, same, size, count⟩ :=
          going.search.takes_finalize valid fits few
        refine ⟨tokens, scores, s, finalized, size, count, going.steps, ?_, ?_, ?_⟩
        · rw [same, going.length]
        · rw [same]
          exact going.search.state.sequences.length
        · rw [same, done]
  exact ⟨_, g, given, size, count, length, le, done, fun full => by omega⟩

/-- A prompt with tokens from outside the vocabulary, and a model that gives nothing but negative
NaNs. -/
theorem runToEnd_completes_of_nan :
    let c : Configuration :=
      { batchSize := 1, numBeams := 2, vocabSize := 2, maxLength := 3, eosToken := 1, padToken := 0 }
    let model : Model := ⟨fun _ _ => .ok (.replicate 4 ⟨0xffc00000⟩)⟩
    ∃ output g, (Generator.runToEnd c #[7, -1] model).Gives (output, g) ∧
      output.tokens.size = 3 ∧ g.search.state.sequences.length = 2 + g.steps ∧ g.steps ≤ 1 ∧
      g.search.state.termination.done = true := by
  intro c model
  have accepted : c.validate = .ok () := by decide +kernel
  have fits : c.Addressable := ⟨⟨by decide, by decide⟩, by decide, by decide⟩
  have prompts : SequenceStore.Accepts #[7, -1] 1 3 := ⟨by decide, by decide, by decide⟩
  have sized : model.Fits c := fun _ _ _ => ⟨_, rfl, rfl⟩
  obtain ⟨output, g, given, size, -, length, le, done, -⟩ :=
    runToEnd_completes accepted (by decide) fits prompts sized
  have two : c.promptLength #[7, -1] = 2 := by decide
  have most : c.maxLength = 3 := rfl
  exact ⟨output, g, given, size, by omega, by omega, done⟩

end TokenSearch
