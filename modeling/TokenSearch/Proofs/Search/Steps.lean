import TokenSearch.Generation
import TokenSearch.Proofs.Search.State

/-!
Steps of a search of either kind, and the loop that takes them. The loop ends at the first
number of steps at which the run is done, whatever relation between a generator and the number
of its steps the steps keep.
-/

namespace TokenSearch

open TokenSearch.Run TokenSearch.Action

namespace Search

variable {α : Type}

def withState : Search → SearchState → Search
  | greedy g, state => greedy { g with state }
  | beam b, state => beam { b with state }

@[simp] theorem state_withState (s : Search) (t : SearchState) : (s.withState t).state = t := by
  cases s <;> rfl

@[simp] theorem withState_withState (s : Search) (t u : SearchState) :
    (s.withState t).withState u = s.withState u := by
  cases s <;> rfl

@[simp] theorem withState_state (s : Search) : s.withState s.state = s := by
  cases s <;> rfl

theorem takes_greedy {onGreedy : Action GreedySearch α} {onBeam : Action BeamSearch α}
    {g g' : GreedySearch} {a : α} (h : onGreedy.Takes g a g') :
    (act onGreedy onBeam).Takes (greedy g) a (greedy g') := by
  intro session sound
  obtain ⟨session', sound', run⟩ := h session sound
  exact ⟨session', sound', by simp only [act, run]⟩

theorem takes_beam {onGreedy : Action GreedySearch α} {onBeam : Action BeamSearch α}
    {b b' : BeamSearch} {a : α} (h : onBeam.Takes b a b') :
    (act onGreedy onBeam).Takes (beam b) a (beam b') := by
  intro session sound
  obtain ⟨session', sound', run⟩ := h session sound
  exact ⟨session', sound', by simp only [act, run]⟩

theorem of_takes_beam {onGreedy : Action GreedySearch α} {onBeam : Action BeamSearch α}
    {b b' : BeamSearch} {a : α} (h : (act onGreedy onBeam).Takes (beam b) a (beam b')) :
    onBeam.Takes b a b' := by
  intro session sound
  obtain ⟨session', sound', run⟩ := h session sound
  unfold act at run
  dsimp only at run
  split at run
  case h_1 same =>
    cases run
    exact ⟨session', sound', same⟩
  case h_2 => cases run

theorem takes_onState {x : Action SearchState α} {s : Search} {a : α} {t : SearchState}
    (h : x.Takes s.state a t) : (onState x).Takes s a (s.withState t) := by
  cases s with
  | greedy g => exact takes_greedy (takes_focus h)
  | beam b => exact takes_beam (takes_focus h)

end Search

/-! ## One step -/

def Processor.run : Processor → Action Search Unit
  | minLength length => Search.minLength length
  | repetitionPenalty penalty => Search.repetitionPenalty penalty

theorem Processor.run_eq (p : Processor) : p.run = Search.onState p.act := by
  cases p <;> rfl

namespace Search

def decode (logits : Scores) (processors : List Processor) : Action Search Unit := do
  setLogits logits
  processors.forM Processor.run
  next
  checkForEos
  append

section Scored

variable {c : Configuration} {s : Search} (valid : c.Valid) (fits : c.Allocatable)

include valid fits

theorem takes_processors (sound : s.state.Sound c) (processors : List Processor) :
    ∃ m, (processors.forM Processor.run).Takes s () (s.withState (s.state.withMatrix m)) ∧
      m.size = c.slotCount * c.vocabSize ∧
      ∀ r < c.slotCount, ScoreMatrix.row m c.vocabSize r =
        processors.foldl (fun row p => p.onRow c.eosToken (s.state.sequences.slot r) row)
          (ScoreMatrix.row s.state.scores.scores c.vocabSize r) := by
  induction processors generalizing s with
  | nil =>
    refine ⟨s.state.scores.scores, ?_, sound.scores, fun r _ => rfl⟩
    have same : s.state.withMatrix s.state.scores.scores = s.state := rfl
    rw [same, withState_state]
    exact takes_pure _ _
  | cons p rest ih =>
    obtain ⟨m, first, size, rows⟩ := SearchState.takes_processor valid fits sound p
    have sound' : (s.withState (s.state.withMatrix m)).state.Sound c := by
      rw [state_withState]
      exact sound.withMatrix size
    obtain ⟨m', others, size', rows'⟩ := ih sound'
    rw [state_withState] at others rows'
    rw [withState_withState] at others
    have firstRun : p.run.Takes s () (s.withState (s.state.withMatrix m)) := by
      rw [p.run_eq]
      exact takes_onState first
    refine ⟨m', firstRun.bind others, size', fun r hr => ?_⟩
    rw [rows' r hr, List.foldl_cons, ← rows r hr]
    rfl

theorem takes_scored (sound : s.state.Sound c) {logits : Scores}
    (size : logits.size = c.slotCount * c.vocabSize) (processors : List Processor) :
    ∃ m, (do setLogits logits; processors.forM Processor.run).Takes s ()
        (s.withState (s.state.withMatrix m)) ∧
      m.size = c.slotCount * c.vocabSize ∧
      ∀ r < c.slotCount, ScoreMatrix.row m c.vocabSize r =
        processedRow c.eosToken processors (s.state.sequences.slot r)
          (ScoreMatrix.row logits c.vocabSize r) := by
  obtain ⟨m, loaded, size', rows⟩ := SearchState.takes_setLogits valid fits sound size
  have sound' : (s.withState (s.state.withMatrix m)).state.Sound c := by
    rw [state_withState]
    exact sound.withMatrix size'
  obtain ⟨m', processed, size'', rows'⟩ := takes_processors valid fits sound' processors
  rw [state_withState] at processed rows'
  rw [withState_withState] at processed
  refine ⟨m', (takes_onState loaded).bind processed, size'', fun r hr => ?_⟩
  rw [rows' r hr, processedRow, ← rows r hr]
  rfl

end Scored

theorem takes_decode {s t u : Search} {logits : Scores} {processors : List Processor}
    (scored : (do setLogits logits; processors.forM Processor.run).Takes s () t)
    (chosen : (do next; checkForEos; append).Takes t () u) :
    (decode logits processors).Takes s () u := by
  have split : decode logits processors = (do
      (do setLogits logits; processors.forM Processor.run)
      (do next; checkForEos; append)) := by
    simp only [decode, bind_assoc]
  rw [split]
  exact scored.bind chosen

end Search

/-! ## Runs on given logits -/

namespace Search

/-- What a caller does to a search between its making and its final rows. -/
inductive Move where
  | decode (logits : Scores) (processors : List Processor)
  | ask
deriving DecidableEq, Repr

def Move.grows : Move → Bool
  | decode .. => true
  | ask => false

def Move.act : Move → Action Search Unit
  | decode logits processors => Search.decode logits processors
  | ask => do let _ ← isDone

def drive (moves : List Move) : Action Search Unit := moves.forM Move.act

def driven (c : Configuration) (input : Tokens) (moves : List Move) : Run Search := do
  let s ← new c input
  let (_, s) ← Action.on s (drive moves)
  return s

theorem gives_driven {c : Configuration} {input : Tokens} {moves : List Move} {s t : Search}
    (made : (new c input).Gives s) (moved : (drive moves).Takes s () t) :
    (driven c input moves).Gives t :=
  made.bind <| (gives_on moved).bind (gives_pure _)

theorem takes_drive_append {moves : List Move} {m : Move} {s t u : Search}
    (before : (drive moves).Takes s () t) (last : m.act.Takes t () u) :
    (drive (moves ++ [m])).Takes s () u := by
  rw [drive, List.forM_eq_forM, List.forM_append]
  exact before.bind (last.bind (takes_pure _ _))

end Search

/-! ## When a run stops -/

namespace Configuration

/-- Whether a run is done after `t` steps, where `ended` tells which prompts have ended. -/
def stops (c : Configuration) (input : Tokens) (t : Nat) (ended : Nat → Bool) : Bool :=
  c.maxLength ≤ c.promptLength input + t || (List.range c.batchSize).all ended

variable (c : Configuration) {input : Tokens} {t : Nat} {ended : Nat → Bool}

theorem stops_iff : c.stops input t ended = true ↔
    c.maxLength ≤ c.promptLength input + t ∨ ∀ b < c.batchSize, ended b = true := by
  simp [stops]

theorem stops_of_full (ended : Nat → Bool) (full : c.maxLength ≤ c.promptLength input + t) :
    c.stops input t ended = true :=
  c.stops_iff.2 (.inl full)

theorem room_of_going (going : c.stops input t ended = false) :
    c.promptLength input + t < c.maxLength := by
  rw [← Bool.not_eq_true, stops_iff] at going
  exact Nat.not_le.1 fun full => going (.inl full)

theorem exists_of_going (going : c.stops input t ended = false) :
    ∃ b < c.batchSize, ended b = false := by
  rw [← Bool.not_eq_true, stops_iff] at going
  by_contra all
  refine going (.inr fun b hb => ?_)
  by_contra live
  exact all ⟨b, hb, Bool.eq_false_iff.2 live⟩

theorem last_of_stops {α : Type} {f : Nat → α} {b : Nat} (hb : b < c.batchSize)
    (le : c.promptLength input + t ≤ c.maxLength) (stopped : c.stops input t ended = true)
    (stays : ended b = true → ∀ more, f (t + more) = f t) :
    f (c.maxLength - c.promptLength input) = f t := by
  obtain ⟨more, total⟩ := Nat.exists_eq_add_of_le
    (show t ≤ c.maxLength - c.promptLength input by omega)
  rw [total]
  rcases c.stops_iff.1 stopped with full | all
  · have none : more = 0 := by omega
    rw [none, Nat.add_zero]
  · exact stays (all b hb) more

end Configuration

theorem Model.forward_ofSlots {logits : List Token → List Binary32} {s : SequenceStore}
    {rows width vocabSize : Nat} (sized : s.Sized rows width)
    (lengths : ∀ tokens, (logits tokens).length = vocabSize) (passes : Nat) :
    ∃ m, (ofSlots logits).forward passes s.toList = .ok m ∧ m.size = rows * vocabSize ∧
      ∀ r < rows, ScoreMatrix.row m vocabSize r = (logits (s.slot r)).toArray := by
  have each : ∀ r < rows, (logits (s.slot r)).length = vocabSize := fun r _ => lengths _
  have flat : s.toList.flatMap logits = (List.range rows).flatMap fun r => logits (s.slot r) := by
    rw [s.toList_eq, sized.slots, List.flatMap_map]
  refine ⟨_, rfl, ?_, fun r hr => ?_⟩
  · rw [flat]
    exact length_flatMap_range each
  · rw [flat]
    exact ScoreMatrix.row_flatMap_range each hr

namespace Generator

theorem takes_step {g : Generator} {c : Configuration} {logits : Scores} {s t : Search} {done : Bool}
    (configuration : g.search.state.configuration = c)
    (forward : g.model.forward g.passes g.search.state.sequences.toList = .ok logits)
    (decoded : (Search.decode logits
      [.minLength c.minLength, .repetitionPenalty c.repetitionPenalty]).Takes g.search () s)
    (asked : Search.isDone.Takes s done t) :
    step.Takes g done { g with search := t, steps := g.steps + 1, passes := g.passes + 1 } := by
  have body : Search.decode logits
      [.minLength c.minLength, .repetitionPenalty c.repetitionPenalty] = (do
        Search.setLogits logits
        Search.minLength c.minLength
        Search.repetitionPenalty c.repetitionPenalty
        Search.next
        Search.checkForEos
        Search.append) := by
    have both : [Processor.minLength c.minLength,
        .repetitionPenalty c.repetitionPenalty].forM Processor.run = (do
          Search.minLength c.minLength
          Search.repetitionPenalty c.repetitionPenalty
          pure ()) := rfl
    rw [Search.decode, both]
    simp only [bind_assoc, pure_bind]
  rw [body] at decoded
  have passed : Generator.forward.Takes g logits { g with passes := g.passes + 1 } :=
    (takes_object _).bind <| (takes_update _ _).bind <| (takes_call _ _).bind
      (takes_ofOutcome forward)
  have searched : (onSearch _).Takes { g with passes := g.passes + 1 } ()
      { g with search := s, passes := g.passes + 1 } := takes_focus decoded
  have counted : (Action.update fun g : Generator => { g with steps := g.steps + 1 }).Takes
      { g with search := s, passes := g.passes + 1 } ()
      { g with search := s, steps := g.steps + 1, passes := g.passes + 1 } := takes_update _ _
  rw [← configuration] at searched
  exact passed.bind <| (takes_object _).bind <| searched.bind <| counted.bind (takes_focus asked)

/-- What one turn of the loop does: it ends the loop with `E`, or takes a step that keeps `P`. -/
def Turns (P E : Nat → Generator → Prop) (last : Nat) : Prop :=
  ∀ t g, P t g → ∃ done s, Search.isDone.Takes g.search done s ∧
    (done = true → E t { g with search := s }) ∧
    (done = false → t < last ∧ ∃ g' told, step.Takes { g with search := s } told g' ∧ P (t + 1) g')

theorem takes_stepUntilDone {P E : Nat → Generator → Prop} {last : Nat} (turns : Turns P E last)
    (room t : Nat) (g : Generator) (reach : last ≤ t + room) (now : P t g) :
    ∃ t' g', (stepUntilDone room).Takes g () g' ∧ E t' g' := by
  induction room generalizing t g with
  | zero =>
    obtain ⟨done, s, answer, ends, goes⟩ := turns t g now
    cases done with
    | true => exact ⟨t, _, (takes_focus answer).bind (takes_pure _ _), ends rfl⟩
    | false => exact absurd (goes rfl).1 (by omega)
  | succ room ih =>
    obtain ⟨done, s, answer, ends, goes⟩ := turns t g now
    cases done with
    | true => exact ⟨t, _, (takes_focus answer).bind (takes_pure _ _), ends rfl⟩
    | false =>
      obtain ⟨-, g₁, told, one, next⟩ := goes rfl
      obtain ⟨t', g', others, final⟩ := ih (t + 1) g₁ (by omega) next
      exact ⟨t', g', (takes_focus answer).bind (one.bind others), final⟩

def runToEnd (c : Configuration) (input : Tokens) (model : Model) :
    Run (GenerationOutput × Generator) := do
  let g ← new c input model
  Action.on g tryGenerate

theorem takes_tryGenerate {c : Configuration} {g g' : Generator} {s : Search} {tokens : Tokens}
    {scores : Scores} (valid : c.Valid) (fits : c.Allocatable)
    (configuration : g.search.state.configuration = c)
    (looped : (stepUntilDone (c.maxLength - g.search.state.sequences.length)).Takes g () g')
    (ended : (Search.finalize c.numReturned (c.batchSize * c.numReturned * c.maxLength)
      (c.batchSize * c.numReturned)).Takes g'.search (tokens, scores) s) :
    tryGenerate.Takes g ⟨tokens, scores, c.numReturned, c.maxLength⟩ { g' with search := s } := by
  have sequences := fits.sequences
  have rows : c.batchSize * c.numReturned * c.maxLength ≤
      c.batchSize * c.numBeams * c.maxLength :=
    Nat.mul_le_mul_right _ (Nat.mul_le_mul_left _ valid.returned.2)
  have some : c.batchSize * c.numReturned ≤ c.batchSize * c.numReturned * c.maxLength :=
    Nat.le_mul_of_pos_right _ valid.long
  rw [← configuration] at looped
  refine (takes_object _).bind <| looped.bind ?_
  dsimp only
  rw [configuration]
  have searched : (onSearch _).Takes g' (tokens, scores) { g' with search := s } :=
    takes_focus ended
  exact (takes_ofOutcome (Outcome.size_of_lt (by omega))).bind <|
    (takes_ofOutcome (Outcome.size_of_lt (by omega))).bind <|
    searched.bind <| (takes_object _).bind <| (takes_emit _ _).bind (takes_pure _ _)

/-- A run to the end, if its turns keep `P` until `E` holds, and the last rows are as `Q` says. -/
theorem gives_runToEnd_of_turns {c : Configuration} {input : Tokens} {model : Model} {s₀ : Search}
    {P E : Nat → Generator → Prop} {Q : Nat → Tokens → Scores → Generator → Prop}
    (valid : c.Valid) (fits : c.Allocatable) (made : (Search.new c input).Gives s₀)
    (configuration : s₀.state.configuration = c)
    (length : s₀.state.sequences.length = c.promptLength input)
    (started : P 0 ⟨s₀, model, 0, 0⟩)
    (turns : Turns P E (c.maxLength - c.promptLength input))
    (finalized : ∀ t g, E t g → ∃ tokens scores s,
      (Search.finalize c.numReturned (c.batchSize * c.numReturned * c.maxLength)
        (c.batchSize * c.numReturned)).Takes g.search (tokens, scores) s ∧
        Q t tokens scores { g with search := s }) :
    ∃ t tokens scores g, (runToEnd c input model).Gives
        (⟨tokens, scores, c.numReturned, c.maxLength⟩, g) ∧ Q t tokens scores g := by
  obtain ⟨t, g, looped, last⟩ := takes_stepUntilDone turns
    (c.maxLength - c.promptLength input) 0 _ (by omega) started
  obtain ⟨tokens, scores, s, rows, result⟩ := finalized t g last
  have created : (new c input model).Gives ⟨s₀, model, 0, 0⟩ := made.bind (gives_pure _)
  rw [← length] at looped
  have generated := takes_tryGenerate (g := ⟨s₀, model, 0, 0⟩) valid fits configuration looped rows
  exact ⟨t, tokens, scores, _, created.bind (gives_on generated), result⟩

theorem gives_runToEnd {c : Configuration} {input : Tokens} {model : Model} {s₀ : Search}
    {P : Nat → Generator → Prop} {ended : Nat → Nat → Bool} {Q : Nat → Tokens → Scores → Prop}
    (valid : c.Valid) (fits : c.Allocatable)
    (made : (Search.new c input).Gives s₀) (configuration : s₀.state.configuration = c)
    (length : s₀.state.sequences.length = c.promptLength input)
    (started : P 0 ⟨s₀, model, 0, 0⟩)
    (asked : ∀ t g, P t g → ∃ s, Search.isDone.Takes g.search (c.stops input t (ended t)) s ∧
      P t { g with search := s })
    (stepped : ∀ t g, P t g → c.stops input t (ended t) = false →
      ∃ g' done, step.Takes g done g' ∧ P (t + 1) g')
    (finalized : ∀ t g, P t g → c.stops input t (ended t) = true → ∃ tokens scores s,
      (Search.finalize c.numReturned (c.batchSize * c.numReturned * c.maxLength)
        (c.batchSize * c.numReturned)).Takes g.search (tokens, scores) s ∧ Q t tokens scores) :
    ∃ t tokens scores g s, (runToEnd c input model).Gives
        (⟨tokens, scores, c.numReturned, c.maxLength⟩, { g with search := s }) ∧
      P t g ∧ Q t tokens scores ∧ c.stops input t (ended t) = true ∧
      ∀ i < t, c.stops input i (ended i) = false := by
  let before (t : Nat) : Prop := ∀ i < t, c.stops input i (ended i) = false
  let P' (t : Nat) (g : Generator) : Prop := P t g ∧ before t
  let E (t : Nat) (g : Generator) : Prop := P' t g ∧ c.stops input t (ended t) = true
  have turns : Turns P' E (c.maxLength - c.promptLength input) := by
    intro t g ⟨now, going⟩
    obtain ⟨s, answer, now'⟩ := asked t g now
    refine ⟨_, s, answer, fun stopped => ⟨⟨now', going⟩, stopped⟩, fun goes => ?_⟩
    have room := c.room_of_going goes
    obtain ⟨g', told, taken, next⟩ := stepped t _ now' goes
    refine ⟨by omega, g', told, taken, next, fun i hi => ?_⟩
    rcases Nat.lt_succ_iff_lt_or_eq.1 hi with earlier | rfl
    · exact going i earlier
    · exact goes
  obtain ⟨t, tokens, scores, g, given, g₁, s, rfl, ⟨⟨last, going⟩, stopped⟩, result⟩ :=
    gives_runToEnd_of_turns (Q := fun t tokens scores g =>
        ∃ g₁ s, g = { g₁ with search := s } ∧ E t g₁ ∧ Q t tokens scores)
      valid fits made configuration length ⟨started, fun i hi => absurd hi (Nat.not_lt_zero i)⟩
      turns fun t g ended => by
        obtain ⟨tokens, scores, s, rows, result⟩ := finalized t g ended.1.1 ended.2
        exact ⟨tokens, scores, s, rows, g, s, rfl, ended, result⟩
  exact ⟨t, tokens, scores, g₁, s, given, last, result, stopped, going⟩

end Generator

end TokenSearch
