import TokenSearch.Proofs.Beam.Candidates
import TokenSearch.Proofs.Beam.Ranking
import TokenSearch.Proofs.Search.Steps

/-!
Steps of a beam search on arbitrary logits. The end flag of a slot is set only once its batch
element is done, and a slot of such an element gets padding anyway, so the flags never overwrite
the token of a live beam: every step appends to each slot what the ranking chose for it.
-/

namespace TokenSearch

open TokenSearch.Run TokenSearch.Action

theorem forall_slots {c : Configuration} {P : Nat → Prop}
    (h : ∀ e < c.batchSize, ∀ i < c.numBeams, P (e * c.numBeams + i)) :
    ∀ s < c.slotCount, P s := by
  intro s hs
  rw [← Nat.div_add_mod' s c.numBeams]
  exact h _ (div_lt_rows hs) _ (mod_lt_width hs)

namespace BeamSearch

/-- All parts have the sizes of the configuration, the running scores are those of the ranking,
and no flag runs ahead of the ranking. -/
structure Sound (c : Configuration) (b : BeamSearch) : Prop where
  state : b.state.Sound c
  double : b.state.sequences.spare.isSome = true
  ranking : b.ranking.Shaped c
  selector : ∃ parts, 1 ≤ parts ∧ parts ≤ Selection.maxParts ∧
    b.selector.shape = ⟨c.batchSize, c.numBeams, c.vocabSize, 2 * c.numBeams, parts⟩
  workspace : Selection.Fitting b.selector.workspace c.batchSize c.numBeams
  scores : b.beamScores = b.ranking.scores
  nextTokens : b.nextTokens.size = c.slotCount
  nextIndices : b.nextIndices.size = c.slotCount
  mask : ∀ e < c.batchSize, ∀ i < c.numBeams,
    b.state.termination.mask[e * c.numBeams + i]! = true →
      b.ranking.elements[e]!.status.isDone = true
  done : b.state.termination.done = true →
    b.ranking.allDone = true ∨ c.maxLength ≤ b.state.sequences.length

theorem takes_writeBeams {b : BeamSearch} (tokens : b.nextTokens.size = b.ranking.beams.size)
    (indices : b.nextIndices.size = b.ranking.beams.size)
    (scores : b.beamScores.size = b.ranking.beams.size) :
    writeBeams.Takes b ()
      { b with
        nextTokens := b.ranking.tokens
        nextIndices := b.ranking.sources
        beamScores := b.ranking.scores } := by
  have written {old data : Tokens} (same : old.size = data.size) :
      Buffer.overwriteTokens old data = .ok data :=
    Outcome.bind_eq_ok (Outcome.require_eq_ok _ (by simp [same])) rfl
  have written' : Buffer.overwriteScores b.beamScores b.ranking.scores = .ok b.ranking.scores :=
    Outcome.bind_eq_ok (Outcome.require_eq_ok _ (by simp [Ranking.scores, scores])) rfl
  have tokens' : b.nextTokens.size = b.ranking.tokens.size :=
    tokens.trans Array.size_map.symm
  have indices' : b.nextIndices.size = b.ranking.sources.size :=
    indices.trans Array.size_map.symm
  exact (takes_object _).bind <| (takes_call _ _).bind <| (takes_object _).bind <|
    (takes_ofOutcome (written tokens')).bind <| (takes_update _ _).bind <|
    (takes_call _ _).bind <| (takes_object _).bind <|
    (takes_ofOutcome (written indices')).bind <| (takes_update _ _).bind <|
    (takes_call _ _).bind <| (takes_object _).bind <|
    (takes_ofOutcome written').bind (takes_update _ _)

theorem gives_new {c : Configuration} {input : Tokens} (accepted : c.validate = .ok ())
    (run : c.Runnable) (prompts : SequenceStore.Accepts input c.batchSize c.maxLength) :
    ∃ b, (new c input).Gives b ∧ b.Sound c ∧ b.ranking = .initial c ∧
      b.state.sequences.length = c.promptLength input ∧
      ∀ s < c.slotCount, b.state.sequences.slot s =
        prompt input (c.promptLength input) (s / c.numBeams) := by
  have many := run.many
  have alloc := run.toAllocatable.slotCount_lt run.toValid
  obtain ⟨parts, w, pos, le, fitting, selector⟩ :=
    Selection.gives_newSelector c.vocabSize run.batch run.beams run.few run.scratch_lt
  obtain ⟨state, made, sound, length, double, held, clear, done⟩ :=
    SearchState.gives_new run.toValid run.toAllocatable prompts
  refine ⟨⟨state, .initial c, ⟨⟨c.batchSize, c.numBeams, c.vocabSize, 2 * c.numBeams, parts⟩, w⟩,
    (Ranking.initial c).scores, .replicate c.slotCount 0, .replicate c.slotCount 0⟩, ?_, ?_, rfl,
    length, held⟩
  · exact (gives_require _ (by simp; omega)).bind <|
      (gives_ofOutcome (by rw [accepted]; rfl)).bind <|
      (gives_ofOutcome (Configuration.slots_eq run.toAllocatable run.toValid)).bind <|
      (gives_ofOutcome (Ranking.new_eq run)).bind <| selector.bind <| (gives_call _).bind <|
      (gives_allocTokens alloc).bind <| (gives_allocTokens alloc).bind <| made.bind (gives_pure _)
  · constructor
    case state => exact sound
    case double => exact double many
    case ranking => exact Ranking.shaped_initial c
    case selector => exact ⟨parts, pos, le, rfl⟩
    case workspace => exact fitting
    case scores => rfl
    case nextTokens => exact Array.size_replicate
    case nextIndices => exact Array.size_replicate
    case mask =>
      intro e he i hi flag
      rw [clear _ (row_mul_add_lt he hi)] at flag
      exact absurd flag (by decide)
    case done =>
      intro ended
      rw [length]
      exact .inr (of_decide_eq_true (done.symm.trans ended))

theorem gives_newSearch {c : Configuration} {input : Tokens} {b : BeamSearch}
    (accepted : c.validate = .ok ()) (many : 2 ≤ c.numBeams) (made : (new c input).Gives b) :
    (Search.new c input).Gives (.beam b) := by
  have kind : c.isBeamSearch = true := decide_eq_true many
  refine (gives_ofOutcome (by rw [accepted]; rfl)).bind <| (gives_emit _).bind ?_
  rw [kind]
  exact made.bind (gives_pure _)

theorem fails_newSearch {c : Configuration} (input : Tokens)
    (many : Selection.maxBeams < c.numBeams) : (Search.new c input).Fails := by
  have kind : c.isBeamSearch = true := decide_eq_true (Nat.lt_trans (by decide) many)
  have refused : (1 ≤ c.numBeams && c.numBeams ≤ Selection.maxBeams) = false := by
    rw [decide_eq_false (Nat.not_le.2 many), Bool.and_false]
  refine fails_bind _ fun _ => fails_bind _ fun _ => ?_
  rw [kind, if_pos rfl]
  refine Fails.bind ?_ _
  exact fails_bind _ fun _ => fails_bind _ fun _ => fails_bind _ fun _ => fails_bind _ fun _ =>
    ((fails_require _ refused).bind _).bind _

def marked (condition : Bool) (b : BeamSearch) : BeamSearch :=
  { b with state := { b.state with termination := { b.state.termination with
      done := b.state.termination.done || condition } } }

theorem takes_markDone (b : BeamSearch) :
    (onState (SearchState.onTermination Termination.markDone)).Takes b () (b.marked true) := by
  rw [marked, Bool.or_true]
  exact takes_focus (SearchState.takes_markDone _)

@[simp] theorem marked_false (b : BeamSearch) : b.marked false = b := by
  rw [marked, Bool.or_false]

def checked (b : BeamSearch) : BeamSearch :=
  let t := b.state.termination
  let result := TokenSearch.checkForEos b.nextTokens t.mask t.eosToken t.padToken t.done
  { b with state := { b.state with
      termination := { t with mask := result.mask, done := result.done } } }

theorem takes_checkForEos {b : BeamSearch} {slots : Nat}
    (tokens : b.nextTokens.size = slots) (mask : b.state.termination.mask.size = slots)
    (padded : ∀ s < slots, b.state.termination.mask[s]! = true →
      b.nextTokens[s]! = b.state.termination.padToken) :
    checkForEos.Takes b () (b.checked.marked b.ranking.allDone) := by
  let t := b.state.termination
  let result := TokenSearch.checkForEos b.nextTokens t.mask t.eosToken t.padToken t.done
  have same : result.tokens = b.nextTokens := by
    refine Array.ext (by simp [result]) fun s hs hs' => ?_
    have inside : s < t.mask.size := by
      rw [mask, ← tokens]
      exact hs'
    have token := getElem!_tokens_checkForEos t.eosToken t.padToken t.done hs' inside
    rw [getElem!_pos result.tokens s hs, getElem!_pos b.nextTokens s hs'] at token
    rw [token]
    split
    case isTrue flag => rw [← padded s (tokens ▸ hs') flag, getElem!_pos b.nextTokens s hs']
    case isFalse => rfl
  have put : (onState (SearchState.onTermination (Termination.check b.nextTokens))).Takes b
      result.tokens b.checked := takes_focus (takes_focus (Termination.takes_check _ _))
  have updated : (Action.update fun b : BeamSearch =>
      { b with nextTokens := result.tokens }).Takes b.checked () b.checked := by
    rw [same]
    exact takes_update _ _
  refine (takes_object _).bind <| put.bind <| updated.bind ?_
  cases b.ranking.allDone with
  | true => exact takes_markDone _
  | false =>
    rw [marked_false]
    exact takes_pure _ _

section Step

variable {c : Configuration} {b : BeamSearch} (run : c.Runnable) (sound : b.Sound c)

include run sound

omit run in
theorem Sound.size_beamScores (batch : 1 ≤ c.batchSize) : b.beamScores.size = c.slotCount := by
  rw [sound.scores, Ranking.scores, Array.size_map]
  exact sound.ranking.size_beams batch

theorem takes_select :
    ∃ m w cs, select.Takes b cs
        { b with state := b.state.withMatrix m, selector := { b.selector with workspace := w } } ∧
      Selection.Fitting w c.batchSize c.numBeams ∧ m.size = c.slotCount * c.vocabSize ∧
      (∀ r < c.slotCount, ScoreMatrix.row m c.vocabSize r =
        (ScoreMatrix.row b.state.scores.scores c.vocabSize r).map (· + b.beamScores[r]!)) ∧
      cs.Selected m c.batchSize c.numBeams c.vocabSize := by
  have fits := run.toAllocatable
  have matrix := fits.matrix_lt
  have one := sound.size_beamScores run.batch
  obtain ⟨m, added, size, rows⟩ := ScoreMatrix.addRowScores_eq sound.state.scores (by omega)
    (Nat.pos_iff_ne_zero.1 run.vocabulary) one
  obtain ⟨parts, pos, le, shape⟩ := sound.selector
  obtain ⟨w, selected, fitting, candidates⟩ := Selection.takes_selected shape sound.workspace
    ⟨run.beams, run.few⟩ run.tokens pos le run.scratch_lt
    (show c.slotCount * c.vocabSize < 2 ^ 64 by omega) size
  refine ⟨m, w, w.candidates, ?_, fitting, size, rows, candidates⟩
  let b₁ : BeamSearch := { b with state := b.state.withMatrix m }
  have put : (SearchState.onScores (ScoreBuffer.transform .addBeamScores fun scores =>
      ScoreMatrix.addRowScores scores b.beamScores c.slotCount c.vocabSize)).Takes b.state ()
      (b.state.withMatrix m) :=
    takes_focus <| (takes_call _ _).bind <| (takes_object _).bind <|
      (takes_ofOutcome added).bind (takes_update _ _)
  have searched : (onSelector (Selection.Selector.select m)).Takes b₁ ()
      { b₁ with selector := { b.selector with workspace := w } } := takes_focus selected
  refine (takes_object _).bind ?_
  dsimp only
  rw [sound.state.configuration]
  exact (takes_ofOutcome (Configuration.slots_eq fits run.toValid)).bind <|
    (takes_focus put).bind <| (takes_object _).bind <| searched.bind <| (takes_call _ _).bind <|
    (takes_object _).bind <| takes_lift (Selection.gives_candidates _)

theorem takes_next_eq :
    ∃ m w cs b₁, (let r := b.ranking.processed b.state.sequences.slot b.state.sequences.length cs
        next.Takes b ()
          ⟨b.state.withMatrix m, r, { b.selector with workspace := w }, r.scores, r.tokens,
            r.sources⟩) ∧
      select.Takes b cs b₁ ∧
      Selection.Fitting w c.batchSize c.numBeams ∧ m.size = c.slotCount * c.vocabSize ∧
      (∀ r < c.slotCount, ScoreMatrix.row m c.vocabSize r =
        (ScoreMatrix.row b.state.scores.scores c.vocabSize r).map (· + b.beamScores[r]!)) ∧
      cs.Selected m c.batchSize c.numBeams c.vocabSize := by
  obtain ⟨m, w, cs, selected, fitting, size, rows, candidates⟩ := takes_select run sound
  let b₁ : BeamSearch :=
    { b with state := b.state.withMatrix m, selector := { b.selector with workspace := w } }
  refine ⟨m, w, cs, b₁, ?_, selected, fitting, size, rows, candidates⟩
  let r := b.ranking.processed b.state.sequences.slot b.state.sequences.length cs
  have processed : (Ranking.process b.state.sequences.view cs).Takes b.ranking () r :=
    Ranking.takes_process sound.ranking run.beams (Nat.le_trans run.few (by decide))
      (Nat.le_of_lt run.slots) rfl
      (fun i hi => SequenceStore.gives_sequence sound.state.sequences hi)
      candidates.scores candidates.tokens candidates.beams candidates.inside
  have ranked : (onRanking (Ranking.process b.state.sequences.view cs)).Takes b₁ ()
      { b₁ with ranking := r } := takes_focus processed
  have beams : r.beams.size = c.slotCount :=
    (sound.ranking.processed run.beams).size_beams run.batch
  exact selected.bind <| (takes_object _).bind <| ranked.bind <|
    takes_writeBeams (sound.nextTokens.trans beams.symm) (sound.nextIndices.trans beams.symm)
      ((sound.size_beamScores run.batch).trans beams.symm)

end Step

/-! ## From the choice to the longer sequences -/

structure Pending (c : Configuration) (b : BeamSearch) : Prop where
  sound : b.Sound c
  nextTokens : b.nextTokens = b.ranking.tokens
  nextIndices : b.nextIndices = b.ranking.sources
  sources : ∀ s < c.slotCount, Token.toIndex b.ranking.sources[s]! < c.slotCount

/-- As right after the choice: a flagged slot gets padding, and an end token goes to no slot of an
element that goes on. -/
structure Chosen (c : Configuration) (b : BeamSearch) : Prop extends Pending c b where
  padded : ∀ s < c.slotCount, b.state.termination.mask[s]! = true →
    b.ranking.tokens[s]! = c.padToken
  ended : ∀ e < c.batchSize, ∀ i < c.numBeams,
    b.ranking.tokens[e * c.numBeams + i]! = c.eosToken →
      b.ranking.elements[e]!.status.isDone = true

structure Chooses (c : Configuration) (b b' : BeamSearch) : Prop where
  chosen : b'.Chosen c
  sequences : b'.state.sequences = b.state.sequences
  termination : b'.state.termination = b.state.termination
  rows : ∀ r < c.slotCount, ScoreMatrix.row b'.state.scores.scores c.vocabSize r =
    (ScoreMatrix.row b.state.scores.scores c.vocabSize r).map (· + b.beamScores[r]!)
  ranking : ∃ (cs : Selection.Candidates) (b₁ : BeamSearch), select.Takes b cs b₁ ∧
    cs.Selected b'.state.scores.scores c.batchSize c.numBeams c.vocabSize ∧
    b'.ranking = b.ranking.processed b.state.sequences.slot b.state.sequences.length cs

section Processed

variable {c : Configuration} {b : BeamSearch} {read : Nat → List Token} {length : Nat}
  {cs : Selection.Candidates} (sound : b.Sound c)

include sound

theorem Sound.padded (beams : 1 ≤ c.numBeams) :
    ∀ s < c.slotCount, b.state.termination.mask[s]! = true →
      (b.ranking.processed read length cs).tokens[s]! = c.padToken := by
  refine forall_slots fun e he i hi flag => ?_
  have shaped : (b.ranking.processed read length cs).Shaped c := sound.ranking.processed beams
  rw [Ranking.tokens, shaped.getElem!_slot _ he hi, Ranking.getElem!_processed sound.ranking he]
  exact Element.token_stepped_of_done (sound.mask e he i hi flag) (sound.ranking.beams e he) hi

theorem Sound.source_lt (run : c.Runnable) {m : Scores}
    (selected : cs.Selected m c.batchSize c.numBeams c.vocabSize) : ∀ s < c.slotCount,
      Token.toIndex (b.ranking.processed read length cs).sources[s]! < c.slotCount := by
  refine forall_slots fun e he i hi => ?_
  have shaped : (b.ranking.processed read length cs).Shaped c :=
    sound.ranking.processed run.beams
  obtain ⟨j, hj, source⟩ := Ranking.source_processed sound.ranking selected.inside he hi
  have below : e * c.numBeams + j < c.slotCount := row_mul_add_lt he hj
  rw [Ranking.sources, shaped.getElem!_slot _ he hi, source,
    Token.toIndex_ofIndex (Nat.lt_trans below run.slots)]
  exact below

theorem Sound.isDone_processed {e : Nat} (he : e < c.batchSize)
    (done : b.ranking.elements[e]!.status.isDone = true) :
    (b.ranking.processed read length cs).elements[e]!.status.isDone = true := by
  rw [Ranking.getElem!_processed sound.ranking he, Element.isDone_stepped done, done]

theorem Sound.allDone_processed (beams : 1 ≤ c.numBeams) (all : b.ranking.allDone = true) :
    (b.ranking.processed read length cs).allDone = true := by
  rw [Ranking.allDone_iff (sound.ranking.processed beams)]
  exact fun e he => sound.isDone_processed he ((Ranking.allDone_iff sound.ranking).1 all e he)

theorem Sound.isDone_of_eos (beams : 1 ≤ c.numBeams) {e i : Nat} (he : e < c.batchSize)
    (hi : i < c.numBeams)
    (ends : (b.ranking.processed read length cs).tokens[e * c.numBeams + i]! = c.eosToken) :
    (b.ranking.processed read length cs).elements[e]!.status.isDone = true := by
  have shaped : (b.ranking.processed read length cs).Shaped c := sound.ranking.processed beams
  rw [Ranking.tokens, shaped.getElem!_slot _ he hi] at ends
  rw [Ranking.getElem!_processed sound.ranking he] at ends ⊢
  by_contra active
  exact Element.token_stepped_ne (Bool.eq_false_iff.2 active) (sound.ranking.beams e he) hi ends

end Processed

section Calls

variable {c : Configuration} {b : BeamSearch} (run : c.Runnable)

include run

theorem takes_next (sound : b.Sound c) : ∃ b', next.Takes b () b' ∧ Chooses c b b' := by
  obtain ⟨m, w, cs, b₁, taken, picked, fitting, size, rows, selected⟩ := takes_next_eq run sound
  let r := b.ranking.processed b.state.sequences.slot b.state.sequences.length cs
  have shaped : r.Shaped c := sound.ranking.processed run.beams
  have slots : r.beams.size = c.slotCount := shaped.size_beams run.batch
  refine ⟨_, taken, ?_, rfl, rfl, rows, cs, b₁, picked, selected, rfl⟩
  constructor
  case toPending =>
    refine ⟨?_, rfl, rfl, sound.source_lt run selected⟩
    constructor
    case state => exact sound.state.withMatrix size
    case double => exact sound.double
    case ranking => exact shaped
    case selector => exact sound.selector
    case workspace => exact fitting
    case scores => rfl
    case nextTokens => exact Array.size_map.trans slots
    case nextIndices => exact Array.size_map.trans slots
    case mask => exact fun e he i hi flag => sound.isDone_processed he (sound.mask e he i hi flag)
    case done => exact fun done => (sound.done done).imp_left (sound.allDone_processed run.beams)
  case padded => exact sound.padded run.beams
  case ended => exact fun e he i hi => sound.isDone_of_eos run.beams he hi

theorem Chosen.takes_checkForEos (chosen : b.Chosen c) :
    BeamSearch.checkForEos.Takes b () (b.checked.marked b.ranking.allDone) ∧
      (b.checked.marked b.ranking.allDone).Pending c := by
  have sound := chosen.sound
  have size : b.nextTokens.size = b.state.termination.mask.size :=
    sound.nextTokens.trans sound.state.mask.symm
  have flagged : ∀ e < c.batchSize, ∀ i < c.numBeams,
      b.checked.state.termination.mask[e * c.numBeams + i]! = true →
        b.ranking.elements[e]!.status.isDone = true := by
    intro e he i hi flag
    have slot : e * c.numBeams + i < b.state.termination.mask.size :=
      sound.state.mask ▸ row_mul_add_lt he hi
    rw [checked, getElem!_mask_checkForEos _ _ _ (size ▸ slot) slot, Bool.or_eq_true] at flag
    rcases flag with old | ends
    · exact sound.mask e he i hi old
    · rw [decide_eq_true_iff, chosen.nextTokens, sound.state.eosToken] at ends
      exact chosen.ended e he i hi ends
  have flags : b.checked.state.termination.mask.size = c.slotCount :=
    Array.size_mapIdx.trans sound.state.mask
  refine ⟨BeamSearch.takes_checkForEos sound.nextTokens sound.state.mask fun s hs flag => ?_,
    { sound with
      state := { sound.state with mask := flags }
      mask := flagged
      done := fun done => ?_ }, chosen.nextTokens, chosen.nextIndices, chosen.sources⟩
  · rw [chosen.nextTokens, sound.state.padToken]
    exact chosen.padded s hs flag
  · rcases Bool.or_eq_true_iff.1 done with checked | all
    · rcases Bool.or_eq_true_iff.1 checked with old | all
      · exact sound.done old
      · refine .inl ((Ranking.allDone_iff sound.ranking).2 fun e he => ?_)
        exact flagged e he 0 run.beams
          ((all_flags_iff flags).1 all _ (row_mul_add_lt he run.beams))
    · exact .inl all

theorem Pending.takes_append (pending : b.Pending c)
    (room : b.state.sequences.length < c.maxLength) :
    ∃ store, append.Takes b () { b with state := { b.state with sequences := store } } ∧
      BeamSearch.Sound c { b with state := { b.state with sequences := store } } ∧
      store.length = b.state.sequences.length + 1 ∧
      ∀ s < c.slotCount, store.slot s =
        b.state.sequences.slot (Token.toIndex b.ranking.sources[s]!) ++
          [b.ranking.tokens[s]!] := by
  have sound := pending.sound
  have sequences := run.toAllocatable.sequences_lt
  have inside : ∀ s < c.slotCount, Token.toIndex b.nextIndices[s]! < c.slotCount := by
    rw [pending.nextIndices]
    exact pending.sources
  obtain ⟨store, appended, sized, longer, double, each⟩ := SequenceStore.takes_appendReordered
    sound.state.sequences room (by omega) sound.double sound.nextTokens sound.nextIndices inside
  rw [pending.nextIndices, pending.nextTokens] at each
  refine ⟨store, (takes_object _).bind (takes_focus (takes_focus appended)), { sound with
    state := { sound.state with sequences := sized }
    double := double
    done := fun done => (sound.done done).imp_right fun full => ?_ }, longer, each⟩
  exact absurd room (Nat.not_lt.2 full)

end Calls

/-! ## A whole step -/

structure Decoded (c : Configuration) (processors : List Processor) (logits : Scores)
    (b b' : BeamSearch) : Prop where
  sound : b'.Sound c
  length : b'.state.sequences.length = b.state.sequences.length + 1
  rows : ∀ r < c.slotCount, ScoreMatrix.row b'.state.scores.scores c.vocabSize r =
    (processedRow c.eosToken processors (b.state.sequences.slot r)
      (ScoreMatrix.row logits c.vocabSize r)).map (· + b.beamScores[r]!)
  ranking : ∃ cs : Selection.Candidates,
    cs.Selected b'.state.scores.scores c.batchSize c.numBeams c.vocabSize ∧
    b'.ranking = b.ranking.processed b.state.sequences.slot b.state.sequences.length cs
  slots : ∀ s < c.slotCount, b'.state.sequences.slot s =
    b.state.sequences.slot (Token.toIndex b'.ranking.sources[s]!) ++ [b'.ranking.tokens[s]!]
  nextTokens : b'.nextTokens = b'.ranking.tokens
  nextIndices : b'.nextIndices = b'.ranking.sources

theorem takes_decode {c : Configuration} {b : BeamSearch} (run : c.Runnable) (sound : b.Sound c)
    (room : b.state.sequences.length < c.maxLength) {logits : Scores}
    (size : logits.size = c.slotCount * c.vocabSize) (processors : List Processor) :
    ∃ b', (Search.decode logits processors).Takes (.beam b) () (.beam b') ∧
      Decoded c processors logits b b' := by
  obtain ⟨m, scored, size', rows⟩ :=
    Search.takes_scored (s := .beam b) run.toValid run.toAllocatable sound.state size processors
  let b₀ : BeamSearch := { b with state := b.state.withMatrix m }
  have sound₀ : b₀.Sound c := { sound with state := sound.state.withMatrix size' }
  obtain ⟨b₁, taken, chooses⟩ := takes_next run sound₀
  obtain ⟨checks, pending⟩ := chooses.chosen.takes_checkForEos run
  have same : b₁.state.sequences = b.state.sequences := chooses.sequences
  obtain ⟨store, appended, sound', longer, each⟩ := pending.takes_append run
    (show b₁.state.sequences.length < c.maxLength by rwa [same])
  obtain ⟨cs, -, -, selected, ranking⟩ := chooses.ranking
  refine ⟨_, Search.takes_decode scored <| (Search.takes_beam taken).bind <|
    (Search.takes_beam checks).bind (takes_logged _ (Search.takes_beam appended)), ?_⟩
  constructor
  case sound => exact sound'
  case length =>
    rw [← same]
    exact longer
  case rows =>
    intro s hs
    exact (chooses.rows s hs).trans (congrArg (Array.map (· + b.beamScores[s]!)) (rows s hs))
  case ranking => exact ⟨cs, selected, ranking⟩
  case slots =>
    rw [← same]
    exact each
  case nextTokens => exact chooses.chosen.nextTokens
  case nextIndices => exact chooses.chosen.nextIndices

/-! ## Asking whether the run is done -/

def asked (b : BeamSearch) : BeamSearch :=
  { b with ranking := b.ranking.capLength b.state.sequences.length }.marked
    (b.ranking.capLength b.state.sequences.length).allDone

section Asked

variable {c : Configuration} {b : BeamSearch} (sound : b.Sound c)

include sound

theorem isDone_asked {e : Nat} (he : e < c.batchSize)
    (done : b.ranking.elements[e]!.status.isDone = true) :
    b.asked.ranking.elements[e]!.status.isDone = true := by
  have same : b.asked.ranking.elements[e]! = b.ranking.elements[e]! :=
    Ranking.isDone_capLength sound.ranking he done
  rw [same, done]

theorem allDone_asked_of_full (full : c.maxLength ≤ b.state.sequences.length) :
    b.asked.ranking.allDone = true :=
  Ranking.allDone_capLength_of_full sound.ranking full

theorem done_asked : b.asked.state.termination.done = b.asked.ranking.allDone := by
  show (b.state.termination.done || b.asked.ranking.allDone) = b.asked.ranking.allDone
  cases done : b.state.termination.done with
  | false => rw [Bool.false_or]
  | true =>
    rcases sound.done done with before | full
    · rw [show b.asked.ranking.allDone = true from
        Ranking.allDone_capLength sound.ranking before, Bool.or_true]
    · rw [allDone_asked_of_full sound full, Bool.or_true]

theorem takes_isDone : isDone.Takes b b.asked.ranking.allDone b.asked ∧ b.asked.Sound c := by
  let r := b.ranking.capLength b.state.sequences.length
  let b₁ : BeamSearch := { b with ranking := r }
  have capped : (onRanking (Action.update
      (Ranking.capLength b.state.sequences.length))).Takes b () b₁ := takes_focus (takes_update _ _)
  have told : (onState (SearchState.onTermination Termination.isDone)).Takes b.asked
      b.asked.state.termination.done b.asked := by
    unfold onState
    exact takes_focus (SearchState.takes_isDone b.asked.state)
  refine ⟨?_, { sound with
    state := { sound.state with mask := sound.state.mask }
    ranking := sound.ranking.capLength _
    scores := ?_
    mask := ?_
    done := ?_ }⟩
  · rw [done_asked sound] at told
    refine (takes_object _).bind <| capped.bind <| (takes_object _).bind ?_
    by_cases ended : r.allDone = true
    · have marked : b.asked = b₁.marked true := congrArg b₁.marked ended
      rw [if_pos ended]
      exact (marked ▸ takes_markDone b₁).bind told
    · have unmarked : b.asked = b₁ :=
        (congrArg b₁.marked (Bool.eq_false_iff.2 ended)).trans b₁.marked_false
      rw [if_neg ended, ← unmarked]
      exact told
  · show b.beamScores = r.scores
    rw [sound.scores, Ranking.scores, Ranking.scores, Ranking.beams_capLength]
  · exact fun e he i hi flag => isDone_asked sound he (sound.mask e he i hi flag)
  · exact fun done => .inl ((done_asked sound).symm.trans done)

end Asked

theorem takes_step {c : Configuration} {s : BeamSearch} (run : c.Runnable) (sound : s.Sound c)
    (room : s.state.sequences.length < c.maxLength) {g : Generator} (search : g.search = .beam s)
    {logits : Scores}
    (forward : g.model.forward g.passes s.state.sequences.toList = .ok logits)
    (size : logits.size = c.slotCount * c.vocabSize) :
    ∃ s', Decoded c [.minLength c.minLength, .repetitionPenalty c.repetitionPenalty] logits s s' ∧
      Generator.step.Takes g s'.asked.ranking.allDone
        { g with search := .beam s'.asked, steps := g.steps + 1, passes := g.passes + 1 } := by
  obtain ⟨s', taken, decoded⟩ := takes_decode run sound room size
    [.minLength c.minLength, .repetitionPenalty c.repetitionPenalty]
  have configuration : g.search.state.configuration = c := by
    rw [search]
    exact sound.state.configuration
  rw [← search] at taken
  exact ⟨s', decoded, Generator.takes_step configuration (by rw [search]; exact forward) taken
    (Search.takes_beam (takes_isDone decoded.sound).1)⟩

/-! ## Final rows -/

theorem takes_finalize {c : Configuration} {s : BeamSearch} (run : c.Runnable) (sound : s.Sound c) :
    (finalize c.numReturned (c.batchSize * c.numReturned * c.maxLength)
      (c.batchSize * c.numReturned)).Takes s
      ((s.ranking.closed s.state.sequences.slot).bestRows c.numReturned,
        (s.ranking.closed s.state.sequences.slot).bestScores c.numReturned)
      { s with ranking := s.ranking.closed s.state.sequences.slot } := by
  have sequences := run.sequences
  have rows : c.batchSize * c.numReturned * c.maxLength ≤ c.batchSize * c.numBeams * c.maxLength :=
    Nat.mul_le_mul_right _ (Nat.mul_le_mul_left _ run.returned.2)
  exact (takes_object _).bind <| takes_focus <| Ranking.takes_finalize sound.ranking
    (fun i hi => SequenceStore.gives_sequence sound.state.sequences hi) run.returned run.long
    (by omega)

end BeamSearch

end TokenSearch
