import TokenSearch.Proofs.Beam.Hypotheses
import TokenSearch.Proofs.Beam.Run
import TokenSearch.Proofs.Search.Completion

/-!
What a beam search returns for a prompt: as many rows as were asked for, each the prompt with
tokens of the vocabulary up to the first end token or the full length, the best ones first. While
no negative NaN is handed to the selection, every element follows a plain search, which has as many
paths as there are beams or a pool full of ended sequences.
-/

namespace TokenSearch

open TokenSearch.Run TokenSearch.Action

namespace BeamSearch

structure Grown (c : Configuration) (input : Tokens) (t : Nat) (s : BeamSearch) : Prop where
  sound : s.Sound c
  length : s.state.sequences.length = c.promptLength input + t
  elements : ∀ b < c.batchSize, ∃ p : PlainBeam, Follows c s b p ∧
    p.Formed c (prompt input (c.promptLength input) b) t

section Grown

variable {c : Configuration} {input : Tokens} {t : Nat} {s s' : BeamSearch}

theorem grown_new (accepted : c.validate = .ok ()) (run : c.Runnable)
    (prompts : SequenceStore.Accepts input c.batchSize c.maxLength) :
    ∃ s, (Search.new c input).Gives (.beam s) ∧ Grown c input 0 s := by
  obtain ⟨s, made, sound, length, follows⟩ := follows_new accepted run prompts
  exact ⟨s, made, sound, length, fun b hb => ⟨_, follows b hb, PlainBeam.formed_start c _⟩⟩

theorem Grown.asked (grown : Grown c input t s) : Grown c input t s.asked := by
  refine ⟨(takes_isDone grown.sound).2, grown.length, fun b hb => ?_⟩
  obtain ⟨p, follows, formed⟩ := grown.elements b hb
  exact ⟨p, follows_asked grown.sound hb follows, formed⟩

theorem Grown.decode (run : c.Runnable) (grown : Grown c input t s)
    (room : s.state.sequences.length < c.maxLength) {processors : List Processor} {logits : Scores}
    (decoded : Decoded c processors logits s s') (clean : NoNegativeNaN s'.state.scores.scores) :
    Grown c input (t + 1) s' := by
  refine ⟨decoded.sound, by rw [decoded.length, grown.length, Nat.add_assoc], fun b hb => ?_⟩
  obtain ⟨p, follows, formed⟩ := grown.elements b hb
  exact ⟨_, follows_decode run grown.sound room decoded clean hb follows,
    formed.advance run.toValid (run.pairs run.many)⟩

theorem Grown.closed (run : c.Runnable) (grown : Grown c input t s)
    (ended : s.ranking.allDone = true) {b : Nat} (hb : b < c.batchSize) :
    let pool := (s.ranking.closed s.state.sequences.slot).elements[b]!.pool
    c.numBeams ≤ pool.size ∧ ∀ h ∈ pool.kept, ∃ tokens,
      h.tokens = prompt input (c.promptLength input) b ++ tokens ∧
      c.Generated (c.promptLength input) tokens := by
  obtain ⟨p, follows, formed⟩ := grown.elements b hb
  have room := grown.length ▸ grown.sound.state.sequences.length
  have full : p.finished = false → c.promptLength input + t = c.maxLength := by
    intro going
    have done := (Ranking.allDone_iff grown.sound.ranking).1 ended b hb
    exact Nat.le_antisymm room (grown.length ▸ (follows.live going).capped done)
  rw [follows.closed grown.sound hb]
  exact formed.result run.toValid room full

end Grown

/-! ## Rows of hypotheses -/

section Rows

variable {c : Configuration} {pool : HypothesisPool} {h : Hypothesis} {i j : Nat}

theorem rowOf_eq (place : pool.sorted[i]? = some h) (short : h.tokens.length ≤ c.maxLength) :
    Ranking.rowOf c pool i =
      h.tokens ++ List.replicate (c.maxLength - h.tokens.length) c.padToken := by
  rw [Ranking.rowOf, place, Option.map_some, Option.getD_some, Ranking.fit,
    List.take_of_length_le short]

theorem scoreOf_eq (place : pool.sorted[i]? = some h) : Ranking.scoreOf pool i = h.score := by
  rw [Ranking.scoreOf, place, Option.map_some, Option.getD_some]

theorem exists_sorted (inside : i < pool.size) : ∃ h ∈ pool.kept, pool.sorted[i]? = some h := by
  have inside' : i < pool.sorted.length := by rwa [HypothesisPool.sorted, List.length_mergeSort]
  exact ⟨_, List.mem_mergeSort.1 (List.getElem_mem inside'), List.getElem?_eq_getElem inside'⟩

theorem rank_scoreOf_le (inside : j < pool.size) (before : i < j) :
    (Ranking.scoreOf pool j).rank ≤ (Ranking.scoreOf pool i).rank := by
  have length : pool.sorted.length = pool.size := List.length_mergeSort _
  have ordered := List.pairwise_iff_getElem.1 pool.pairwise_sorted i j (by omega) (by omega) before
  rwa [scoreOf_eq (List.getElem?_eq_getElem (by omega)),
    scoreOf_eq (List.getElem?_eq_getElem (by omega))]

end Rows

/-! ## Runs -/

section Kept

variable (c : Configuration) (input : Tokens) (model : Model) (g₀ : Generator)
  (K : Nat → BeamSearch → Prop)

/-- What `K` says after `t` steps of the run from `g₀` is kept by asking whether the run is done,
and by the steps that the run takes. -/
structure Preserved : Prop where
  sound : ∀ {t s}, K t s → s.Sound c
  length : ∀ {t s}, K t s → s.state.sequences.length = c.promptLength input + t
  asked : ∀ {t s}, K t s → K t s.asked
  decode : ∀ {t s s' logits passes g}, K t s → s.state.sequences.length < c.maxLength →
    model.forward passes s.state.sequences.toList = .ok logits →
    Decoded c [.minLength c.minLength, .repetitionPenalty c.repetitionPenalty] logits s s' →
    g₀.Reaches (t + 1) g → g.search = .beam s'.asked → K (t + 1) s'

structure Stands (t : Nat) (g : Generator) : Prop where
  model : g.model = model
  reached : g₀.Reaches t g
  kept : ∃ s, g.search = .beam s ∧ K t s

def Ended (t : Nat) (g : Generator) : Prop :=
  ∃ s, g.search = .beam s ∧ K t s ∧ s.ranking.allDone = true

structure Closed (tokens : Tokens) (scores : Scores) (g : Generator) (s : BeamSearch) : Prop where
  kept : ∃ t, K t s
  ended : s.ranking.allDone = true
  search : g.search = .beam { s with ranking := s.ranking.closed s.state.sequences.slot }
  lists : Ranking.Lists c
    (fun b => (s.ranking.closed s.state.sequences.slot).elements[b]!.pool) tokens scores

end Kept

section Runs

variable {c : Configuration} {input : Tokens} {model : Model} {g₀ : Generator}
  {K : Nat → BeamSearch → Prop}

theorem turns_stands (run : c.Runnable) (sized : model.Fits c)
    (preserved : Preserved c input model g₀ K) :
    Generator.Turns (Stands model g₀ K) (Ended K) (c.maxLength - c.promptLength input) := by
  rintro t g ⟨held, reached, s, search, kept⟩
  have sound := preserved.sound kept
  have answer : Search.isDone.Takes g.search s.asked.ranking.allDone (.beam s.asked) := by
    rw [search]
    exact Search.takes_beam (takes_isDone sound).1
  refine ⟨_, _, answer, fun ended => ⟨_, rfl, preserved.asked kept, ended⟩, fun going => ?_⟩
  have room : s.state.sequences.length < c.maxLength := by
    refine Nat.lt_of_not_le fun full => ?_
    exact absurd (going.symm.trans (allDone_asked_of_full sound full)) (by decide)
  have slots : s.asked.state.sequences.toList.length = c.slotCount := by
    rw [SequenceStore.toList_eq, List.length_map, List.length_range]
    exact sound.state.sequences.slots
  obtain ⟨logits, forward, size⟩ := sized g.passes _ slots
  obtain ⟨s', decoded, taken⟩ := takes_step (g := { g with search := .beam s.asked }) run
    (takes_isDone sound).2 room rfl (held ▸ forward) size
  have next := reached.step (going ▸ answer) taken
  have length := preserved.length kept
  have grown := preserved.decode (preserved.asked kept) room forward decoded next rfl
  exact ⟨by omega, _, _, taken, held, next, _, rfl, preserved.asked grown⟩

theorem stands_of_reaches (run : c.Runnable) (sized : model.Fits c)
    (preserved : Preserved c input model g₀ K) {s₀ : BeamSearch} (held : g₀.model = model)
    (search : g₀.search = .beam s₀) (first : K 0 s₀) {t : Nat} {g : Generator}
    (reached : g₀.Reaches t g) : Stands model g₀ K t g :=
  (turns_stands run sized preserved).of_reaches ⟨held, .start, s₀, search, first⟩ reached

theorem Ended.closed {t : Nat} {g : Generator} (run : c.Runnable)
    (preserved : Preserved c input model g₀ K) (final : Ended K t g) :
    ∃ tokens scores s', (Search.finalize c.numReturned
        (c.batchSize * c.numReturned * c.maxLength) (c.batchSize * c.numReturned)).Takes g.search
        (tokens, scores) s' ∧ ∃ s, Closed c K tokens scores { g with search := s' } s := by
  obtain ⟨s, search, kept, ended⟩ := final
  have sound := preserved.sound kept
  have rows := takes_finalize run sound
  rw [search]
  exact ⟨_, _, _, Search.takes_beam rows, s, ⟨t, kept⟩, ended, rfl,
    Ranking.lists_best (sound.ranking.closed _)⟩

/-- A run keeps what its steps keep, and returns what its last search holds. -/
theorem gives_runToEnd_kept (run : c.Runnable) (sized : model.Fits c) {s₀ : BeamSearch}
    (made : (Search.new c input).Gives (.beam s₀)) (first : K 0 s₀)
    (preserved : Preserved c input model ⟨.beam s₀, model, 0, 0⟩ K) :
    ∃ tokens scores g s, (Generator.runToEnd c input model).Gives
      (⟨tokens, scores, c.numReturned, c.maxLength⟩, g) ∧ Closed c K tokens scores g s := by
  obtain ⟨-, tokens, scores, g, given, s, closed⟩ := Generator.gives_runToEnd_of_turns
    (Q := fun _ tokens scores g => ∃ s, Closed c K tokens scores g s)
    run.toValid run.toAllocatable made (preserved.sound first).state.configuration
    (preserved.length first) ⟨rfl, .start, s₀, rfl, first⟩ (turns_stands run sized preserved)
    fun _ _ final => final.closed run preserved
  exact ⟨tokens, scores, g, s, given, closed⟩

theorem preserved_grown (run : c.Runnable)
    (clean : ∀ t g, g₀.Reaches (t + 1) g → NoNegativeNaN g.search.state.scores.scores) :
    Preserved c input model g₀ (Grown c input) where
  sound := Grown.sound
  length := Grown.length
  asked := Grown.asked
  decode grown room _ decoded next search := by
    have handed := clean _ _ next
    rw [search] at handed
    exact grown.decode run room decoded handed

theorem gives_runToEnd_closed (accepted : c.validate = .ok ()) (run : c.Runnable)
    (prompts : SequenceStore.Accepts input c.batchSize c.maxLength) (sized : model.Fits c)
    (clean : ∀ g₀, (Generator.new c input model).Gives g₀ →
      ∀ t g, g₀.Reaches (t + 1) g → NoNegativeNaN g.search.state.scores.scores) :
    ∃ tokens scores g s, (Generator.runToEnd c input model).Gives
        (⟨tokens, scores, c.numReturned, c.maxLength⟩, g) ∧
      Closed c (Grown c input) tokens scores g s := by
  obtain ⟨s₀, made, grown₀⟩ := grown_new accepted run prompts
  have created : (Generator.new c input model).Gives ⟨.beam s₀, model, 0, 0⟩ :=
    made.bind (gives_pure _)
  exact gives_runToEnd_kept run sized made grown₀ (preserved_grown run (clean _ created))

end Runs

end BeamSearch

/-- Beam search over matrices without a negative NaN returns, for every prompt, rows of hypotheses
that it kept, none of them cut: the prompt, generated tokens and padding, with the scores never
increasing. Slots and tokens are assumed to fit signed 32-bit words, which is not checked: a token
past them is taken for a filler, and the sequence of a slot past them cannot be gathered. -/
theorem beam_rows_well_formed {c : Configuration} (accepted : c.validate = .ok ())
    (many : 2 ≤ c.numBeams) (few : c.numBeams ≤ Selection.maxBeams) (fits : c.Addressable)
    {input : Tokens} (prompts : SequenceStore.Accepts input c.batchSize c.maxLength) {model : Model}
    (sized : model.Fits c)
    (clean : ∀ g₀, (Generator.new c input model).Gives g₀ →
      ∀ t g, g₀.Reaches (t + 1) g → NoNegativeNaN g.search.state.scores.scores) :
    ∃ output g s, (Generator.runToEnd c input model).Gives (output, g) ∧ g.search = .beam s ∧
      output.tokens.size = c.batchSize * c.numReturned * c.maxLength ∧
      output.scores.size = c.batchSize * c.numReturned ∧
      ∀ b < c.batchSize,
        (∀ i < c.numReturned, ∃ generated h,
          (output.row (b * c.numReturned + i)).toList =
            prompt input (c.promptLength input) b ++ generated ++
              List.replicate (c.maxLength - (c.promptLength input + generated.length)) c.padToken ∧
          c.Generated (c.promptLength input) generated ∧
          s.ranking.elements[b]!.pool.sorted[i]? = some h ∧
          h.tokens = prompt input (c.promptLength input) b ++ generated ∧
          h.score = output.scores[b * c.numReturned + i]!) ∧
        ∀ j < c.numReturned, ∀ i < j,
          output.scores[b * c.numReturned + j]!.rank ≤
            output.scores[b * c.numReturned + i]!.rank := by
  have run : c.Runnable := ⟨Configuration.valid_of_validate accepted, fits, many, few⟩
  obtain ⟨tokens, scores, g, s, given, ⟨t, grown⟩, ended, final, lists⟩ :=
    BeamSearch.gives_runToEnd_closed accepted run prompts sized clean
  refine ⟨_, g, _, given, final, lists.size, lists.count, fun b hb => ?_⟩
  obtain ⟨enough, whole⟩ := grown.closed run ended hb
  have inside : ∀ i < c.numReturned,
      i < (s.ranking.closed s.state.sequences.slot).elements[b]!.pool.size :=
    fun i hi => Nat.lt_of_lt_of_le (Nat.lt_of_lt_of_le hi run.returned.2) enough
  refine ⟨fun i hi => ?_, fun j hj i before => ?_⟩
  · obtain ⟨h, kept, place⟩ := BeamSearch.exists_sorted (inside i hi)
    obtain ⟨generated, tokens_eq, ends⟩ := whole h kept
    have length : h.tokens.length = c.promptLength input + generated.length := by
      rw [tokens_eq, List.length_append, length_prompt prompts hb]
    have row := (lists.row b hb i hi).trans
      (BeamSearch.rowOf_eq place (length ▸ ends.fits))
    have score := (lists.score b hb i hi).trans (BeamSearch.scoreOf_eq place)
    rw [length, tokens_eq] at row
    exact ⟨generated, h, row, ends, place, tokens_eq, score.symm⟩
  · have ordered := BeamSearch.rank_scoreOf_le (inside j hj) before
    rwa [← lists.score b hb j hj, ← lists.score b hb i (Nat.lt_trans before hj)] at ordered

/-- One step to go over two tokens that tie: both beams of a prompt that holds an end token. -/
theorem beam_rows_well_formed_of_tie :
    let c : Configuration :=
      { batchSize := 1, numBeams := 2, vocabSize := 2, maxLength := 3, eosToken := 1, padToken := 0,
        numReturned := 2 }
    let model : Model := .ofSlots fun _ => [.one, .one]
    ∃ output g s, (Generator.runToEnd c #[1, 0] model).Gives (output, g) ∧ g.search = .beam s ∧
      (∀ i < 2, ∃ generated h,
        (output.row i).toList =
          [1, 0] ++ generated ++ List.replicate (3 - (2 + generated.length)) 0 ∧
        c.Generated 2 generated ∧ s.ranking.elements[0]!.pool.sorted[i]? = some h ∧
        h.tokens = [1, 0] ++ generated) ∧
      output.scores[1]!.rank ≤ output.scores[0]!.rank := by
  intro c model
  let logits : List Token → List Binary32 := fun _ => [.one, .one]
  have accepted : c.validate = .ok () := by decide +kernel
  have fits : c.Addressable := ⟨⟨by decide, by decide⟩, by decide, by decide⟩
  have run : c.Runnable := ⟨Configuration.valid_of_validate accepted, fits, by decide, by decide⟩
  have prompts : SequenceStore.Accepts #[1, 0] 1 3 := ⟨by decide, by decide, by decide⟩
  have width : ∀ tokens, (logits tokens).length = 2 := fun _ => rfl
  have two : c.promptLength #[1, 0] = 2 := by decide
  let start := BeamSearch.plain c logits #[1, 0] 0 0
  have handed : ∀ r < 2,
      NoNegativeNaN ((start.rows c logits r).map (· + start.live[r]!.score)) := by decide +kernel
  have clean : ∀ t s m s', BeamSearch.Tracks c logits #[1, 0] t s →
      BeamSearch.stops c logits #[1, 0] t = false →
      BeamSearch.Decoded c [.minLength 0, .repetitionPenalty c.repetitionPenalty] m s s' →
      (∀ r < 2, ScoreMatrix.row m 2 r = (logits (s.state.sequences.slot r)).toArray) →
      NoNegativeNaN s'.state.scores.scores := by
    intro t s m s' tracks going decoded rows
    have room : c.promptLength #[1, 0] + t < 3 := c.room_of_going going
    obtain rfl : t = 0 := by omega
    refine .of_rows decoded.sound.state.scores fun r hr => ?_
    have row := tracks.row_eq decoded rows (show 0 < 1 by decide) rfl hr
    rw [Nat.zero_mul, Nat.zero_add] at row
    exact row ▸ handed r hr
  obtain ⟨output, g, s, given, search, -, -, all⟩ := beam_rows_well_formed accepted (by decide)
    (by decide) fits prompts (Model.fits_ofSlots width) fun g₀ made t g reached =>
      BeamSearch.noNegativeNaN_of_reaches run width clean accepted prompts made reached
  obtain ⟨rows, ordered⟩ := all 0 (by decide)
  have held : prompt #[1, 0] (c.promptLength #[1, 0]) 0 = [1, 0] := by decide +kernel
  refine ⟨output, g, s, given, search, fun i hi => ?_, ordered 1 (by decide) 0 (by decide)⟩
  obtain ⟨generated, h, row, ends, place, tokens, -⟩ := rows i hi
  rw [held] at row tokens
  rw [two] at row ends
  rw [Nat.zero_mul, Nat.zero_add] at row
  exact ⟨generated, h, row, ends, place, tokens⟩

end TokenSearch
