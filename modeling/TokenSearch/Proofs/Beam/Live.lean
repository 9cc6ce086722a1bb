import TokenSearch.Proofs.Beam.Calls
import TokenSearch.Proofs.Beam.Refinement

/-!
No element of a beam search runs out of live beams. The best `2 * numBeams` extensions of an
element are different pairs of a slot and a token, and each slot has one extension that ends it, so
`numBeams` of them go on, whatever the ties are and down to a vocabulary of two tokens.
-/

namespace TokenSearch

open TokenSearch.Run TokenSearch.Action

/-- Every place of element `index` holds a live beam, and no two hold the same one. -/
structure Element.Filled (c : Configuration) (index : Nat) (e : Element) : Prop where
  count : e.beams.size = c.numBeams
  source : ∀ b ∈ e.beams, ∃ j < c.numBeams, b.source = ((index * c.numBeams + j : Nat) : Token)
  token : ∀ b ∈ e.beams, 0 ≤ b.token ∧ b.token < c.vocabSize ∧ b.token ≠ c.eosToken
  distinct : (e.beams.toList.map fun b => (b.source, b.token)).Nodup
  status : e.status = .active ∨ e.status = .done .completed

namespace PlainBeam

section Beams

variable {c : Configuration} {p : PlainBeam} {rows : Nat → Scores} {index : Nat}

theorem source_of_mem_going (run : c.Runnable) (inside : index < c.batchSize) {x : Extension}
    (h : x ∈ going c (p.candidates c rows)) :
    (x.toCandidate.toBeam (index * c.numBeams)).source =
      ((index * c.numBeams + x.path : Nat) : Token) := by
  have path := (mem_candidates (mem_of_mem_going h)).1
  have few : c.numBeams ≤ 32 := run.few
  have slot : index * c.numBeams + x.path < c.slotCount := row_mul_add_lt inside path
  rw [Candidate.source_toBeam, Extension.slot_toCandidate _ (by omega),
    Token.ofIndex_of_lt (Nat.lt_trans slot run.slots)]

@[simp] theorem token_toBeam (base : Nat) (x : Extension) :
    (x.toCandidate.toBeam base).token = (x.token : Nat) := by
  simp only [Candidate.toBeam, Extension.toCandidate]

theorem filled_going (run : c.Runnable) (inside : index < c.batchSize) {status : Status}
    (goes : status = .active ∨ status = .done .completed) (pool : HypothesisPool) :
    Element.Filled c index
      ⟨status, pool, ((going c (p.candidates c rows)).map
        fun x => x.toCandidate.toBeam (index * c.numBeams)).toArray⟩ := by
  constructor
  case count =>
    rw [List.size_toArray, List.length_map, length_going run.toValid (run.pairs run.many)]
  case source =>
    intro b hb
    obtain ⟨x, hx, rfl⟩ := List.mem_map.1 (List.mem_toArray.1 hb)
    exact ⟨x.path, (mem_candidates (mem_of_mem_going hx)).1, source_of_mem_going run inside hx⟩
  case token =>
    intro b hb
    obtain ⟨x, hx, rfl⟩ := List.mem_map.1 (List.mem_toArray.1 hb)
    have token := (mem_candidates (mem_of_mem_going hx)).2
    rw [token_toBeam]
    exact ⟨Int.natCast_nonneg _, Int.ofNat_lt.2 token, ends_of_mem_going hx⟩
  case distinct =>
    let place (pair : Nat × Nat) : Token × Token :=
      (((index * c.numBeams + pair.1 : Nat) : Int), ((pair.2 : Nat) : Int))
    have apart : Function.Injective place := by
      rintro ⟨j, t⟩ ⟨j', t'⟩ same
      obtain ⟨source, token⟩ := Prod.mk.inj same
      exact Prod.ext (Nat.add_left_cancel (Int.ofNat_inj.1 source)) (Int.ofNat_inj.1 token)
    have beams : ((going c (p.candidates c rows)).map
          fun x => x.toCandidate.toBeam (index * c.numBeams)).map (fun b => (b.source, b.token)) =
        ((going c (p.candidates c rows)).map fun x => (x.path, x.token)).map place := by
      rw [List.map_map, List.map_map]
      refine List.map_congr_left fun x hx => ?_
      simp only [Function.comp_apply, source_of_mem_going run inside hx, token_toBeam, place]
    rw [beams]
    exact nodup_going.map apart
  case status => exact goes

end Beams

end PlainBeam

namespace BeamSearch

def pathsOf (c : Configuration) (s : BeamSearch) (b : Nat) : PlainBeam where
  live := (List.range c.numBeams).map fun i =>
    ⟨s.state.sequences.slot (b * c.numBeams + i), s.beamScores[b * c.numBeams + i]!⟩
  pool := s.ranking.elements[b]!.pool
  finished := false

theorem getElem!_pathsOf {c : Configuration} {s : BeamSearch} {b i : Nat} (hi : i < c.numBeams) :
    (pathsOf c s b).live[i]! =
      ⟨s.state.sequences.slot (b * c.numBeams + i), s.beamScores[b * c.numBeams + i]!⟩ := by
  simp [pathsOf, hi]

theorem Chooses.held {c : Configuration} {s s' : BeamSearch} {b : Nat} (chooses : Chooses c s s')
    (hb : b < c.batchSize) : ∀ j < c.numBeams,
      ScoreMatrix.row s'.state.scores.scores c.vocabSize (b * c.numBeams + j) =
        (ScoreMatrix.row s.state.scores.scores c.vocabSize (b * c.numBeams + j)).map
          (· + (pathsOf c s b).live[j]!.score) := by
  intro j hj
  rw [chooses.rows _ (row_mul_add_lt hb hj), getElem!_pathsOf hj]

section Step

variable {c : Configuration} {s s' : BeamSearch} {b : Nat} (run : c.Runnable) (sound : s.Sound c)
  (chooses : Chooses c s s') (clean : NoNegativeNaN s'.state.scores.scores) (hb : b < c.batchSize)

include run sound chooses clean hb

theorem Chooses.filled (active : s.ranking.elements[b]!.status.isDone = false) :
    s'.ranking.elements[b]!.Filled c b := by
  obtain ⟨cs, _, -, selected, ranking⟩ := chooses.ranking
  have going : s.ranking.elements[b]!.status = .active := by
    cases status : s.ranking.elements[b]!.status with
    | active => rfl
    | done _ =>
      rw [status] at active
      cases active
  rw [ranking, sound.getElem!_processed (p := pathsOf c s b) run hb selected clean
    chooses.chosen.sound.state.scores active rfl (fun i hi => by rw [getElem!_pathsOf hi])
    (chooses.held hb), going]
  refine PlainBeam.filled_going run hb ?_ _
  split
  · exact .inr rfl
  · exact .inl rfl

theorem Chooses.takes_walk {cs : Selection.Candidates}
    (selected : cs.Selected s'.state.scores.scores c.batchSize c.numBeams c.vocabSize) :
    ∃ retired e, (Element.walk c.numBeams c.eosToken s.state.sequences.view (b * c.numBeams) 0 0 0
      (Ranking.candidatesOf cs (2 * c.numBeams) b)).Takes s.ranking.elements[b]!
        (c.numBeams, retired) e := by
  have candidates := PlainBeam.candidatesOf_eq run hb selected clean
    chooses.chosen.sound.state.scores (chooses.held hb)
  have enough : (PlainBeam.going c ((pathsOf c s b).candidates c fun j =>
      ScoreMatrix.row s.state.scores.scores c.vocabSize (b * c.numBeams + j))).length =
      c.numBeams := PlainBeam.length_going run.toValid (run.pairs run.many)
  have reads : ∀ i < c.slotCount,
      (s.state.sequences.view.read i).Gives (s.state.sequences.slot i) :=
    fun i hi => SequenceStore.gives_sequence sound.state.sequences hi
  have walked : (Element.walk c.numBeams c.eosToken s.state.sequences.view (b * c.numBeams) 0 0 0
      (Ranking.candidatesOf cs (2 * c.numBeams) b)).Takes s.ranking.elements[b]! _ _ :=
    Element.takes_walk reads (Nat.lt_trans run.slots (by decide))
      (fun d hd => row_mul_add_lt hb (selected.inside b hb d hd)) run.beams (Nat.le_refl 0)
      (sound.ranking.beams b hb)
  have all : min c.numBeams (0 + (Candidate.going c.eosToken
      (Ranking.candidatesOf cs (2 * c.numBeams) b)).length) = c.numBeams := by
    simp [PlainBeam.going] at enough
    simp [candidates]
    omega
  rw [all] at walked
  exact ⟨_, _, walked⟩

end Step

def Lively (c : Configuration) (s : BeamSearch) : Prop :=
  ∀ b < c.batchSize, s.ranking.elements[b]!.status ≠ .done .exhausted

theorem Lively.affects {c : Configuration} {s s' : BeamSearch} (run : c.Runnable)
    (sound : s.Sound c) (lively : Lively c s) (affects : Affects c NoNegativeNaN s s') :
    Lively c s' := by
  intro b hb
  cases affects with
  | spared h =>
    rw [h.ranking]
    exact lively b hb
  | chosen chooses clean =>
    cases done : s.ranking.elements[b]!.status.isDone with
    | true =>
      obtain ⟨cs, -, -, -, ranking⟩ := chooses.ranking
      rw [ranking, Ranking.getElem!_processed sound.ranking hb, Element.isDone_stepped done]
      exact lively b hb
    | false =>
      rcases (chooses.filled run sound clean hb done).status with active | completed
      · rw [active]
        nofun
      · rw [completed]
        nofun
  | asked h =>
    subst h
    have element : s.asked.ranking.elements[b]! = _ := Ranking.getElem!_capLength sound.ranking hb
    rw [element]
    split
    · exact Element.status_capped_ne (lively b hb) nofun
    · exact lively b hb

end BeamSearch

/-- Whatever the logits were so far, a choice over a matrix without a negative NaN finds as many
live beams as there are places, no two alike, in every element that goes on. So no element runs
out of beams while every matrix is like that. Slots and tokens are assumed to fit signed 32-bit
words, which is not checked: a token past them is taken for a filler and leaves a place empty. -/
theorem beam_stays_live {c : Configuration} (accepted : c.validate = .ok ())
    (many : 2 ≤ c.numBeams) (few : c.numBeams ≤ Selection.maxBeams) (fits : c.Addressable)
    {input : Tokens} (prompts : SequenceStore.Accepts input c.batchSize c.maxLength) :
    (∀ s, BeamSearch.Reachable c input (fun _ => True) ⟨.scored, s⟩ →
      ∃ cs selected s', BeamSearch.select.Takes s cs selected ∧
        Search.next.Takes (.beam s) () (.beam s') ∧
        (NoNegativeNaN s'.state.scores.scores → ∀ b < c.batchSize,
          s.ranking.elements[b]!.status.isDone = false →
            (∃ retired e, (Element.walk c.numBeams c.eosToken s.state.sequences.view
              (b * c.numBeams) 0 0 0 (Ranking.candidatesOf cs (2 * c.numBeams) b)).Takes
                s.ranking.elements[b]! (c.numBeams, retired) e) ∧
            s'.ranking.elements[b]!.Filled c b)) ∧
    ∀ p, BeamSearch.Reachable c input NoNegativeNaN p → ∀ b < c.batchSize,
      p.search.ranking.elements[b]!.status ≠ .done .exhausted := by
  have run : c.Runnable := ⟨Configuration.valid_of_validate accepted, fits, many, few⟩
  refine ⟨fun s reachable => ?_, fun p reachable => ?_⟩
  · have sound : s.Sound c := reachable.sound accepted run prompts
    obtain ⟨s', taken, chooses⟩ := BeamSearch.takes_next run sound
    obtain ⟨cs, selecting, picked, selected, -⟩ := chooses.ranking
    exact ⟨cs, selecting, s', picked, Search.takes_beam taken, fun clean b hb active =>
      ⟨chooses.takes_walk run sound clean hb selected, chooses.filled run sound clean hb active⟩⟩
  · have lively : ∀ s : BeamSearch, s.ranking = .initial c → BeamSearch.Lively c s := by
      intro s ranking b hb
      rw [ranking, Ranking.getElem!_initial hb]
      nofun
    exact (reachable.keeps accepted run prompts lively
      fun _ _ sound _ affects lively => lively.affects run sound affects).2

/-- Two beams over two tokens that tie: one of the two tokens ends the sequences, and the beams
left are one of either slot. -/
theorem beam_stays_live_of_tie :
    let c : Configuration :=
      { batchSize := 1, numBeams := 2, vocabSize := 2, maxLength := 3, eosToken := 1, padToken := 0 }
    ∃ s s', BeamSearch.Reachable c #[0] NoNegativeNaN ⟨.scored, s⟩ ∧
      Search.next.Takes (.beam s) () (.beam s') ∧ s'.ranking.elements[0]!.Filled c 0 ∧
      BeamSearch.Reachable c #[0] NoNegativeNaN ⟨.chosen, s'⟩ ∧
      s'.ranking.elements[0]!.status ≠ .done .exhausted := by
  intro c
  have accepted : c.validate = .ok () := by decide +kernel
  have fits : c.Addressable := ⟨⟨by decide, by decide⟩, by decide, by decide⟩
  have run : c.Runnable := ⟨Configuration.valid_of_validate accepted, fits, by decide, by decide⟩
  have prompts : SequenceStore.Accepts #[0] 1 3 := ⟨by decide, by decide, by decide⟩
  obtain ⟨choices, never⟩ :=
    beam_stays_live accepted (by decide) (by decide) fits prompts
  let logits : Scores := .replicate 4 .one
  obtain ⟨b, made, sound, ranking, -⟩ := BeamSearch.gives_new accepted run prompts
  obtain ⟨m, loaded, size, rows⟩ := SearchState.takes_setLogits run.toValid run.toAllocatable
    sound.state (show logits.size = 4 from rfl)
  let s : BeamSearch := { b with state := b.state.withMatrix m }
  have sound' : s.Sound c := { sound with state := sound.state.withMatrix size }
  have started := BeamSearch.gives_newSearch accepted run.many made
  have set (handed : Scores → Prop) : BeamSearch.Advances handed ⟨.ready, b⟩ ⟨.scored, s⟩ :=
    .setLogits logits (Search.takes_onState (s := .beam b) loaded)
  obtain ⟨cs, selecting, s', -, taken, filled⟩ := choices s ⟨b, started, .single (set _)⟩
  obtain ⟨s'', taken', chooses⟩ := BeamSearch.takes_next run sound'
  obtain rfl := BeamSearch.eq_of_takes taken (Search.takes_beam taken')
  have handed : ∀ r < 2, NoNegativeNaN ((logSoftmax (ScoreMatrix.row logits 2 r)).map
      (· + if r = 0 then Binary32.zero else inactiveScore)) := by decide +kernel
  have clean : NoNegativeNaN s'.state.scores.scores := by
    refine .of_rows chooses.chosen.sound.state.scores fun r hr => ?_
    have score := sound.getElem!_beamScores (show 0 < 1 by decide) hr
    rw [Nat.zero_mul, Nat.zero_add, ranking, Ranking.score_initial (by decide) hr] at score
    have row : ScoreMatrix.row s'.state.scores.scores 2 r =
        (logSoftmax (ScoreMatrix.row logits 2 r)).map
          (· + if r = 0 then Binary32.zero else inactiveScore) := by
      rw [← score]
      exact (chooses.rows r hr).trans (congrArg (Array.map (· + b.beamScores[r]!)) (rows r hr))
    exact row ▸ handed r hr
  have active : s.ranking.elements[0]!.status.isDone = false := by
    rw [show s.ranking = _ from ranking, Ranking.getElem!_initial (by decide)]
    rfl
  have chosen : BeamSearch.Reachable c #[0] NoNegativeNaN ⟨.chosen, s'⟩ :=
    ⟨b, started, .tail (.single (set _)) (.next taken clean)⟩
  exact ⟨s, s', ⟨b, started, .single (set _)⟩, taken, (filled clean 0 (by decide) active).2, chosen,
    never _ chosen 0 (by decide)⟩

end TokenSearch
