import TokenSearch.Proofs.Beam.Calls

/-!
A beam search has two ways to tell that it has ended: the ranking's elements are done, and the
slots have end flags with one flag for the whole run. A flag stays with its slot while hypotheses
move between slots, but it is set only for elements that are done, so the two agree between any
two calls.
-/

namespace TokenSearch

open TokenSearch.Run TokenSearch.Action

namespace BeamSearch

structure Over (b : BeamSearch) : Prop where
  done : b.state.termination.done = true
  all : b.ranking.allDone = true

section Over

variable {c : Configuration} {handed : Scores → Prop} {b b' : BeamSearch}

theorem Over.affects (run : c.Runnable) (sound : b.Sound c) (ended : b.Over)
    (affects : Affects c handed b b') : b'.Over := by
  cases affects with
  | spared h => exact ⟨h.done ended.done, by rw [h.ranking, ended.all]⟩
  | chosen h _ =>
    obtain ⟨cs, -, -, -, ranking⟩ := h.ranking
    refine ⟨by rw [h.termination, ended.done], ?_⟩
    rw [ranking]
    exact sound.allDone_processed run.beams ended.all
  | asked h =>
    subst h
    exact ⟨by simp [asked, marked, ended.done], Ranking.allDone_capLength sound.ranking ended.all⟩

theorem over_asked (all : b.asked.ranking.allDone = true) : b.asked.Over :=
  ⟨by simpa [asked, marked] using .inr all, all⟩

theorem Over.leads {p : Position} (run : c.Runnable) (sound : b.Sound c) (ended : b.Over)
    (leads : Leads handed ⟨.ready, b⟩ p) : p.Sound c ∧ p.search.Over :=
  Leads.keeps (p := ⟨.ready, b⟩) run
    (fun _ _ sound _ affects ended => ended.affects run sound affects) sound ended leads

end Over

end BeamSearch

/-- At every point of a search on any logits: only slots of elements that are done are flagged;
the check for end tokens leaves every slot the token that the ranking chose for it; and the answer
whether the run is done is whether all elements are, once the cap on the length is seen to, and
stays so. Slots and tokens are assumed to fit signed 32-bit words, which is not checked: a step that
gathers the sequence of a slot past them fails. -/
theorem beam_flags_agree {c : Configuration} (accepted : c.validate = .ok ())
    (many : 2 ≤ c.numBeams) (few : c.numBeams ≤ Selection.maxBeams) (fits : c.Addressable)
    {input : Tokens} (prompts : SequenceStore.Accepts input c.batchSize c.maxLength) :
    (∀ p, BeamSearch.Reachable c input (fun _ => True) p →
      ∀ e < c.batchSize, ∀ i < c.numBeams,
        p.search.state.termination.mask[e * c.numBeams + i]! = true →
          p.search.ranking.elements[e]!.status.isDone = true) ∧
    (∀ s, BeamSearch.Reachable c input (fun _ => True) ⟨.chosen, s⟩ →
      ∃ s', Search.checkForEos.Takes (.beam s) () (.beam s') ∧ s'.ranking = s.ranking ∧
        s'.nextTokens = s.ranking.tokens) ∧
    ∀ s, BeamSearch.Reachable c input (fun _ => True) ⟨.ready, s⟩ →
      ∃ told s', Search.isDone.Takes (.beam s) told (.beam s') ∧
        s'.ranking = s.ranking.capLength s.state.sequences.length ∧
        (told = true ↔ ∀ e < c.batchSize, s'.ranking.elements[e]!.status.isDone = true) ∧
        (told = true → ∀ later, BeamSearch.Leads (fun _ => True) ⟨.ready, s'⟩ ⟨.ready, later⟩ →
          ∃ later', Search.isDone.Takes (.beam later) true (.beam later')) := by
  have run : c.Runnable := ⟨Configuration.valid_of_validate accepted, fits, many, few⟩
  refine ⟨fun p reachable => ?_, fun s reachable => ?_, fun s reachable => ?_⟩
  · exact (reachable.sound accepted run prompts).search.mask
  · have chosen : s.Chosen c := reachable.sound accepted run prompts
    obtain ⟨checks, pending⟩ := chosen.takes_checkForEos run
    exact ⟨_, Search.takes_beam checks, rfl, pending.nextTokens⟩
  · have sound : s.Sound c := reachable.sound accepted run prompts
    obtain ⟨answer, sound'⟩ := BeamSearch.takes_isDone sound
    refine ⟨_, _, Search.takes_beam answer, rfl, Ranking.allDone_iff sound'.ranking, ?_⟩
    intro told later leads
    obtain ⟨laterSound, ended⟩ := (BeamSearch.over_asked told).leads run sound' leads
    have affects : BeamSearch.Affects c (fun _ => True) later later.asked := .asked rfl
    have again := (ended.affects run laterSound.search affects).all
    exact ⟨_, again ▸ Search.takes_beam (BeamSearch.takes_isDone laterSound).1⟩

/-- The end token is the padding too, and one step fills the rows: the check leaves the tokens as
they were chosen, and from then on the run is told to be done. -/
theorem beam_flags_agree_of_one_step :
    let c : Configuration :=
      { batchSize := 1, numBeams := 2, vocabSize := 2, maxLength := 2, eosToken := 1, padToken := 1 }
    ∃ s s' t t', BeamSearch.Reachable c #[0] (fun _ => True) ⟨.chosen, s⟩ ∧
      Search.checkForEos.Takes (.beam s) () (.beam s') ∧ s'.nextTokens = s.ranking.tokens ∧
      BeamSearch.Reachable c #[0] (fun _ => True) ⟨.ready, t⟩ ∧
      Search.isDone.Takes (.beam t) true (.beam t') ∧
      ∀ later, BeamSearch.Leads (fun _ => True) ⟨.ready, t'⟩ ⟨.ready, later⟩ →
        ∃ later', Search.isDone.Takes (.beam later) true (.beam later') := by
  intro c
  have accepted : c.validate = .ok () := by decide +kernel
  have fits : c.Addressable := ⟨⟨by decide, by decide⟩, by decide, by decide⟩
  have run : c.Runnable := ⟨Configuration.valid_of_validate accepted, fits, by decide, by decide⟩
  have prompts : SequenceStore.Accepts #[0] 1 2 := ⟨by decide, by decide, by decide⟩
  obtain ⟨-, checks, asks⟩ :=
    beam_flags_agree accepted (by decide) (by decide) fits prompts
  obtain ⟨b, made, sound, -, length, -⟩ := BeamSearch.gives_new accepted run prompts
  have one : b.state.sequences.length = 1 := length.trans (by decide)
  let logits : Scores := .replicate 4 .zero
  obtain ⟨scored, s, checked, t, first, second, third, fourth, longer⟩ :=
    sound.exists_advances run (show b.state.sequences.length < 2 by omega)
      (show logits.size = 4 from rfl)
  have started := BeamSearch.gives_newSearch accepted run.many made
  have chosen : BeamSearch.Reachable c #[0] (fun _ => True) ⟨.chosen, s⟩ :=
    ⟨b, started, .tail (.single first) second⟩
  have ready : BeamSearch.Reachable c #[0] (fun _ => True) ⟨.ready, t⟩ :=
    ⟨b, started, .tail (.tail (.tail (.single first) second) third) fourth⟩
  obtain ⟨s', check, -, tokens⟩ := checks s chosen
  obtain ⟨told, t', answer, ranking, all, stays⟩ := asks t ready
  have full : t.state.sequences.length = 2 := by omega
  have laterSound : t.Sound c := ready.sound accepted run prompts
  have done : told = true := by
    rw [all, ← Ranking.allDone_iff (ranking ▸ laterSound.ranking.capLength _), ranking]
    exact Ranking.allDone_capLength_of_full laterSound.ranking (Nat.le_of_eq full.symm)
  exact ⟨s, s', t, t', chosen, check, tokens, ready, done ▸ answer, stays done⟩

end TokenSearch
