import Mathlib.Logic.Relation
import TokenSearch.Proofs.Search.Beam

/-!
A beam search under the calls of one step, made one at a time and in their order: the logits, any
number of processors, the choice of beams, the check for end tokens, the longer sequences, and
then, as often as wanted, the question whether the run is done. What holds between two calls
depends on the stage; the ranking is changed by the choice and by the question alone.
-/

namespace TokenSearch

open TokenSearch.Run TokenSearch.Action

namespace BeamSearch

inductive Stage where
  | ready
  | scored
  | chosen
  | checked
deriving DecidableEq, Repr

structure Position where
  stage : Stage
  search : BeamSearch

/-- One call in its place, which returns. The matrix that a choice selects over is `handed`. -/
inductive Advances (handed : Scores → Prop) : Position → Position → Prop
  | setLogits {b b' : BeamSearch} (logits : Scores) :
    (Search.setLogits logits).Takes (.beam b) () (.beam b') →
      Advances handed ⟨.ready, b⟩ ⟨.scored, b'⟩
  | process {b b' : BeamSearch} (p : Processor) : p.run.Takes (.beam b) () (.beam b') →
      Advances handed ⟨.scored, b⟩ ⟨.scored, b'⟩
  | next {b b' : BeamSearch} : Search.next.Takes (.beam b) () (.beam b') →
      handed b'.state.scores.scores → Advances handed ⟨.scored, b⟩ ⟨.chosen, b'⟩
  | checkForEos {b b' : BeamSearch} : Search.checkForEos.Takes (.beam b) () (.beam b') →
      Advances handed ⟨.chosen, b⟩ ⟨.checked, b'⟩
  | append {b b' : BeamSearch} : Search.append.Takes (.beam b) () (.beam b') →
      Advances handed ⟨.checked, b⟩ ⟨.ready, b'⟩
  | ask {b b' : BeamSearch} (told : Bool) : Search.isDone.Takes (.beam b) told (.beam b') →
      Advances handed ⟨.ready, b⟩ ⟨.ready, b'⟩

abbrev Leads (handed : Scores → Prop) : Position → Position → Prop :=
  Relation.ReflTransGen (Advances handed)

def Reachable (c : Configuration) (input : Tokens) (handed : Scores → Prop) (p : Position) : Prop :=
  ∃ b, (Search.new c input).Gives (.beam b) ∧ Leads handed ⟨.ready, b⟩ p

def Position.Sound (c : Configuration) : Position → Prop
  | ⟨.ready, b⟩ => b.Sound c
  | ⟨.scored, b⟩ => b.Sound c
  | ⟨.chosen, b⟩ => b.Chosen c
  | ⟨.checked, b⟩ => b.Pending c

structure Spares (b b' : BeamSearch) : Prop where
  ranking : b'.ranking = b.ranking
  done : b.state.termination.done = true → b'.state.termination.done = true

inductive Affects (c : Configuration) (handed : Scores → Prop) (b b' : BeamSearch) : Prop
  | spared (h : Spares b b')
  | chosen (h : Chooses c b b') (matrix : handed b'.state.scores.scores)
  | asked (h : b' = b.asked)

section Advances

variable {c : Configuration} {handed : Scores → Prop} {p q : Position}

theorem eq_of_takes {α : Type} {x : Action Search α} {b b' b'' : BeamSearch} {a a' : α}
    (h : x.Takes (.beam b) a (.beam b')) (h' : x.Takes (.beam b) a' (.beam b'')) : b' = b'' :=
  Search.beam.inj (h.unique h').2

theorem Sound.takes_setLogits {b b' : BeamSearch} {logits : Scores} (run : c.Runnable)
    (sound : b.Sound c) (taken : (Search.setLogits logits).Takes (.beam b) () (.beam b')) :
    ∃ m, m.size = c.slotCount * c.vocabSize ∧ b' = { b with state := b.state.withMatrix m } := by
  have size := SearchState.size_of_setLogits (Takes.of_focus (fun _ _ => rfl)
    (Search.of_takes_beam taken))
  rw [sound.state.rows, sound.state.vocabSize] at size
  obtain ⟨m, loaded, size', -⟩ :=
    SearchState.takes_setLogits run.toValid run.toAllocatable sound.state size
  have taken' : (Search.setLogits logits).Takes (.beam b) () (.beam _) :=
    Search.takes_onState (s := .beam b) loaded
  exact ⟨m, size', eq_of_takes taken taken'⟩

theorem Sound.takes_process {b b' : BeamSearch} {p : Processor} (run : c.Runnable)
    (sound : b.Sound c) (taken : p.run.Takes (.beam b) () (.beam b')) :
    ∃ m, m.size = c.slotCount * c.vocabSize ∧ b' = { b with state := b.state.withMatrix m } := by
  obtain ⟨m, processed, size, -⟩ :=
    SearchState.takes_processor run.toValid run.toAllocatable sound.state p
  have taken' : p.run.Takes (.beam b) () (.beam { b with state := b.state.withMatrix m }) := by
    rw [p.run_eq]
    exact Search.takes_onState (s := .beam b) processed
  exact ⟨m, size, eq_of_takes taken taken'⟩

theorem Pending.room_of_append {b b' : BeamSearch} (pending : b.Pending c)
    (taken : Search.append.Takes (.beam b) () (.beam b')) :
    b.state.sequences.length < c.maxLength := by
  have appended := Takes.of_object (Search.of_takes_beam (Takes.of_logged taken))
  have room := SequenceStore.room_of_appendReordered <|
    Takes.of_focus (fun _ _ => rfl) (Takes.of_focus (fun _ _ => rfl) appended)
  rwa [pending.sound.state.sequences.maxLength] at room

theorem Advances.affects (run : c.Runnable) (sound : p.Sound c) (advances : Advances handed p q) :
    q.Sound c ∧ Affects c handed p.search q.search := by
  cases advances with
  | setLogits logits taken =>
    obtain ⟨m, size, rfl⟩ := Sound.takes_setLogits run sound taken
    exact ⟨{ sound with state := sound.state.withMatrix size }, .spared ⟨rfl, id⟩⟩
  | process p taken =>
    obtain ⟨m, size, rfl⟩ := Sound.takes_process run sound taken
    exact ⟨{ sound with state := sound.state.withMatrix size }, .spared ⟨rfl, id⟩⟩
  | next taken matrix =>
    obtain ⟨b, taken', chooses⟩ := takes_next run sound
    obtain rfl := eq_of_takes taken (Search.takes_beam taken')
    exact ⟨chooses.chosen, .chosen chooses matrix⟩
  | checkForEos taken =>
    obtain ⟨taken', pending⟩ := Chosen.takes_checkForEos run sound
    obtain rfl := eq_of_takes taken (Search.takes_beam taken')
    refine ⟨pending, .spared ⟨rfl, fun done => ?_⟩⟩
    dsimp only at done
    simp [marked, checked, TokenSearch.checkForEos, done]
  | append taken =>
    obtain ⟨store, taken', sound', -⟩ :=
      Pending.takes_append run sound (Pending.room_of_append sound taken)
    obtain rfl := eq_of_takes taken (takes_logged _ (Search.takes_beam taken'))
    exact ⟨sound', .spared ⟨rfl, id⟩⟩
  | ask told taken =>
    obtain ⟨taken', sound'⟩ := takes_isDone sound
    obtain rfl := eq_of_takes taken (Search.takes_beam taken')
    exact ⟨sound', .asked rfl⟩

theorem Position.Sound.search (sound : p.Sound c) : p.search.Sound c := by
  obtain ⟨stage, b⟩ := p
  cases stage with
  | ready => exact sound
  | scored => exact sound
  | chosen => exact (Chosen.toPending sound).sound
  | checked => exact Pending.sound sound

theorem Leads.keeps {I : BeamSearch → Prop} (run : c.Runnable)
    (kept : ∀ b b', b.Sound c → b'.Sound c → Affects c handed b b' → I b → I b')
    (sound : p.Sound c) (now : I p.search) (leads : Leads handed p q) : q.Sound c ∧ I q.search := by
  induction leads with
  | refl => exact ⟨sound, now⟩
  | tail _ advances ih =>
    obtain ⟨sound', affects⟩ := advances.affects run ih.1
    exact ⟨sound', kept _ _ ih.1.search sound'.search affects ih.2⟩

theorem Reachable.keeps {I : BeamSearch → Prop} (accepted : c.validate = .ok ()) (run : c.Runnable)
    {input : Tokens} (prompts : SequenceStore.Accepts input c.batchSize c.maxLength)
    (started : ∀ b, b.ranking = .initial c → I b)
    (kept : ∀ b b', b.Sound c → b'.Sound c → Affects c handed b b' → I b → I b')
    (reachable : Reachable c input handed p) : p.Sound c ∧ I p.search := by
  obtain ⟨b, made, leads⟩ := reachable
  obtain ⟨b₀, made₀, sound, ranking, -⟩ := gives_new accepted run prompts
  obtain rfl := Search.beam.inj (made.unique (gives_newSearch accepted run.many made₀))
  exact Leads.keeps (p := ⟨.ready, b⟩) run kept sound (started _ ranking) leads

theorem Reachable.sound (accepted : c.validate = .ok ()) (run : c.Runnable) {input : Tokens}
    (prompts : SequenceStore.Accepts input c.batchSize c.maxLength)
    (reachable : Reachable c input handed p) : p.Sound c :=
  (reachable.keeps (I := fun _ => True) accepted run prompts (fun _ _ => trivial)
    fun _ _ _ _ _ => id).1

theorem Sound.exists_advances {b : BeamSearch} (run : c.Runnable) (sound : b.Sound c)
    (room : b.state.sequences.length < c.maxLength) {logits : Scores}
    (size : logits.size = c.slotCount * c.vocabSize) :
    ∃ scored chosen checked b', Advances (fun _ => True) ⟨.ready, b⟩ ⟨.scored, scored⟩ ∧
      Advances (fun _ => True) ⟨.scored, scored⟩ ⟨.chosen, chosen⟩ ∧
      Advances (fun _ => True) ⟨.chosen, chosen⟩ ⟨.checked, checked⟩ ∧
      Advances (fun _ => True) ⟨.checked, checked⟩ ⟨.ready, b'⟩ ∧
      b'.state.sequences.length = b.state.sequences.length + 1 := by
  obtain ⟨m, loaded, size', -⟩ :=
    SearchState.takes_setLogits run.toValid run.toAllocatable sound.state size
  let scored : BeamSearch := { b with state := b.state.withMatrix m }
  have sound' : scored.Sound c := { sound with state := sound.state.withMatrix size' }
  obtain ⟨chosen, taken, chooses⟩ := takes_next run sound'
  obtain ⟨checks, pending⟩ := chooses.chosen.takes_checkForEos run
  have same : chosen.state.sequences = b.state.sequences := chooses.sequences
  obtain ⟨store, appended, -, longer, -⟩ := pending.takes_append run
    (show chosen.state.sequences.length < c.maxLength by rwa [same])
  refine ⟨scored, chosen, _, _, .setLogits logits (Search.takes_onState (s := .beam b) loaded),
    .next (Search.takes_beam taken) trivial, .checkForEos (Search.takes_beam checks),
    .append (takes_logged _ (Search.takes_beam appended)), ?_⟩
  rw [← same]
  exact longer

end Advances

end BeamSearch

end TokenSearch
