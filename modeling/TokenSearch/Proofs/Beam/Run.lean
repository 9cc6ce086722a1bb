import TokenSearch.Proofs.Beam.Refinement

/-!
Whole runs of a beam search whose model looks at each slot alone. The run is done at the first
step at which every prompt's plain search has finished or the rows are full, and returns the
plain searches' results; a prompt that finished before the others stays at its result.
-/

namespace TokenSearch

open TokenSearch.Run TokenSearch.Action

/-- The generators that the loop of a run passes, by the number of steps taken. -/
inductive Generator.Reaches (g : Generator) : Nat → Generator → Prop
  | start : Reaches g 0 g
  | step {t : Nat} {h h' : Generator} {s : Search} {done : Bool} :
    Reaches g t h → Search.isDone.Takes h.search false s →
      Generator.step.Takes { h with search := s } done h' → Reaches g (t + 1) h'

theorem Generator.Reaches.unique {t : Nat} {g₀ g g' : Generator} (reached : g₀.Reaches t g)
    (reached' : g₀.Reaches t g') : g = g' := by
  induction reached generalizing g' with
  | start => cases reached' with | start => rfl
  | step _ asked taken ih =>
    cases reached' with
    | step before asked' taken' =>
      obtain rfl := ih before
      obtain ⟨-, rfl⟩ := asked.unique asked'
      exact (taken.unique taken').2

theorem Generator.Turns.of_reaches {P E : Nat → Generator → Prop} {last t : Nat} {g₀ g : Generator}
    (turns : Generator.Turns P E last) (first : P 0 g₀) (reached : g₀.Reaches t g) : P t g := by
  induction reached with
  | start => exact first
  | step _ asked taken ih =>
    obtain ⟨_, _, answer, -, goes⟩ := turns _ _ ih
    obtain ⟨rfl, rfl⟩ := answer.unique asked
    obtain ⟨-, _, _, taken', kept⟩ := goes rfl
    obtain ⟨-, rfl⟩ := taken.unique taken'
    exact kept

namespace BeamSearch

section

variable (c : Configuration) (logits : List Token → List Binary32) (input : Tokens)

def plain (t b : Nat) : PlainBeam :=
  PlainBeam.after c logits t (prompt input (c.promptLength input) b)

abbrev stops (t : Nat) : Bool :=
  c.stops input t fun b => (plain c logits input t b).finished

structure Tracks (t : Nat) (s : BeamSearch) : Prop where
  sound : s.Sound c
  length : s.state.sequences.length = c.promptLength input + t
  follows : ∀ b < c.batchSize, Follows c s b (plain c logits input t b)

end

section Tracks

variable {c : Configuration} {logits : List Token → List Binary32} {input : Tokens} {t : Nat}
  {s : BeamSearch}

theorem plain_succ (t b : Nat) :
    plain c logits input (t + 1) b = (plain c logits input t b).grow c logits :=
  PlainBeam.after_succ _ _

theorem plain_add {t b : Nat} (more : Nat) (finished : (plain c logits input t b).finished = true) :
    plain c logits input (t + more) b = plain c logits input t b :=
  PlainBeam.after_add more finished

theorem Tracks.asked (tracks : Tracks c logits input t s) : Tracks c logits input t s.asked :=
  ⟨(takes_isDone tracks.sound).2, tracks.length,
    fun b hb => follows_asked tracks.sound hb (tracks.follows b hb)⟩

theorem Tracks.allDone_asked (tracks : Tracks c logits input t s) :
    s.asked.ranking.allDone = stops c logits input t := by
  have shaped := tracks.asked.sound.ranking
  by_cases full : c.maxLength ≤ c.promptLength input + t
  · rw [stops, c.stops_of_full _ full]
    exact Ranking.allDone_capLength_of_full tracks.sound.ranking (tracks.length ▸ full)
  · rw [Bool.eq_iff_iff, Ranking.allDone_iff shaped, c.stops_iff, or_iff_right full]
    refine forall_congr' fun b => forall_congr' fun hb => ?_
    have follows := tracks.asked.follows b hb
    cases finished : (plain c logits input t b).finished with
    | true => simp [follows.finished finished, Status.isDone]
    | false =>
      refine iff_of_false (fun done => ?_) (by decide)
      exact full (tracks.length ▸ (follows.live finished).capped done)

theorem Tracks.asked_eq (tracks : Tracks c logits input t s)
    (going : stops c logits input t = false) : s.asked = s := by
  have room := c.room_of_going going
  have same : s.ranking.capLength s.state.sequences.length = s.ranking := by
    rw [Ranking.capLength, if_neg (by rw [tracks.sound.ranking.maxLength, tracks.length]; omega)]
  have all : s.ranking.allDone = false := by
    rw [← going, ← tracks.allDone_asked]
    exact congrArg Ranking.allDone same.symm
  rw [BeamSearch.asked, same, all]
  exact marked_false s

theorem tracks_new (accepted : c.validate = .ok ()) (run : c.Runnable)
    (prompts : SequenceStore.Accepts input c.batchSize c.maxLength)
    (logits : List Token → List Binary32) :
    ∃ s, (Search.new c input).Gives (.beam s) ∧ Tracks c logits input 0 s := by
  obtain ⟨s, made, sound, length, follows⟩ := follows_new accepted run prompts
  exact ⟨s, made, sound, length, follows⟩

theorem Tracks.takes_step (run : c.Runnable) (tracks : Tracks c logits input t s)
    (width : ∀ tokens, (logits tokens).length = c.vocabSize)
    (going : stops c logits input t = false) {g : Generator} (model : g.model = .ofSlots logits)
    (search : g.search = .beam s) :
    ∃ m s', Decoded c [.minLength c.minLength, .repetitionPenalty c.repetitionPenalty] m s s' ∧
      (∀ r < c.slotCount,
        ScoreMatrix.row m c.vocabSize r = (logits (s.state.sequences.slot r)).toArray) ∧
      Generator.step.Takes g s'.asked.ranking.allDone
        { g with search := .beam s'.asked, steps := g.steps + 1, passes := g.passes + 1 } := by
  have room := c.room_of_going going
  obtain ⟨m, forward, size, rows⟩ := Model.forward_ofSlots tracks.sound.state.sequences width g.passes
  rw [← model] at forward
  obtain ⟨s', decoded, taken⟩ := BeamSearch.takes_step run tracks.sound (tracks.length ▸ room)
    search forward size
  exact ⟨m, s', decoded, rows, taken⟩

end Tracks

/-! ## One step against the plain searches -/

section Decode

variable {c : Configuration} {logits : List Token → List Binary32} {input : Tokens} {t : Nat}
  {s s' : BeamSearch} {m : Scores} (run : c.Runnable) (tracks : Tracks c logits input t s)
  (decoded : Decoded c [.minLength c.minLength, .repetitionPenalty c.repetitionPenalty] m s s')
  (rows : ∀ r < c.slotCount,
    ScoreMatrix.row m c.vocabSize r = (logits (s.state.sequences.slot r)).toArray)

include tracks decoded rows

theorem Tracks.row_eq {b j : Nat} (hb : b < c.batchSize)
    (finished : (plain c logits input t b).finished = false) (hj : j < c.numBeams) :
    ScoreMatrix.row s'.state.scores.scores c.vocabSize (b * c.numBeams + j) =
      ((plain c logits input t b).rows c logits j).map
        (· + (plain c logits input t b).live[j]!.score) := by
  have keeps := (tracks.follows b hb).live finished
  rw [keeps.rows tracks.sound hb decoded hj, PlainBeam.rows, PlainBeam.processed,
    PlainBeam.processed, rows _ (row_mul_add_lt hb hj), keeps.tokens j hj]

theorem Tracks.clean (clean : NoNegativeNaN s'.state.scores.scores) {b : Nat}
    (hb : b < c.batchSize) : (plain c logits input t b).Clean c logits := by
  intro finished j hj
  rw [← tracks.row_eq decoded rows hb finished hj]
  exact clean.row _ _

include run

theorem Tracks.decode (going : stops c logits input t = false)
    (clean : NoNegativeNaN s'.state.scores.scores) : Tracks c logits input (t + 1) s' := by
  have room := c.room_of_going going
  refine ⟨decoded.sound, ?_, fun b hb => ?_⟩
  · rw [decoded.length, tracks.length, Nat.add_assoc]
  · have follows := follows_decode run tracks.sound (tracks.length ▸ room) decoded clean hb
      (tracks.follows b hb)
    cases finished : (plain c logits input t b).finished with
    | true =>
      rw [PlainBeam.advance_of_finished finished] at follows
      rwa [plain_add 1 finished]
    | false =>
      have keeps := (tracks.follows b hb).live finished
      have same : (plain c logits input t b).advance c
          [.minLength c.minLength, .repetitionPenalty c.repetitionPenalty]
          (fun j => ScoreMatrix.row m c.vocabSize (b * c.numBeams + j)) =
          plain c logits input (t + 1) b := by
        rw [plain_succ]
        refine PlainBeam.advance_congr fun j hj => ?_
        rw [rows _ (row_mul_add_lt hb hj), keeps.tokens j hj]
      exact same ▸ follows

end Decode

/-! ## Generators that a run passes -/

section Reaches

variable {c : Configuration} {logits : List Token → List Binary32} {input : Tokens} {t : Nat}
  {g₀ g : Generator}

theorem Tracks.told {s : BeamSearch} (tracks : Tracks c logits input t s)
    (going : stops c logits input t = false) :
    Search.isDone.Takes (.beam s) false (.beam s) := by
  have answer := (takes_isDone tracks.sound).1
  rw [tracks.allDone_asked, going, tracks.asked_eq going] at answer
  exact Search.takes_beam answer

variable (run : c.Runnable) (width : ∀ tokens, (logits tokens).length = c.vocabSize)
  (clean : ∀ t s m s', Tracks c logits input t s → stops c logits input t = false →
    Decoded c [.minLength c.minLength, .repetitionPenalty c.repetitionPenalty] m s s' →
    (∀ r < c.slotCount,
      ScoreMatrix.row m c.vocabSize r = (logits (s.state.sequences.slot r)).toArray) →
    NoNegativeNaN s'.state.scores.scores)

include run width clean

theorem tracks_of_step {s : BeamSearch} (model : g.model = .ofSlots logits)
    (search : g.search = .beam s) (tracks : Tracks c logits input t s) {h h' : Generator}
    {told : Search} {done : Bool} (asked : Search.isDone.Takes g.search false told)
    (same : h = { g with search := told }) (taken : Generator.step.Takes h done h') :
    h'.model = .ofSlots logits ∧ stops c logits input t = false ∧ ∃ m s',
      Decoded c [.minLength c.minLength, .repetitionPenalty c.repetitionPenalty] m s s' ∧
      (∀ r < c.slotCount,
        ScoreMatrix.row m c.vocabSize r = (logits (s.state.sequences.slot r)).toArray) ∧
      h'.search = .beam s'.asked ∧ Tracks c logits input (t + 1) s'.asked := by
  rw [search] at asked
  have answer := asked.unique (Search.takes_beam (takes_isDone tracks.sound).1)
  have going : stops c logits input t = false := tracks.allDone_asked.symm.trans answer.1.symm
  rw [tracks.asked_eq going] at answer
  have model' : h.model = .ofSlots logits := by rw [same]; exact model
  have search' : h.search = .beam s := by rw [same]; exact answer.2
  obtain ⟨m, s', decoded, rows, taken'⟩ := tracks.takes_step run width going model' search'
  have handed := clean t s m s' tracks going decoded rows
  obtain ⟨-, rfl⟩ := taken.unique taken'
  exact ⟨model', going, m, s', decoded, rows, rfl,
    (tracks.decode run decoded rows going handed).asked⟩

theorem tracks_of_reaches {s₀ : BeamSearch} (model : g₀.model = .ofSlots logits)
    (search : g₀.search = .beam s₀) (tracks : Tracks c logits input 0 s₀)
    (reached : g₀.Reaches t g) :
    g.model = .ofSlots logits ∧ ∃ s, g.search = .beam s ∧ Tracks c logits input t s := by
  induction reached with
  | start => exact ⟨model, s₀, search, tracks⟩
  | step _ asked taken ih =>
    obtain ⟨model', s, search', tracks'⟩ := ih
    obtain ⟨model'', -, _, _, -, -, next⟩ :=
      tracks_of_step run width clean model' search' tracks' asked rfl taken
    exact ⟨model'', _, next⟩

theorem decoded_of_reaches (accepted : c.validate = .ok ())
    (prompts : SequenceStore.Accepts input c.batchSize c.maxLength)
    (made : (Generator.new c input (.ofSlots logits)).Gives g₀) (reached : g₀.Reaches (t + 1) g) :
    ∃ s m s', Tracks c logits input t s ∧ stops c logits input t = false ∧
      Decoded c [.minLength c.minLength, .repetitionPenalty c.repetitionPenalty] m s s' ∧
      (∀ r < c.slotCount,
        ScoreMatrix.row m c.vocabSize r = (logits (s.state.sequences.slot r)).toArray) ∧
      g.search = .beam s'.asked := by
  obtain ⟨s₀, created, tracks₀⟩ := tracks_new accepted run prompts logits
  have first : g₀ = ⟨.beam s₀, .ofSlots logits, 0, 0⟩ :=
    made.unique (created.bind (gives_pure _))
  cases reached with
  | step before asked taken =>
    obtain ⟨model, s, search, tracks⟩ := tracks_of_reaches run width clean
      (by rw [first]) (by rw [first]) tracks₀ before
    obtain ⟨-, going, m, s', decoded, rows, last, -⟩ :=
      tracks_of_step run width clean model search tracks asked rfl taken
    exact ⟨s, m, s', tracks, going, decoded, rows, last⟩

theorem noNegativeNaN_of_reaches (accepted : c.validate = .ok ())
    (prompts : SequenceStore.Accepts input c.batchSize c.maxLength)
    (made : (Generator.new c input (.ofSlots logits)).Gives g₀) (reached : g₀.Reaches (t + 1) g) :
    NoNegativeNaN g.search.state.scores.scores := by
  obtain ⟨s, m, s', tracks, going, decoded, rows, last⟩ :=
    decoded_of_reaches run width clean accepted prompts made reached
  rw [last]
  exact clean t s m s' tracks going decoded rows

end Reaches

/-! ## The end of a run -/

theorem foldl_offer {read : Nat → List Token} {base : Nat} {live : List Path} {l : List Nat}
    {e : Element} (tokens : ∀ i ∈ l, read (base + i) = live[i]!.tokens)
    (scores : ∀ i ∈ l, e.beams[i]!.score = live[i]!.score) :
    (l.foldl (fun e i => e.offer (read (base + i)) e.beams[i]!.score) e).pool =
      (l.map (live[·]!)).foldl (fun pool path => pool.add path.tokens path.score) e.pool := by
  induction l generalizing e with
  | nil => rfl
  | cons i rest ih =>
    rw [List.foldl_cons, List.map_cons, List.foldl_cons, tokens i List.mem_cons_self,
      scores i List.mem_cons_self]
    exact ih (fun j hj => tokens j (List.mem_cons_of_mem _ hj))
      fun j hj => scores j (List.mem_cons_of_mem _ hj)

theorem range_map_getElem! (live : List Path) : (List.range live.length).map (live[·]!) = live :=
  List.ext_getElem (by simp) fun i hi hi' => by simp [hi']

theorem Follows.closed {c : Configuration} {s : BeamSearch} {b : Nat} {p : PlainBeam}
    (sound : s.Sound c) (hb : b < c.batchSize) (follows : Follows c s b p) :
    (s.ranking.closed s.state.sequences.slot).elements[b]!.pool = p.result := by
  rw [Ranking.getElem!_closed sound.ranking hb, Element.closed, PlainBeam.result]
  cases finished : p.finished with
  | true =>
    have closed : s.ranking.elements[b]!.isOpen = false := by
      rw [Element.isOpen, follows.finished finished]
    rw [if_neg (by simp [closed]), if_pos rfl, follows.pool]
  | false =>
    have keeps := follows.live finished
    have offered := foldl_offer (e := s.ranking.elements[b]!) (l := List.range c.numBeams)
      (fun i hi => keeps.tokens i (List.mem_range.1 hi))
      fun i hi => keeps.scores i (List.mem_range.1 hi)
    rw [← keeps.paths, range_map_getElem!, keeps.paths, follows.pool] at offered
    rw [if_pos keeps.isOpen, if_neg (by decide), offered]

theorem stops_of_le {c : Configuration} {logits : List Token → List Binary32} {input : Tokens}
    {t t' : Nat} (le : t ≤ t') (done : stops c logits input t = true) :
    stops c logits input t' = true := by
  obtain ⟨more, rfl⟩ := Nat.exists_eq_add_of_le le
  refine c.stops_iff.2 ((c.stops_iff.1 done).imp (fun full => by omega) fun all b hb => ?_)
  rw [plain_add more (all b hb), all b hb]

theorem plain_of_stops {c : Configuration} {logits : List Token → List Binary32} {input : Tokens}
    {t b : Nat} (hb : b < c.batchSize) (le : c.promptLength input + t ≤ c.maxLength)
    (done : stops c logits input t = true) :
    plain c logits input (c.maxLength - c.promptLength input) b = plain c logits input t b :=
  c.last_of_stops (f := fun t => plain c logits input t b) hb le done fun finished more =>
    plain_add more finished

structure Returned (c : Configuration) (logits : List Token → List Binary32) (input tokens : Tokens)
    (scores : Scores) : Prop where
  size : tokens.size = c.batchSize * c.numReturned * c.maxLength
  count : scores.size = c.batchSize * c.numReturned
  row : ∀ b < c.batchSize, ∀ j < c.numReturned,
    (ScoreMatrix.row tokens c.maxLength (b * c.numReturned + j)).toList = Ranking.rowOf c
      (plain c logits input (c.maxLength - c.promptLength input) b).result j
  score : ∀ b < c.batchSize, ∀ j < c.numReturned,
    scores[b * c.numReturned + j]! = Ranking.scoreOf
      (plain c logits input (c.maxLength - c.promptLength input) b).result j

section Run

variable {c : Configuration} {logits : List Token → List Binary32} {input : Tokens}

theorem Tracks.returned {t : Nat} {s : BeamSearch} (tracks : Tracks c logits input t s)
    (le : c.promptLength input + t ≤ c.maxLength) (stopped : stops c logits input t = true) :
    Returned c logits input
      ((s.ranking.closed s.state.sequences.slot).bestRows c.numReturned)
      ((s.ranking.closed s.state.sequences.slot).bestScores c.numReturned) := by
  obtain ⟨size, count, row, score⟩ :=
    Ranking.lists_best (tracks.sound.ranking.closed s.state.sequences.slot)
  have pool : ∀ b < c.batchSize, (s.ranking.closed s.state.sequences.slot).elements[b]!.pool =
      (plain c logits input (c.maxLength - c.promptLength input) b).result := by
    intro b hb
    rw [plain_of_stops hb le stopped]
    exact (tracks.follows b hb).closed tracks.sound hb
  exact ⟨size, count, fun b hb j hj => pool b hb ▸ row b hb j hj,
    fun b hb j hj => pool b hb ▸ score b hb j hj⟩

structure Drives (c : Configuration) (logits : List Token → List Binary32) (input : Tokens)
    (g₀ : Generator) (t : Nat) (g : Generator) : Prop where
  model : g.model = .ofSlots logits
  steps : g.steps = t
  room : c.promptLength input + t ≤ c.maxLength
  reached : stops c logits input t = false → g₀.Reaches t g
  clean : ∀ i < t, ∀ b < c.batchSize, (plain c logits input i b).Clean c logits
  tracks : ∃ s, g.search = .beam s ∧ Tracks c logits input t s

section Drives

variable {t : Nat} {g₀ g : Generator}

theorem Drives.asked (drives : Drives c logits input g₀ t g) :
    ∃ s, Search.isDone.Takes g.search (stops c logits input t) s ∧
      Drives c logits input g₀ t { g with search := s } := by
  obtain ⟨s, search, tracks⟩ := drives.tracks
  refine ⟨.beam s.asked, ?_, { drives with
    reached := fun going => ?_
    tracks := ⟨s.asked, rfl, tracks.asked⟩ }⟩
  · rw [search, ← tracks.allDone_asked]
    exact Search.takes_beam (takes_isDone tracks.sound).1
  · -- While the run goes on, asking leaves the generator as it was reached.
    rw [tracks.asked_eq going, ← search]
    exact drives.reached going

theorem Drives.stepped (run : c.Runnable)
    (width : ∀ tokens, (logits tokens).length = c.vocabSize)
    (clean : ∀ t g, g₀.Reaches (t + 1) g → NoNegativeNaN g.search.state.scores.scores)
    (drives : Drives c logits input g₀ t g) (going : stops c logits input t = false) :
    ∃ g' done, Generator.step.Takes g done g' ∧ Drives c logits input g₀ (t + 1) g' := by
  obtain ⟨s, search, tracks⟩ := drives.tracks
  obtain ⟨m, s', decoded, rows, taken⟩ := tracks.takes_step run width going drives.model search
  have told : Search.isDone.Takes g.search false g.search := by
    rw [search]
    exact tracks.told going
  have reached := (drives.reached going).step told taken
  have handed : NoNegativeNaN s'.state.scores.scores := clean t _ reached
  refine ⟨_, _, taken, drives.model, congrArg (· + 1) drives.steps, c.room_of_going going,
    fun _ => reached, fun i hi b hb => ?_, _, rfl,
    (tracks.decode run decoded rows going handed).asked⟩
  rcases Nat.lt_succ_iff_lt_or_eq.1 hi with earlier | rfl
  · exact drives.clean i earlier b hb
  · exact tracks.clean decoded rows handed hb

theorem Drives.finalized (run : c.Runnable) (drives : Drives c logits input g₀ t g)
    (stopped : stops c logits input t = true) : ∃ tokens scores s,
      (Search.finalize c.numReturned (c.batchSize * c.numReturned * c.maxLength)
        (c.batchSize * c.numReturned)).Takes g.search (tokens, scores) s ∧
      Returned c logits input tokens scores := by
  obtain ⟨s, search, tracks⟩ := drives.tracks
  have rows := takes_finalize run tracks.sound
  rw [search]
  exact ⟨_, _, _, Search.takes_beam rows, tracks.returned drives.room stopped⟩

end Drives

/-- A run that hands no negative NaN to the selection returns the results of the plain searches. -/
theorem gives_runToEnd (accepted : c.validate = .ok ()) (run : c.Runnable)
    (prompts : SequenceStore.Accepts input c.batchSize c.maxLength)
    (width : ∀ tokens, (logits tokens).length = c.vocabSize)
    (clean : ∀ g₀, (Generator.new c input (.ofSlots logits)).Gives g₀ →
      ∀ t g, g₀.Reaches (t + 1) g → NoNegativeNaN g.search.state.scores.scores) :
    ∃ tokens scores g, (Generator.runToEnd c input (.ofSlots logits)).Gives
        (⟨tokens, scores, c.numReturned, c.maxLength⟩, g) ∧
      Returned c logits input tokens scores ∧ stops c logits input g.steps = true ∧
      ∀ t < g.steps, stops c logits input t = false ∧
        ∀ b < c.batchSize, (plain c logits input t b).Clean c logits := by
  obtain ⟨s₀, made, tracks₀⟩ := tracks_new accepted run prompts logits
  let g₀ : Generator := ⟨.beam s₀, .ofSlots logits, 0, 0⟩
  have created : (Generator.new c input (.ofSlots logits)).Gives g₀ := made.bind (gives_pure _)
  have started : Drives c logits input g₀ 0 g₀ :=
    ⟨rfl, rfl, prompts.short, fun _ => .start, fun i hi => absurd hi (Nat.not_lt_zero i), s₀, rfl,
      tracks₀⟩
  obtain ⟨t, tokens, scores, g, s, given, ⟨-, rfl, -, -, before, -⟩, returned, stopped, going⟩ :=
    Generator.gives_runToEnd (P := Drives c logits input g₀) (Q := fun _ => Returned c logits input)
      run.toValid run.toAllocatable made tracks₀.sound.state.configuration
      tracks₀.length started
      (fun _ _ drives => drives.asked)
      (fun _ _ drives going => drives.stepped run width (clean g₀ created) going)
      fun _ _ drives stopped => drives.finalized run stopped
  exact ⟨tokens, scores, _, given, returned, stopped, fun i hi => ⟨going i hi, before i hi⟩⟩

end Run

end BeamSearch

end TokenSearch
