import Mathlib.Algebra.Order.BigOperators.Group.List
import TokenSearch.Proofs.Beam.Output
import TokenSearch.Proofs.Search.MinLength

/-!
The minimum length in beam search. No running score is positive, so that an end token that is held
back scores no more once the running score is added. If every row of an element has another entry
above, these fill the front of the candidates, and no hypothesis is retired before the sequences are
long enough.
-/

namespace TokenSearch

open TokenSearch.Run TokenSearch.Action

/-! ## The front of the candidates -/

namespace PlainBeam

variable {c : Configuration} {rows sums : Nat → Scores} {p : PlainBeam} {start : List Token}

theorem ended_eq_nil (sizes : ∀ j < c.numBeams, (sums j).size = c.vocabSize)
    (held : ∀ j < c.numBeams, sums j = (rows j).map (· + p.live[j]!.score))
    (spared : ∀ j < c.numBeams, c.Spares start (sums j))
    (low : ∀ j < c.numBeams, ∀ t < c.vocabSize, (t : Token) = c.eosToken →
      (sums j)[t]!.le (c.heldScore start) = true) : ended c (p.candidates c rows) = [] := by
  let high (x : Extension) : Bool := !x.ends c.eosToken && (c.heldScore start).lt x.score
  let sorted := (p.extensions c rows).mergeSort (Extension.precedes c.vocabSize)
  have ordered : sorted.Pairwise fun x y => x.precedes c.vocabSize y = true :=
    List.pairwise_mergeSort Extension.precedes_trans Extension.precedes_total _
  have score : ∀ j < c.numBeams, ∀ t < c.vocabSize,
      (rows j)[t]! + p.live[j]!.score = (sums j)[t]! :=
    fun j hj t ht => (getElem!_sums (sizes j hj) (held j hj) ht).symm
  let own (j : Nat) : List Extension :=
    (List.range c.vocabSize).map fun t => ⟨j, t, (rows j)[t]! + p.live[j]!.score⟩
  have one : ∀ n ∈ (List.range c.numBeams).map (List.countP high ∘ own), 1 ≤ n := by
    intro n hn
    obtain ⟨j, hj, rfl⟩ := List.mem_map.1 hn
    obtain ⟨t, ht, goes, above⟩ := spared j (List.mem_range.1 hj)
    rw [← score j (List.mem_range.1 hj) t ht] at above
    refine List.one_le_countP_iff.2 ⟨_, List.mem_map_of_mem (List.mem_range.2 ht), ?_⟩
    simpa [high, Extension.ends, goes] using above
  have enough : c.numBeams ≤ sorted.countP high := by
    have total := List.length_le_sum_of_one_le _ one
    rwa [List.length_map, List.length_range, ← List.countP_flatMap,
      ← (List.mergeSort_perm _ (Extension.precedes c.vocabSize)).countP_eq] at total
  refine List.eq_nil_iff_forall_not_mem.2 fun x hx => ?_
  obtain ⟨front, ends⟩ := List.mem_filter.1 hx
  rw [candidates, List.take_take, Nat.min_eq_left (by omega)] at front
  have member : x ∈ p.extensions c rows := List.mem_mergeSort.1 (List.mem_of_mem_take front)
  obtain ⟨path, token⟩ := mem_extensions member
  have below : x.score.le (c.heldScore start) = true := by
    rw [score_of_mem_extensions member, score _ path _ token]
    exact low _ path _ token (of_decide_eq_true ends)
  refine not_mem_take_of_countP ordered (by simp [high, ends]) (fun a _ leads => ?_) enough front
  have above := (Bool.and_eq_true_iff.1 leads).2
  exact Extension.not_precedes_of_lt (Binary32.rank_lt_of_lt (Binary32.lt_of_le_of_lt below above))

end PlainBeam

theorem Configuration.Open.late {c : Configuration} {start tokens rest : List Token} {length : Nat}
    (held : c.Open tokens) (count : start.length = length)
    (reach : c.minLength ≤ (start ++ tokens).length ∨ rest = []) :
    c.Late length (start ++ tokens ++ rest) := by
  subst count
  intro k first below found
  rcases Nat.lt_or_ge k (start ++ tokens).length with inside | beyond
  · rw [List.getElem?_append_left inside, List.getElem?_append_right first] at found
    exact (held _ (List.mem_of_getElem? found)).2.2 rfl
  · have none := reach.resolve_left (by omega)
    rw [none, List.append_nil, List.getElem?_eq_none beyond] at found
    cases found

/-! ## A step -/

namespace BeamSearch

structure Withheld (c : Configuration) (input : Tokens) (t : Nat) (s : BeamSearch) : Prop
    extends Grown c input t s where
  scores : ∀ b < c.batchSize, ∀ i < c.numBeams,
    s.ranking.elements[b]!.beams[i]!.score.le .zero = true
  pools : ∀ b < c.batchSize, ∀ h ∈ s.ranking.elements[b]!.pool.kept, c.minLength < h.tokens.length

section Withheld

variable {c : Configuration} {input : Tokens} {t : Nat} {s s' : BeamSearch} {logits : Scores}

theorem withheld_new (accepted : c.validate = .ok ()) (run : c.Runnable)
    (prompts : SequenceStore.Accepts input c.batchSize c.maxLength) :
    ∃ s, (Search.new c input).Gives (.beam s) ∧ Withheld c input 0 s := by
  obtain ⟨s, made, sound, length, follows⟩ := follows_new accepted run prompts
  refine ⟨s, made, ⟨sound, length, fun b hb => ⟨_, follows b hb, PlainBeam.formed_start c _⟩⟩,
    fun b hb i hi => ?_, fun b hb h kept => ?_⟩
  · rw [((follows b hb).live rfl).scores i hi]
    simp only [PlainBeam.start, List.getElem!_eq_getElem?_getD, List.getElem?_map,
      List.getElem?_range hi, Option.map_some, Option.getD_some]
    split <;> decide
  · rw [(follows b hb).pool] at kept
    cases kept

theorem Withheld.pool_eq_nil (prompts : SequenceStore.Accepts input c.batchSize c.maxLength)
    (withheld : Withheld c input t s) (short : c.promptLength input + t ≤ c.minLength) {b : Nat}
    (hb : b < c.batchSize) : s.ranking.elements[b]!.pool.kept = [] := by
  refine List.eq_nil_iff_forall_not_mem.2 fun h kept => ?_
  have long := withheld.pools b hb h kept
  obtain ⟨p, follows, formed⟩ := withheld.elements b hb
  obtain ⟨tokens, same, count, -⟩ := formed.pool h (follows.pool ▸ kept)
  have start := length_prompt prompts hb
  rw [same, List.length_append, List.length_append, List.length_singleton] at long
  omega

theorem Withheld.asked (withheld : Withheld c input t s) : Withheld c input t s.asked := by
  have element : ∀ b < c.batchSize, s.asked.ranking.elements[b]! =
      if c.maxLength ≤ s.state.sequences.length then s.ranking.elements[b]!.capped
      else s.ranking.elements[b]! :=
    fun b hb => Ranking.getElem!_capLength withheld.sound.ranking hb
  refine ⟨withheld.toGrown.asked, fun b hb i hi => ?_, fun b hb h kept => ?_⟩
  · have held := withheld.scores b hb i hi
    rw [element b hb]
    split <;> simpa using held
  · refine withheld.pools b hb h ?_
    rw [element b hb] at kept
    split at kept <;> simpa using kept

section Decode

variable (accepted : c.validate = .ok ()) (run : c.Runnable)
  (prompts : SequenceStore.Accepts input c.batchSize c.maxLength)
  (withheld : Withheld c input t s)
  (decoded : Decoded c [.minLength c.minLength, .repetitionPenalty c.repetitionPenalty] logits s s')

include accepted withheld decoded

theorem Withheld.row_le_held (size : logits.size = c.slotCount * c.vocabSize)
    (short : c.promptLength input + t < c.minLength) {b i u : Nat} (hb : b < c.batchSize)
    (hi : i < c.numBeams) (hu : u < c.vocabSize) (ends : (u : Token) = c.eosToken) :
    (ScoreMatrix.row s'.state.scores.scores c.vocabSize (b * c.numBeams + i))[u]!.le
      (c.heldScore (s.state.sequences.slot (b * c.numBeams + i))) = true := by
  obtain ⟨finite, positive⟩ := Configuration.penalty_of_validate accepted
  have slot : b * c.numBeams + i < c.slotCount := row_mul_add_lt hb hi
  have width := ScoreMatrix.size_row slot (Nat.le_of_eq size.symm)
  have width' := ScoreMatrix.size_row slot (Nat.le_of_eq decoded.sound.state.scores.symm)
  have short' : (s.state.sequences.slot (b * c.numBeams + i)).length < c.minLength := by
    rwa [withheld.sound.state.sequences.length_slot slot, withheld.length]
  rw [PlainBeam.getElem!_sums width' (decoded.rows _ slot) hu,
    withheld.sound.getElem!_beamScores hb hi, getElem!_processedRow short' (by omega) ends]
  exact Binary32.add_le_left (heldScore_nonpos finite positive) (withheld.scores b hb i hi)

theorem Withheld.ended_eq_nil (short : c.promptLength input + t < c.minLength)
    (size : logits.size = c.slotCount * c.vocabSize)
    (spared : c.SparesAll input s'.state.scores.scores) {b : Nat} (hb : b < c.batchSize)
    {p : PlainBeam} (follows : Follows c s b p)
    (formed : p.Formed c (prompt input (c.promptLength input) b) t)
    (going : p.finished = false) :
    PlainBeam.ended c (candidatesAt c
      [.minLength c.minLength, .repetitionPenalty c.repetitionPenalty] logits b p) = [] := by
  have keeps := follows.live going
  have held : ∀ j < c.numBeams, c.heldScore (s.state.sequences.slot (b * c.numBeams + j)) =
      c.heldScore (prompt input (c.promptLength input) b) := by
    intro j hj
    have inside : j < p.live.length := keeps.paths ▸ hj
    obtain ⟨tokens, same, -, opened⟩ := formed.live going _ (List.getElem_mem inside)
    rw [keeps.tokens j hj, getElem!_pos p.live j inside, same]
    exact Configuration.heldScore_append fun ends => (opened _ ends).2.2 rfl
  exact PlainBeam.ended_eq_nil
    (fun j hj => ScoreMatrix.size_row (row_mul_add_lt hb hj)
      (Nat.le_of_eq decoded.sound.state.scores.symm))
    (fun j hj => keeps.rows withheld.sound hb decoded hj) (spared b hb)
    fun j hj u hu ends => held j hj ▸ withheld.row_le_held accepted decoded size short hb hj hu ends

variable (normal : ∀ r < c.slotCount, Normalizable (ScoreMatrix.row logits c.vocabSize r))

include normal

theorem Withheld.nonpositive : ∀ b < c.batchSize, ∀ i < c.numBeams,
    Nonpositive (ScoreMatrix.row s'.state.scores.scores c.vocabSize (b * c.numBeams + i)) := by
  obtain ⟨finite, positive⟩ := Configuration.penalty_of_validate accepted
  intro b hb i hi y hy
  have slot : b * c.numBeams + i < c.slotCount := row_mul_add_lt hb hi
  rw [decoded.rows _ slot, withheld.sound.getElem!_beamScores hb hi] at hy
  obtain ⟨x, hx, rfl⟩ := Array.mem_map.1 hy
  have score := withheld.scores b hb i hi
  exact Binary32.le_trans (Binary32.add_le_right
    (nonpositive_processedRow finite positive (normal _ slot) _ x hx) score) score

theorem Withheld.clean : NoNegativeNaN s'.state.scores.scores := by
  refine .of_rows decoded.sound.state.scores (forall_slots fun b hb i hi x hx => ?_)
  have number := (Binary32.le_iff.1 (withheld.nonpositive accepted decoded normal b hb i hi x hx)).1
  rw [Binary32.isNegativeNaN, number, Bool.and_false]

include run

theorem Withheld.score_le (room : s.state.sequences.length < c.maxLength) {b i : Nat}
    (hb : b < c.batchSize) (hi : i < c.numBeams) :
    s'.ranking.elements[b]!.beams[i]!.score.le .zero = true := by
  obtain ⟨p, follows, -⟩ := withheld.elements b hb
  cases finished : p.finished with
  | true =>
    rw [follows.element_eq withheld.sound decoded hb finished,
      Element.getElem!_idle (withheld.sound.ranking.beams b hb ▸ hi)]
    exact Binary32.le_refl Binary32.isNaN_zero
  | false =>
    have keeps := follows.live finished
    have element := keeps.element_eq run withheld.sound room decoded
      (withheld.clean accepted decoded normal) hb follows.pool
    have count : (PlainBeam.going c (candidatesAt c
        [.minLength c.minLength, .repetitionPenalty c.repetitionPenalty] logits b p)).length =
        c.numBeams := PlainBeam.length_going run.toValid (run.pairs run.many)
    rw [← count] at hi
    let x := (PlainBeam.going c (candidatesAt c
      [.minLength c.minLength, .repetitionPenalty c.repetitionPenalty] logits b p))[i]
    have beam : s'.ranking.elements[b]!.beams[i]! = x.toCandidate.toBeam (b * c.numBeams) := by
      rw [element]
      simp [hi, x]
    have member := List.mem_mergeSort.1 (PlainBeam.sublist_going.subset (List.getElem_mem hi))
    obtain ⟨path, token⟩ := PlainBeam.mem_extensions member
    have width := ScoreMatrix.size_row (row_mul_add_lt hb path)
      (Nat.le_of_eq decoded.sound.state.scores.symm)
    have entry := withheld.nonpositive accepted decoded normal b hb x.path path _
      (Array.getElem_mem (width ▸ token))
    rw [← getElem!_pos, PlainBeam.getElem!_sums width (keeps.rows withheld.sound hb decoded path)
      token, ← PlainBeam.score_of_mem_extensions member] at entry
    rw [beam]
    exact entry

include prompts

theorem Withheld.long (room : s.state.sequences.length < c.maxLength)
    (size : logits.size = c.slotCount * c.vocabSize)
    (spared : c.promptLength input + t < c.minLength → c.SparesAll input s'.state.scores.scores)
    {b : Nat} (hb : b < c.batchSize) :
    ∀ h ∈ s'.ranking.elements[b]!.pool.kept, c.minLength < h.tokens.length := by
  intro h kept
  obtain ⟨p, follows, formed⟩ := withheld.elements b hb
  cases finished : p.finished with
  | true =>
    rw [follows.element_eq withheld.sound decoded hb finished] at kept
    exact withheld.pools b hb h kept
  | false =>
    have element := (follows.live finished).element_eq run withheld.sound room decoded
      (withheld.clean accepted decoded normal) hb follows.pool
    rw [element] at kept
    rcases HypothesisPool.mem_foldl_add kept with old | ⟨x, hx, same⟩
    · exact withheld.pools b hb h (follows.pool ▸ old)
    · have enough : c.minLength ≤ c.promptLength input + t := by
        refine Nat.le_of_not_lt fun short => ?_
        rw [withheld.ended_eq_nil accepted decoded short size (spared short) hb follows formed
          finished] at hx
        cases hx
      obtain ⟨tokens, grown, count, -⟩ :=
        formed.extend finished (PlainBeam.mem_candidates (PlainBeam.mem_of_mem_ended hx)).1
      have start := length_prompt prompts hb
      rw [same, grown, List.length_append, List.length_append, List.length_singleton]
      omega

theorem Withheld.decode (room : s.state.sequences.length < c.maxLength)
    (size : logits.size = c.slotCount * c.vocabSize)
    (spared : c.promptLength input + t < c.minLength →
      c.SparesAll input s'.state.scores.scores) :
    Withheld c input (t + 1) s' where
  toGrown := withheld.toGrown.decode run room decoded (withheld.clean accepted decoded normal)
  scores := fun _ hb _ hi => withheld.score_le accepted run decoded normal room hb hi
  pools := fun _ hb => withheld.long accepted run prompts decoded normal room size spared hb

end Decode

theorem Withheld.late_closed (withheld : Withheld c input t s) (ended : s.ranking.allDone = true)
    (prompts : SequenceStore.Accepts input c.batchSize c.maxLength) {b : Nat}
    (hb : b < c.batchSize) :
    ∀ h ∈ (s.ranking.closed s.state.sequences.slot).elements[b]!.pool.kept,
      c.Late (c.promptLength input)
        (h.tokens ++ List.replicate (c.maxLength - h.tokens.length) c.padToken) := by
  intro h kept
  obtain ⟨p, follows, formed⟩ := withheld.elements b hb
  have start := length_prompt prompts hb
  have pooled : h ∈ p.pool.kept → c.Late (c.promptLength input)
      (h.tokens ++ List.replicate (c.maxLength - h.tokens.length) c.padToken) := by
    intro old
    have long := withheld.pools b hb h (follows.pool ▸ old)
    obtain ⟨tokens, same, -, held⟩ := formed.pool h old
    rw [same, List.length_append, List.length_singleton] at long
    rw [same, List.append_assoc]
    exact held.late start (.inl (Nat.le_of_lt_succ long))
  rw [follows.closed withheld.sound hb, PlainBeam.result] at kept
  cases finished : p.finished with
  | true =>
    rw [finished, if_pos rfl] at kept
    exact pooled kept
  | false =>
    rw [finished, if_neg (by decide)] at kept
    rcases HypothesisPool.mem_foldl_add kept with old | ⟨path, member, same⟩
    · exact pooled old
    · obtain ⟨tokens, grown, count, held⟩ := formed.live finished path member
      have done := (Ranking.allDone_iff withheld.sound.ranking).1 ended b hb
      have full := (follows.live finished).capped done
      rw [withheld.length] at full
      have length : c.maxLength - h.tokens.length = 0 := by
        rw [same, grown, List.length_append]
        omega
      rw [length, same, grown]
      exact held.late start (.inr rfl)

end Withheld

/-! ## Whole runs -/

section Runs

variable {c : Configuration} {input : Tokens} {model : Model} {g₀ : Generator}
  (accepted : c.validate = .ok ()) (run : c.Runnable)
  (prompts : SequenceStore.Accepts input c.batchSize c.maxLength) (sized : model.Fits c)
  (regular : model.Regular c)
  (spared : ∀ t g, g₀.Reaches (t + 1) g → c.promptLength input + t < c.minLength →
    c.SparesAll input g.search.state.scores.scores)

include accepted run prompts sized regular spared

theorem preserved_withheld : Preserved c input model g₀ (Withheld c input) where
  sound withheld := withheld.sound
  length withheld := withheld.length
  asked := Withheld.asked
  decode := by
    intro t s s' logits passes g withheld room forward decoded next search
    have count : s.state.sequences.toList.length = c.slotCount := by
      rw [SequenceStore.toList_eq, List.length_map, List.length_range]
      exact withheld.sound.state.sequences.slots
    have spares := spared t g next
    rw [search] at spares
    exact withheld.decode accepted run prompts decoded
      (fun r hr => regular.normalizable sized count forward hr) room
      (sized.size_eq count forward) spares

theorem gives_runToEnd_late {s₀ : BeamSearch} (made : (Search.new c input).Gives (.beam s₀))
    (first : Withheld c input 0 s₀) (start : g₀ = ⟨.beam s₀, model, 0, 0⟩) :
    ∃ tokens scores g, (Generator.runToEnd c input model).Gives
        (⟨tokens, scores, c.numReturned, c.maxLength⟩, g) ∧
      ∀ i < c.batchSize * c.numReturned,
        c.Late (c.promptLength input) (ScoreMatrix.row tokens c.maxLength i).toList := by
  subst start
  obtain ⟨tokens, scores, g, s, given, ⟨t, withheld⟩, ended, -, lists⟩ :=
    gives_runToEnd_kept run sized made first
      (preserved_withheld accepted run prompts sized regular spared)
  refine ⟨tokens, scores, g, given, fun i hi => ?_⟩
  have hb := div_lt_rows hi
  have hj := mod_lt_width hi
  obtain ⟨enough, whole⟩ := withheld.toGrown.closed run ended hb
  obtain ⟨h, kept, place⟩ := exists_sorted (i := i % c.numReturned)
    (Nat.lt_of_lt_of_le (Nat.lt_of_lt_of_le hj run.returned.2) enough)
  obtain ⟨generated, same, ends⟩ := whole h kept
  have short : h.tokens.length ≤ c.maxLength := by
    have fit := ends.fits
    rw [same, List.length_append, length_prompt prompts hb]
    exact fit
  have row := (lists.row _ hb _ hj).trans (rowOf_eq place short)
  rw [Nat.div_add_mod'] at row
  rw [row]
  exact withheld.late_closed ended prompts hb h kept

end Runs

end BeamSearch

/-- Decoding under a minimum length. The mask is the lowest finite number, which the penalty
rescales where a prompt holds the end token, so it holds as long as every row has another score
above that. Then no step from sequences that are too short ends one, greedy or not, and no returned
row holds the end token between its prompt and the minimum length. A run returns unless it has more
beams than a selector is made for. Slots and tokens are assumed to fit signed 32-bit words, which is
not checked: a token past them wraps to another one. -/
theorem end_token_withheld {c : Configuration} (accepted : c.validate = .ok ())
    (fits : c.Addressable) {input : Tokens}
    (prompts : SequenceStore.Accepts input c.batchSize c.maxLength) {model : Model}
    (sized : model.Fits c) (regular : model.Regular c)
    (spared : ∀ g₀, (Generator.new c input model).Gives g₀ → ∀ t g, g₀.Reaches (t + 1) g →
      c.promptLength input + t < c.minLength → c.SparesAll input g.search.state.scores.scores) :
    (∀ g₀, (Generator.new c input model).Gives g₀ → ∀ t g, g₀.Reaches (t + 1) g →
      c.promptLength input + t < c.minLength → g.search.Withholds c input) ∧
    (c.numBeams ≤ Selection.maxBeams →
      ∃ output g, (Generator.runToEnd c input model).Gives (output, g)) ∧
    ∀ output g, (Generator.runToEnd c input model).Gives (output, g) →
      ∀ i < c.batchSize * c.numReturned,
        c.Late (c.promptLength input) (output.row i).toList := by
  have valid := Configuration.valid_of_validate accepted
  rcases Nat.lt_or_ge Selection.maxBeams c.numBeams with excess | few
  · have failing : (Generator.new c input model).Fails :=
      (BeamSearch.fails_newSearch input excess).bind _
    exact ⟨fun g₀ given => absurd given failing.not_gives,
      fun few => absurd excess (Nat.not_lt.2 few),
      fun output g given => absurd given (failing.bind _).not_gives⟩
  rcases Nat.eq_or_lt_of_le valid.beams with one | many
  · obtain ⟨s₀, made, first⟩ :=
      GreedySearch.withheld_new accepted fits.toAllocatable one.symm prompts
    have created : (Generator.new c input model).Gives ⟨.greedy s₀, model, 0, 0⟩ :=
      made.bind (gives_pure _)
    have turns := GreedySearch.turns_stands accepted fits one.symm prompts sized (spared _ created)
    obtain ⟨tokens, scores, g, given, rows⟩ := GreedySearch.gives_runToEnd_late accepted fits
      one.symm prompts sized (spared _ created) made first rfl
    refine ⟨fun g₀ given t g reached short => ?_, fun _ => ⟨_, g, given⟩,
      fun output g' given' => ?_⟩
    · obtain rfl := given.unique created
      obtain ⟨s, search, withheld⟩ := (turns.of_reaches ⟨rfl, .start, s₀, rfl, first⟩ reached).kept
      rw [search]
      exact withheld.withholds one.symm short
    · cases given.unique given'
      exact rows
  · have run : c.Runnable := ⟨valid, fits, many, few⟩
    obtain ⟨s₀, made, first⟩ := BeamSearch.withheld_new accepted run prompts
    have created : (Generator.new c input model).Gives ⟨.beam s₀, model, 0, 0⟩ :=
      made.bind (gives_pure _)
    have preserved :=
      BeamSearch.preserved_withheld accepted run prompts sized regular (spared _ created)
    obtain ⟨tokens, scores, g, given, rows⟩ := BeamSearch.gives_runToEnd_late accepted run prompts
      sized regular (spared _ created) made first rfl
    refine ⟨fun g₀ given t g reached short => ?_, fun _ => ⟨_, g, given⟩,
      fun output g' given' => ?_⟩
    · obtain rfl := given.unique created
      obtain ⟨s, search, withheld⟩ :=
        (BeamSearch.stands_of_reaches run sized preserved rfl rfl first reached).kept
      rw [search]
      exact fun b hb => withheld.pool_eq_nil prompts short hb
    · cases given.unique given'
      exact rows

/-- One greedy step from a prompt that is the end token, which the model favours: its score, half
the lowest finite number, is still below the other token's. -/
theorem end_token_withheld_of_penalty_half :
    let c : Configuration :=
      { batchSize := 1, vocabSize := 2, maxLength := 2, eosToken := 1, padToken := 0,
        minLength := 2, repetitionPenalty := ⟨0x3f000000⟩ }
    let model : Model := .ofSlots fun _ => [.zero, .one]
    (∀ g₀, (Generator.new c #[1] model).Gives g₀ → ∀ g, g₀.Reaches 1 g →
      g.search.Withholds c #[1]) ∧
    ∃ output g, (Generator.runToEnd c #[1] model).Gives (output, g) ∧
      c.Late 1 (output.row 0).toList := by
  intro c model
  have accepted : c.validate = .ok () := by decide +kernel
  have fits : c.Addressable := ⟨⟨by decide, by decide⟩, by decide, by decide⟩
  have prompts : SequenceStore.Accepts #[1] 1 2 := ⟨by decide, by decide, by decide⟩
  have one : c.promptLength #[1] = 1 := by decide
  have width : ∀ tokens : List Token, ((fun _ => [.zero, .one] : List Token → List Binary32)
      tokens).length = 2 := fun _ => rfl
  have regular : model.Regular c := by
    intro passes sequences logits count forward r hr
    obtain ⟨one, rfl⟩ : ∃ s, sequences = [s] := List.length_eq_one_iff.1 count
    obtain rfl : #[.zero, .one] = logits := by injection forward
    obtain rfl : r = 0 := Nat.lt_one_iff.1 hr
    decide +kernel
  obtain ⟨g₀, g, s, made, reached, search, first⟩ := GreedySearch.reaches_one accepted
    fits.toAllocatable rfl prompts (by decide) width
  have spares : c.SparesAll #[1] s.state.scores.scores := by
    intro b hb i hi
    obtain rfl : b = 0 := Nat.lt_one_iff.1 hb
    obtain rfl : i = 0 := Nat.lt_one_iff.1 hi
    rw [Nat.zero_mul, (first 0 (by decide)).1]
    exact ⟨0, by decide, by decide, by decide +kernel⟩
  obtain ⟨steps, returns, late⟩ := end_token_withheld accepted fits prompts
    (Model.fits_ofSlots width) regular (by
      intro g₁ made' t g' reached' short
      obtain rfl := made'.unique made
      obtain rfl : t = 0 := by
        have two : c.minLength = 2 := rfl
        omega
      obtain rfl := reached'.unique reached
      rw [search]
      exact spares)
  obtain ⟨output, last, given⟩ := returns (by decide)
  exact ⟨fun g₁ made' g' reached' => steps g₁ made' 0 g' reached' (by decide), output, last, given,
    one ▸ late output last given 0 (by decide)⟩

/-- A penalty of one half raises the score of an end token that the prompt holds above that of a
token whose logit is the lowest finite number. -/
theorem end_token_escapes : ¬ ∀ (c : Configuration) (input : Tokens) (model : Model),
    c.validate = .ok () → c.numBeams ≤ Selection.maxBeams → c.Addressable →
    SequenceStore.Accepts input c.batchSize c.maxLength →
    (∀ t ∈ input, c.inVocabulary t = true) → model.Fits c → model.Regular c →
    ∀ g₀, (Generator.new c input model).Gives g₀ → ∀ t g, g₀.Reaches (t + 1) g →
      c.promptLength input + t < c.minLength → g.search.Withholds c input := by
  intro claimed
  let c : Configuration :=
    { batchSize := 1, vocabSize := 2, maxLength := 2, eosToken := 1, padToken := 0,
      minLength := 2, repetitionPenalty := ⟨0x3f000000⟩ }
  let logits : List Token → List Binary32 := fun _ => [.least, .zero]
  have accepted : c.validate = .ok () := by decide +kernel
  have fits : c.Addressable := ⟨⟨by decide, by decide⟩, by decide, by decide⟩
  have prompts : SequenceStore.Accepts #[1] 1 2 := ⟨by decide, by decide, by decide⟩
  have width : ∀ tokens, (logits tokens).length = 2 := fun _ => rfl
  have regular : Model.Regular c (.ofSlots logits) := by
    intro passes sequences given count forward r hr
    obtain ⟨one, rfl⟩ : ∃ s, sequences = [s] := List.length_eq_one_iff.1 count
    obtain rfl : #[.least, .zero] = given := by injection forward
    obtain rfl : r = 0 := Nat.lt_one_iff.1 hr
    decide +kernel
  obtain ⟨g₀, g, s, made, reached, search, first⟩ := GreedySearch.reaches_one accepted
    fits.toAllocatable rfl prompts (by decide) width
  have withholds := claimed c #[1] (.ofSlots logits) accepted (by decide) fits prompts
    (by decide) (Model.fits_ofSlots width) regular g₀ made 0 g reached (by decide)
  rw [search] at withholds
  have flag := (first 0 (by decide)).2
  rw [(withholds 0 (by decide)).1] at flag
  exact absurd flag (by decide +kernel)

end TokenSearch
