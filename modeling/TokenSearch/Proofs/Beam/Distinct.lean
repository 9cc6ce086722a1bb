import TokenSearch.Proofs.Beam.Output

/-!
The hypotheses of a beam search are different. All paths start as copies of one prompt; if enough
continuations of the first path rank above everything that the other paths offer, the first step
leaves different paths. From then on a step extends different paths, or one path with different
tokens, and a hypothesis in the pool ends where no live path does. Their rows differ too, whatever
the padding is, because a row holds nothing but padding behind its first end token.
-/

namespace TokenSearch

open TokenSearch.Run TokenSearch.Action

/-! ## Pools -/

namespace HypothesisPool

variable {α : Type} {tokens : α → List Token} {sum : α → Binary32} {list : List α}

def sequences (p : HypothesisPool) : List (List Token) := p.kept.map (·.tokens)

theorem sublist_add (p : HypothesisPool) (tokens : List Token) (sum : Binary32) :
    (p.add tokens sum).sequences.Sublist (p.sequences ++ [tokens]) := by
  simpa [sequences] using (p.kept_add_sublist tokens sum).map Hypothesis.tokens

theorem sublist_foldl_add (p : HypothesisPool) :
    (list.foldl (fun pool x => pool.add (tokens x) (sum x)) p).sequences.Sublist
      (p.sequences ++ list.map tokens) := by
  induction list generalizing p with
  | nil => simp
  | cons x rest ih =>
    have one := sublist_add p (tokens x) (sum x)
    have others := ih (p.add (tokens x) (sum x))
    rw [List.foldl_cons, List.map_cons]
    refine others.trans ?_
    simpa using one.append (List.Sublist.refl (rest.map tokens))

end HypothesisPool

/-! ## A search of one prompt -/

namespace PlainBeam

variable {c : Configuration} {rows : Nat → Scores} {p : PlainBeam} {prompt : List Token} {t : Nat}

/-- Whether `x` continues the first path and ranks above everything that the others offer. -/
def ahead (c : Configuration) (extensions : List Extension) (x : Extension) : Bool :=
  x.path = 0 && !x.ends c.eosToken &&
    extensions.all fun y => y.path = 0 || y.score.rank < x.score.rank

def Leads (c : Configuration) (rows : Nat → Scores) (p : PlainBeam) : Prop :=
  c.numBeams ≤ (p.extensions c rows).countP (ahead c (p.extensions c rows))

theorem path_of_mem_take {list : List Extension} {x : Extension}
    (sorted : list.Pairwise fun x y => x.precedes c.vocabSize y = true)
    (part : ∀ y ∈ list, y ∈ p.extensions c rows)
    (enough : c.numBeams ≤ list.countP (ahead c (p.extensions c rows)))
    (member : x ∈ list.take c.numBeams) : x.path = 0 := by
  by_contra other
  refine not_mem_take_of_countP sorted (by simp [ahead, other]) (fun a ha leads => ?_) enough member
  simp only [ahead, Bool.and_eq_true, List.all_eq_true] at leads
  have above := leads.2 x (part x (List.mem_of_mem_take member))
  exact Extension.not_precedes_of_lt (by simpa [other] using above)

theorem Leads.path_eq_zero (leads : p.Leads c rows) {x : Extension}
    (chosen : x ∈ ended c (p.candidates c rows) ∨ x ∈ going c (p.candidates c rows)) :
    x.path = 0 := by
  let sorted := (p.extensions c rows).mergeSort (Extension.precedes c.vocabSize)
  have ordered : sorted.Pairwise fun x y => x.precedes c.vocabSize y = true :=
    List.pairwise_mergeSort Extension.precedes_trans Extension.precedes_total _
  have enough : c.numBeams ≤ sorted.countP (ahead c (p.extensions c rows)) := by
    rw [(List.mergeSort_perm _ _).countP_eq]
    exact leads
  rcases chosen with ends | goes
  · refine path_of_mem_take ordered (fun y => List.mem_mergeSort.1) enough ?_
    have member := List.mem_of_mem_filter ends
    rwa [candidates, List.take_take, Nat.min_eq_left (by omega)] at member
  · have others : (sorted.filter (!·.ends c.eosToken)).countP (ahead c (p.extensions c rows)) =
        sorted.countP (ahead c (p.extensions c rows)) := by
      rw [List.countP_filter]
      refine List.countP_congr fun x _ => ?_
      simp only [ahead, Bool.and_eq_true]
      tauto
    have front := ((List.take_prefix (2 * c.numBeams) sorted).filter
      (!·.ends c.eosToken)).take c.numBeams
    refine path_of_mem_take (ordered.filter _) (fun y hy => ?_) (others ▸ enough)
      (front.subset goes)
    exact List.mem_mergeSort.1 (List.mem_of_mem_filter hy)

structure Apart (c : Configuration) (prompt : List Token) (t : Nat) (p : PlainBeam) : Prop
    extends p.Formed c prompt t where
  pooled : p.pool.sequences.Nodup
  parted : 0 < t → p.finished = false → (p.live.map (·.tokens)).Nodup

theorem apart_start (c : Configuration) (prompt : List Token) :
    (start c prompt).Apart c prompt 0 where
  toFormed := formed_start c prompt
  pooled := List.nodup_nil
  parted := nofun

section Apart

variable (apart : p.Apart c prompt t) (goes : p.finished = false)

include apart goes

theorem Apart.nodup_extend (first : t = 0 → p.Leads c rows) {list : List Extension}
    (part : list.Sublist ((p.extensions c rows).mergeSort (Extension.precedes c.vocabSize)))
    (chosen : ∀ x ∈ list,
      x ∈ ended c (p.candidates c rows) ∨ x ∈ going c (p.candidates c rows)) :
    (list.map p.extend).Nodup := by
  have pairs : (list.map fun x => (x.path, x.token)).Nodup := nodup_of_sublist part
  refine List.Nodup.map_on (fun x hx y hy same => ?_) pairs.of_map
  obtain ⟨sequences, last⟩ := List.append_inj' same rfl
  have token : x.token = y.token := Int.ofNat_inj.1 (List.singleton_inj.1 last)
  have inside : ∀ z ∈ list, z.path < p.live.length := fun z hz =>
    apart.paths goes ▸ (mem_extensions (List.mem_mergeSort.1 (part.subset hz))).1
  have path : x.path = y.path := by
    rcases Nat.eq_zero_or_pos t with zero | pos
    · exact ((first zero).path_eq_zero (chosen x hx)).trans
        ((first zero).path_eq_zero (chosen y hy)).symm
    · have distinct := apart.parted pos goes
      rw [getElem!_pos p.live _ (inside x hx), getElem!_pos p.live _ (inside y hy)] at sequences
      let live := p.live.map (·.tokens)
      have placeX : x.path < live.length := by simpa [live] using inside x hx
      have placeY : y.path < live.length := by simpa [live] using inside y hy
      have same : live[x.path] = live[y.path] := by simpa [live] using sequences
      exact distinct.getElem_inj_iff.1 same
  exact List.inj_on_of_nodup_map pairs hx hy (Prod.ext path token)

theorem Apart.take (valid : c.Valid) (pairs : 2 ≤ c.vocabSize)
    (first : t = 0 → p.Leads c rows) :
    (p.take c (p.candidates c rows)).Apart c prompt (t + 1) where
  toFormed := apart.toFormed.take valid pairs goes
  pooled := by
    refine List.Nodup.sublist (HypothesisPool.sublist_foldl_add p.pool) (List.nodup_append.2
      ⟨apart.pooled, apart.nodup_extend goes first sublist_ended fun _ => .inl, ?_⟩)
    intro held pooled grown extended same
    obtain ⟨h, kept, rfl⟩ := List.mem_map.1 pooled
    obtain ⟨x, hx, rfl⟩ := List.mem_map.1 extended
    -- What is retired in this step is longer than what was retired before.
    obtain ⟨tokens, eq, short, -⟩ := apart.pool h kept
    obtain ⟨tokens', eq', length, -⟩ :=
      apart.toFormed.extend goes (mem_candidates (mem_of_mem_ended hx)).1
    have lengths := congrArg List.length same
    rw [eq, eq'] at lengths
    simp only [List.length_append, List.length_singleton] at lengths
    omega
  parted := by
    intro _ _
    have extended := apart.nodup_extend goes first sublist_going fun _ => .inr
    simpa [PlainBeam.take, Function.comp_def] using extended

omit goes

theorem Apart.advance (valid : c.Valid) (pairs : 2 ≤ c.vocabSize) {processors : List Processor}
    {logits : Nat → Scores}
    (first : t = 0 → p.finished = false → p.Leads c (p.processed c processors logits)) :
    (p.advance c processors logits).Apart c prompt (t + 1) := by
  cases finished : p.finished with
  | true =>
    rw [advance_of_finished finished]
    exact ⟨apart.toFormed.of_finished finished, apart.pooled,
      fun _ goes => absurd (finished.symm.trans goes) (by decide)⟩
  | false =>
    rw [PlainBeam.advance, if_neg (by simp [finished])]
    exact apart.take finished valid pairs fun zero => first zero finished

theorem Apart.result (pos : 0 < t) : p.result.sequences.Nodup := by
  unfold PlainBeam.result
  cases finished : p.finished with
  | true => exact apart.pooled
  | false =>
    refine List.Nodup.sublist (HypothesisPool.sublist_foldl_add p.pool) (List.nodup_append.2
      ⟨apart.pooled, apart.parted pos finished, ?_⟩)
    intro held pooled grown live same
    obtain ⟨h, kept, rfl⟩ := List.mem_map.1 pooled
    obtain ⟨path, member, rfl⟩ := List.mem_map.1 live
    obtain ⟨tokens, eq, -⟩ := apart.pool h kept
    obtain ⟨tokens', eq', -, open'⟩ := apart.toFormed.live finished path member
    rw [eq, eq', List.append_assoc] at same
    have last : c.eosToken ∈ tokens' := List.append_cancel_left same ▸ List.mem_append_right _
      List.mem_cons_self
    exact (open' _ last).2.2 rfl

end Apart

end PlainBeam

/-! ## What the selection is given in the first step -/

namespace Configuration

/-- In the rows of one prompt, enough tokens that do not end the first path score above everything
in the other rows. -/
def Leads (c : Configuration) (rows : Nat → Scores) : Prop :=
  c.numBeams ≤ (List.range c.vocabSize).countP fun t : Nat => (t : Token) ≠ c.eosToken &&
    (List.range c.numBeams).all fun j => j = 0 ||
      (List.range c.vocabSize).all fun u => (rows j)[u]!.rank < (rows 0)[t]!.rank

instance (c : Configuration) (rows : Nat → Scores) : Decidable (c.Leads rows) := Nat.decLe _ _

theorem Leads.congr {c : Configuration} {rows rows' : Nat → Scores} (leads : c.Leads rows)
    (beams : 1 ≤ c.numBeams) (same : ∀ j < c.numBeams, rows j = rows' j) : c.Leads rows' := by
  refine Nat.le_trans leads (List.countP_mono_left fun t _ above => ?_)
  rw [Bool.and_eq_true, List.all_eq_true] at above ⊢
  refine ⟨above.1, fun j hj => ?_⟩
  rw [← same j (List.mem_range.1 hj), ← same 0 beams]
  exact above.2 j hj

end Configuration

namespace PlainBeam

theorem leads_of_rows {c : Configuration} {rows sums : Nat → Scores} {p : PlainBeam}
    (beams : 1 ≤ c.numBeams) (sizes : ∀ j < c.numBeams, (sums j).size = c.vocabSize)
    (held : ∀ j < c.numBeams, sums j = (rows j).map (· + p.live[j]!.score))
    (leads : c.Leads sums) : p.Leads c rows := by
  have score : ∀ j < c.numBeams, ∀ t < c.vocabSize,
      (sums j)[t]! = (rows j)[t]! + p.live[j]!.score :=
    fun j hj t ht => getElem!_sums (sizes j hj) (held j hj) ht
  let continued (t : Nat) : Extension := ⟨0, t, (rows 0)[t]! + p.live[0]!.score⟩
  have part : ((List.range c.vocabSize).map continued).Sublist (p.extensions c rows) :=
    List.sublist_flatten_of_mem (List.mem_map_of_mem (List.mem_range.2 beams))
  refine Nat.le_trans leads (Nat.le_trans ?_ part.countP_le)
  rw [List.countP_map]
  refine List.countP_mono_left fun t ht above => ?_
  rw [Bool.and_eq_true, List.all_eq_true] at above
  have own : (continued t).score = (sums 0)[t]! := (score 0 beams t (List.mem_range.1 ht)).symm
  have others : ∀ y ∈ p.extensions c rows,
      y.path = 0 ∨ y.score.rank < (continued t).score.rank := by
    intro y hy
    obtain ⟨j, hj, hy⟩ := List.mem_flatMap.1 hy
    obtain ⟨u, hu, rfl⟩ := List.mem_map.1 hy
    have below := above.2 j hj
    rw [Bool.or_eq_true, List.all_eq_true] at below
    refine below.imp of_decide_eq_true fun below => ?_
    rw [own, ← score j (List.mem_range.1 hj) u (List.mem_range.1 hu)]
    exact of_decide_eq_true (below u hu)
  have goes : (t : Token) ≠ c.eosToken := of_decide_eq_true above.1
  simpa [ahead, Extension.ends, continued, goes] using others

end PlainBeam

/-! ## Rows -/

namespace Configuration

variable {c : Configuration} {length : Nat} {tokens tokens' : List Token}

theorem Generated.length_le_of_padded (h : c.Generated length tokens)
    (h' : c.Generated length tokens') {padding padding' : List Token}
    (same : tokens ++ padding = tokens' ++ padding') : tokens'.length ≤ tokens.length := by
  by_contra longer
  have front : tokens = tokens'.take tokens.length := by
    have taken := congrArg (List.take tokens.length) same
    rwa [List.take_left, List.take_append_of_le_length (by omega)] at taken
  have ends : tokens.getLast? = some c.eosToken := by
    by_contra going
    have full := h.full going
    have fits := h'.fits
    omega
  have inside : c.eosToken ∈ tokens'.take (tokens'.length - 1) := by
    have shorter : tokens.length ≤ tokens'.length - 1 := by omega
    refine (List.take_prefix_take_left shorter).subset ?_
    rw [← front]
    exact List.mem_of_getLast? ends
  rw [← List.dropLast_eq_take] at inside
  exact h'.inner _ inside rfl

theorem Generated.eq_of_padded (h : c.Generated length tokens) (h' : c.Generated length tokens')
    {padding padding' : List Token} (same : tokens ++ padding = tokens' ++ padding') :
    tokens = tokens' :=
  List.append_inj_left same (Nat.le_antisymm (h'.length_le_of_padded h same.symm)
    (h.length_le_of_padded h' same))

end Configuration

/-! ## Runs -/

namespace BeamSearch

structure Parted (c : Configuration) (input : Tokens) (t : Nat) (s : BeamSearch) : Prop where
  sound : s.Sound c
  length : s.state.sequences.length = c.promptLength input + t
  elements : ∀ b < c.batchSize, ∃ p : PlainBeam, Follows c s b p ∧
    p.Apart c (prompt input (c.promptLength input) b) t

section Parted

variable {c : Configuration} {input : Tokens} {t b : Nat} {s s' : BeamSearch}

theorem Parted.grown (parted : Parted c input t s) : Grown c input t s :=
  ⟨parted.sound, parted.length, fun b hb =>
    (parted.elements b hb).imp fun _ h => ⟨h.1, h.2.toFormed⟩⟩

theorem parted_new (accepted : c.validate = .ok ()) (run : c.Runnable)
    (prompts : SequenceStore.Accepts input c.batchSize c.maxLength) :
    ∃ s, (Search.new c input).Gives (.beam s) ∧ Parted c input 0 s := by
  obtain ⟨s, made, sound, length, follows⟩ := follows_new accepted run prompts
  exact ⟨s, made, sound, length, fun b hb => ⟨_, follows b hb, PlainBeam.apart_start c _⟩⟩

theorem Parted.asked (parted : Parted c input t s) : Parted c input t s.asked := by
  refine ⟨(takes_isDone parted.sound).2, parted.length, fun b hb => ?_⟩
  obtain ⟨p, follows, apart⟩ := parted.elements b hb
  exact ⟨p, follows_asked parted.sound hb follows, apart⟩

theorem Parted.decode (run : c.Runnable) (parted : Parted c input t s)
    (room : s.state.sequences.length < c.maxLength) {processors : List Processor} {logits : Scores}
    (decoded : Decoded c processors logits s s') (clean : NoNegativeNaN s'.state.scores.scores)
    (first : t = 0 → ∀ b < c.batchSize, c.Leads fun j =>
      ScoreMatrix.row s'.state.scores.scores c.vocabSize (b * c.numBeams + j)) :
    Parted c input (t + 1) s' := by
  refine ⟨decoded.sound, by rw [decoded.length, parted.length, Nat.add_assoc], fun b hb => ?_⟩
  obtain ⟨p, follows, apart⟩ := parted.elements b hb
  refine ⟨_, follows_decode run parted.sound room decoded clean hb follows,
    apart.advance run.toValid (run.pairs run.many) fun zero goes => ?_⟩
  refine PlainBeam.leads_of_rows run.beams (fun j hj => ?_) (fun j hj => ?_) (first zero b hb)
  · exact ScoreMatrix.size_row (row_mul_add_lt hb hj)
      (Nat.le_of_eq decoded.sound.state.scores.symm)
  · exact (follows.live goes).rows parted.sound hb decoded hj

theorem preserved_parted {model : Model} {g₀ : Generator} (run : c.Runnable)
    (clean : ∀ t g, g₀.Reaches (t + 1) g → NoNegativeNaN g.search.state.scores.scores)
    (first : ∀ g, g₀.Reaches 1 g → ∀ b < c.batchSize, c.Leads fun j =>
      ScoreMatrix.row g.search.state.scores.scores c.vocabSize (b * c.numBeams + j)) :
    Preserved c input model g₀ (Parted c input) where
  sound := Parted.sound
  length := Parted.length
  asked := Parted.asked
  decode := by
    intro t s s' logits passes g parted room _ decoded next search
    have handed := clean t g next
    rw [search] at handed
    refine parted.decode run room decoded handed fun zero => ?_
    subst zero
    have leads := first g next
    rwa [search] at leads

variable (parted : Parted c input t s) (hb : b < c.batchSize)

include parted hb

theorem Parted.nodup_pool : s.ranking.elements[b]!.pool.sequences.Nodup := by
  obtain ⟨p, follows, apart⟩ := parted.elements b hb
  rw [follows.pool]
  exact apart.pooled

theorem Parted.nodup_slots (pos : 0 < t) (active : s.ranking.elements[b]!.status = .active) :
    ((List.range c.numBeams).map fun i => s.state.sequences.slot (b * c.numBeams + i)).Nodup := by
  obtain ⟨p, follows, apart⟩ := parted.elements b hb
  have goes : p.finished = false := by
    by_contra finished
    have completed := follows.finished (by simpa using finished)
    exact absurd (active.symm.trans completed) (by decide)
  have keeps := follows.live goes
  have same : ((List.range c.numBeams).map fun i => s.state.sequences.slot (b * c.numBeams + i)) =
      p.live.map (·.tokens) := by
    rw [← range_map_getElem! p.live, keeps.paths, List.map_map]
    exact List.map_congr_left fun i hi => keeps.tokens i (List.mem_range.1 hi)
  exact same ▸ apart.parted pos goes

theorem Parted.pos_of_allDone (run : c.Runnable) (room : c.promptLength input < c.maxLength)
    (ended : s.ranking.allDone = true) : 0 < t := by
  obtain ⟨p, follows, apart⟩ := parted.elements b hb
  by_contra zero
  obtain rfl : t = 0 := by omega
  have empty : p.pool.kept = [] := by
    refine List.eq_nil_iff_forall_not_mem.2 fun h kept => ?_
    obtain ⟨_, -, short, -⟩ := apart.pool h kept
    omega
  have goes : p.finished = false := by
    by_contra finished
    have full := apart.full (by simpa using finished)
    rw [HypothesisPool.size, empty, List.length_nil] at full
    exact absurd run.beams (by omega)
  have done := (Ranking.allDone_iff parted.sound.ranking).1 ended b hb
  have capped := (follows.live goes).capped done
  have length := parted.length
  omega

theorem Parted.nodup_closed (pos : 0 < t) :
    (s.ranking.closed s.state.sequences.slot).elements[b]!.pool.sequences.Nodup := by
  obtain ⟨p, follows, apart⟩ := parted.elements b hb
  rw [follows.closed parted.sound hb]
  exact apart.result pos

end Parted

theorem rowOf_injective {c : Configuration} {pool : HypothesisPool} {prompt : List Token}
    {length i j : Nat} (distinct : pool.sequences.Nodup) (start : prompt.length = length)
    (whole : ∀ h ∈ pool.kept, ∃ tokens, h.tokens = prompt ++ tokens ∧ c.Generated length tokens)
    (hi : i < pool.size) (hj : j < pool.size)
    (same : Ranking.rowOf c pool i = Ranking.rowOf c pool j) : i = j := by
  obtain ⟨h, kept, place⟩ := exists_sorted hi
  obtain ⟨h', kept', place'⟩ := exists_sorted hj
  obtain ⟨tokens, eq, generated⟩ := whole h kept
  obtain ⟨tokens', eq', generated'⟩ := whole h' kept'
  have fits := generated.fits
  have fits' := generated'.fits
  rw [rowOf_eq place (by rw [eq, List.length_append]; omega),
    rowOf_eq place' (by rw [eq', List.length_append]; omega), eq, eq', List.append_assoc,
    List.append_assoc] at same
  have tokens_eq := generated.eq_of_padded generated' (List.append_cancel_left same)
  have sorted : (pool.sorted.map (·.tokens)).Nodup :=
    ((List.mergeSort_perm pool.kept _).map _).nodup_iff.2 distinct
  have inside : i < (pool.sorted.map (·.tokens)).length := by
    rwa [List.length_map, HypothesisPool.sorted, List.length_mergeSort]
  refine (List.getElem?_inj inside sorted).1 ?_
  rw [List.getElem?_map, List.getElem?_map, place, place', Option.map_some, Option.map_some, eq,
    eq', tokens_eq]

end BeamSearch

/-- Beam search whose first step is filled by the first beam of every prompt, over matrices without
a negative NaN: from then on the live sequences of an active element are different, and so are the
hypotheses in its pool and at the end the rows of its prompt. Slots and tokens are assumed to fit
signed 32-bit words, which is not checked: tokens past them are taken for fillers, all alike. -/
theorem beam_hypotheses_distinct {c : Configuration} (accepted : c.validate = .ok ())
    (many : 2 ≤ c.numBeams) (few : c.numBeams ≤ Selection.maxBeams) (fits : c.Addressable)
    {input : Tokens} (prompts : SequenceStore.Accepts input c.batchSize c.maxLength)
    (room : c.promptLength input < c.maxLength) {model : Model} (sized : model.Fits c)
    (clean : ∀ g₀, (Generator.new c input model).Gives g₀ →
      ∀ t g, g₀.Reaches (t + 1) g → NoNegativeNaN g.search.state.scores.scores)
    (first : ∀ g₀, (Generator.new c input model).Gives g₀ → ∀ g, g₀.Reaches 1 g →
      ∀ b < c.batchSize, c.Leads fun j =>
        ScoreMatrix.row g.search.state.scores.scores c.vocabSize (b * c.numBeams + j)) :
    (∀ g₀, (Generator.new c input model).Gives g₀ → ∀ t g, g₀.Reaches (t + 1) g →
      ∃ s, g.search = .beam s ∧ ∀ b < c.batchSize,
        (s.ranking.elements[b]!.status = .active →
          ((List.range c.numBeams).map fun i =>
            s.state.sequences.slot (b * c.numBeams + i)).Nodup) ∧
        (s.ranking.elements[b]!.pool.kept.map (·.tokens)).Nodup) ∧
      ∃ output g, (Generator.runToEnd c input model).Gives (output, g) ∧ ∀ b < c.batchSize,
        ((List.range c.numReturned).map fun i => output.row (b * c.numReturned + i)).Nodup := by
  have run : c.Runnable := ⟨Configuration.valid_of_validate accepted, fits, many, few⟩
  obtain ⟨s₀, made, parted₀⟩ := BeamSearch.parted_new accepted run prompts
  have created : (Generator.new c input model).Gives ⟨.beam s₀, model, 0, 0⟩ :=
    made.bind (gives_pure _)
  have preserved : BeamSearch.Preserved c input model ⟨.beam s₀, model, 0, 0⟩
      (BeamSearch.Parted c input) :=
    BeamSearch.preserved_parted run (clean _ created) (first _ created)
  constructor
  · intro g₀ given t g reached
    obtain rfl := given.unique created
    obtain ⟨s, search, parted⟩ :=
      (BeamSearch.stands_of_reaches run sized preserved rfl rfl parted₀ reached).kept
    exact ⟨s, search, fun b hb =>
      ⟨parted.nodup_slots hb (Nat.succ_pos t), parted.nodup_pool hb⟩⟩
  · obtain ⟨tokens, scores, g, s, given, ⟨t, parted⟩, ended, -, lists⟩ :=
      BeamSearch.gives_runToEnd_kept run sized made parted₀ preserved
    refine ⟨_, g, given, fun b hb => List.nodup_range.map_on fun i hi j hj same => ?_⟩
    have distinct := parted.nodup_closed hb (parted.pos_of_allDone hb run room ended)
    obtain ⟨enough, whole⟩ := parted.grown.closed run ended hb
    have inside : ∀ i ∈ List.range c.numReturned,
        i < (s.ranking.closed s.state.sequences.slot).elements[b]!.pool.size := fun i hi =>
      Nat.lt_of_lt_of_le (Nat.lt_of_lt_of_le (List.mem_range.1 hi) run.returned.2) enough
    refine BeamSearch.rowOf_injective (c := c) distinct (length_prompt prompts hb) whole
      (inside i hi) (inside j hj) ?_
    rw [← lists.row b hb i (List.mem_range.1 hi), ← lists.row b hb j (List.mem_range.1 hj)]
    exact congrArg Array.toList same

/-- One step over three tokens that tie, where padding is the end token. -/
theorem beam_hypotheses_distinct_of_ties :
    let c : Configuration :=
      { batchSize := 1, numBeams := 2, vocabSize := 3, maxLength := 2, eosToken := 2, padToken := 2,
        numReturned := 2 }
    let model : Model := .ofSlots fun _ => [.one, .one, .one]
    (∀ g₀, (Generator.new c #[0] model).Gives g₀ → ∀ t g, g₀.Reaches (t + 1) g →
      ∃ s, g.search = .beam s ∧ (s.ranking.elements[0]!.pool.kept.map (·.tokens)).Nodup) ∧
    ∃ output g, (Generator.runToEnd c #[0] model).Gives (output, g) ∧
      output.row 0 ≠ output.row 1 := by
  intro c model
  let logits : List Token → List Binary32 := fun _ => [.one, .one, .one]
  have accepted : c.validate = .ok () := by decide +kernel
  have fits : c.Addressable := ⟨⟨by decide, by decide⟩, by decide, by decide⟩
  have run : c.Runnable := ⟨Configuration.valid_of_validate accepted, fits, by decide, by decide⟩
  have prompts : SequenceStore.Accepts #[0] 1 2 := ⟨by decide, by decide, by decide⟩
  have width : ∀ tokens, (logits tokens).length = 3 := fun _ => rfl
  let start := BeamSearch.plain c logits #[0] 0 0
  let handed (r : Nat) : Scores := (start.rows c logits r).map (· + start.live[r]!.score)
  have cleanRows : ∀ r < 2, NoNegativeNaN (handed r) := by decide +kernel
  have leads : c.Leads handed := by decide +kernel
  have same : ∀ t s m s', BeamSearch.Tracks c logits #[0] t s →
      BeamSearch.stops c logits #[0] t = false →
      BeamSearch.Decoded c [.minLength 0, .repetitionPenalty c.repetitionPenalty] m s s' →
      (∀ r < 2, ScoreMatrix.row m 3 r = (logits (s.state.sequences.slot r)).toArray) →
      ∀ r < 2, ScoreMatrix.row s'.state.scores.scores 3 r = handed r := by
    intro t s m s' tracks going decoded rows r hr
    have room : c.promptLength #[0] + t < 2 := c.room_of_going going
    have one : c.promptLength #[0] = 1 := by decide
    obtain rfl : t = 0 := by omega
    have row := tracks.row_eq decoded rows (show 0 < 1 by decide) rfl hr
    rwa [Nat.zero_mul, Nat.zero_add] at row
  have clean : ∀ t s m s', BeamSearch.Tracks c logits #[0] t s →
      BeamSearch.stops c logits #[0] t = false →
      BeamSearch.Decoded c [.minLength 0, .repetitionPenalty c.repetitionPenalty] m s s' →
      (∀ r < 2, ScoreMatrix.row m 3 r = (logits (s.state.sequences.slot r)).toArray) →
      NoNegativeNaN s'.state.scores.scores := fun t s m s' tracks going decoded rows =>
    .of_rows decoded.sound.state.scores fun r hr =>
      same t s m s' tracks going decoded rows r hr ▸ cleanRows r hr
  have first : ∀ g₀, (Generator.new c #[0] model).Gives g₀ → ∀ g, g₀.Reaches 1 g →
      ∀ b < 1, c.Leads fun j => ScoreMatrix.row g.search.state.scores.scores 3 (b * 2 + j) := by
    intro g₀ made g reached b hb
    obtain ⟨s, m, s', tracks, going, decoded, rows, last⟩ :=
      BeamSearch.decoded_of_reaches run width clean accepted prompts made reached
    refine leads.congr (by decide) fun j hj => ?_
    rw [Nat.lt_one_iff.1 hb, Nat.zero_mul, Nat.zero_add, last]
    exact (same 0 s m s' tracks going decoded rows j hj).symm
  obtain ⟨states, output, g, given, rows⟩ := beam_hypotheses_distinct accepted (by decide)
    (by decide) fits prompts (by decide) (Model.fits_ofSlots width) (fun g₀ made t g reached =>
      BeamSearch.noNegativeNaN_of_reaches run width clean accepted prompts made reached) first
  refine ⟨fun g₀ made t g reached => ?_, output, g, given, fun equal => ?_⟩
  · obtain ⟨s, search, elements⟩ := states g₀ made t g reached
    exact ⟨s, search, (elements 0 (by decide)).2⟩
  · have inside : 0 ∈ List.range 2 ∧ 1 ∈ List.range 2 := by decide
    have places := List.inj_on_of_nodup_map (rows 0 (by decide)) inside.1 inside.2 equal
    exact absurd places (by decide)

end TokenSearch
