import TokenSearch.Proofs.Beam.Candidates
import TokenSearch.Proofs.Selection.Fillers

/-!
Candidates against the matrix they were selected from. Whatever patterns the scores have, a
candidate is a continuation with its own score or a filler, and no continuation is taken twice. An
element with at least as many scores above the negative NaNs as candidates has no filler among them;
with fewer, a filler may take the place of a negative NaN.
-/

namespace TokenSearch

open TokenSearch.Run TokenSearch.Action TokenSearch.Selection

namespace Candidate

/-- The candidate is a continuation of the element, and has the score that the matrix holds. -/
structure Real (matrix : Scores) (numBeams vocabSize element : Nat) (d : Candidate) : Prop where
  token : 0 ≤ (d.token : Int) ∧ (d.token : Int) < vocabSize
  beam : 0 ≤ (d.beam : Int) ∧ (d.beam : Int) < numBeams
  score : d.score =
    matrix[(element * numBeams + Token.toIndex d.beam) * vocabSize + Token.toIndex d.token]!

def filler : Candidate := ⟨Binary32.bottom, -1, 0⟩

theorem Real.ne_filler {matrix : Scores} {numBeams vocabSize element : Nat} {d : Candidate}
    (real : d.Real matrix numBeams vocabSize element) : d ≠ filler := by
  rintro rfl
  exact absurd real.token.1 (by decide)

section Entries

variable {matrix : Scores} {numBeams vocabSize element : Nat}

theorem ofEntry_some (score : Binary32) {p : Nat} (few : numBeams ≤ 2 ^ 31)
    (small : vocabSize ≤ 2 ^ 31) (h : p < numBeams * vocabSize) :
    ofEntry vocabSize ⟨score, some p⟩ =
      ⟨score, ((p % vocabSize : Nat) : Int), ((p / vocabSize : Nat) : Int)⟩ := by
  have column := mod_lt_width h
  have line := div_lt_rows h
  rw [ofEntry, Entry.outScore, Entry.outToken, Entry.outBeam, Option.map_some, Option.getD_some,
    Option.map_some, Option.getD_some, Token.ofIndex_of_lt (by omega),
    Token.ofIndex_of_lt (by omega)]
  rfl

theorem real_ofEntry {e : Entry} (few : numBeams ≤ 2 ^ 31) (small : vocabSize ≤ 2 ^ 31)
    (h : e ∈ elementEntries matrix numBeams vocabSize element) :
    (ofEntry vocabSize e).Real matrix numBeams vocabSize element := by
  obtain ⟨p, hp, rfl⟩ := mem_elementEntries.1 h
  have column := mod_lt_width hp
  have line := div_lt_rows hp
  have position : (element * numBeams + p / vocabSize) * vocabSize + p % vocabSize =
      element * (numBeams * vocabSize) + p := by
    rw [Nat.add_mul, Nat.mul_assoc, Nat.add_assoc, Nat.div_add_mod']
  rw [ofEntry_some _ few small hp]
  refine ⟨⟨Int.natCast_nonneg _, Int.ofNat_lt.2 column⟩,
    ⟨Int.natCast_nonneg _, Int.ofNat_lt.2 line⟩, ?_⟩
  dsimp only
  rw [Token.toIndex_natCast (by omega), Token.toIndex_natCast (by omega), position]

theorem ofEntry_injective {e f : Entry} (few : numBeams ≤ 2 ^ 31) (small : vocabSize ≤ 2 ^ 31)
    (he : e ∈ elementEntries matrix numBeams vocabSize element)
    (hf : f ∈ elementEntries matrix numBeams vocabSize element)
    (beam : (ofEntry vocabSize e).beam = (ofEntry vocabSize f).beam)
    (token : (ofEntry vocabSize e).token = (ofEntry vocabSize f).token) : e = f := by
  obtain ⟨p, hp, rfl⟩ := mem_elementEntries.1 he
  obtain ⟨q, hq, rfl⟩ := mem_elementEntries.1 hf
  rw [ofEntry_some _ few small hp, ofEntry_some _ few small hq] at beam token
  have line : p / vocabSize = q / vocabSize := Int.ofNat.inj beam
  have column : p % vocabSize = q % vocabSize := Int.ofNat.inj token
  have same : p = q := by
    rw [← Nat.div_add_mod p vocabSize, ← Nat.div_add_mod q vocabSize, line, column]
  rw [same]

end Entries

end Candidate

namespace Selection

theorem candidates_eq_merged {batchSize numBeams vocabSize parts b : Nat} {w : Workspace}
    (scores : Scores) (fitting : Fitting w batchSize numBeams) (small : vocabSize ≤ 2 ^ 31)
    (le : parts ≤ maxParts) (hb : b < batchSize) :
    let s : Shape := ⟨batchSize, numBeams, vocabSize, 2 * numBeams, parts⟩
    let partSize := ceilDiv vocabSize parts
    Ranking.candidatesOf (twoStage scores s (batchSize * numBeams) partSize w).candidates
      (2 * numBeams) b = (merged scores s partSize b).map (Candidate.ofEntry vocabSize) := by
  intro s partSize
  have room := scratch_le (batchSize * numBeams) (2 * numBeams) le
  rw [candidatesOf_twoStage fitting hb]
  exact congrArg _ (elementBest_eq_merged (s := s) fitting small room hb)

/-- Each candidate is a continuation or a filler, and no continuation is there twice. -/
structure Genuine (matrix : Scores) (numBeams vocabSize element : Nat) (ds : List Candidate) :
    Prop where
  either : ∀ d ∈ ds, d.Real matrix numBeams vocabSize element ∨ d = .filler
  distinct : ds.Pairwise fun d d' => d = .filler ∨ (d.beam, d.token) ≠ (d'.beam, d'.token)

section Sifted

variable {matrix : Scores} {numBeams vocabSize element k : Nat} {chosen : List Entry}
  (few : numBeams ≤ 2 ^ 31) (small : vocabSize ≤ 2 ^ 31)
  (sifted : Sifted k (elementEntries matrix numBeams vocabSize element) chosen)

include few small sifted

theorem genuine_of_sifted :
    Genuine matrix numBeams vocabSize element (chosen.map (Candidate.ofEntry vocabSize)) where
  either := by
    intro d hd
    obtain ⟨e, he, rfl⟩ := List.mem_map.1 hd
    rcases sifted.member e he with he | rfl
    · exact .inl (Candidate.real_ofEntry few small he)
    · exact .inr rfl
  distinct := by
    have apart : chosen.Pairwise fun e f =>
        e.place.isSome = true → f.place.isSome = true → e ≠ f :=
      List.pairwise_filter.1 (nodup_of_sifted sifted)
    refine List.pairwise_map.2 (apart.imp_of_mem fun {e f} he hf differ => ?_)
    rcases sifted.member e he with he | rfl
    · refine .inr fun same => ?_
      obtain ⟨beam, token⟩ := Prod.mk.inj same
      rcases sifted.member f hf with hf | rfl
      · obtain ⟨p, -, place⟩ := mem_elementEntries.1 he
        obtain ⟨q, -, place'⟩ := mem_elementEntries.1 hf
        exact differ (by rw [place]; rfl) (by rw [place']; rfl)
          (Candidate.ofEntry_injective few small he hf beam token)
      · have nonneg := (Candidate.real_ofEntry few small he).token.1
        rw [token] at nonneg
        exact absurd (show (0 : Int) ≤ -1 from nonneg) (by decide)
    · exact .inl rfl

theorem real_of_sifted (length : chosen.length = k)
    (enough : k ≤ (elementEntries matrix numBeams vocabSize element).countP Entry.clean) :
    ∀ d ∈ chosen.map (Candidate.ofEntry vocabSize), d.Real matrix numBeams vocabSize element := by
  have places : ∀ e ∈ elementEntries matrix numBeams vocabSize element,
      e.place.isSome = true := by
    intro e he
    obtain ⟨p, -, rfl⟩ := mem_elementEntries.1 he
    rfl
  intro d hd
  obtain ⟨e, he, rfl⟩ := List.mem_map.1 hd
  exact Candidate.real_ofEntry few small (sifted.mem_of_enough length places enough he)

end Sifted

theorem Genuine.nodup {matrix : Scores} {numBeams vocabSize element : Nat} {ds : List Candidate}
    (genuine : Genuine matrix numBeams vocabSize element ds)
    (real : ∀ d ∈ ds, d.Real matrix numBeams vocabSize element) :
    (ds.map fun d => (d.beam, d.token)).Nodup := by
  refine List.pairwise_map.2 (genuine.distinct.imp_of_mem fun {d d'} hd _ apart => ?_)
  exact apart.resolve_left (real d hd).ne_filler

/-- A new selector, after any selections, over any matrix: its candidates are continuations with
the scores of the matrix, no two of one beam and token, and fillers at most where an element has
fewer scores above the negative NaNs than candidates. -/
theorem selector_takes_real_candidates {batchSize numBeams vocabSize : Nat} (batch : 1 ≤ batchSize)
    (beams : 1 ≤ numBeams ∧ numBeams ≤ maxBeams) (vocabulary : vocabSize ≤ 2 ^ 31)
    (matrix : batchSize * numBeams * vocabSize < 2 ^ 64)
    (scratch : batchSize * numBeams * (2 * numBeams) * (maxParts + 1) * 4 < 2 ^ 63) :
    ∃ selector, (Selector.new batchSize numBeams vocabSize).Gives selector ∧
      ∀ (history : List Scores) (scores : Scores),
        (∀ earlier ∈ history, earlier.size = batchSize * numBeams * vocabSize) →
        scores.size = batchSize * numBeams * vocabSize →
        ∃ (selector' : Selector) (cs : Candidates),
          (do history.forM Selector.select; Selector.select scores).Takes selector () selector' ∧
          selector'.candidates.Gives cs ∧ cs.scores.size = batchSize * (2 * numBeams) ∧
          cs.tokens.size = batchSize * (2 * numBeams) ∧
          cs.beams.size = batchSize * (2 * numBeams) ∧
          ∀ b < batchSize,
            let ds := Ranking.candidatesOf cs (2 * numBeams) b
            Genuine scores numBeams vocabSize b ds ∧
            (2 * numBeams ≤ (elementEntries scores numBeams vocabSize b).countP Entry.clean →
              (∀ d ∈ ds, d.Real scores numBeams vocabSize b) ∧
              (ds.map fun d => (d.beam, d.token)).Nodup) := by
  obtain ⟨parts, w, pos, le, fitting, made⟩ :=
    gives_newSelector vocabSize batch beams.1 beams.2 scratch
  refine ⟨_, made, fun history scores sizes size => ?_⟩
  obtain ⟨w', fitting', before⟩ :=
    takes_selects fitting scratch matrix beams.1 pos le history sizes
  have last := takes_select fitting' scratch matrix beams.1 pos le size
  have selected : (Workspace.candidates _).Selected scores batchSize numBeams vocabSize :=
    selected_twoStage fitting' beams vocabulary pos le
  refine ⟨_, _, before.bind last, gives_candidates _, selected.scores, selected.tokens,
    selected.beams, fun b hb => ?_⟩
  have few : numBeams ≤ 2 ^ 31 := Nat.le_trans beams.2 (by decide)
  have candidates := candidates_eq_merged scores fitting' vocabulary le hb
  let s : Shape := ⟨batchSize, numBeams, vocabSize, 2 * numBeams, parts⟩
  have sifted : Sifted (2 * numBeams) (elementEntries scores numBeams vocabSize b)
      (merged scores s (ceilDiv vocabSize parts) b) :=
    sifted_merged (s := s) (le_mul_ceilDiv vocabSize pos)
  have genuine := genuine_of_sifted few vocabulary sifted
  intro ds
  rw [show ds = _ from candidates]
  refine ⟨genuine, fun enough => ?_⟩
  have real := real_of_sifted few vocabulary sifted length_merged enough
  exact ⟨real, genuine.nodup real⟩

/-- A negative NaN among zeros and infinities: five of six scores are above it, four are taken. -/
theorem selector_takes_real_candidates_of_six :
    ∃ selector, (Selector.new 1 2 3).Gives selector ∧
      ∃ (selector' : Selector) (cs : Candidates),
        (do
          [(#[.one, .one, .one, .top, .top, .zero] : Scores)].forM Selector.select
          Selector.select #[⟨0xffc00000⟩, .zero, .bottom, .top, .bottom, .zero]).Takes selector ()
            selector' ∧
        selector'.candidates.Gives cs ∧
        (∀ d ∈ Ranking.candidatesOf cs 4 0,
          d.Real #[⟨0xffc00000⟩, .zero, .bottom, .top, .bottom, .zero] 2 3 0) ∧
        ((Ranking.candidatesOf cs 4 0).map fun d => (d.beam, d.token)).Nodup := by
  obtain ⟨selector, made, all⟩ := selector_takes_real_candidates (show 1 ≤ 1 by decide)
    (show 1 ≤ 2 ∧ 2 ≤ maxBeams by decide) (show 3 ≤ 2 ^ 31 by decide) (by decide) (by decide)
  obtain ⟨selector', cs, run, given, -, -, -, each⟩ :=
    all [#[.one, .one, .one, .top, .top, .zero]]
      #[⟨0xffc00000⟩, .zero, .bottom, .top, .bottom, .zero] (by decide) (by decide)
  exact ⟨selector, made, selector', cs, run, given, (each 0 (by decide)).2 (by decide +kernel)⟩

/-- Two parts of one token each are filled up before they are merged, so the filler of one stands
before the negative NaN of the other. -/
theorem filler_displaces_negative_nan : ¬ ∀ (batchSize numBeams vocabSize : Nat) (scores : Scores)
    (selector selector' : Selector) (cs : Candidates), 1 ≤ batchSize →
    1 ≤ numBeams ∧ numBeams ≤ maxBeams → 2 ≤ vocabSize → vocabSize ≤ 2 ^ 31 →
    scores.size = batchSize * numBeams * vocabSize →
    (Selector.new batchSize numBeams vocabSize).Gives selector →
    (Selector.select scores).Takes selector () selector' → selector'.candidates.Gives cs →
    ∀ b < batchSize, ∀ d ∈ Ranking.candidatesOf cs (2 * numBeams) b,
      d.Real scores numBeams vocabSize b := by
  intro claimed
  let scores : Scores := #[⟨0xffc00000⟩, .zero]
  obtain ⟨parts, w, pos, le, fitting, made⟩ :=
    gives_newSelector 2 (show 1 ≤ 1 by decide) (show 1 ≤ 1 by decide) (by decide) (by decide)
  obtain rfl : parts = 2 := by
    obtain ⟨session, -, run⟩ := made (.start none) rfl
    have two : ∃ s s', Selector.new 1 1 2 (.start none) = .ok s s' ∧ s.shape.parts = 2 :=
      ⟨_, _, rfl, rfl⟩
    obtain ⟨s, s', run', two⟩ := two
    cases run.symm.trans run'
    exact two
  have last : (Selector.select scores).Takes ⟨⟨1, 1, 2, 2, 2⟩, w⟩ () _ :=
    takes_select fitting (by decide) (by decide) (by decide) pos le rfl
  have real := claimed 1 1 2 scores _ _ _ (by decide) (by decide) (by decide) (by decide) rfl made
    last (gives_candidates _) 0 (by decide)
  have candidates : _ = (merged scores ⟨1, 1, 2, 2, 2⟩ 1 0).map (Candidate.ofEntry 2) :=
    candidates_eq_merged scores fitting (by decide) le (by decide)
  have taken : merged scores ⟨1, 1, 2, 2, 2⟩ 1 0 = [⟨.zero, some 1⟩, .filler] := by
    simp only [merged, ← pad_topK]
    decide +kernel
  rw [taken] at candidates
  rw [candidates] at real
  exact (real .filler (by decide)).ne_filler rfl

end Selection

end TokenSearch
