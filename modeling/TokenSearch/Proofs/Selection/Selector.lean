import TokenSearch.Proofs.Selection.FullSort

/-!
A selector from its making to its candidates. No precondition is broken on the way, and after
any selections before it, each one gives the candidates of one full sort.
-/

namespace TokenSearch.Selection

open TokenSearch.Run TokenSearch.Action

/-! ## Sizes -/

theorem vocabParts_eq {slots : Nat} (vocabSize : Nat) (h : 0 < slots) :
    ∃ parts, vocabParts slots vocabSize = .ok parts ∧ 1 ≤ parts ∧ parts ≤ maxParts := by
  refine ⟨_, if_neg (Nat.pos_iff_ne_zero.1 h), Nat.le_max_left _ _, ?_⟩
  unfold maxParts
  split <;> omega

theorem scratch_le (rows k : Nat) {parts : Nat} (h : parts ≤ maxParts) :
    rows * parts * k + rows * k ≤ rows * k * (maxParts + 1) :=
  calc rows * parts * k + rows * k = rows * k * (parts + 1) := by
        rw [Nat.mul_succ, Nat.mul_right_comm]
    _ ≤ rows * k * (maxParts + 1) := Nat.mul_le_mul_left _ (Nat.succ_le_succ h)

/-! ## Making a selector -/

section New

theorem gives_newWorkspace {scratch output : Nat} (hs : scratch * 4 < 2 ^ 63)
    (ho : output * 4 < 2 ^ 63) :
    ∃ w : Workspace, w.Sized scratch output ∧ (Workspace.new scratch output).Gives w := by
  refine ⟨⟨.replicate scratch .zero, .replicate scratch 0, .replicate output .zero,
    .replicate output 0, .replicate output 0⟩, by constructor <;> exact Array.size_replicate, ?_⟩
  exact (gives_allocScores hs).bind <| (gives_allocTokens hs).bind <|
    (gives_allocScores ho).bind <| (gives_allocTokens ho).bind <|
    (gives_allocTokens ho).bind (gives_pure _)

variable {batchSize numBeams vocabSize : Nat}

def Fitting (w : Workspace) (batchSize numBeams : Nat) : Prop :=
  w.Sized (batchSize * numBeams * (2 * numBeams) * (maxParts + 1)) (batchSize * numBeams * 2)

theorem gives_newSelector (vocabSize : Nat) (batch : 1 ≤ batchSize) (beams : 1 ≤ numBeams)
    (beams' : numBeams ≤ maxBeams)
    (scratch : batchSize * numBeams * (2 * numBeams) * (maxParts + 1) * 4 < 2 ^ 63) :
    ∃ parts w, 1 ≤ parts ∧ parts ≤ maxParts ∧ Fitting w batchSize numBeams ∧
      (Selector.new batchSize numBeams vocabSize).Gives
        ⟨⟨batchSize, numBeams, vocabSize, 2 * numBeams, parts⟩, w⟩ := by
  have some : 0 < batchSize * numBeams := Nat.mul_pos batch beams
  have output : batchSize * numBeams * 2 ≤
      batchSize * numBeams * (2 * numBeams) * (maxParts + 1) :=
    calc batchSize * numBeams * 2 ≤ batchSize * numBeams * (2 * numBeams) :=
          Nat.mul_le_mul_left _ (by omega)
      _ ≤ _ := Nat.le_mul_of_pos_right _ (Nat.succ_pos _)
  obtain ⟨parts, split, pos, le⟩ := vocabParts_eq vocabSize some
  obtain ⟨w, sized, made⟩ := gives_newWorkspace scratch (Nat.lt_of_le_of_lt
    (Nat.mul_le_mul_right 4 output) scratch)
  refine ⟨parts, w, pos, le, sized, ?_⟩
  exact (gives_require _ (by simp [beams, beams'])).bind <|
    (gives_ofOutcome (Outcome.size_of_lt (by omega))).bind <|
    (gives_ofOutcome split).bind <|
    (gives_ofOutcome (Outcome.size_of_lt (by omega))).bind <|
    (gives_ofOutcome (Outcome.size_of_lt (by omega))).bind <|
    (gives_emit _).bind <| made.bind (gives_pure _)

end New

/-! ## Selecting -/

section Select

variable {batchSize numBeams vocabSize parts : Nat} {w : Workspace} {scores : Scores}

theorem fits_eq (fitting : Fitting w batchSize numBeams)
    (scratch : batchSize * numBeams * (2 * numBeams) * (maxParts + 1) * 4 < 2 ^ 63)
    (beams : 1 ≤ numBeams) (le : parts ≤ maxParts) :
    w.fits ⟨batchSize, numBeams, vocabSize, 2 * numBeams, parts⟩ (batchSize * numBeams) =
      .ok () := by
  have used := scratch_le (batchSize * numBeams) (2 * numBeams) le
  have lists : batchSize * numBeams * parts ≤
      batchSize * numBeams * parts * (2 * numBeams) :=
    Nat.le_mul_of_pos_right _ (by omega)
  have output : batchSize * (2 * numBeams) = batchSize * numBeams * 2 := by
    rw [Nat.mul_comm 2, Nat.mul_assoc]
  have rows : batchSize * numBeams * 2 ≤ batchSize * numBeams * (2 * numBeams) :=
    Nat.mul_le_mul_left _ (by omega)
  unfold Workspace.fits
  rw [fitting.scratchScores, fitting.scratchTokens, fitting.scores, fitting.tokens,
    fitting.beams, output]
  dsimp only
  exact Outcome.bind_eq_ok (Outcome.size_of_lt (by omega)) <|
    Outcome.bind_eq_ok (Outcome.size_of_lt (by omega)) <|
    Outcome.bind_eq_ok (Outcome.size_of_lt (by omega)) <|
    Outcome.bind_eq_ok (Outcome.size_of_lt (by omega)) <|
    Outcome.bind_eq_ok (Outcome.require_eq_ok _ (by simpa using used)) <|
    Outcome.bind_eq_ok (Outcome.size_of_lt (by omega)) <|
    Outcome.require_eq_ok _ (by simp)

theorem takes_select (fitting : Fitting w batchSize numBeams)
    (scratch : batchSize * numBeams * (2 * numBeams) * (maxParts + 1) * 4 < 2 ^ 63)
    (matrix : batchSize * numBeams * vocabSize < 2 ^ 64) (beams : 1 ≤ numBeams)
    (pos : 1 ≤ parts) (le : parts ≤ maxParts)
    (size : scores.size = batchSize * numBeams * vocabSize) :
    let shape : Shape := ⟨batchSize, numBeams, vocabSize, 2 * numBeams, parts⟩
    (Selector.select scores).Takes ⟨shape, w⟩ ()
      ⟨shape, twoStage scores shape (batchSize * numBeams) (ceilDiv vocabSize parts) w⟩ := by
  intro shape
  have rows : shape.rows = .ok (batchSize * numBeams) := by
    have used := scratch_le (batchSize * numBeams) (2 * numBeams) le
    have some : batchSize * numBeams ≤ batchSize * numBeams * (2 * numBeams) :=
      Nat.le_mul_of_pos_right _ (by omega)
    exact Outcome.size_of_lt (by dsimp only [shape]; omega)
  have partSize : shape.partSize = .ok (ceilDiv vocabSize parts) := if_neg (by
    dsimp only [shape]
    omega)
  have both : (beamTopK scores shape w).Gives
      (twoStage scores shape (batchSize * numBeams) (ceilDiv vocabSize parts) w) :=
    (gives_ofOutcome rows).bind <| (gives_ofOutcome partSize).bind <|
      (gives_ofOutcome (fits_eq fitting scratch beams le)).bind <| (gives_emit _).bind <|
      (gives_require _ (by simp [shape]; omega)).bind <|
      (gives_require _ (by simp [shape, size])).bind (gives_pure _)
  exact (takes_object _).bind <| (takes_ofOutcome rows).bind <|
    (takes_ofOutcome (Outcome.size_of_lt matrix)).bind <|
    (takes_require _ (by simp [size])).bind <| (takes_call _ _).bind <|
    (takes_lift both).bind (takes_update _ _)

theorem fitting_twoStage (fitting : Fitting w batchSize numBeams) (s : Shape)
    (rows partSize : Nat) : Fitting (twoStage scores s rows partSize w) batchSize numBeams :=
  Workspace.Sized.writeOutput (.writeScratch (.writeScratch fitting _ _ _) _ _ _) _ _ _

theorem gives_candidates (s : Selector) : s.candidates.Gives s.workspace.candidates :=
  (gives_call _).bind <| (gives_call _).bind <| (gives_call _).bind (gives_pure _)

theorem candidates_select (fitting : Fitting w batchSize numBeams)
    (clean : NoNegativeNaN scores) (beams : numBeams ≤ maxBeams) (small : vocabSize ≤ 2 ^ 31)
    (pos : 1 ≤ parts) (le : parts ≤ maxParts) :
    (twoStage scores ⟨batchSize, numBeams, vocabSize, 2 * numBeams, parts⟩
      (batchSize * numBeams) (ceilDiv vocabSize parts) w).candidates =
      .ofEntries vocabSize (sortedEntries scores batchSize numBeams vocabSize) :=
  candidates_twoStage fitting (by rw [Nat.mul_comm 2, Nat.mul_assoc]) clean small
    (le_mul_ceilDiv vocabSize pos) (scratch_le _ _ le) rfl (Nat.le_trans beams (by decide))

theorem takes_selects (fitting : Fitting w batchSize numBeams)
    (scratch : batchSize * numBeams * (2 * numBeams) * (maxParts + 1) * 4 < 2 ^ 63)
    (matrix : batchSize * numBeams * vocabSize < 2 ^ 64) (beams : 1 ≤ numBeams)
    (pos : 1 ≤ parts) (le : parts ≤ maxParts) (history : List Scores)
    (sizes : ∀ scores ∈ history, scores.size = batchSize * numBeams * vocabSize) :
    let shape : Shape := ⟨batchSize, numBeams, vocabSize, 2 * numBeams, parts⟩
    ∃ w', Fitting w' batchSize numBeams ∧
      (history.forM Selector.select).Takes ⟨shape, w⟩ () ⟨shape, w'⟩ := by
  intro shape
  induction history generalizing w with
  | nil => exact ⟨w, fitting, takes_pure _ _⟩
  | cons scores rest ih =>
    have first := takes_select fitting scratch matrix beams pos le
      (sizes scores List.mem_cons_self)
    obtain ⟨w', fitting', others⟩ := ih (fitting_twoStage fitting _ _ _)
      fun scores h => sizes scores (List.mem_cons_of_mem _ h)
    exact ⟨w', fitting', first.bind others⟩

end Select

/-- A new selector, with any number of parts and any buffer contents, after any selections,
selects what one full sort of each batch element gives. -/
theorem selector_gives_sortedEntries {batchSize numBeams vocabSize : Nat} (batch : 1 ≤ batchSize)
    (beams : 1 ≤ numBeams ∧ numBeams ≤ maxBeams)
    (vocabulary : vocabSize ≤ 2 ^ 31)
    (matrix : batchSize * numBeams * vocabSize < 2 ^ 64)
    (scratch : batchSize * numBeams * (2 * numBeams) * (maxParts + 1) * 4 < 2 ^ 63) :
    ∃ selector, (Selector.new batchSize numBeams vocabSize).Gives selector ∧
      1 ≤ selector.shape.parts ∧ selector.shape.parts ≤ maxParts ∧
      Fitting selector.workspace batchSize numBeams ∧
      ∀ (parts : Nat) (w : Workspace) (history : List Scores) (scores : Scores),
        1 ≤ parts → parts ≤ maxParts → Fitting w batchSize numBeams →
        (∀ earlier ∈ history, earlier.size = batchSize * numBeams * vocabSize) →
        scores.size = batchSize * numBeams * vocabSize → NoNegativeNaN scores →
        ∃ selector' : Selector,
          (do history.forM Selector.select; Selector.select scores).Takes
            ⟨{ selector.shape with parts }, w⟩ () selector' ∧
          selector'.candidates.Gives
            (.ofEntries vocabSize (sortedEntries scores batchSize numBeams vocabSize)) := by
  obtain ⟨own, w₀, pos₀, le₀, fitting₀, made⟩ :=
    gives_newSelector vocabSize batch beams.1 beams.2 scratch
  refine ⟨_, made, pos₀, le₀, fitting₀, ?_⟩
  intro parts w history scores pos le fitting sizes size clean
  obtain ⟨w', fitting', before⟩ :=
    takes_selects fitting scratch matrix beams.1 pos le history sizes
  have last := takes_select fitting' scratch matrix beams.1 pos le size
  refine ⟨_, before.bind last, ?_⟩
  rw [← candidates_select fitting' clean beams.2 vocabulary pos le]
  exact gives_candidates _

/-- Two elements of two one-token rows: negative infinity stands before the fillers, a tie goes
to the lower beam, and a negative NaN of the step before leaves no trace. -/
theorem selector_gives_sortedEntries_of_short_rows :
    ∃ selector, (Selector.new 2 2 1).Gives selector ∧ ∃ selector' : Selector,
      (do
        [(#[⟨0xffc00000⟩, .zero, .one, .top] : Scores)].forM Selector.select
        Selector.select #[.bottom, .one, .zero, .zero]).Takes selector () selector' ∧
      selector'.candidates.Gives
        { scores := #[.one, .bottom, .bottom, .bottom, .zero, .zero, .bottom, .bottom]
          tokens := #[0, 0, -1, -1, 0, 0, -1, -1]
          beams := #[1, 0, 0, 0, 0, 1, 0, 0] } := by
  obtain ⟨selector, made, pos, le, fitting, all⟩ :=
    selector_gives_sortedEntries (show 1 ≤ 2 by decide) (show 1 ≤ 2 ∧ 2 ≤ maxBeams by decide)
      (show 1 ≤ 2 ^ 31 by decide) (by decide) (by decide)
  obtain ⟨selector', run, given⟩ := all selector.shape.parts selector.workspace
    [#[⟨0xffc00000⟩, .zero, .one, .top]] #[.bottom, .one, .zero, .zero] pos le fitting
    (by decide) (by decide) (by simp [NoNegativeNaN]; decide)
  have sorted : sortedEntries #[.bottom, .one, .zero, .zero] 2 2 1 =
      [⟨.one, some 1⟩, ⟨.bottom, some 0⟩, .filler, .filler,
        ⟨.zero, some 0⟩, ⟨.zero, some 1⟩, .filler, .filler] := by
    simp only [sortedEntries, ← pad_topK]
    decide +kernel
  rw [sorted] at given
  exact ⟨selector, made, selector', run, given⟩

end TokenSearch.Selection
