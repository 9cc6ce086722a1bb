import TokenSearch.Proofs.Binary32.Order
import TokenSearch.Proofs.Selection.Selector

/-!
The scan for a row's best token against the first candidate of a selection with one beam. The scan
compares numbers, the selection ranks patterns, and both prefer lower positions. The two orders
part only at the zeros: where the largest scores of a row are zeros, of which the first is negative
and another is not, the scan stops at the first and the selection goes on to the first positive one.
-/

namespace TokenSearch.Selection

open TokenSearch.Run TokenSearch.Action

/-! ## Best positions of a row -/

structure LowestLargest (row : Scores) (i : Nat) : Prop where
  inside : i < row.size
  largest : ∀ j < row.size, row[i]!.lt row[j]! = false
  lowest : ∀ j < i, row[j]!.lt row[i]! = true

structure LowestHighest (row : Scores) (i : Nat) : Prop where
  inside : i < row.size
  highest : ∀ j < row.size, row[j]!.rank ≤ row[i]!.rank
  lowest : ∀ j < i, row[j]!.rank < row[i]!.rank

/-- Whether position `i` holds the negative zero and another one the positive zero. -/
def MixedZeros (row : Scores) (i : Nat) : Prop :=
  row[i]! = Binary32.minusZero ∧ ∃ j < row.size, row[j]! = Binary32.zero

section Row

variable {row : Scores} (numbers : ∀ i < row.size, row[i]!.isNaN = false)

include numbers

theorem lowestLargest_argmax (some : 0 < row.size) : LowestLargest row (argmax row) := by
  have low : ∀ i < row.size, Binary32.bottom.le row[i]! = true := fun i hi =>
    Binary32.le_of_rank_le (by decide) (numbers i hi)
      (Binary32.rank_bottom_le (by simp [Binary32.isNegativeNaN, numbers i hi]))
  have start : Scanned row 0 0 Binary32.bottom :=
    ⟨Nat.zero_le _, fun j hj => absurd hj (Nat.not_lt_zero j),
      fun j hj => absurd hj (Nat.not_lt_zero j), .inl ⟨rfl, rfl⟩⟩
  obtain ⟨value, known⟩ := scanned_argmaxFrom rfl start
  change Scanned row row.size (argmax row) value at known
  rcases known.found with ⟨zero, rfl⟩ | ⟨inside, same, above⟩
  case inl =>
    rw [zero]
    refine ⟨some, fun j hj => Bool.eq_false_iff.2 fun larger => ?_,
      fun j hj => absurd hj (Nat.not_lt_zero j)⟩
    have exceeded := Binary32.lt_of_le_of_lt (low 0 some) larger
    rw [known.largest j hj] at exceeded
    cases exceeded
  case inr =>
    refine ⟨inside, fun j hj => same ▸ known.largest j hj, fun j hj => ?_⟩
    rw [same]
    rcases Binary32.le_total (numbers j (Nat.lt_trans hj inside)) (y := .bottom) (by decide)
      with le | less
    · exact Binary32.lt_of_le_of_lt le above
    · exact known.first j hj less

section Both

variable {t a : Nat} (highest : LowestHighest row t) (largest : LowestLargest row a)

include highest largest

theorem LowestHighest.same : row[a]!.same row[t]! = true := by
  have above : row[a]!.le row[t]! = true := Binary32.le_of_rank_le (numbers a largest.inside)
    (numbers t highest.inside) (highest.highest a largest.inside)
  have below := largest.largest t highest.inside
  rw [Binary32.le_iff] at above
  simp only [Binary32.lt, above.1, above.2.1, Bool.not_false, Bool.true_and,
    decide_eq_false_iff_not, Int.not_lt] at below
  simpa [Binary32.same, above.1, above.2.1] using Int.le_antisymm above.2.2 below

theorem LowestHighest.eq (plain : ¬ MixedZeros row a) : t = a := by
  have equal : row[a]! = row[t]! := by
    by_contra other
    have less := UInt32.lt_of_le_of_ne (highest.highest a largest.inside)
      (mt Binary32.rank_inj.1 other)
    obtain ⟨minus, zero⟩ := Binary32.zeros_of_same (highest.same numbers largest) less
    exact plain ⟨minus, t, highest.inside, zero⟩
  rcases Nat.lt_trichotomy t a with earlier | same | later
  · have lower := largest.lowest t earlier
    rw [equal, Binary32.lt_irrefl] at lower
    cases lower
  · exact same
  · have lower := highest.lowest a later
    rw [equal] at lower
    exact absurd lower (UInt32.lt_irrefl _)

theorem LowestHighest.first_zero (mixed : MixedZeros row a) :
    row[t]! = Binary32.zero ∧ ∀ j < t, row[j]! ≠ Binary32.zero := by
  obtain ⟨minus, j, inside, zero⟩ := mixed
  have less : row[a]!.rank < row[t]!.rank := by
    have above := highest.highest j inside
    rw [zero] at above
    rw [minus]
    exact UInt32.lt_of_lt_of_le (by decide) above
  have here := (Binary32.zeros_of_same (highest.same numbers largest) less).2
  refine ⟨here, fun i hi same => ?_⟩
  have lower := highest.lowest i hi
  rw [same, here] at lower
  exact absurd lower (UInt32.lt_irrefl _)

end Both

end Row

theorem numbers_row {scores : Scores} (numbers : ∀ x ∈ scores, x.isNaN = false)
    (vocabSize r : Nat) : ∀ i < (ScoreMatrix.row scores vocabSize r).size,
      (ScoreMatrix.row scores vocabSize r)[i]!.isNaN = false := by
  intro i hi
  rw [getElem!_pos _ i hi]
  simp only [ScoreMatrix.row, Array.getElem_extract]
  exact numbers _ (Array.getElem_mem _)

/-! ## The first candidate -/

theorem head?_best {k : Nat} {entries : List Entry} (some : 0 < k) (any : entries ≠ []) :
    ∃ e ∈ entries, (best k entries)[0]? = .some e ∧ ∀ e' ∈ entries, e.before e' = true := by
  have sorted := pairwise_sort entries
  cases order : sort entries with
  | nil =>
    have empty : entries.length = 0 := by simpa [order] using (length_sort entries).symm
    exact absurd (List.length_eq_zero_iff.1 empty) any
  | cons e rest =>
    rw [order] at sorted
    refine ⟨e, mem_sort.1 (order ▸ List.mem_cons_self), ?_, fun e' he' => ?_⟩
    · obtain ⟨m, rfl⟩ := Nat.exists_eq_succ_of_ne_zero (Nat.pos_iff_ne_zero.1 some)
      simp [best, pad, order]
    · have member : e' ∈ e :: rest := order ▸ mem_sort.2 he'
      rcases List.mem_cons.1 member with rfl | later
      · exact Entry.before_refl _
      · exact List.rel_of_pairwise_cons sorted later

section First

variable {scores : Scores} {batchSize vocabSize b : Nat}
  (size : scores.size = batchSize * 1 * vocabSize) (hb : b < batchSize) (some : 1 ≤ vocabSize)

include size hb some

theorem first_sortedEntries : ∃ t, LowestHighest (ScoreMatrix.row scores vocabSize b) t ∧
    (sortedEntries scores batchSize 1 vocabSize)[b * 2]? =
      .some ⟨(ScoreMatrix.row scores vocabSize b)[t]!, .some t⟩ := by
  have room : batchSize * vocabSize ≤ scores.size := Nat.le_of_eq (size.trans (by simp)).symm
  have width := ScoreMatrix.size_row hb room
  have any : elementEntries scores 1 vocabSize b ≠ [] := by
    simp [elementEntries, Nat.pos_iff_ne_zero.1 some]
  obtain ⟨e, member, head, first⟩ := head?_best (k := 2 * 1) (by decide) any
  have entry : ∀ j < vocabSize, (⟨(ScoreMatrix.row scores vocabSize b)[j]!, .some j⟩ : Entry) ∈
      elementEntries scores 1 vocabSize b := by
    intro j hj
    refine List.mem_map.2 ⟨j, by simpa using hj, ?_⟩
    rw [ScoreMatrix.getElem!_row hb hj room, Nat.one_mul]
  obtain ⟨t, range, rfl⟩ := List.mem_map.1 member
  have inside : t < vocabSize := by simpa using range
  rw [Nat.one_mul, ← ScoreMatrix.getElem!_row hb inside room] at head first
  refine ⟨t, ⟨width.symm ▸ inside, fun j hj => ?_, fun j hj => ?_⟩, ?_⟩
  · rcases Entry.before_iff.1 (first _ (entry j (width ▸ hj))) with less | ⟨same, -⟩
    · exact UInt32.le_of_lt less
    · exact UInt32.le_of_eq (congrArg Binary32.rank same.symm)
  · rcases Entry.before_iff.1 (first _ (entry j (Nat.lt_trans hj inside))) with less | ⟨-, le⟩
    · exact less
    · exact absurd hj (Nat.not_lt.2 (by simpa [Entry.placeLe] using le))
  · have lengths : ∀ r < batchSize,
        (best (2 * 1) (elementEntries scores 1 vocabSize r)).length = 2 :=
      fun r _ => length_pad (List.length_take_le _ _)
    rw [sortedEntries, getElem?_flatMap_range lengths (by omega)]
    simpa using head

end First

/-- A new selector with one beam, after any selections, and the scan of the same matrix, in which
no score is a NaN: both find scores that are numerically largest, the scan the first of them, and
they find the same token unless the zeros are mixed; then the selector's is the first positive
zero. -/
theorem first_candidate_and_argmax {batchSize vocabSize : Nat} (batch : 1 ≤ batchSize)
    (vocabulary : 1 ≤ vocabSize ∧ vocabSize < 2 ^ 31) (matrix : batchSize * vocabSize < 2 ^ 64)
    (scratch : batchSize * 2 * (maxParts + 1) * 4 < 2 ^ 63) :
    ∃ selector, (Selector.new batchSize 1 vocabSize).Gives selector ∧
      ∀ (history : List Scores) (scores : Scores) (out : Tokens),
        (∀ earlier ∈ history, earlier.size = batchSize * vocabSize) →
        scores.size = batchSize * vocabSize → (∀ x ∈ scores, x.isNaN = false) →
        batchSize ≤ out.size →
        ∃ (selector' : Selector) (cs : Candidates) (scanned : Tokens),
          (do history.forM Selector.select; Selector.select scores).Takes selector () selector' ∧
          selector'.candidates.Gives cs ∧
          argmaxRows scores batchSize vocabSize out = .ok scanned ∧
          ∀ b < batchSize,
            let row := ScoreMatrix.row scores vocabSize b
            ∃ t a : Nat, cs.tokens[b * 2]! = t ∧ scanned[b]! = a ∧ t < vocabSize ∧
              LowestLargest row a ∧ row[a]!.same row[t]! = true ∧
              (¬ MixedZeros row a → t = a) ∧
              (MixedZeros row a → row[t]! = Binary32.zero ∧ ∀ j < t, row[j]! ≠ Binary32.zero) := by
  have own : batchSize * 1 * vocabSize = batchSize * vocabSize := by rw [Nat.mul_one]
  have cells : batchSize * 1 * (2 * 1) * (maxParts + 1) * 4 < 2 ^ 63 := by
    rwa [Nat.mul_one, Nat.mul_one]
  obtain ⟨parts, w, pos, le, fitting, made⟩ :=
    gives_newSelector vocabSize batch (Nat.le_refl 1) (by decide) cells
  refine ⟨_, made, fun history scores out sizes size numbers room => ?_⟩
  rw [← own] at sizes size matrix
  have clean : NoNegativeNaN scores := fun x hx => by
    simp [Binary32.isNegativeNaN, numbers x hx]
  obtain ⟨w', fitting', before⟩ :=
    takes_selects fitting cells matrix (Nat.le_refl 1) pos le history sizes
  have last := takes_select fitting' cells matrix (Nat.le_refl 1) pos le size
  obtain ⟨scanned, scan, -, best⟩ :=
    argmaxRows_eq (size.trans own) (own ▸ matrix) vocabulary.1 room
  refine ⟨_, _, scanned, before.bind last, gives_candidates _, scan, fun b hb => ?_⟩
  rw [candidates_select fitting' clean (by decide) (Nat.le_of_lt vocabulary.2) pos le]
  have width := ScoreMatrix.size_row hb (Nat.le_of_eq (size.trans own).symm)
  have numbers' := numbers_row numbers vocabSize b
  have largest := lowestLargest_argmax numbers' (by omega)
  obtain ⟨t, highest, first⟩ := first_sortedEntries size hb vocabulary.1
  have inside : t < vocabSize := width ▸ highest.inside
  have inside' := largest.inside
  refine ⟨t, argmax (ScoreMatrix.row scores vocabSize b), ?_, ?_, inside, largest,
    highest.same numbers' largest, highest.eq numbers' largest, highest.first_zero numbers' largest⟩
  · simp [Candidates.ofEntries, first, Entry.column, Nat.mod_eq_of_lt inside]
  · rw [best b hb, Token.ofIndex_of_lt (by omega)]

/-- Two rows: a tie of infinities, which goes to the lower token on both sides, and mixed zeros
above negative infinity. -/
theorem first_candidate_and_argmax_of_two_rows :
    ∃ selector, (Selector.new 2 1 3).Gives selector ∧
      ∃ (selector' : Selector) (cs : Candidates),
        (do
          [(#[.zero, .one, .top, .one, .one, .one] : Scores)].forM Selector.select
          Selector.select #[.one, .top, .top, .bottom, .minusZero, .zero]).Takes selector ()
            selector' ∧
        selector'.candidates.Gives cs ∧ cs.tokens[0]! = 1 ∧ cs.tokens[2]! = 2 ∧
        argmaxRows #[.one, .top, .top, .bottom, .minusZero, .zero] 2 3 #[0, 0] = .ok #[1, 1] := by
  let scores : Scores := #[.one, .top, .top, .bottom, .minusZero, .zero]
  obtain ⟨selector, made, all⟩ := first_candidate_and_argmax (show 1 ≤ 2 by decide)
    (show 1 ≤ 3 ∧ 3 < 2 ^ 31 by decide) (by decide) (by decide)
  obtain ⟨selector', cs, scanned, run, given, scan, each⟩ :=
    all [#[.zero, .one, .top, .one, .one, .one]] scores #[0, 0] (by decide) (by decide)
      (by simp [scores]; decide) (by decide)
  have both : argmaxRows scores 2 3 #[0, 0] = .ok #[1, 1] := by decide +kernel
  cases scan.symm.trans both
  obtain ⟨t, a, first, best, -, -, -, plain, -⟩ := each 0 (by decide)
  obtain rfl : 1 = a := Int.ofNat_inj.1 best
  obtain ⟨t', a', first', best', inside, -, -, -, mixed⟩ := each 1 (by decide)
  obtain rfl : 1 = a' := Int.ofNat_inj.1 best'
  have apart : ¬ MixedZeros (ScoreMatrix.row scores 3 0) 1 := fun mixed =>
    absurd mixed.1 (by decide)
  have zero := (mixed ⟨by decide, 2, by decide, by decide⟩).1
  have only : ∀ t < 3, (ScoreMatrix.row scores 3 1)[t]! = .zero → t = 2 := by decide
  rw [plain apart] at first
  rw [only t' inside zero] at first'
  exact ⟨selector, made, selector', cs, run, given, first, first', both⟩

/-- The one row of two mixed zeros: the selector starts with the second token, the scan takes the
first. -/
theorem mixed_zeros_part_selections : ¬ ∀ (batchSize vocabSize : Nat) (scores : Scores)
    (out scanned : Tokens) (selector selector' : Selector) (cs : Candidates), 1 ≤ batchSize →
    1 ≤ vocabSize ∧ vocabSize < 2 ^ 31 → scores.size = batchSize * vocabSize →
    (∀ x ∈ scores, x.isNaN = false) → (Selector.new batchSize 1 vocabSize).Gives selector →
    (Selector.select scores).Takes selector () selector' → selector'.candidates.Gives cs →
    argmaxRows scores batchSize vocabSize out = .ok scanned →
    ∀ b < batchSize, cs.tokens[b * 2]! = scanned[b]! := by
  intro claimed
  let scores : Scores := #[.minusZero, .zero]
  obtain ⟨parts, w, pos, le, fitting, made⟩ :=
    gives_newSelector 2 (show 1 ≤ 1 by decide) (show 1 ≤ 1 by decide) (by decide) (by decide)
  have last : (Selector.select scores).Takes ⟨⟨1, 1, 2, 2, parts⟩, w⟩ () _ :=
    takes_select fitting (by decide) (by decide) (by decide) pos le rfl
  have scan : argmaxRows scores 1 2 #[0] = .ok #[0] := by decide +kernel
  have same := claimed 1 2 scores #[0] #[0] _ _ _ (by decide) (by decide) rfl
    (by simp [scores]; decide) made last (gives_candidates _) scan 0 (by decide)
  have candidates : Workspace.candidates _ = .ofEntries 2 (sortedEntries scores 1 1 2) :=
    candidates_select fitting (by simp [scores, NoNegativeNaN]; decide) (by decide) (by decide)
      pos le
  have sorted : sortedEntries scores 1 1 2 = [⟨.zero, some 1⟩, ⟨.minusZero, some 0⟩] := by
    simp only [sortedEntries, ← pad_topK]
    decide +kernel
  rw [candidates, sorted] at same
  exact absurd same (by decide)

end TokenSearch.Selection
