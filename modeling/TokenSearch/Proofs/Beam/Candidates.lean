import TokenSearch.Proofs.Selection.Selector
import TokenSearch.Ranking

/-!
From a selection to the candidates of one batch element: the entries of its merge in their order.
Whatever the scores are, their beams lie within the element; without a negative NaN they are the
first of one sort of all its continuations.
-/

namespace TokenSearch

open TokenSearch.Selection

def Candidate.ofEntry (vocabSize : Nat) (e : Entry) : Candidate :=
  ⟨e.outScore, e.outToken vocabSize, e.outBeam vocabSize⟩

theorem Candidate.beam_ofEntry_lt {numBeams vocabSize : Nat} {e : Entry}
    (within : e.Within (numBeams * vocabSize)) (some : 0 < numBeams) (small : numBeams ≤ 2 ^ 31) :
    Token.toIndex (ofEntry vocabSize e).beam < numBeams := by
  unfold ofEntry Entry.outBeam
  cases place : e.place with
  | none => simpa [Token.toIndex] using some
  | some p =>
    have row : p / vocabSize < numBeams := div_lt_rows (within p place)
    rw [Option.map_some, Option.getD_some, Token.toIndex_ofIndex (Nat.lt_of_lt_of_le row small)]
    exact row

namespace Ranking

theorem candidatesOf_ofWritten {vocabSize count k b : Nat} {list : Nat → List Entry}
    (lengths : ∀ j, (list j).length = k) (hb : b < count) :
    candidatesOf (.ofWritten vocabSize ((List.range count).flatMap list)) k b =
      (list b).map (Candidate.ofEntry vocabSize) := by
  have total : ((List.range count).flatMap list).length = count * k :=
    length_flatMap_range fun j _ => lengths j
  refine List.ext_getElem (by simp [candidatesOf, lengths]) fun i hi hi' => ?_
  have inside : i < k := by simpa [candidatesOf] using hi
  have position := row_mul_add_lt hb inside
  have entry := getElem?_flatMap_range (fun j _ => lengths j) position
  rw [row_mul_add_div b inside, row_mul_add_mod b inside,
    List.getElem?_eq_getElem (total ▸ position),
    List.getElem?_eq_getElem (by rwa [lengths]), Option.some.injEq] at entry
  simp [candidatesOf, Candidates.ofWritten, total, position, entry, Candidate.ofEntry]

end Ranking

namespace Selection

structure Candidates.Selected (matrix : Scores) (batchSize numBeams vocabSize : Nat)
    (cs : Candidates) : Prop where
  scores : cs.scores.size = batchSize * (2 * numBeams)
  tokens : cs.tokens.size = batchSize * (2 * numBeams)
  beams : cs.beams.size = batchSize * (2 * numBeams)
  inside : ∀ b < batchSize, ∀ d ∈ Ranking.candidatesOf cs (2 * numBeams) b,
    Token.toIndex d.beam < numBeams
  sorted : NoNegativeNaN matrix → ∀ b < batchSize, Ranking.candidatesOf cs (2 * numBeams) b =
    (best (2 * numBeams) (elementEntries matrix numBeams vocabSize b)).map
      (Candidate.ofEntry vocabSize)

theorem candidatesOf_twoStage {batchSize numBeams vocabSize parts : Nat} {w : Workspace}
    {scores : Scores} (fitting : Fitting w batchSize numBeams) {b : Nat} (hb : b < batchSize) :
    let s : Shape := ⟨batchSize, numBeams, vocabSize, 2 * numBeams, parts⟩
    let partSize := ceilDiv vocabSize parts
    let rows := batchSize * numBeams
    Ranking.candidatesOf (twoStage scores s rows partSize w).candidates (2 * numBeams) b =
      (elementBest s (afterRows scores s rows partSize w) (rows * parts * (2 * numBeams)) b).map
        (Candidate.ofEntry vocabSize) := by
  intro s partSize rows
  have output : batchSize * numBeams * 2 = batchSize * (2 * numBeams) := by
    rw [Nat.mul_comm 2, Nat.mul_assoc]
  have written : (twoStage scores s _ partSize w).candidates = _ := written_twoStage fitting output
  dsimp only [s] at written
  rw [written]
  exact Ranking.candidatesOf_ofWritten (by simp) hb

theorem selected_twoStage {batchSize numBeams vocabSize parts : Nat} {w : Workspace}
    {scores : Scores} (fitting : Fitting w batchSize numBeams)
    (beams : 1 ≤ numBeams ∧ numBeams ≤ maxBeams) (small : vocabSize ≤ 2 ^ 31) (pos : 1 ≤ parts)
    (le : parts ≤ maxParts) :
    (twoStage scores ⟨batchSize, numBeams, vocabSize, 2 * numBeams, parts⟩
      (batchSize * numBeams) (ceilDiv vocabSize parts) w).candidates.Selected
      scores batchSize numBeams vocabSize := by
  let s : Shape := ⟨batchSize, numBeams, vocabSize, 2 * numBeams, parts⟩
  have few : numBeams ≤ 2 ^ 31 := Nat.le_trans beams.2 (by decide)
  have output : batchSize * numBeams * 2 = batchSize * (2 * numBeams) := by
    rw [Nat.mul_comm 2, Nat.mul_assoc]
  have room := scratch_le (batchSize * numBeams) (2 * numBeams) le
  have sized : (twoStage scores s (batchSize * numBeams) (ceilDiv vocabSize parts) w).Sized _ _ :=
    fitting_twoStage fitting _ _ _
  constructor
  case scores => exact sized.scores.trans output
  case tokens => exact sized.tokens.trans output
  case beams => exact sized.beams.trans output
  case inside =>
    intro b hb d hd
    rw [candidatesOf_twoStage fitting hb] at hd
    obtain ⟨e, he, rfl⟩ := List.mem_map.1 hd
    exact Candidate.beam_ofEntry_lt
      (within_elementBest (s := s) fitting small room hb he) beams.1 few
  case sorted =>
    intro clean b hb
    have merged := elementBest_eq (s := s) fitting small room hb clean
      (le_mul_ceilDiv vocabSize pos)
    rw [candidatesOf_twoStage fitting hb]
    exact congrArg _ merged

theorem takes_selected {batchSize numBeams vocabSize parts : Nat} {s : Selector} {scores : Scores}
    (shape : s.shape = ⟨batchSize, numBeams, vocabSize, 2 * numBeams, parts⟩)
    (fitting : Fitting s.workspace batchSize numBeams) (beams : 1 ≤ numBeams ∧ numBeams ≤ maxBeams)
    (small : vocabSize ≤ 2 ^ 31) (pos : 1 ≤ parts) (le : parts ≤ maxParts)
    (scratch : batchSize * numBeams * (2 * numBeams) * (maxParts + 1) * 4 < 2 ^ 63)
    (matrix : batchSize * numBeams * vocabSize < 2 ^ 64)
    (size : scores.size = batchSize * numBeams * vocabSize) :
    ∃ w, (Selector.select scores).Takes s () { s with workspace := w } ∧
      Fitting w batchSize numBeams ∧ w.candidates.Selected scores batchSize numBeams vocabSize := by
  obtain ⟨own, w⟩ := s
  dsimp only at shape fitting
  subst shape
  exact ⟨_, takes_select fitting scratch matrix beams.1 pos le size,
    fitting_twoStage fitting _ _ _, selected_twoStage fitting beams small pos le⟩

end Selection

end TokenSearch
