import TokenSearch.Proofs.Faultless
import TokenSearch.Proofs.Rows

/-!
Score processing, row by row. Every operation on a score matrix that takes rows of `vocabSize`
entries gives each row the value of one function of that row, and of the row's own sequence
where it reads one. No row depends on another.
-/

namespace TokenSearch

/-! ## One row -/

def logSoftmax (logits : Scores) : Scores := logits.map fun x => x - ScoreMatrix.logSumExp logits

def holdBack (token : Token) (row : Scores) : Scores :=
  row.mapIdx fun t x => if (t : Token) = token then Binary32.least else x

/-- A row whose tokens in `seen` are penalised, each once. -/
def penalizeSeen (penalty : Binary32) (seen : List Token) (row : Scores) : Scores :=
  row.mapIdx fun t x => if seen.contains (t : Token) then ScoreMatrix.penalize penalty x else x

inductive Processor where
  | minLength (length : Nat)
  | repetitionPenalty (penalty : Binary32)
deriving DecidableEq, Repr

def Processor.onRow (eosToken : Token) (tokens : List Token) : Processor → Scores → Scores
  | minLength length, row => if tokens.length < length then holdBack eosToken row else row
  | repetitionPenalty penalty, row =>
    if penalty.same Binary32.one then row else penalizeSeen penalty tokens row

/-- The scores of a slot that holds `tokens`, from its logits. -/
def processedRow (eosToken : Token) (processors : List Processor) (tokens : List Token)
    (logits : Scores) : Scores :=
  processors.foldl (fun row p => p.onRow eosToken tokens row) (logSoftmax logits)

/-! ## All rows of a matrix -/

namespace ScoreMatrix

variable {scores : Scores} {rows vocabSize : Nat}

theorem entries_of_le (room : rows * vocabSize ≤ scores.size) (small : rows * vocabSize < 2 ^ 64) :
    entries scores rows vocabSize = .ok (rows * vocabSize) :=
  Outcome.bind_eq_ok (Outcome.size_of_lt small) <|
    Outcome.bind_eq_ok (Outcome.require_eq_ok _ (by simpa using room)) rfl

theorem entries_eq (size : scores.size = rows * vocabSize) (small : rows * vocabSize < 2 ^ 64) :
    entries scores rows vocabSize = .ok (rows * vocabSize) :=
  entries_of_le (Nat.le_of_eq size.symm) small

theorem logSoftmaxRows_eq {logits : Scores} (size : scores.size = rows * vocabSize)
    (size' : logits.size = rows * vocabSize) (small : rows * vocabSize < 2 ^ 64)
    (vocabulary : vocabSize ≠ 0) :
    ∃ m, logSoftmaxRows logits scores rows vocabSize = .ok m ∧ m.size = rows * vocabSize ∧
      ∀ r < rows, row m vocabSize r = logSoftmax (row logits vocabSize r) := by
  refine ⟨_, Outcome.bind_eq_ok (Outcome.size_of_lt small) <|
    Outcome.bind_eq_ok (Outcome.require_eq_ok _ (by simp [size, size'])) <|
    Outcome.bind_eq_ok (Outcome.require_eq_ok _ (by simpa using vocabulary)) rfl,
    Array.size_mapIdx.trans size, fun r hr => ?_⟩
  have width := size_row hr (Nat.le_of_eq size.symm)
  have width' := size_row hr (Nat.le_of_eq size'.symm)
  rw [row_mapIdx _ hr (Nat.le_of_eq size.symm), logSoftmax]
  refine Array.ext (by simp [width, width']) fun c hc hc' => ?_
  have column : c < vocabSize := by simpa [width] using hc
  have value := getElem!_row hr column (Nat.le_of_eq size'.symm)
  rw [getElem!_pos (row logits vocabSize r) c (by rwa [width'])] at value
  have sum : ((Array.range rows).map fun r => logSumExp (row logits vocabSize r))[r]! =
      logSumExp (row logits vocabSize r) := by simp [hr]
  rw [Array.getElem_mapIdx, Array.getElem_map, if_pos (row_mul_add_lt hr column),
    row_mul_add_div r column, sum, value]

theorem row_mapIdx_inside (size : scores.size = rows * vocabSize)
    (f : Nat → Binary32 → Binary32) {r : Nat} (hr : r < rows) (g : Nat → Binary32 → Binary32)
    (same : ∀ c < vocabSize, ∀ x, f (r * vocabSize + c) x = g c x) :
    row (scores.mapIdx f) vocabSize r = (row scores vocabSize r).mapIdx g := by
  have width := size_row hr (Nat.le_of_eq size.symm)
  rw [row_mapIdx _ hr (Nat.le_of_eq size.symm)]
  refine Array.ext (by simp) fun c hc hc' => ?_
  rw [Array.getElem_mapIdx, Array.getElem_mapIdx]
  exact same c (by simpa [width] using hc) _

theorem fillColumn_eq {token : Int} (size : scores.size = rows * vocabSize)
    (small : rows * vocabSize < 2 ^ 64) (nonneg : 0 ≤ token) (inside : token < vocabSize)
    (vocabulary : vocabSize < 2 ^ 64) :
    ∃ m, fillColumn scores rows vocabSize (Token.toIndex token) Binary32.least = .ok m ∧
      m.size = rows * vocabSize ∧
      ∀ r < rows, row m vocabSize r = holdBack token (row scores vocabSize r) := by
  have index := Token.toIndex_of_nonneg nonneg (by omega)
  refine ⟨_, Outcome.bind_eq_ok (Outcome.require_eq_ok _ (by simp; omega)) <|
    Outcome.bind_eq_ok (entries_eq size small) rfl, Array.size_mapIdx.trans size,
    fun r hr => row_mapIdx_inside size _ hr _ fun c hc x => ?_⟩
  have column : c = Token.toIndex token ↔ (c : Int) = token := by omega
  simp only [row_mul_add_lt hr hc, row_mul_add_mod r hc, decide_true, Bool.true_and, column,
    decide_eq_true_eq]

def history (sequences : Tokens) (maxLength length r : Nat) : Tokens :=
  sequences.extract (r * maxLength) (r * maxLength + length)

theorem penalizeRepeats_of_le {sequences : Tokens} {maxLength length : Nat} (penalty : Binary32)
    (room : rows * vocabSize ≤ scores.size) (small : rows * vocabSize < 2 ^ 64)
    (vocabulary : vocabSize ≠ 0) (held : rows * maxLength ≤ sequences.size)
    (small' : rows * maxLength < 2 ^ 64) (short : length ≤ maxLength) :
    penalizeRepeats sequences scores rows vocabSize maxLength length penalty =
      .ok (scores.mapIdx fun i old =>
        if i < rows * vocabSize ∧
          ((i % vocabSize : Nat) : Token) ∈ history sequences maxLength length (i / vocabSize)
        then penalize penalty old else old) := by
  let histories := (Array.range rows).map fun r =>
    sequences.extract (r * maxLength) (r * maxLength + length)
  have same : (scores.mapIdx fun i old =>
      if i < rows * vocabSize ∧
        ((i % vocabSize : Nat) : Token) ∈ history sequences maxLength length (i / vocabSize)
      then penalize penalty old else old) = scores.mapIdx fun i old =>
        if i < rows * vocabSize && histories[i / vocabSize]!.contains ((i % vocabSize : Nat) : Token)
        then penalize penalty old else old := by
    congr 1
    funext i old
    by_cases inside : i < rows * vocabSize
    · have row := div_lt_rows inside
      simp [histories, history, inside, row]
    · simp [inside]
  rw [same]
  refine Outcome.bind_eq_ok (entries_of_le room small) <|
    Outcome.bind_eq_ok (Outcome.require_eq_ok _ (by simpa using vocabulary)) ?_
  by_cases some : rows ≠ 0
  · have reach : (rows - 1) * maxLength + length ≤ rows * maxLength := by
      obtain ⟨n, rfl⟩ := Nat.exists_eq_succ_of_ne_zero some
      rw [Nat.succ_sub_one, Nat.succ_mul]
      omega
    rw [if_pos some]
    exact Outcome.bind_eq_ok (Outcome.size_of_lt (by omega)) <|
      Outcome.bind_eq_ok (Outcome.size_of_lt (by omega)) <|
      Outcome.bind_eq_ok (Outcome.require_eq_ok _ (by simpa using Nat.le_trans reach held)) rfl
  · rw [if_neg some]
    rfl

theorem penalizeRepeats_eq {sequences : Tokens} {maxLength length : Nat} (penalty : Binary32)
    (size : scores.size = rows * vocabSize) (small : rows * vocabSize < 2 ^ 64)
    (vocabulary : vocabSize ≠ 0) (held : sequences.size = rows * maxLength)
    (small' : rows * maxLength < 2 ^ 64) (short : length ≤ maxLength) :
    ∃ m, penalizeRepeats sequences scores rows vocabSize maxLength length penalty = .ok m ∧
      m.size = rows * vocabSize ∧
      ∀ r < rows, row m vocabSize r = penalizeSeen penalty
        (sequences.extract (r * maxLength) (r * maxLength + length)).toList
        (row scores vocabSize r) := by
  refine ⟨_, penalizeRepeats_of_le penalty (Nat.le_of_eq size.symm) small vocabulary
    (Nat.le_of_eq held.symm) small' short, Array.size_mapIdx.trans size,
    fun r hr => row_mapIdx_inside size _ hr _ fun c hc x => ?_⟩
  simp only [row_mul_add_lt hr hc, row_mul_add_div r hc, row_mul_add_mod r hc, history,
    true_and, List.contains_iff_mem, Array.mem_toList_iff]

theorem addRowScores_eq {rowScores : Scores} (size : scores.size = rows * vocabSize)
    (small : rows * vocabSize < 2 ^ 64) (vocabulary : vocabSize ≠ 0)
    (one : rowScores.size = rows) :
    ∃ m, addRowScores scores rowScores rows vocabSize = .ok m ∧ m.size = rows * vocabSize ∧
      ∀ r < rows, row m vocabSize r = (row scores vocabSize r).map (· + rowScores[r]!) := by
  refine ⟨_, Outcome.bind_eq_ok (entries_eq size small) <|
    Outcome.bind_eq_ok (Outcome.require_eq_ok _ (by simpa using vocabulary)) <|
    Outcome.bind_eq_ok (Outcome.require_eq_ok _ (by simp [one])) rfl,
    Array.size_mapIdx.trans size, fun r hr => ?_⟩
  rw [row_mapIdx_inside size _ hr (fun _ x => x + rowScores[r]!) fun c hc x => ?_]
  · exact Array.ext (by simp) fun c hc hc' => by simp
  · rw [if_pos (row_mul_add_lt hr hc), row_mul_add_div r hc]

end ScoreMatrix

end TokenSearch
