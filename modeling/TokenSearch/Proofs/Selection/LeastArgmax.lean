import TokenSearch.Proofs.Scoring
import TokenSearch.Selection.Argmax

/-!
The scan for the best token of a row finds the least position of a largest score. A NaN is never
largest, and a row in which nothing exceeds negative infinity has its best token at zero.
-/

namespace TokenSearch

namespace Binary32

theorem lt_iff {x y : Binary32} :
    x.lt y = true ↔ x.isNaN = false ∧ y.isNaN = false ∧ x.signed < y.signed := by
  simp [lt, and_assoc]

theorem lt_trans {x y z : Binary32} (h : x.lt y = true) (h' : y.lt z = true) : x.lt z = true := by
  rw [lt_iff] at *
  exact ⟨h.1, h'.2.1, Int.lt_trans h.2.2 h'.2.2⟩

theorem lt_of_not_lt {x y z : Binary32} (number : x.isNaN = false) (h : y.lt x = false)
    (h' : y.lt z = true) : x.lt z = true := by
  rw [lt_iff] at *
  simp only [lt, h'.1, number, Bool.not_false, Bool.true_and, decide_eq_false_iff_not,
    Int.not_lt] at h
  exact ⟨number, h'.2.1, Int.lt_of_le_of_lt h h'.2.2⟩

end Binary32

namespace Selection

/-- Whether an entry is numerically largest and exceeds negative infinity. -/
def leads (row : Scores) (i : Nat) : Bool :=
  Binary32.bottom.lt row[i]! && (List.range row.size).all fun j => !row[i]!.lt row[j]!

/-- The least index of a largest entry, and zero if no entry leads. -/
def leastArgmax (row : Scores) : Nat :=
  ((List.range row.size).find? (leads row)).getD 0

structure Scanned (row : Scores) (n best : Nat) (value : Binary32) : Prop where
  inside : n ≤ row.size
  largest : ∀ j < n, value.lt row[j]! = false
  first : ∀ j < best, Binary32.bottom.lt row[j]! = true → row[j]!.lt value = true
  found : best = 0 ∧ value = Binary32.bottom ∨
    best < n ∧ row[best]! = value ∧ Binary32.bottom.lt value = true

section Scan

variable {row : Scores} {n best : Nat} {value : Binary32}

theorem Scanned.better (known : Scanned row n best value) (inside : n < row.size)
    (better : value.lt row[n]! = true) : Scanned row (n + 1) n row[n]! := by
  have above : Binary32.bottom.lt row[n]! = true := by
    rcases known.found with ⟨-, rfl⟩ | ⟨-, -, above⟩
    · exact better
    · exact Binary32.lt_trans above better
  refine ⟨inside, fun j hj => ?_, fun j hj above => ?_, .inr ⟨Nat.lt_succ_self n, rfl, above⟩⟩
  · rcases Nat.lt_succ_iff_lt_or_eq.1 hj with earlier | rfl
    · by_contra larger
      have known := known.largest j earlier
      rw [Binary32.lt_trans better (by simpa using larger)] at known
      cases known
    · exact Binary32.lt_irrefl _
  · exact Binary32.lt_of_not_lt (Binary32.lt_iff.1 above).2.1 (known.largest j hj) better

theorem Scanned.worse (known : Scanned row n best value) (inside : n < row.size)
    (worse : value.lt row[n]! = false) : Scanned row (n + 1) best value := by
  refine ⟨inside, fun j hj => ?_, known.first, ?_⟩
  · rcases Nat.lt_succ_iff_lt_or_eq.1 hj with earlier | rfl
    · exact known.largest j earlier
    · exact worse
  · exact known.found.imp_right fun found => ⟨Nat.lt_succ_of_lt found.1, found.2⟩

theorem scanned_argmaxFrom {rest : List Binary32} (split : row.toList.drop n = rest)
    (known : Scanned row n best value) :
    ∃ v, Scanned row row.size (argmaxFrom n best value rest) v := by
  induction rest generalizing n best value with
  | nil =>
    have all : row.size ≤ n := by simpa using split
    have same : n = row.size := Nat.le_antisymm known.inside all
    subst same
    exact ⟨value, known⟩
  | cons x xs ih =>
    have inside : n < row.size := by
      by_contra outside
      rw [List.drop_eq_nil_of_le (by simpa using outside)] at split
      cases split
    have step := List.drop_eq_getElem_cons (l := row.toList) (i := n) (by simpa using inside)
    rw [split, List.cons.injEq, Array.getElem_toList, ← getElem!_pos row n inside] at step
    unfold argmaxFrom
    rw [step.1]
    cases order : value.lt row[n]! with
    | true => exact ih step.2.symm (known.better inside order)
    | false => exact ih step.2.symm (known.worse inside order)

theorem argmax_eq (row : Scores) : argmax row = leastArgmax row := by
  obtain ⟨value, known⟩ := scanned_argmaxFrom (n := 0) rfl
    (⟨Nat.zero_le _, nofun, nofun, .inl ⟨rfl, rfl⟩⟩ : Scanned row 0 0 Binary32.bottom)
  change Scanned row row.size (argmax row) value at known
  rcases known.found with ⟨zero, rfl⟩ | ⟨inside, same, above⟩
  · have none : (List.range row.size).find? (leads row) = .none := by
      refine List.find?_eq_none.2 fun j hj => ?_
      simp [leads, known.largest j (List.mem_range.1 hj)]
    rw [leastArgmax, none, zero]
    rfl
  · have found : (List.range row.size).find? (leads row) = some (argmax row) := by
      rw [List.find?_range_eq_some]
      refine ⟨?_, by simpa using inside, fun j hj => ?_⟩
      · rw [leads, same, above]
        simpa using known.largest
      · rw [Bool.not_eq_true', Bool.eq_false_iff]
        intro lead
        rw [leads, Bool.and_eq_true, List.all_eq_true] at lead
        have short := known.first j hj lead.1
        have largest := lead.2 (argmax row) (List.mem_range.2 inside)
        rw [same, short] at largest
        cases largest
    rw [leastArgmax, found]
    rfl

theorem leastArgmax_largest {i : Nat} (inside : i < row.size)
    (above : Binary32.bottom.lt row[i]! = true) : leastArgmax row < row.size ∧
      ∀ j < row.size, row[leastArgmax row]!.lt row[j]! = false := by
  obtain ⟨value, known⟩ := scanned_argmaxFrom (n := 0) rfl
    (⟨Nat.zero_le _, nofun, nofun, .inl ⟨rfl, rfl⟩⟩ : Scanned row 0 0 Binary32.bottom)
  change Scanned row row.size (argmax row) value at known
  rw [argmax_eq] at known
  rcases known.found with ⟨-, rfl⟩ | ⟨best, same, -⟩
  · exact absurd (above.symm.trans (known.largest i inside)) (by decide)
  · exact ⟨best, same ▸ known.largest⟩

end Scan

theorem argmaxRows_eq {scores : Scores} {rows vocabSize : Nat} {out : Tokens}
    (size : scores.size = rows * vocabSize) (small : rows * vocabSize < 2 ^ 64)
    (vocabulary : 0 < vocabSize) (room : rows ≤ out.size) :
    ∃ tokens, argmaxRows scores rows vocabSize out = .ok tokens ∧ tokens.size = out.size ∧
      ∀ r < rows, tokens[r]! = Token.ofIndex (argmax (ScoreMatrix.row scores vocabSize r)) := by
  refine ⟨_, Outcome.bind_eq_ok (Outcome.require_eq_ok _ (by simpa using room)) <|
    Outcome.bind_eq_ok (ScoreMatrix.entries_eq size small) <|
    Outcome.bind_eq_ok (Outcome.require_eq_ok _ (by simpa using Nat.pos_iff_ne_zero.1 vocabulary))
      rfl, Array.size_mapIdx, fun r hr => ?_⟩
  rw [getElem!_mapIdx _ (Nat.lt_of_lt_of_le hr room), if_pos hr]

end Selection

end TokenSearch
