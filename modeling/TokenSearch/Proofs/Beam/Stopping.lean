import TokenSearch.Proofs.Beam.Hypotheses
import TokenSearch.Proofs.Beam.Refinement
import TokenSearch.Proofs.Binary32.Elementary

/-!
Stopping a search before all beams have ended. A pool counts as complete once its worst hypothesis
is not below the best live score at the current length. A continuation only lowers the cumulative
score, so it stays out of the pool as long as its length does not divide by more than the current
one does; with a positive length penalty a longer one may still get in.
-/

namespace TokenSearch

namespace HypothesisPool

variable {p : HypothesisPool} {tokens : List Token} {sum best : Binary32} {length : Nat}

/-! ## Offers that a full pool turns down -/

theorem add_of_outscored (full : p.isFull = true)
    (outscored : (p.normalize sum tokens.length).le p.worst = true) : p.add tokens sum = p := by
  simp [add, full, outscored]

theorem add_of_negativeNaN (full : p.isFull = true)
    (numbers : ∀ h ∈ p.kept, h.score.isNaN = false)
    (undefined : (p.normalize sum tokens.length).isNegativeNaN = true) : p.add tokens sum = p := by
  let offered : Hypothesis := ⟨p.normalize sum tokens.length, tokens⟩
  let lowest (hs : List Hypothesis) (h : Hypothesis) : Bool :=
    hs.all fun other => h.score.rank ≤ other.score.rank
  have room : p.capacity < (p.kept ++ [offered]).length := by
    have many : p.capacity ≤ p.kept.length := of_decide_eq_true full
    rw [List.length_append, List.length_singleton]
    omega
  have below : ∀ h ∈ p.kept, offered.score.rank < h.score.rank := fun h kept =>
    Binary32.rank_lt_of_isNegativeNaN undefined (numbers h kept)
  have others : ∀ h ∈ p.kept, ¬ lowest (p.kept ++ [offered]) h = true := by
    intro h kept low
    have last := List.all_eq_true.1 low offered (List.mem_append_right _ List.mem_cons_self)
    exact UInt32.not_lt.2 (of_decide_eq_true last) (below h kept)
  have own : lowest (p.kept ++ [offered]) offered = true := by
    refine List.all_eq_true.2 fun h kept => decide_eq_true ?_
    rcases List.mem_append.1 kept with old | new
    · exact UInt32.le_of_lt (below h old)
    · rw [List.mem_singleton.1 new]
      exact UInt32.le_refl _
  have evicted : evict (p.kept ++ [offered]) = p.kept := by
    show (p.kept ++ [offered]).eraseP (lowest (p.kept ++ [offered])) = p.kept
    rw [List.eraseP_append_right _ others, List.eraseP_cons_of_pos own, List.append_nil]
  have undecided : (p.normalize sum tokens.length).le p.worst = false := by
    rw [← Bool.not_eq_true, Binary32.le_iff]
    rintro ⟨number, -⟩
    rw [Binary32.isNegativeNaN, number, Bool.and_false] at undefined
    cases undefined
  unfold add
  dsimp only
  rw [undecided, Bool.and_false, if_neg (by decide), if_pos room, evicted]

/-- A complete pool turns down what scores no more than the best live beam, unless its length
divides by more. -/
theorem add_of_isComplete (late : p.earlyStopping = false)
    (numbers : ∀ h ∈ p.kept, h.score.isNaN = false) (complete : p.isComplete best length = true)
    (nonpos : best.le .zero = true) (lower : sum.le best = true)
    (divisors : (Binary32.powCount tokens.length p.lengthPenalty).le
      (Binary32.powCount length p.lengthPenalty) = true) : p.add tokens sum = p := by
  rw [isComplete, late, Bool.false_or, Bool.and_eq_true] at complete
  obtain ⟨full, outscored⟩ := complete
  obtain ⟨number', number, -⟩ := Binary32.le_iff.1 divisors
  cases defined : (p.normalize sum tokens.length).isNaN with
  | false =>
    refine add_of_outscored full (Binary32.le_trans ?_ outscored)
    exact Binary32.div_mono lower nonpos divisors (Binary32.positive_powCount number)
      (Binary32.positive_powCount number') (Binary32.le_iff.1 outscored).1 defined
  | true =>
    refine add_of_negativeNaN full numbers ?_
    have value : p.normalize sum tokens.length = .invalid :=
      Binary32.div_invalid (Binary32.le_iff.1 lower).1 number' defined
    rw [value]
    decide

theorem add_of_isComplete_of_flat (late : p.earlyStopping = false)
    (numbers : ∀ h ∈ p.kept, h.score.isNaN = false) (complete : p.isComplete best length = true)
    (nonpos : best.le .zero = true) (flat : p.lengthPenalty.Flat) (pos : 0 < length)
    (longer : length ≤ tokens.length) (lower : sum.le best = true) : p.add tokens sum = p :=
  add_of_isComplete late numbers complete nonpos lower (flat.powCount_le pos longer)

theorem foldl_add_eq {α : Type} {tokens : α → List Token} {sum : α → Binary32} {list : List α}
    (unchanged : ∀ x ∈ list, p.add (tokens x) (sum x) = p) :
    list.foldl (fun pool x => pool.add (tokens x) (sum x)) p = p := by
  induction list with
  | nil => rfl
  | cons x rest ih =>
    rw [List.foldl_cons, unchanged x List.mem_cons_self]
    exact ih fun y hy => unchanged y (List.mem_cons_of_mem _ hy)

end HypothesisPool

/-! ## Decoding on -/

namespace PlainBeam

variable {c : Configuration} {rows : Nat → Scores} {p s : PlainBeam} {best : Binary32}
  {length : Nat}

def Lowers (c : Configuration) (rows : Nat → Scores) : Prop :=
  ∀ j < c.numBeams, ∀ t < c.vocabSize, (rows j)[t]!.le .zero = true

/-- Steps on, whether the search has finished or not. -/
def decodeOn (c : Configuration) (s : PlainBeam) (more : List (Nat → Scores)) : PlainBeam :=
  more.foldl (fun s rows => s.take c (s.candidates c rows)) s

structure Below (c : Configuration) (best : Binary32) (length : Nat) (s : PlainBeam) : Prop where
  paths : s.live.length = c.numBeams
  lengths : ∀ path ∈ s.live, path.tokens.length = length
  scores : ∀ path ∈ s.live, path.score.le best = true

section Below

variable (below : s.Below c best length) (nonpos : best.le .zero = true) (lowers : Lowers c rows)

include below nonpos lowers

theorem Below.extend {x : Extension} (h : x ∈ s.extensions c rows) :
    (s.extend x).length = length + 1 ∧ x.score.le best = true := by
  obtain ⟨path, token⟩ := mem_extensions h
  have inside : x.path < s.live.length := below.paths ▸ path
  have member : s.live[x.path]! ∈ s.live := by
    rw [getElem!_pos s.live _ inside]
    exact List.getElem_mem inside
  have held := below.scores _ member
  constructor
  · rw [PlainBeam.extend, List.length_append, below.lengths _ member, List.length_singleton]
  · rw [score_of_mem_extensions h]
    exact Binary32.le_trans (Binary32.add_le_right (lowers _ path _ token)
      (Binary32.le_trans held nonpos)) held

theorem Below.take (valid : c.Valid) (pairs : 2 ≤ c.vocabSize) :
    (s.take c (s.candidates c rows)).Below c best (length + 1) := by
  have used : ∀ x ∈ going c (s.candidates c rows),
      (s.extend x).length = length + 1 ∧ x.score.le best = true := fun x hx =>
    below.extend nonpos lowers (List.mem_mergeSort.1 (sublist_going.subset hx))
  refine ⟨(List.length_map _).trans (length_going valid pairs), ?_, ?_⟩
  · intro path member
    obtain ⟨x, hx, rfl⟩ := List.mem_map.1 member
    exact (used x hx).1
  · intro path member
    obtain ⟨x, hx, rfl⟩ := List.mem_map.1 member
    exact (used x hx).2

theorem Below.leader (valid : c.Valid) (pairs : 2 ≤ c.vocabSize) :
    let next := s.take c (s.candidates c rows)
    next.Below c next.live[0]!.score (length + 1) := by
  intro next
  have after := below.take nonpos lowers valid pairs
  refine ⟨after.paths, after.lengths, ?_⟩
  have sorted : (going c (s.candidates c rows)).Pairwise fun x y =>
      x.precedes c.vocabSize y = true :=
    (List.pairwise_mergeSort Extension.precedes_trans Extension.precedes_total _).sublist
      sublist_going
  intro path member
  have number := (Binary32.le_iff.1 (after.scores path member)).1
  cases chosen : going c (s.candidates c rows) with
  | nil => exact absurd member (by simp [next, PlainBeam.take, chosen])
  | cons x rest =>
    have live : next.live = ⟨s.extend x, x.score⟩ :: rest.map fun y => ⟨s.extend y, y.score⟩ := by
      simp [next, PlainBeam.take, chosen]
    have first := (Binary32.le_iff.1 (after.scores _ (live ▸ List.mem_cons_self))).1
    rw [live, List.getElem!_cons_zero]
    rw [live, List.mem_cons] at member
    rcases member with rfl | member
    · exact Binary32.le_refl first
    · obtain ⟨y, hy, rfl⟩ := List.mem_map.1 member
      rw [chosen] at sorted
      refine Binary32.le_of_rank_le number first ?_
      exact Extension.rank_le_of_precedes ((List.pairwise_cons.1 sorted).1 y hy)

end Below

theorem Below.decodeOn {pool : HypothesisPool} {more : List (Nat → Scores)}
    (below : s.Below c best length) (held : s.pool = pool) (valid : c.Valid)
    (pairs : 2 ≤ c.vocabSize) (nonpos : best.le .zero = true)
    (lowers : ∀ rows ∈ more, Lowers c rows)
    (closed : ∀ tokens sum, length ≤ tokens.length → tokens.length ≤ length + more.length →
      sum.le best = true → pool.add tokens sum = pool) :
    let last := s.decodeOn c more
    last.live.foldl (fun pool path => pool.add path.tokens path.score) last.pool = pool := by
  induction more generalizing s length with
  | nil =>
    subst held
    refine HypothesisPool.foldl_add_eq fun path member => ?_
    have count := below.lengths path member
    exact closed _ _ (Nat.le_of_eq count.symm) (Nat.le_of_eq count) (below.scores path member)
  | cons rows rest ih =>
    have one := lowers rows List.mem_cons_self
    rw [List.length_cons] at closed
    have stays : (s.take c (s.candidates c rows)).pool = pool := by
      subst held
      refine HypothesisPool.foldl_add_eq fun x hx => ?_
      obtain ⟨count, lower⟩ :=
        below.extend nonpos one (List.mem_mergeSort.1 (sublist_ended.subset hx))
      exact closed _ _ (by omega) (by omega) lower
    exact ih (below.take nonpos one valid pairs) stays
      (fun rows h => lowers rows (List.mem_cons_of_mem _ h))
      fun tokens sum first last => closed tokens sum (by omega) (by omega)

theorem Below.decodeOn_taken {t : Nat} {more : List (Nat → Scores)} (below : s.Below c .zero t)
    (valid : c.Valid) (pairs : 2 ≤ c.vocabSize) (lowers : ∀ rows' ∈ rows :: more, Lowers c rows') :
    let next := s.take c (s.candidates c rows)
    (∀ tokens sum, t + 1 ≤ tokens.length → tokens.length ≤ t + 1 + more.length →
      sum.le next.live[0]!.score = true → next.pool.add tokens sum = next.pool) →
    next.live[0]!.score.le .zero = true →
    let last := next.decodeOn c more
    last.live.foldl (fun pool path => pool.add path.tokens path.score) last.pool = next.pool := by
  intro next closed nonpos
  have after : next.Below c next.live[0]!.score (t + 1) :=
    below.leader (by decide) (lowers rows List.mem_cons_self) valid pairs
  exact after.decodeOn rfl valid pairs nonpos
    (fun rows h => lowers rows (List.mem_cons_of_mem _ h)) closed

/-- With a flat length penalty a search that has just completed returns the same hypotheses however
far it is decoded on. -/
theorem Below.decodeOn_of_flat {t : Nat} {more : List (Nat → Scores)} (below : s.Below c .zero t)
    (valid : c.Valid) (pairs : 2 ≤ c.vocabSize) (lowers : ∀ rows' ∈ rows :: more, Lowers c rows') :
    let next := s.take c (s.candidates c rows)
    next.pool.earlyStopping = false → (∀ h ∈ next.pool.kept, h.score.isNaN = false) →
    next.pool.lengthPenalty.Flat → next.live[0]!.score.le .zero = true →
    next.pool.isComplete next.live[0]!.score (t + 1) = true →
    let last := next.decodeOn c more
    last.live.foldl (fun pool path => pool.add path.tokens path.score) last.pool = next.pool := by
  intro next late numbers flat nonpos complete
  refine below.decodeOn_taken valid pairs lowers (fun tokens sum first _ lower => ?_) nonpos
  exact HypothesisPool.add_of_isComplete_of_flat late numbers complete nonpos flat
    (Nat.succ_pos t) first lower

end PlainBeam

/-- A pool that is complete without early stopping turns down every continuation whose length does
not divide by more than the current one. Where that holds of all further lengths, as it does with a
flat length penalty, a search that has just completed returns the same hypotheses if it is decoded
on. -/
theorem complete_pool_stays {p : HypothesisPool} {best : Binary32} {length : Nat}
    (late : p.earlyStopping = false) (numbers : ∀ h ∈ p.kept, h.score.isNaN = false)
    (complete : p.isComplete best length = true) (nonpos : best.le .zero = true) :
    (∀ tokens sum, sum.le best = true →
      (Binary32.powCount tokens.length p.lengthPenalty).le
        (Binary32.powCount length p.lengthPenalty) = true → p.add tokens sum = p) ∧
    ∀ (c : Configuration) (q : PlainBeam) (t : Nat) (rows : Nat → Scores)
      (more : List (Nat → Scores)), c.Valid → 2 ≤ c.vocabSize → q.Below c .zero t →
      (∀ rows' ∈ rows :: more, PlainBeam.Lowers c rows') →
      (∀ count, length ≤ count → count ≤ length + more.length →
        (Binary32.powCount count p.lengthPenalty).le
          (Binary32.powCount length p.lengthPenalty) = true) →
      let s := q.take c (q.candidates c rows)
      s.pool = p → s.live[0]!.score = best → t + 1 = length →
      let last := s.decodeOn c more
      last.live.foldl (fun pool path => pool.add path.tokens path.score) last.pool = p := by
  have turned : ∀ tokens sum, sum.le best = true →
      (Binary32.powCount tokens.length p.lengthPenalty).le
        (Binary32.powCount length p.lengthPenalty) = true → p.add tokens sum = p :=
    fun tokens sum lower divisors =>
      HypothesisPool.add_of_isComplete late numbers complete nonpos lower divisors
  refine ⟨turned, ?_⟩
  intro c q t rows more valid pairs below lowers divisors s held leads count
  subst held leads count
  exact below.decodeOn_taken valid pairs lowers
    (fun tokens sum first last lower => turned tokens sum lower (divisors _ first last)) nonpos

/-- With the penalty minus one, longer hypotheses are divided by less. -/
theorem complete_pool_stays_of_negative_penalty :
    let c : Configuration :=
      { batchSize := 1, numBeams := 2, vocabSize := 3, maxLength := 3, eosToken := 2,
        padToken := 2, lengthPenalty := ⟨0xbf800000⟩, earlyStopping := false }
    let p : HypothesisPool := ⟨2, ⟨0xbf800000⟩, false, [⟨⟨0xbf000000⟩, [2]⟩, ⟨⟨0xbf800000⟩, [2]⟩]⟩
    let rows : Nat → Scores := fun _ => #[⟨0xbf800000⟩, ⟨0xc0000000⟩, ⟨0xc0400000⟩]
    let q : PlainBeam := ⟨[⟨[0], ⟨0xbf800000⟩⟩, ⟨[1], ⟨0xc1a00000⟩⟩], p, false⟩
    let s := q.take c (q.candidates c rows)
    let last := s.decodeOn c [rows]
    p.isComplete s.live[0]!.score 2 = true ∧ p.add [0, 1, 2] ⟨0xc0400000⟩ = p ∧
      last.live.foldl (fun pool path => pool.add path.tokens path.score) last.pool = p := by
  intro c p rows q s
  have sorted : q.candidates c rows = (q.extensions c rows).take 4 := by
    rw [PlainBeam.candidates, List.mergeSort_of_pairwise (by decide +kernel)]
    rfl
  have next : s = q.take c ((q.extensions c rows).take 4) := congrArg (q.take c) sorted
  have leads : s.live[0]!.score = ⟨0xc0000000⟩ := by
    rw [next]
    decide +kernel
  have held : s.pool = p := by
    rw [next]
    decide +kernel
  have complete : p.isComplete ⟨0xc0000000⟩ 2 = true := by decide +kernel
  have divisors : ∀ count ∈ [2, 3], (Binary32.powCount count p.lengthPenalty).le
      (Binary32.powCount 2 p.lengthPenalty) = true := by
    decide +kernel
  have lowers : PlainBeam.Lowers c rows := fun _ _ => by
    show ∀ t < 3, _
    decide +kernel
  have below : q.Below c .zero 1 := ⟨rfl, by decide, by decide⟩
  obtain ⟨turned, stays⟩ := complete_pool_stays rfl (by decide) complete (by decide)
  refine ⟨leads ▸ complete, turned _ _ (by decide) (divisors 3 (by decide)), ?_⟩
  refine stays c q 1 rows [rows] (Configuration.valid_of_validate (by decide +kernel)) (by decide)
    below ?_ ?_ held leads rfl
  · intro rows' among
    obtain rfl : rows' = rows := by simpa using among
    exact lowers
  · intro count first last
    rw [List.length_singleton] at last
    exact divisors count (List.mem_pair.2 (by omega))

/-- With the penalty one, a score that is too low at length one is high enough at length ten. -/
theorem complete_pool_gives_way : ¬ ∀ (p : HypothesisPool) (best sum : Binary32) (length : Nat)
    (tokens : List Token), 1 ≤ p.capacity → p.lengthPenalty.isFinite = true →
    p.earlyStopping = false → (∀ h ∈ p.kept, h.score.isNaN = false) →
    p.isComplete best length = true → 1 ≤ length → best.le .zero = true →
    length ≤ tokens.length → sum.le best = true → p.add tokens sum = p := by
  intro claimed
  have same := claimed ⟨1, .one, false, [⟨⟨0xc0000000⟩, [1, 2]⟩]⟩ ⟨0xc0a00000⟩ ⟨0xc0a00000⟩ 1
    [1, 2, 3, 4, 5, 6, 7, 8, 9, 10] (by decide) (by decide) rfl (by decide) (by decide +kernel)
    (by decide) (by decide) (by decide) (by decide)
  exact absurd same (by decide +kernel)

end TokenSearch
