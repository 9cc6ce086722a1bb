import Mathlib.Algebra.BigOperators.Group.List.Basic
import Mathlib.Data.List.Count
import Mathlib.Data.List.Nodup
import Mathlib.Dynamics.FixedPoints.Basic
import TokenSearch.Proofs.Scoring
import TokenSearch.Proofs.Selection.FullSort
import TokenSearch.Proofs.Settings
import TokenSearch.Ranking

/-!
A beam search of one prompt without buffers, slots or a batch: an ordered list of live paths and
a pool. One step ranks all extensions of the paths, looks at the best `2 * numBeams` of them,
offers those that end among the first `numBeams` to the pool, and goes on with the first
`numBeams` that do not end. A search that is finished does not move any more.
-/

namespace TokenSearch

theorem not_mem_take_of_countP {α : Type} {R : α → α → Prop} {list : List α} {n : Nat} {x : α}
    (sorted : list.Pairwise R) {ahead : α → Bool} (own : ahead x = false)
    (before : ∀ a ∈ list, ahead a = true → ¬ R x a) (enough : n ≤ list.countP ahead) :
    x ∉ list.take n := by
  intro member
  have whole : list.take n ++ list.drop n = list := List.take_append_drop n list
  have later : (list.drop n).countP ahead = 0 := by
    rw [List.countP_eq_zero]
    intro a ha leads
    rw [← whole, List.pairwise_append] at sorted
    exact before a (List.mem_of_mem_drop ha) leads (sorted.2.2 x member a ha)
  have few : (list.take n).countP ahead < (list.take n).length :=
    List.countP_lt_length_iff.2 ⟨x, member, own⟩
  have split : list.countP ahead = (list.take n).countP ahead + (list.drop n).countP ahead := by
    rw [← List.countP_append, whole]
  have short := List.length_take_le n list
  omega

structure Path where
  tokens : List Token
  score : Binary32
deriving DecidableEq, Repr, Inhabited

/-- A path, by its number, with one more token. -/
structure Extension where
  path : Nat
  token : Nat
  score : Binary32
deriving DecidableEq, Repr, Inhabited

namespace Extension

/-- Whether `x` ranks no later than `y`: the scores descend, and ties go to the lower place. -/
def precedes (vocabSize : Nat) (x y : Extension) : Bool :=
  y.score.rank < x.score.rank ||
    (x.score.rank = y.score.rank && x.path * vocabSize + x.token ≤ y.path * vocabSize + y.token)

def ends (eosToken : Token) (x : Extension) : Bool := (x.token : Token) = eosToken

end Extension

structure PlainBeam where
  live : List Path
  pool : HypothesisPool
  finished : Bool
deriving DecidableEq, Repr

namespace PlainBeam

def start (c : Configuration) (prompt : List Token) : PlainBeam where
  live := (List.range c.numBeams).map fun i =>
    ⟨prompt, if i = 0 then Binary32.zero else inactiveScore⟩
  pool := ⟨c.numBeams, c.lengthPenalty, c.earlyStopping, []⟩
  finished := false

def extend (p : PlainBeam) (x : Extension) : List Token :=
  p.live[x.path]!.tokens ++ [(x.token : Token)]

def extensions (c : Configuration) (rows : Nat → Scores) (p : PlainBeam) : List Extension :=
  (List.range c.numBeams).flatMap fun j => (List.range c.vocabSize).map fun t =>
    ⟨j, t, (rows j)[t]! + p.live[j]!.score⟩

def candidates (c : Configuration) (rows : Nat → Scores) (p : PlainBeam) : List Extension :=
  ((p.extensions c rows).mergeSort (Extension.precedes c.vocabSize)).take (2 * c.numBeams)

def ended (c : Configuration) (candidates : List Extension) : List Extension :=
  (candidates.take c.numBeams).filter (·.ends c.eosToken)

def going (c : Configuration) (candidates : List Extension) : List Extension :=
  (candidates.filter (!·.ends c.eosToken)).take c.numBeams

def take (c : Configuration) (candidates : List Extension) (p : PlainBeam) : PlainBeam :=
  let pool := (ended c candidates).foldl (fun pool x => pool.add (p.extend x) x.score) p.pool
  let live := (going c candidates).map fun x => ⟨p.extend x, x.score⟩
  ⟨live, pool, pool.isComplete live[0]!.score live[0]!.tokens.length⟩

def processed (c : Configuration) (processors : List Processor) (logits : Nat → Scores)
    (p : PlainBeam) (j : Nat) : Scores :=
  processedRow c.eosToken processors p.live[j]!.tokens (logits j)

def advance (c : Configuration) (processors : List Processor) (logits : Nat → Scores)
    (p : PlainBeam) : PlainBeam :=
  if p.finished then p else p.take c (p.candidates c (p.processed c processors logits))

/-- The pool at the end; a search that is not finished adds its paths as they stand. -/
def result (p : PlainBeam) : HypothesisPool :=
  if p.finished then p.pool
  else p.live.foldl (fun pool path => pool.add path.tokens path.score) p.pool

section

variable {c : Configuration} {rows : Nat → Scores} {p : PlainBeam}

theorem advance_of_finished {processors : List Processor} {logits : Nat → Scores}
    (h : p.finished = true) : p.advance c processors logits = p := by
  rw [advance, if_pos h]

/-! ## Enough extensions go on -/

@[simp] theorem length_extensions : (p.extensions c rows).length = c.numBeams * c.vocabSize :=
  length_flatMap_range (by simp)

theorem mem_extensions {x : Extension} (h : x ∈ p.extensions c rows) :
    x.path < c.numBeams ∧ x.token < c.vocabSize := by
  obtain ⟨j, hj, h⟩ := List.mem_flatMap.1 h
  obtain ⟨t, ht, rfl⟩ := List.mem_map.1 h
  exact ⟨List.mem_range.1 hj, List.mem_range.1 ht⟩

theorem score_of_mem_extensions {x : Extension} (h : x ∈ p.extensions c rows) :
    x.score = (rows x.path)[x.token]! + p.live[x.path]!.score := by
  obtain ⟨j, -, h⟩ := List.mem_flatMap.1 h
  obtain ⟨t, -, rfl⟩ := List.mem_map.1 h
  rfl

theorem getElem!_sums {row sums : Scores} {score : Binary32} (size : sums.size = c.vocabSize)
    (held : sums = row.map (· + score)) {t : Nat} (ht : t < c.vocabSize) :
    sums[t]! = row[t]! + score := by
  rw [held, Array.size_map] at size
  rw [held, getElem!_map _ (size ▸ ht)]

theorem mem_candidates {x : Extension} (h : x ∈ p.candidates c rows) :
    x.path < c.numBeams ∧ x.token < c.vocabSize :=
  mem_extensions (List.mem_mergeSort.1 (List.mem_of_mem_take h))

theorem mem_of_mem_ended {x : Extension} {cs : List Extension} (h : x ∈ ended c cs) : x ∈ cs :=
  List.mem_of_mem_take (List.mem_of_mem_filter h)

theorem mem_of_mem_going {x : Extension} {cs : List Extension} (h : x ∈ going c cs) : x ∈ cs :=
  List.mem_of_mem_filter (List.mem_of_mem_take h)

theorem ends_of_mem_going {cs : List Extension} {x : Extension} (h : x ∈ going c cs) :
    (x.token : Token) ≠ c.eosToken := by
  have kept := (List.mem_filter.1 (List.mem_of_mem_take h)).2
  simpa [Extension.ends] using kept

theorem length_candidates (pairs : 2 ≤ c.vocabSize) :
    (p.candidates c rows).length = 2 * c.numBeams := by
  have enough : c.numBeams * 2 ≤ c.numBeams * c.vocabSize := Nat.mul_le_mul_left _ pairs
  simp [candidates]
  omega

theorem countP_extensions (valid : c.Valid) :
    (p.extensions c rows).countP (·.ends c.eosToken) = c.numBeams := by
  obtain ⟨eos, token⟩ := Int.eq_ofNat_of_zero_le valid.eosToken.1
  have inside : eos < c.vocabSize := Int.ofNat_lt.1 (token ▸ valid.eosToken.2)
  have one : ∀ j, ((List.range c.vocabSize).map fun t =>
      (⟨j, t, (rows j)[t]! + p.live[j]!.score⟩ : Extension)).countP (·.ends c.eosToken) = 1 := by
    intro j
    have same : (fun t => Extension.ends c.eosToken ⟨j, t, (rows j)[t]! + p.live[j]!.score⟩) =
        fun t => t == eos := by
      funext t
      rw [Extension.ends, token, Bool.eq_iff_iff, decide_eq_true_iff, beq_iff_eq]
      exact Int.ofNat_inj
    rw [List.countP_map]
    exact (congrArg (List.countP · (List.range c.vocabSize)) same).trans
      (List.count_eq_one_of_mem List.nodup_range (List.mem_range.2 inside))
  rw [extensions, List.countP_flatMap]
  refine (congrArg (fun f => ((List.range c.numBeams).map f).sum) (funext one)).trans ?_
  simp

theorem length_going (valid : c.Valid) (pairs : 2 ≤ c.vocabSize) :
    (going c (p.candidates c rows)).length = c.numBeams := by
  have total : (p.candidates c rows).length = 2 * c.numBeams := length_candidates pairs
  have few : (p.candidates c rows).countP (·.ends c.eosToken) ≤ c.numBeams :=
    calc (p.candidates c rows).countP (·.ends c.eosToken)
        ≤ ((p.extensions c rows).mergeSort (Extension.precedes c.vocabSize)).countP
            (·.ends c.eosToken) := (List.take_sublist _ _).countP_le
      _ = (p.extensions c rows).countP (·.ends c.eosToken) :=
          (List.mergeSort_perm _ _).countP_eq _
      _ = c.numBeams := countP_extensions valid
  have split := List.length_eq_countP_add_countP (·.ends c.eosToken) (l := p.candidates c rows)
  have others : (p.candidates c rows).countP (fun x => decide ¬x.ends c.eosToken = true) =
      ((p.candidates c rows).filter (!·.ends c.eosToken)).length := by
    rw [List.countP_eq_length_filter]
    simp
  rw [going, List.length_take]
  omega

theorem nodup_extensions : ((p.extensions c rows).map fun x => (x.path, x.token)).Nodup := by
  have pairs : ((p.extensions c rows).map fun x => (x.path, x.token)) =
      List.range c.numBeams ×ˢ List.range c.vocabSize := by
    rw [extensions, List.map_flatMap]
    simp only [List.map_map]
    rfl
  rw [pairs]
  exact List.nodup_range.product List.nodup_range

theorem sublist_ended : (ended c (p.candidates c rows)).Sublist
    ((p.extensions c rows).mergeSort (Extension.precedes c.vocabSize)) :=
  List.filter_sublist.trans <| (List.take_sublist _ _).trans <| List.take_sublist _ _

theorem sublist_going : (going c (p.candidates c rows)).Sublist
    ((p.extensions c rows).mergeSort (Extension.precedes c.vocabSize)) :=
  (List.take_sublist _ _).trans <| List.filter_sublist.trans <| List.take_sublist _ _

theorem nodup_of_sublist {list : List Extension} (part : list.Sublist
    ((p.extensions c rows).mergeSort (Extension.precedes c.vocabSize))) :
    (list.map fun x => (x.path, x.token)).Nodup := by
  have sorted := (List.mergeSort_perm (p.extensions c rows) (Extension.precedes c.vocabSize)).map
    fun x => (x.path, x.token)
  exact (sorted.nodup_iff.2 nodup_extensions).sublist (part.map _)

theorem nodup_going : ((going c (p.candidates c rows)).map fun x => (x.path, x.token)).Nodup :=
  nodup_of_sublist sublist_going

theorem advance_congr {processors : List Processor} {logits logits' : Nat → Scores}
    (h : ∀ j < c.numBeams, logits j = logits' j) :
    p.advance c processors logits = p.advance c processors logits' := by
  have same : p.extensions c (p.processed c processors logits) =
      p.extensions c (p.processed c processors logits') := by
    refine List.flatMap_congr fun j hj => ?_
    rw [processed, processed, h j (List.mem_range.1 hj)]
  rw [advance, advance, candidates, candidates, same]

end

/-! ## Whole runs -/

section Runs

variable (c : Configuration) (logits : List Token → List Binary32)

def rows (p : PlainBeam) : Nat → Scores :=
  p.processed c [.minLength c.minLength, .repetitionPenalty c.repetitionPenalty] fun j =>
    (logits p.live[j]!.tokens).toArray

def grow (p : PlainBeam) : PlainBeam :=
  p.advance c [.minLength c.minLength, .repetitionPenalty c.repetitionPenalty] fun j =>
    (logits p.live[j]!.tokens).toArray

/-- No extension of a search that goes on has a negative NaN for its score. -/
def Clean (p : PlainBeam) : Prop :=
  p.finished = false → ∀ j < c.numBeams,
    NoNegativeNaN ((p.rows c logits j).map (· + p.live[j]!.score))

def after (steps : Nat) (prompt : List Token) : PlainBeam := (grow c logits)^[steps] (start c prompt)

end Runs

section

variable {c : Configuration} {logits : List Token → List Binary32}

theorem after_succ (steps : Nat) (prompt : List Token) :
    after c logits (steps + 1) prompt = grow c logits (after c logits steps prompt) :=
  Function.iterate_succ_apply' _ _ _

theorem after_add {steps : Nat} {prompt : List Token} (more : Nat)
    (h : (after c logits steps prompt).finished = true) :
    after c logits (steps + more) prompt = after c logits steps prompt := by
  have fixed : Function.IsFixedPt (grow c logits) (after c logits steps prompt) :=
    advance_of_finished h
  rw [after, Nat.add_comm, Function.iterate_add_apply]
  exact fixed.iterate more

end

end PlainBeam

end TokenSearch
