import Mathlib.Data.List.Infix
import TokenSearch.Proofs.Beam.Plain

/-!
The hypotheses of a plain search. Every path is its prompt with as many tokens as steps were
taken, none of which ends it; every hypothesis in the pool is such a path that an end token was
appended to. A search that is finished has a full pool, and the paths of one that is not fill it.
-/

namespace TokenSearch

/-! ## Pools -/

namespace HypothesisPool

variable {p : HypothesisPool} {tokens : List Token} {sum : Binary32}

theorem le_length_evict (hs : List Hypothesis) : hs.length ≤ (evict hs).length + 1 := by
  have one : hs.length - 1 ≤ (evict hs).length := List.le_length_eraseP
  omega

theorem kept_add_sublist (p : HypothesisPool) (tokens : List Token) (sum : Binary32) :
    (p.add tokens sum).kept.Sublist (p.kept ++ [⟨p.normalize sum tokens.length, tokens⟩]) := by
  unfold add
  dsimp only
  split
  case isTrue => exact List.sublist_append_left _ _
  case isFalse =>
    dsimp only
    split
    · exact List.eraseP_sublist
    · exact List.Sublist.refl _

theorem mem_add {h : Hypothesis} (member : h ∈ (p.add tokens sum).kept) :
    h ∈ p.kept ∨ h.tokens = tokens := by
  have grown := (p.kept_add_sublist tokens sum).subset member
  rw [List.mem_append, List.mem_singleton] at grown
  exact grown.imp_right fun same => congrArg Hypothesis.tokens same

theorem size_add (p : HypothesisPool) (tokens : List Token) (sum : Binary32) :
    min p.capacity (p.size + 1) ≤ (p.add tokens sum).size := by
  unfold add
  dsimp only
  split
  case isTrue kept =>
    have full : p.capacity ≤ p.size := of_decide_eq_true (Bool.and_eq_true_iff.1 kept).1
    omega
  case isFalse =>
    let kept := p.kept ++ [⟨p.normalize sum tokens.length, tokens⟩]
    have grown : kept.length = p.size + 1 := List.length_append
    have evicted := le_length_evict kept
    show _ ≤ (if p.capacity < kept.length then evict kept else kept).length
    split <;> omega

theorem pairwise_sorted (p : HypothesisPool) :
    p.sorted.Pairwise fun a b => b.score.rank ≤ a.score.rank := by
  have sorted : p.sorted.Pairwise fun a b => decide (b.score.rank ≤ a.score.rank) = true := by
    refine List.pairwise_mergeSort (fun a b c => ?_) (fun a b => ?_) p.kept
    · simpa using fun h h' => UInt32.le_trans h' h
    · simpa using UInt32.le_total b.score.rank a.score.rank
  simpa using sorted

section Offers

variable {α : Type} {tokens : α → List Token} {sum : α → Binary32} {list : List α}

@[simp] theorem capacity_foldl_add (p : HypothesisPool) :
    (list.foldl (fun pool x => pool.add (tokens x) (sum x)) p).capacity = p.capacity := by
  induction list generalizing p with
  | nil => rfl
  | cons x rest ih => simp [ih]

theorem size_foldl_add (p : HypothesisPool) : min p.capacity (p.size + list.length) ≤
    (list.foldl (fun pool x => pool.add (tokens x) (sum x)) p).size := by
  induction list generalizing p with
  | nil => simp
  | cons x rest ih =>
    have one := size_add p (tokens x) (sum x)
    have others := ih (p.add (tokens x) (sum x))
    rw [capacity_add] at others
    rw [List.foldl_cons, List.length_cons]
    omega

theorem mem_foldl_add {h : Hypothesis}
    (member : h ∈ (list.foldl (fun pool x => pool.add (tokens x) (sum x)) p).kept) :
    h ∈ p.kept ∨ ∃ x ∈ list, h.tokens = tokens x := by
  induction list generalizing p with
  | nil => exact .inl member
  | cons x rest ih =>
    rcases ih member with one | ⟨y, hy, same⟩
    · exact (mem_add one).imp_right fun same => ⟨x, List.mem_cons_self, same⟩
    · exact .inr ⟨y, List.mem_cons_of_mem _ hy, same⟩

end Offers

end HypothesisPool

/-! ## Sequences of a search -/

namespace Configuration

/-- Tokens that a live beam may hold. -/
def Open (c : Configuration) (tokens : List Token) : Prop :=
  ∀ t ∈ tokens, 0 ≤ t ∧ t < c.vocabSize ∧ t ≠ c.eosToken

/-- What was generated after a prompt of `length` tokens. -/
structure Generated (c : Configuration) (length : Nat) (tokens : List Token) : Prop where
  fits : length + tokens.length ≤ c.maxLength
  vocabulary : ∀ t ∈ tokens, 0 ≤ t ∧ t < c.vocabSize
  /-- No token but the last one ends the sequence. -/
  inner : ∀ t ∈ tokens.dropLast, t ≠ c.eosToken
  full : tokens.getLast? ≠ some c.eosToken → length + tokens.length = c.maxLength

variable {c : Configuration} {tokens : List Token} {length : Nat}

theorem open_nil : c.Open [] := by simp [Open]

theorem Open.append (h : c.Open tokens) {t : Token} (vocabulary : 0 ≤ t ∧ t < c.vocabSize)
    (going : t ≠ c.eosToken) : c.Open (tokens ++ [t]) := by
  intro u hu
  rcases List.mem_append.1 hu with before | last
  · exact h u before
  · rw [List.mem_singleton.1 last]
    exact ⟨vocabulary.1, vocabulary.2, going⟩

theorem Open.generated_of_full (h : c.Open tokens) (full : length + tokens.length = c.maxLength) :
    c.Generated length tokens where
  fits := Nat.le_of_eq full
  vocabulary := fun t ht => ⟨(h t ht).1, (h t ht).2.1⟩
  inner := fun t ht => (h t (List.mem_of_mem_dropLast ht)).2.2
  full := fun _ => full

theorem Open.generated_append_eos (valid : c.Valid) (h : c.Open tokens)
    (room : length + tokens.length < c.maxLength) :
    c.Generated length (tokens ++ [c.eosToken]) where
  fits := by
    rw [List.length_append, List.length_singleton]
    omega
  vocabulary := by
    intro t ht
    rcases List.mem_append.1 ht with before | last
    · exact ⟨(h t before).1, (h t before).2.1⟩
    · rw [List.mem_singleton.1 last]
      exact valid.eosToken
  inner := by
    intro t ht
    rw [List.dropLast_concat] at ht
    exact (h t ht).2.2
  full := by simp

end Configuration

namespace PlainBeam

structure Formed (c : Configuration) (prompt : List Token) (t : Nat) (p : PlainBeam) : Prop where
  capacity : p.pool.capacity = c.numBeams
  pool : ∀ h ∈ p.pool.kept, ∃ tokens, h.tokens = prompt ++ tokens ++ [c.eosToken] ∧
    tokens.length < t ∧ c.Open tokens
  full : p.finished = true → c.numBeams ≤ p.pool.size
  paths : p.finished = false → p.live.length = c.numBeams
  live : p.finished = false → ∀ path ∈ p.live, ∃ tokens, path.tokens = prompt ++ tokens ∧
    tokens.length = t ∧ c.Open tokens

section Formed

variable {c : Configuration} {prompt : List Token} {t : Nat} {p : PlainBeam}

theorem formed_start (c : Configuration) (prompt : List Token) :
    (start c prompt).Formed c prompt 0 where
  capacity := rfl
  pool := nofun
  full := nofun
  paths := by simp [start]
  live := by
    intro _ path h
    obtain ⟨i, -, rfl⟩ := List.mem_map.1 h
    exact ⟨[], by simp, rfl, Configuration.open_nil⟩

theorem Formed.of_finished (formed : p.Formed c prompt t) (finished : p.finished = true) :
    p.Formed c prompt (t + 1) where
  capacity := formed.capacity
  pool := by
    intro h kept
    obtain ⟨tokens, same, length, held⟩ := formed.pool h kept
    exact ⟨tokens, same, Nat.lt_succ_of_lt length, held⟩
  full := formed.full
  paths := formed.paths
  live := by
    intro going
    exact absurd (finished.symm.trans going) (by decide)

theorem Formed.extend (formed : p.Formed c prompt t) (going : p.finished = false) {x : Extension}
    (path : x.path < c.numBeams) : ∃ tokens, p.extend x = prompt ++ tokens ++ [(x.token : Token)] ∧
      tokens.length = t ∧ c.Open tokens := by
  have inside : x.path < p.live.length := formed.paths going ▸ path
  obtain ⟨tokens, same, length, held⟩ := formed.live going _ (List.getElem_mem inside)
  refine ⟨tokens, ?_, length, held⟩
  rw [PlainBeam.extend, getElem!_pos p.live x.path inside, same]

theorem Formed.take (valid : c.Valid) (pairs : 2 ≤ c.vocabSize) {rows : Nat → Scores}
    (formed : p.Formed c prompt t) (going : p.finished = false) :
    (p.take c (p.candidates c rows)).Formed c prompt (t + 1) where
  capacity := by simp [PlainBeam.take, formed.capacity]
  pool := by
    intro h kept
    rcases HypothesisPool.mem_foldl_add kept with old | ⟨x, hx, same⟩
    · obtain ⟨tokens, same, length, held⟩ := formed.pool h old
      exact ⟨tokens, same, Nat.lt_succ_of_lt length, held⟩
    · have ends : (x.token : Token) = c.eosToken :=
        of_decide_eq_true (List.mem_filter.1 hx).2
      obtain ⟨tokens, grown, length, held⟩ :=
        formed.extend going (mem_candidates (mem_of_mem_ended hx)).1
      exact ⟨tokens, by rw [same, grown, ends], Nat.lt_succ_of_le (Nat.le_of_eq length), held⟩
  full := by
    intro finished
    have full := of_decide_eq_true (Bool.and_eq_true_iff.1 finished).1
    simpa [PlainBeam.take, formed.capacity] using full
  paths := fun _ => (List.length_map _).trans (length_going valid pairs)
  live := by
    intro _ path h
    obtain ⟨x, hx, rfl⟩ := List.mem_map.1 h
    obtain ⟨inside, token⟩ := mem_candidates (mem_of_mem_going hx)
    obtain ⟨tokens, same, length, held⟩ := formed.extend going inside
    refine ⟨tokens ++ [(x.token : Token)], by rw [same, List.append_assoc], by simp [length], ?_⟩
    exact held.append ⟨Int.natCast_nonneg _, Int.ofNat_lt.2 token⟩ (ends_of_mem_going hx)

theorem Formed.advance (valid : c.Valid) (pairs : 2 ≤ c.vocabSize) {processors : List Processor}
    {logits : Nat → Scores} (formed : p.Formed c prompt t) :
    (p.advance c processors logits).Formed c prompt (t + 1) := by
  cases finished : p.finished with
  | true =>
    rw [advance_of_finished finished]
    exact formed.of_finished finished
  | false =>
    rw [PlainBeam.advance, if_neg (by simp [finished])]
    exact formed.take valid pairs finished

theorem Formed.result {length : Nat} (valid : c.Valid) (formed : p.Formed c prompt t)
    (room : length + t ≤ c.maxLength) (full : p.finished = false → length + t = c.maxLength) :
    c.numBeams ≤ p.result.size ∧ ∀ h ∈ p.result.kept, ∃ tokens, h.tokens = prompt ++ tokens ∧
      c.Generated length tokens := by
  have pooled : ∀ h ∈ p.pool.kept, ∃ tokens, h.tokens = prompt ++ tokens ∧
      c.Generated length tokens := by
    intro h kept
    obtain ⟨tokens, same, length, held⟩ := formed.pool h kept
    exact ⟨tokens ++ [c.eosToken], by rw [same, List.append_assoc],
      held.generated_append_eos valid (by omega)⟩
  unfold PlainBeam.result
  cases finished : p.finished with
  | true => exact ⟨formed.full finished, pooled⟩
  | false =>
    have size : min p.pool.capacity (p.pool.size + p.live.length) ≤
        (p.live.foldl (fun pool path => pool.add path.tokens path.score) p.pool).size :=
      HypothesisPool.size_foldl_add p.pool
    rw [formed.capacity, formed.paths finished] at size
    refine ⟨by simpa using Nat.le_trans (by omega) size, fun h kept => ?_⟩
    rcases HypothesisPool.mem_foldl_add kept with old | ⟨path, member, same⟩
    · exact pooled h old
    · obtain ⟨tokens, grown, length, held⟩ := formed.live finished path member
      exact ⟨tokens, same.trans grown, held.generated_of_full (by rw [length, full finished])⟩

end Formed

end PlainBeam

end TokenSearch
