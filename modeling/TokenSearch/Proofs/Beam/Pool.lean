import Mathlib.Data.List.Forall2
import Mathlib.Data.List.MinMax
import TokenSearch.Proofs.Beam.Hypotheses
import TokenSearch.Proofs.Binary32.Order

/-!
A pool over all its offers. Three orders meet in it: a full pool turns an offer down by the
numerical order, what gives way is found by rank, and so is the order of the answer. They differ on
the zeros, which are one number of two ranks, and the lowest score of an empty pool is below an
infinity; neither matters, since what was dropped is never above what is kept. The pool therefore
ends with the largest scores of all offers, each offer kept at most once and in its order.
-/

namespace TokenSearch

theorem Binary32.forall₂_same {xs ys : List Binary32} (numbers : ∀ x ∈ xs, x.isNaN = false)
    (numbers' : ∀ y ∈ ys, y.isNaN = false) (places : xs.map signed = ys.map signed) :
    List.Forall₂ (fun x y => x.same y = true) xs ys := by
  induction xs generalizing ys with
  | nil =>
    obtain rfl : ys = [] := List.map_eq_nil_iff.1 places.symm
    exact .nil
  | cons x rest ih =>
    obtain ⟨y, rest', rfl, place, places⟩ := List.map_eq_cons_iff.1 places.symm
    refine .cons ?_ (ih (fun z hz => numbers z (List.mem_cons_of_mem _ hz))
      (fun z hz => numbers' z (List.mem_cons_of_mem _ hz)) places.symm)
    simp [same, numbers x List.mem_cons_self, numbers' y List.mem_cons_self, place]

namespace HypothesisPool

open scoped List

/-! ## What gives way -/

theorem evict_split {hs : List Hypothesis} (some : hs ≠ []) :
    ∃ before h after, hs = before ++ h :: after ∧ evict hs = before ++ after ∧
      ∀ other ∈ hs, h.score.rank ≤ other.score.rank := by
  obtain ⟨low, least⟩ := Option.isSome_iff_exists.1 (Option.isSome_iff_ne_none.2
    (mt List.argmin_eq_none.1 some : hs.argmin (·.score.rank.toNat) ≠ none))
  have lowest : hs.all (fun other => low.score.rank ≤ other.score.rank) = true := by
    refine List.all_eq_true.2 fun other h => decide_eq_true ?_
    exact UInt32.le_iff_toNat_le.2
      (List.le_of_mem_argmin (f := fun h : Hypothesis => h.score.rank.toNat) h least)
  obtain ⟨h, before, after, -, first, split, evicted⟩ :=
    List.exists_of_eraseP (p := fun h : Hypothesis => hs.all fun other =>
      h.score.rank ≤ other.score.rank) (List.argmin_mem least) lowest
  exact ⟨before, h, after, split, evicted, fun other member =>
    of_decide_eq_true (List.all_eq_true.1 first other member)⟩

theorem le_of_le_worst {p : HypothesisPool} {x : Binary32}
    (numbers : ∀ h ∈ p.kept, h.score.isNaN = false) (low : x.le p.worst = true) :
    ∀ h ∈ p.kept, x.le h.score = true := by
  have scores : ∀ y ∈ p.kept.map (·.score), y.isNaN = false := by
    intro y hy
    obtain ⟨h, kept, rfl⟩ := List.mem_map.1 hy
    exact numbers h kept
  have worst : p.worst = (p.kept.map (·.score)).foldl Binary32.minimum Binary32.largest := by
    rw [worst, List.foldl_map]
  intro h kept
  refine Binary32.le_trans low (worst ▸ ?_)
  exact (Binary32.foldl_minimum_le (by decide) scores).2 _ (List.mem_map_of_mem kept)

/-! ## What is kept -/

/-- From these offers the best ones are kept, in the order in which they came. -/
structure Retains (capacity : Nat) (offers kept : List Hypothesis) : Prop where
  length : kept.length = min capacity offers.length
  sublist : kept.Sublist offers
  best : ∃ dropped, offers.Perm (kept ++ dropped) ∧
    ∀ low ∈ dropped, ∀ h ∈ kept, low.score.le h.score = true

theorem retains_nil (capacity : Nat) : Retains capacity [] [] :=
  ⟨by simp, .refl _, [], .refl _, nofun⟩

namespace Retains

variable {capacity : Nat} {offers kept : List Hypothesis} {new : Hypothesis}
  (retains : Retains capacity offers kept)

include retains

theorem turn_down (full : capacity ≤ kept.length) (low : ∀ h ∈ kept, new.score.le h.score = true) :
    Retains capacity (offers ++ [new]) kept := by
  obtain ⟨length, sublist, dropped, perm, best⟩ := retains
  refine ⟨?_, sublist.trans (List.sublist_append_left _ _), dropped ++ [new], ?_, ?_⟩
  · rw [List.length_append]
    omega
  · rw [← List.append_assoc]
    exact perm.append_right _
  · intro d member h hk
    rcases List.mem_append.1 member with old | last
    · exact best d old h hk
    · rw [List.mem_singleton.1 last]
      exact low h hk

theorem append (room : kept.length < capacity) :
    Retains capacity (offers ++ [new]) (kept ++ [new]) := by
  obtain ⟨length, sublist, dropped, perm, -⟩ := retains
  have total := perm.length_eq
  rw [List.length_append] at total
  obtain rfl : dropped = [] := List.length_eq_zero_iff.1 (by omega)
  rw [List.append_nil] at perm
  refine ⟨?_, sublist.append_right _, [], ?_, nofun⟩
  · rw [List.length_append, List.length_append, List.length_singleton]
    omega
  · rw [List.append_nil]
    exact perm.append_right _

theorem evict (full : capacity ≤ kept.length)
    (numbers : ∀ h ∈ kept ++ [new], h.score.isNaN = false) :
    Retains capacity (offers ++ [new]) (HypothesisPool.evict (kept ++ [new])) := by
  obtain ⟨length, sublist, dropped, perm, best⟩ := retains
  have some : kept ++ [new] ≠ [] := List.concat_ne_nil new kept
  obtain ⟨before, h, after, split, evicted, lowest⟩ := evict_split some
  have member : h ∈ kept ++ [new] := split ▸ List.mem_append_right _ List.mem_cons_self
  have stay : (before ++ after).Sublist (kept ++ [new]) :=
    split ▸ (List.Sublist.refl before).append (List.sublist_cons_self h after)
  have below : ∀ x ∈ before ++ after, h.score.le x.score = true := fun x hx =>
    Binary32.le_of_rank_le (numbers h member) (numbers x (stay.subset hx))
      (lowest x (stay.subset hx))
  have parted : (kept ++ [new]).Perm (h :: (before ++ after)) := split ▸ List.perm_middle
  rw [evicted]
  refine ⟨?_, stay.trans (sublist.append_right _), h :: dropped, ?_, ?_⟩
  · have sizes := parted.length_eq
    simp only [List.length_append, List.length_cons, List.length_nil] at sizes ⊢
    omega
  · calc offers ++ [new]
        _ ~ (kept ++ dropped) ++ [new] := perm.append_right _
        _ ~ (kept ++ [new]) ++ dropped := by
          rw [List.append_assoc, List.append_assoc]
          exact List.perm_append_comm.append_left _
        _ ~ h :: (before ++ after) ++ dropped := parted.append_right _
        _ ~ (before ++ after) ++ h :: dropped := List.perm_middle.symm
  · intro d hd x hx
    rcases List.mem_cons.1 hd with rfl | old
    · exact below x hx
    -- Either an earlier hypothesis gives way, which is between `d` and `x`, or all of them stay.
    rcases List.mem_append.1 member with earlier | last
    · exact Binary32.le_trans (best d old h earlier) (below x hx)
    · obtain rfl := List.mem_singleton.1 last
      have same : kept.Perm (before ++ after) :=
        (List.perm_append_comm.trans parted).cons_inv
      exact best d old x (same.mem_iff.2 hx)

end Retains

/-- One more offer: it is turned down, or takes a free place, or the lowest one gives way. -/
theorem retains_add {p : HypothesisPool} {offers : List Hypothesis} {tokens : List Token}
    {sum : Binary32} (retains : Retains p.capacity offers p.kept)
    (numbers : ∀ h ∈ offers, h.score.isNaN = false)
    (number : (p.normalize sum tokens.length).isNaN = false) :
    Retains p.capacity (offers ++ [⟨p.normalize sum tokens.length, tokens⟩])
      (p.add tokens sum).kept := by
  have kept_numbers : ∀ h ∈ p.kept, h.score.isNaN = false := fun h kept =>
    numbers h (retains.sublist.subset kept)
  unfold add
  dsimp only
  split
  case isTrue turned =>
    obtain ⟨full, low⟩ := Bool.and_eq_true_iff.1 turned
    exact retains.turn_down (of_decide_eq_true full) (le_of_le_worst kept_numbers low)
  dsimp only
  rw [List.length_append, List.length_singleton]
  split
  case isTrue crowded =>
    refine retains.evict (Nat.le_of_lt_succ crowded) fun h member => ?_
    rcases List.mem_append.1 member with old | last
    · exact kept_numbers h old
    · rwa [List.mem_singleton.1 last]
  case isFalse room => exact retains.append (by omega)

/-! ## All offers -/

def offered (p : HypothesisPool) (offers : List (List Token × Binary32)) : List Hypothesis :=
  offers.map fun offer => ⟨p.normalize offer.2 offer.1.length, offer.1⟩

def addAll (p : HypothesisPool) (offers : List (List Token × Binary32)) : HypothesisPool :=
  offers.foldl (fun q offer => q.add offer.1 offer.2) p

@[simp] theorem capacity_addAll (p : HypothesisPool) (offers : List (List Token × Binary32)) :
    (p.addAll offers).capacity = p.capacity :=
  capacity_foldl_add p

@[simp] theorem lengthPenalty_addAll (p : HypothesisPool) (offers : List (List Token × Binary32)) :
    (p.addAll offers).lengthPenalty = p.lengthPenalty := by
  induction offers generalizing p with
  | nil => rfl
  | cons offer rest ih => exact (ih _).trans (by simp)

@[simp] theorem earlyStopping_addAll (p : HypothesisPool) (offers : List (List Token × Binary32)) :
    (p.addAll offers).earlyStopping = p.earlyStopping := by
  induction offers generalizing p with
  | nil => rfl
  | cons offer rest ih => exact (ih _).trans (by simp)

theorem kept_addAll_sublist (p : HypothesisPool) (offers : List (List Token × Binary32)) :
    (p.addAll offers).kept.Sublist (p.kept ++ p.offered offers) := by
  induction offers generalizing p with
  | nil => simp [addAll, offered]
  | cons offer rest ih =>
    have one := p.kept_add_sublist offer.1 offer.2
    have others := ih (p.add offer.1 offer.2)
    have same : (p.add offer.1 offer.2).offered rest = p.offered rest := by
      simp [offered, normalize]
    rw [same] at others
    refine others.trans ?_
    simpa [offered] using one.append_right (p.offered rest)

theorem retains_addAll {p : HypothesisPool} {offers : List (List Token × Binary32)}
    (empty : p.kept = []) (numbers : ∀ h ∈ p.offered offers, h.score.isNaN = false) :
    Retains p.capacity (p.offered offers) (p.addAll offers).kept := by
  induction offers using List.reverseRecOn with
  | nil =>
    rw [addAll, List.foldl_nil, empty]
    exact retains_nil _
  | append_singleton earlier offer ih =>
    have grown : p.offered (earlier ++ [offer]) =
        p.offered earlier ++ [⟨p.normalize offer.2 offer.1.length, offer.1⟩] := List.map_append
    have step : p.addAll (earlier ++ [offer]) = (p.addAll earlier).add offer.1 offer.2 :=
      List.foldl_append
    rw [grown] at numbers ⊢
    have before := ih fun h member => numbers h (List.mem_append_left _ member)
    have last := numbers _ (List.mem_append_right _ (List.mem_singleton.2 rfl))
    have same : (p.addAll earlier).capacity = p.capacity := by simp
    have scored : (p.addAll earlier).normalize offer.2 offer.1.length =
        p.normalize offer.2 offer.1.length := by
      simp [normalize]
    rw [← same] at before ⊢
    rw [← scored] at last ⊢
    rw [step]
    exact retains_add before (fun h member => numbers h (List.mem_append_left _ member)) last

/-! ## Sizes -/

theorem size_add_eq {p : HypothesisPool} (le : p.size ≤ p.capacity) (tokens : List Token)
    (sum : Binary32) : (p.add tokens sum).size = min p.capacity (p.size + 1) := by
  have grown := (p.kept_add_sublist tokens sum).length_le
  have below : (p.add tokens sum).size ≤ p.capacity := by
    unfold add
    dsimp only
    split
    case isTrue => exact le
    dsimp only [size]
    split
    case isTrue crowded =>
      obtain ⟨before, h, after, split, evicted, -⟩ := evict_split
        (List.concat_ne_nil (⟨p.normalize sum tokens.length, tokens⟩ : Hypothesis) p.kept)
      have lengths := congrArg List.length split
      rw [evicted]
      simp only [size, List.length_append, List.length_cons, List.length_nil] at le lengths ⊢
      omega
    case isFalse room => exact Nat.le_of_not_lt room
  have above := p.size_add tokens sum
  simp only [size, List.length_append, List.length_singleton] at *
  omega

theorem size_addAll {p : HypothesisPool} (le : p.size ≤ p.capacity)
    (offers : List (List Token × Binary32)) :
    (p.addAll offers).size = min p.capacity (p.size + offers.length) := by
  induction offers generalizing p with
  | nil => exact (Nat.min_eq_right le).symm
  | cons offer rest ih =>
    have first := size_add_eq le offer.1 offer.2
    have others := ih (p := p.add offer.1 offer.2) (by simp; omega)
    rw [capacity_add, first] at others
    rw [List.length_cons]
    exact others.trans (by omega)

/-! ## The answer -/

theorem take_mergeSort {kept dropped all : List Int} (perm : all ~ kept ++ dropped)
    (sorted : kept.Pairwise fun a b => b ≤ a) (below : ∀ d ∈ dropped, ∀ k ∈ kept, d ≤ k) :
    (all.mergeSort fun a b => b ≤ a).take kept.length = kept := by
  have descends : ∀ list : List Int, (list.mergeSort fun a b => b ≤ a).Pairwise
      fun a b => b ≤ a := by
    intro list
    have sorted : (list.mergeSort fun a b => b ≤ a).Pairwise fun a b => decide (b ≤ a) = true :=
      List.pairwise_mergeSort (fun a b c => by simpa using fun h h' => Int.le_trans h' h)
        (fun a b => by simpa using Int.le_total b a) list
    simpa using sorted
  have whole : all.mergeSort (fun a b => b ≤ a) =
      kept ++ dropped.mergeSort fun a b => b ≤ a := by
    refine List.Perm.eq_of_pairwise (fun a b _ _ h h' => Int.le_antisymm h' h) (descends all)
      (List.pairwise_append.2 ⟨sorted, descends dropped, fun k hk d hd => ?_⟩) ?_
    · exact below d ((List.mergeSort_perm dropped _).mem_iff.1 hd) k hk
    · exact (List.mergeSort_perm all _).trans
        (perm.trans ((List.mergeSort_perm dropped _).symm.append_left kept))
  rw [whole, List.take_left]

theorem sorted_perm (p : HypothesisPool) : p.sorted ~ p.kept := List.mergeSort_perm _ _

theorem filter_sorted (p : HypothesisPool) (score : Binary32) :
    p.sorted.filter (·.score = score) = p.kept.filter (·.score = score) := by
  have equal : (p.kept.filter (·.score = score)).Pairwise
      fun a b => decide (b.score.rank ≤ a.score.rank) = true := by
    refine List.pairwise_of_forall_mem_list fun a ha b hb => decide_eq_true ?_
    have first := of_decide_eq_true (List.mem_filter.1 ha).2
    have second := of_decide_eq_true (List.mem_filter.1 hb).2
    rw [first, second]
    exact UInt32.le_refl _
  have kept : (p.kept.filter (·.score = score)).Sublist p.sorted :=
    List.sublist_mergeSort (fun a b c => by simpa using fun h h' => UInt32.le_trans h' h)
      (fun a b => by simpa using UInt32.le_total b.score.rank a.score.rank) equal
      List.filter_sublist
  have again := kept.filter (·.score = score)
  rw [List.filter_filter] at again
  simp only [Bool.and_self] at again
  exact (again.eq_of_length ((p.sorted_perm.filter _).length_eq).symm).symm

structure Ranks (p : HypothesisPool) (hs : List Hypothesis) : Prop where
  perm : hs ~ p.kept
  descending : hs.Pairwise fun a b => b.score.rank ≤ a.score.rank
  arrival : ∀ score, hs.filter (·.score = score) = p.kept.filter (·.score = score)

theorem ranks_sorted (p : HypothesisPool) : p.Ranks p.sorted :=
  ⟨p.sorted_perm, p.pairwise_sorted, p.filter_sorted⟩

section Answer

variable {p : HypothesisPool} {offers : List Hypothesis}
  (retains : Retains p.capacity offers p.kept) (numbers : ∀ h ∈ offers, h.score.isNaN = false)

include retains

theorem Retains.subperm_sorted : p.sorted <+~ offers :=
  p.sorted_perm.subperm.trans retains.sublist.subperm

include numbers

theorem Retains.descends : p.sorted.Pairwise fun a b => b.score.le a.score = true := by
  refine p.pairwise_sorted.imp_of_mem fun {a b} ha hb rank => ?_
  exact Binary32.le_of_rank_le (numbers b (retains.subperm_sorted.subset hb))
    (numbers a (retains.subperm_sorted.subset ha)) rank

theorem Retains.scores_sorted : List.Forall₂ (fun x y => x.same y = true) (p.sorted.map (·.score))
    (((offers.map (·.score)).mergeSort fun x y => y.le x).take p.capacity) := by
  have subset : ∀ h ∈ p.sorted, h ∈ offers := fun h member => retains.subperm_sorted.subset member
  have scores : ∀ x ∈ offers.map (·.score), x.isNaN = false := by
    intro x hx
    obtain ⟨h, member, rfl⟩ := List.mem_map.1 hx
    exact numbers h member
  refine Binary32.forall₂_same (fun x hx => ?_) (fun x hx => ?_) ?_
  · obtain ⟨h, member, rfl⟩ := List.mem_map.1 hx
    exact numbers h (subset h member)
  · exact scores x ((List.mergeSort_perm _ _).mem_iff.1 (List.mem_of_mem_take hx))
  -- On numbers the order is that of their places.
  have places : ((offers.map (·.score)).mergeSort fun x y => y.le x).map Binary32.signed =
      ((offers.map (·.score)).map Binary32.signed).mergeSort fun x y => y ≤ x := by
    refine List.map_mergeSort fun x hx y hy => ?_
    rw [Bool.eq_iff_iff, Binary32.le_iff, decide_eq_true_iff]
    simp [scores x hx, scores y hy]
  obtain ⟨dropped, perm, best⟩ := retains.best
  let place : Hypothesis → Int := fun h => h.score.signed
  have first : ((offers.map place).mergeSort fun x y => y ≤ x).take (p.sorted.map place).length =
      p.sorted.map place := by
    have all : offers.map place ~ p.sorted.map place ++ dropped.map place := by
      rw [← List.map_append]
      exact (perm.trans (p.sorted_perm.symm.append_right dropped)).map place
    refine take_mergeSort all ?_ ?_
    · exact List.pairwise_map.2 ((retains.descends numbers).imp fun h =>
        (Binary32.le_iff.1 h).2.2)
    · intro d hd k hk
      obtain ⟨low, member, rfl⟩ := List.mem_map.1 hd
      obtain ⟨h, kept, rfl⟩ := List.mem_map.1 hk
      exact (Binary32.le_iff.1 (best low member h (p.sorted_perm.mem_iff.1 kept))).2.2
  have enough : (p.sorted.map place).length = min p.capacity offers.length := by
    rw [List.length_map, p.sorted_perm.length_eq, retains.length]
  rw [List.map_take, places, List.map_map, List.map_map]
  refine first.symm.trans (List.take_eq_take_iff.2 ?_)
  rw [enough, List.length_mergeSort, List.length_map]
  omega

end Answer

/-- A new pool of any capacity, after any offers whose scores are numbers: it answers with as many
hypotheses as there are places or offers, whose scores are the largest of all in descending order,
none of them kept more often than it was offered, and those of one score in the order of the
offers. -/
theorem addAll_keeps_best (capacity : Nat) (lengthPenalty : Binary32) (earlyStopping : Bool)
    (offers : List (List Token × Binary32)) :
    let p : HypothesisPool := ⟨capacity, lengthPenalty, earlyStopping, []⟩
    let hs := p.offered offers
    let answer := (p.addAll offers).sorted
    (∀ h ∈ hs, h.score.isNaN = false) →
    ((capacity + 1) * 32 < 2 ^ 63 → new capacity lengthPenalty earlyStopping = .ok p) ∧
    answer.length = min capacity offers.length ∧
    List.Forall₂ (fun x y => x.same y = true) (answer.map (·.score))
      (((hs.map (·.score)).mergeSort fun x y => y.le x).take capacity) ∧
    answer.Pairwise (fun a b => b.score.le a.score = true) ∧ answer <+~ hs ∧
    ∀ score, (answer.filter (·.score = score)).Sublist (hs.filter (·.score = score)) := by
  intro p hs answer numbers
  have retains : Retains p.capacity hs (p.addAll offers).kept := retains_addAll rfl numbers
  have count : hs.length = offers.length := List.length_map _
  have same : (p.addAll offers).capacity = p.capacity := by simp
  have final := same ▸ retains
  refine ⟨fun room => ?_, ?_, ?_, final.descends numbers, final.subperm_sorted, fun score => ?_⟩
  · exact Outcome.bind_eq_ok (Outcome.size_of_lt (by omega)) <|
      Outcome.bind_eq_ok (Outcome.room_of_lt room) rfl
  · rw [(sorted_perm _).length_eq, retains.length, count]
  · rw [← show (p.addAll offers).capacity = capacity from same]
    exact final.scores_sorted numbers
  · rw [filter_sorted]
    exact retains.sublist.filter _

/-- Zeros of both signs and two infinities in a pool of three: the first infinity takes a free
place, a zero gives way to the second, and a zero is turned down. -/
theorem addAll_keeps_best_of_ties :
    let p : HypothesisPool := ⟨3, .one, false, []⟩
    let offers := [([1], ⟨0x80000000⟩), ([2], .zero), ([3], .top), ([4], .top), ([5], .zero)]
    let answer := (p.addAll offers).sorted
    (∀ h ∈ p.offered offers, h.score.isNaN = false) ∧ new 3 .one false = .ok p ∧
      answer.length = 3 ∧
      List.Forall₂ (fun x y => x.same y = true) (answer.map (·.score))
        ((((p.offered offers).map (·.score)).mergeSort fun x y => y.le x).take 3) ∧
      (answer.filter (·.score = .top)).Sublist [⟨.top, [3]⟩, ⟨.top, [4]⟩] := by
  intro p offers answer
  have numbers : ∀ h ∈ p.offered offers, h.score.isNaN = false := by decide +kernel
  obtain ⟨made, length, scores, -, -, order⟩ := addAll_keeps_best 3 .one false offers numbers
  have tops : (p.offered offers).filter (·.score = .top) = [⟨.top, [3]⟩, ⟨.top, [4]⟩] := by
    decide +kernel
  exact ⟨numbers, made (by decide), length, scores, tops ▸ order .top⟩

end HypothesisPool

end TokenSearch
