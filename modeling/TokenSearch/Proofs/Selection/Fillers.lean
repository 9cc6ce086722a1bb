import Mathlib.Data.List.Nodup
import Mathlib.Data.List.Perm.Subperm
import TokenSearch.Proofs.Binary32.Order
import TokenSearch.Proofs.Selection.FullSort

/-!
Selections among scores of any pattern. A filler ranks below every entry but a negative NaN, so
such an entry may lose its place to one. All other entries go through the stages as if there were
no others, and as long as an element has `k` of them, nothing else is selected. Whatever the
scores are, an entry is selected at most once, and what is no entry of the matrix is a filler.
-/

namespace TokenSearch.Selection

/-! ## Negative NaNs come last -/

theorem Entry.before_of_clean {a b : Entry} (ha : a.clean = true) (hb : b.clean = false) :
    a.before b = true := by
  have low : b.score.rank < Binary32.bottom.rank :=
    Binary32.rank_lt_of_isNegativeNaN (by simpa [clean] using hb) (by decide)
  have high : Binary32.bottom.rank ≤ a.score.rank :=
    Binary32.rank_bottom_le (by simpa [clean] using ha)
  exact Entry.before_iff.2 (.inl (UInt32.lt_of_lt_of_le low high))

theorem sort_eq_append (entries : List Entry) : sort entries =
    sort (entries.filter Entry.clean) ++ sort (entries.filter (!Entry.clean ·)) := by
  refine sort_eq_of_perm ?_ ?_
  · exact ((sort_perm _).append (sort_perm _)).trans (List.filter_append_perm Entry.clean entries)
  · refine List.pairwise_append.2 ⟨pairwise_sort _, pairwise_sort _, fun a ha b hb => ?_⟩
    have clean := (List.mem_filter.1 (mem_sort.1 ha)).2
    have other := (List.mem_filter.1 (mem_sort.1 hb)).2
    exact Entry.before_of_clean clean (by simpa using other)

theorem filter_take_sort (k : Nat) (entries : List Entry) :
    ((sort entries).take k).filter Entry.clean = (sort (entries.filter Entry.clean)).take k := by
  have all : ∀ e ∈ (sort (entries.filter Entry.clean)).take k, e.clean = true := fun e he =>
    clean_best (fun e he => (List.mem_filter.1 he).2) he
  have none : ∀ m, ∀ e ∈ (sort (entries.filter (!Entry.clean ·))).take m, ¬ e.clean = true := by
    intro m e he
    simpa using (List.mem_filter.1 (mem_sort.1 (List.mem_of_mem_take he))).2
  rw [sort_eq_append, List.take_append, List.filter_append, List.filter_eq_self.2 all,
    List.filter_eq_nil_iff.2 (none _), List.append_nil]

/-! ## Selections without negative NaNs -/

/-- The best `k` entries of those that no filler ranks before. -/
def bestClean (k : Nat) (entries : List Entry) : List Entry := best k (entries.filter Entry.clean)

@[simp] theorem best_take_sort (k : Nat) (entries : List Entry) :
    best k ((sort entries).take k) = best k entries := by
  have again := take_sort_append k entries []
  rw [List.append_nil, List.append_nil] at again
  rw [best, best, again]

@[simp] theorem bestClean_best (k : Nat) (entries : List Entry) :
    bestClean k (best k entries) = bestClean k entries := by
  have fillers : ∀ m, (List.replicate m Entry.filler).filter Entry.clean = .replicate m .filler :=
    fun m => List.filter_eq_self.2 fun e he => by rw [List.eq_of_mem_replicate he]; decide
  have clean : ∀ e ∈ (sort (entries.filter Entry.clean)).take k, e.clean = true := fun e he =>
    clean_best (fun e he => (List.mem_filter.1 he).2) he
  have filtered : (best k entries).filter Entry.clean =
      (sort (entries.filter Entry.clean)).take k ++
        .replicate (k - ((sort entries).take k).length) .filler := by
    rw [best, pad, List.filter_append, filter_take_sort, fillers]
  rw [bestClean, filtered, best_append_fillers _ _ clean, best_take_sort, bestClean]

theorem bestClean_flatMap {ι : Type} {k : Nat} {list : List ι} {f g : ι → List Entry}
    (same : ∀ i ∈ list, bestClean k (f i) = bestClean k (g i)) :
    bestClean k (list.flatMap f) = bestClean k (list.flatMap g) := by
  have each : ∀ h : ι → List Entry, bestClean k (list.flatMap h) =
      best k (list.flatMap fun i => bestClean k (h i)) := by
    intro h
    rw [bestClean, List.filter_flatMap]
    exact (best_flatMap k list _ fun i _ e he => (List.mem_filter.1 he).2).symm
  rw [each, each, List.flatMap_congr same]

@[simp] theorem bestClean_map_shift (offset k : Nat) (entries : List Entry) :
    bestClean k (entries.map (Entry.shift offset)) =
      (bestClean k entries).map (Entry.shift offset) := by
  rw [bestClean, List.filter_map, best_map_shift]
  rfl

/-! ## What a selection keeps -/

def placed (entries : List Entry) : List Entry := entries.filter (·.place.isSome)

/-- How a selection of `k` of these entries may look, after any number of stages. -/
structure Sifted (k : Nat) (entries chosen : List Entry) : Prop where
  best : bestClean k chosen = bestClean k entries
  placed : (placed chosen).Subperm (placed entries)
  member : ∀ e ∈ chosen, e ∈ entries ∨ e = .filler

theorem sifted_best (k : Nat) (entries : List Entry) : Sifted k entries (best k entries) where
  best := by simp
  placed := by
    have none : placed (List.replicate (k - ((sort entries).take k).length) .filler) = [] :=
      List.filter_eq_nil_iff.2 fun e he => by rw [List.eq_of_mem_replicate he]; decide
    rw [Selection.best, pad, Selection.placed, List.filter_append]
    change (Selection.placed _ ++ Selection.placed _).Subperm _
    rw [none, List.append_nil]
    exact ((List.take_sublist _ _).subperm.trans (sort_perm entries).subperm).filter _
  member := fun e he => mem_best he

namespace Sifted

variable {k : Nat} {entries chosen again : List Entry}

theorem trans (first : Sifted k entries chosen) (second : Sifted k chosen again) :
    Sifted k entries again where
  best := second.best.trans first.best
  placed := second.placed.trans first.placed
  member := by
    intro e he
    rcases second.member e he with he | rfl
    · exact first.member e he
    · exact .inr rfl

theorem flatMap {ι : Type} {list : List ι} {f g : ι → List Entry}
    (each : ∀ i ∈ list, Sifted k (f i) (g i)) : Sifted k (list.flatMap f) (list.flatMap g) where
  best := bestClean_flatMap fun i hi => (each i hi).best
  placed := by
    induction list with
    | nil => exact .refl _
    | cons i rest ih =>
      have first := (each i List.mem_cons_self).placed
      have others := ih fun j hj => each j (List.mem_cons_of_mem _ hj)
      simp only [Selection.placed, List.flatMap_cons, List.filter_append] at first others ⊢
      exact first.append others
  member := by
    intro e he
    obtain ⟨i, hi, he⟩ := List.mem_flatMap.1 he
    exact ((each i hi).member e he).imp_left fun he => List.mem_flatMap.2 ⟨i, hi, he⟩

theorem map_shift (offset : Nat) (sifted : Sifted k entries chosen) :
    Sifted k (entries.map (Entry.shift offset)) (chosen.map (Entry.shift offset)) where
  best := by simp [sifted.best]
  placed := by
    have moved : ∀ list : List Entry, Selection.placed (list.map (Entry.shift offset)) =
        (Selection.placed list).map (Entry.shift offset) := by
      intro list
      rw [Selection.placed, Selection.placed, List.filter_map]
      refine congrArg _ (List.filter_congr fun e _ => ?_)
      simp [Entry.shift]
    rw [moved, moved]
    obtain ⟨part, perm, sub⟩ := sifted.placed
    exact ⟨_, perm.map _, sub.map _⟩
  member := by
    intro e he
    obtain ⟨e', he', rfl⟩ := List.mem_map.1 he
    rcases sifted.member e' he' with he' | rfl
    · exact .inl (List.mem_map_of_mem he')
    · exact .inr (Entry.shift_filler offset)

theorem mem_of_enough (sifted : Sifted k entries chosen) (length : chosen.length = k)
    (places : ∀ e ∈ entries, e.place.isSome = true) (enough : k ≤ entries.countP Entry.clean)
    {e : Entry} (h : e ∈ chosen) : e ∈ entries := by
  have full : bestClean k entries = (sort (entries.filter Entry.clean)).take k := by
    have none : k - ((sort (entries.filter Entry.clean)).take k).length = 0 := by
      simp [← List.countP_eq_length_filter]
      omega
    rw [bestClean, Selection.best, pad, none, List.replicate_zero, List.append_nil]
  have member : ∀ e ∈ bestClean k entries, e ∈ entries := by
    intro e he
    rw [full] at he
    exact List.mem_of_mem_filter (mem_sort.1 (List.mem_of_mem_take he))
  have whole : chosen.filter Entry.clean = chosen := by
    -- If an entry were missing, a filler would stand in its place.
    refine List.filter_sublist.eq_of_length_le (Nat.le_of_not_lt fun less => ?_)
    have short : k - ((sort (chosen.filter Entry.clean)).take k).length ≠ 0 := by
      simp
      omega
    have filled : Entry.filler ∈ bestClean k chosen :=
      List.mem_append_right _ (List.mem_replicate.2 ⟨short, rfl⟩)
    exact absurd (places _ (member _ (sifted.best ▸ filled))) (by decide)
  refine member e ?_
  rw [← sifted.best, bestClean, whole, Selection.best, pad,
    List.take_of_length_le (by simp [length])]
  exact List.mem_append_left _ (mem_sort.2 h)

end Sifted

/-! ## The stages -/

def merged (scores : Scores) (s : Shape) (partSize element : Nat) : List Entry :=
  best s.k ((List.range s.numBeams).flatMap fun beam =>
    (best s.k ((List.range s.parts).flatMap
      (partBest scores s partSize (element * s.numBeams + beam)))).map
        (Entry.shift (beam * s.vocabSize)))

section Stages

variable {scores : Scores} {s : Shape} {partSize element : Nat}

@[simp] theorem length_merged : (merged scores s partSize element).length = s.k := by
  simp [merged, ← pad_topK]

theorem elementBest_eq_merged {w : Workspace} {scratch output : Nat} (sized : w.Sized scratch output)
    (small : s.vocabSize ≤ 2 ^ 31)
    (room : s.batchSize * s.numBeams * s.parts * s.k + s.batchSize * s.numBeams * s.k ≤ scratch)
    (h : element < s.batchSize) :
    elementBest s (afterRows scores s (s.batchSize * s.numBeams) partSize w)
      (s.batchSize * s.numBeams * s.parts * s.k) element = merged scores s partSize element := by
  rw [elementBest, pad_topK, merged]
  refine congrArg _ (List.flatMap_congr fun beam hb => ?_)
  have inside := row_mul_add_lt h (List.mem_range.1 hb)
  rw [readScratch_afterRows sized small room _ inside, rowBest, pad_topK,
    readScratch_afterParts sized small (by omega) inside]

theorem sifted_parts (cover : s.vocabSize ≤ s.parts * partSize) (row : Nat) :
    Sifted s.k (rowEntries scores s.vocabSize row)
      ((List.range s.parts).flatMap (partBest scores s partSize row)) := by
  have parts : Sifted s.k _ ((List.range s.parts).flatMap (partBest scores s partSize row)) :=
    .flatMap fun part _ => by
      rw [partBest_eq]
      exact sifted_best _ _
  rwa [← List.map_flatMap, flatMap_parts, Nat.min_eq_right cover] at parts

theorem sifted_merged (cover : s.vocabSize ≤ s.parts * partSize) :
    Sifted s.k (elementEntries scores s.numBeams s.vocabSize element)
      (merged scores s partSize element) := by
  rw [merged, elementEntries_eq]
  refine (Sifted.flatMap fun beam _ => ?_).trans (sifted_best _ _)
  exact ((sifted_parts cover _).trans (sifted_best _ _)).map_shift _

end Stages

/-! ## Places of an element -/

section Places

variable {scores : Scores} {numBeams vocabSize element : Nat} {e : Entry}

theorem mem_elementEntries : e ∈ elementEntries scores numBeams vocabSize element ↔
    ∃ p < numBeams * vocabSize,
      e = ⟨scores[element * (numBeams * vocabSize) + p]!, some p⟩ := by
  simp only [elementEntries, List.mem_map, List.mem_range, eq_comm]

theorem nodup_elementEntries : (elementEntries scores numBeams vocabSize element).Nodup :=
  List.Nodup.map (fun _ _ same => Option.some.inj (congrArg Entry.place same)) List.nodup_range

theorem nodup_of_sifted {k : Nat} {chosen : List Entry}
    (sifted : Sifted k (elementEntries scores numBeams vocabSize element) chosen) :
    (placed chosen).Nodup := by
  obtain ⟨part, perm, sub⟩ := sifted.placed
  exact perm.nodup_iff.1 ((nodup_elementEntries.filter _).sublist sub)

end Places

end TokenSearch.Selection
