import TokenSearch.Proofs.Selection.Order

/-!
What `topK` keeps: the first `k` entries of one full sort. So it does not matter in which order
the entries come, whether some of them went through an earlier selection of `k`, and, as long
as no score is a negative NaN, how many fillers stand among them.
-/

namespace TokenSearch.Selection

def sort (entries : List Entry) : List Entry := entries.mergeSort Entry.before

/-- The best `k` entries, lengthened to `k`. -/
def best (k : Nat) (entries : List Entry) : List Entry := pad k ((sort entries).take k)

/-! ## One sort -/

theorem sort_perm (entries : List Entry) : (sort entries).Perm entries :=
  List.mergeSort_perm _ _

theorem pairwise_sort (entries : List Entry) :
    (sort entries).Pairwise fun a b => a.before b = true :=
  List.pairwise_mergeSort Entry.before_trans Entry.before_total entries

theorem sort_eq_of_perm {entries sorted : List Entry} (p : sorted.Perm entries)
    (h : sorted.Pairwise fun a b => a.before b = true) : sort entries = sorted :=
  List.Perm.eq_of_pairwise (fun a b _ _ => Entry.before_antisymm a b) (pairwise_sort entries) h
    ((sort_perm entries).trans p.symm)

theorem sort_congr {a b : List Entry} (p : a.Perm b) : sort a = sort b :=
  sort_eq_of_perm ((sort_perm b).trans p.symm) (pairwise_sort b)

theorem mem_sort {e : Entry} {entries : List Entry} : e ∈ sort entries ↔ e ∈ entries :=
  List.mem_mergeSort

@[simp] theorem length_sort (entries : List Entry) : (sort entries).length = entries.length :=
  List.length_mergeSort entries

/-! ## Insertion -/

theorem insert_perm (e : Entry) (es : List Entry) : (insert e es).Perm (e :: es) := by
  induction es with
  | nil => exact .refl _
  | cons x xs ih =>
    unfold insert
    split
    · exact (ih.cons x).trans (List.Perm.swap e x xs)
    · exact .refl _

theorem pairwise_insert {e : Entry} {es : List Entry}
    (h : es.Pairwise fun a b => a.before b = true) :
    (insert e es).Pairwise fun a b => a.before b = true := by
  induction es with
  | nil => exact List.pairwise_singleton _ _
  | cons x xs ih =>
    rw [List.pairwise_cons] at h
    unfold insert
    split
    case isTrue le =>
      refine List.pairwise_cons.2 ⟨fun y hy => ?_, ih h.2⟩
      cases (insert_perm e xs).mem_iff.1 hy with
      | head => exact le
      | tail _ mem => exact h.1 y mem
    case isFalse gt =>
      have lt : e.before x = true := by simpa [gt] using Entry.before_total x e
      refine List.pairwise_cons.2 ⟨fun y hy => ?_, List.pairwise_cons.2 h⟩
      cases hy with
      | head => exact lt
      | tail _ mem => exact Entry.before_trans _ _ _ lt (h.1 y mem)

theorem insert_sort (e : Entry) (es : List Entry) : insert e (sort es) = sort (e :: es) :=
  (sort_eq_of_perm ((insert_perm e _).trans ((sort_perm es).cons e))
    (pairwise_insert (pairwise_sort es))).symm

theorem take_insert_take (e : Entry) (k : Nat) (es : List Entry) :
    (insert e (es.take k)).take k = (insert e es).take k := by
  induction es generalizing k with
  | nil => simp
  | cons x xs ih =>
    cases k with
    | zero => simp
    | succ k =>
      simp only [List.take_succ_cons, insert]
      split
      · rw [List.take_succ_cons, List.take_succ_cons, ih]
      · rw [List.take_succ_cons, List.take_succ_cons]
        cases k <;> simp [List.take_take]

theorem topK_eq (k : Nat) (entries : List Entry) : topK k entries = (sort entries).take k := by
  suffices h : ∀ seen : List Entry,
      entries.foldl (fun best e => (insert e best).take k) ((sort seen).take k) =
        (sort (seen ++ entries)).take k by
    simpa [topK, sort] using h []
  induction entries with
  | nil => simp
  | cons e es ih =>
    intro seen
    have step : (insert e ((sort seen).take k)).take k = (sort (seen ++ [e])).take k := by
      rw [take_insert_take, insert_sort, sort_congr (List.perm_append_singleton e seen).symm]
    rw [List.foldl_cons, step, ih, List.append_assoc, List.singleton_append]

theorem topK_append (k : Nat) (a b : List Entry) :
    topK k (a ++ b) = b.foldl (fun best e => (insert e best).take k) (topK k a) :=
  List.foldl_append

theorem pad_topK (k : Nat) (entries : List Entry) :
    pad k (topK k entries) = best k entries := by
  rw [topK_eq, best]

theorem best_congr {a b : List Entry} (k : Nat) (p : a.Perm b) : best k a = best k b := by
  rw [best, best, sort_congr p]

/-! ## Selections of selections -/

theorem take_sort_append (k : Nat) (a b : List Entry) :
    (sort ((sort a).take k ++ b)).take k = (sort (a ++ b)).take k := by
  have again : topK k ((sort a).take k) = topK k a := by
    have sorted : sort ((sort a).take k) = (sort a).take k :=
      sort_eq_of_perm (.refl _) ((pairwise_sort a).sublist (List.take_sublist _ _))
    rw [topK_eq, topK_eq, sorted, List.take_take, Nat.min_self]
  rw [← topK_eq, ← topK_eq k (a ++ b), topK_append, again, ← topK_append]

theorem take_sort_flatMap {ι : Type} (k : Nat) (list : List ι) (f : ι → List Entry) :
    (sort (list.flatMap fun i => (sort (f i)).take k)).take k =
      (sort (list.flatMap f)).take k := by
  induction list with
  | nil => rfl
  | cons i rest ih =>
    have swap : (f i ++ rest.flatMap fun i => (sort (f i)).take k).Perm
        ((rest.flatMap fun i => (sort (f i)).take k) ++ f i) := List.perm_append_comm
    calc (sort ((i :: rest).flatMap fun i => (sort (f i)).take k)).take k
        = (sort (f i ++ rest.flatMap fun i => (sort (f i)).take k)).take k := by
          rw [List.flatMap_cons, take_sort_append]
      _ = (sort ((sort (rest.flatMap fun i => (sort (f i)).take k)).take k ++ f i)).take k := by
          rw [sort_congr swap, take_sort_append]
      _ = (sort ((sort (rest.flatMap f)).take k ++ f i)).take k := by rw [ih]
      _ = (sort ((i :: rest).flatMap f)).take k := by
          rw [take_sort_append, sort_congr List.perm_append_comm, List.flatMap_cons]

/-! ## Fillers -/

theorem sort_append_fillers {entries : List Entry} (m : Nat)
    (clean : ∀ e ∈ entries, e.clean = true) :
    sort (entries ++ List.replicate m .filler) = sort entries ++ List.replicate m .filler := by
  refine sort_eq_of_perm ((sort_perm entries).append_right _) ?_
  refine List.pairwise_append.2 ⟨pairwise_sort entries, ?_, fun a ha b hb => ?_⟩
  · exact List.pairwise_replicate.2 (.inr (Entry.before_refl _))
  · rw [List.eq_of_mem_replicate hb]
    exact Entry.before_filler (clean a (mem_sort.1 ha))

theorem best_append_fillers {entries : List Entry} (k m : Nat)
    (clean : ∀ e ∈ entries, e.clean = true) :
    best k (entries ++ List.replicate m .filler) = best k entries := by
  simp only [best, pad, sort_append_fillers m clean, List.take_append, List.append_assoc,
    List.take_replicate, List.replicate_append_replicate, List.length_append, List.length_take,
    List.length_replicate, length_sort]
  congr 2
  omega

theorem exists_flatMap_append_fillers_perm {ι : Type} (list : List ι) (f : ι → List Entry)
    (m : ι → Nat) :
    ∃ n, (list.flatMap fun i => f i ++ List.replicate (m i) .filler).Perm
      (list.flatMap f ++ List.replicate n .filler) := by
  induction list with
  | nil => exact ⟨0, .refl _⟩
  | cons i rest ih =>
    obtain ⟨n, ih⟩ := ih
    refine ⟨m i + n, ?_⟩
    rw [List.flatMap_cons, List.flatMap_cons,
      ← List.replicate_append_replicate, List.append_assoc, List.append_assoc]
    refine List.Perm.append_left _ (((List.Perm.append_left _ ih)).trans ?_)
    rw [← List.append_assoc, ← List.append_assoc]
    exact List.perm_append_comm.append_right _

theorem clean_best {e : Entry} {k : Nat} {entries : List Entry}
    (clean : ∀ e ∈ entries, e.clean = true) (h : e ∈ (sort entries).take k) : e.clean = true :=
  clean e (mem_sort.1 (List.mem_of_mem_take h))

/-- A selection among selections is a selection among all entries. -/
theorem best_flatMap {ι : Type} (k : Nat) (list : List ι) (f : ι → List Entry)
    (clean : ∀ i ∈ list, ∀ e ∈ f i, e.clean = true) :
    best k (list.flatMap fun i => best k (f i)) = best k (list.flatMap f) := by
  have kept : ∀ e ∈ list.flatMap fun i => (sort (f i)).take k, e.clean = true := by
    intro e he
    obtain ⟨i, hi, he⟩ := List.mem_flatMap.1 he
    exact clean_best (clean i hi) he
  obtain ⟨n, perm⟩ : ∃ n, (list.flatMap fun i => best k (f i)).Perm
      ((list.flatMap fun i => (sort (f i)).take k) ++ List.replicate n .filler) :=
    exists_flatMap_append_fillers_perm list _ _
  calc best k (list.flatMap fun i => best k (f i))
      = best k ((list.flatMap fun i => (sort (f i)).take k) ++ List.replicate n .filler) :=
        best_congr k perm
    _ = best k (list.flatMap fun i => (sort (f i)).take k) := best_append_fillers k _ kept
    _ = best k (list.flatMap f) := by rw [best, best, take_sort_flatMap]

/-! ## Entries seen from a larger matrix -/

namespace Entry

def shift (offset : Nat) (e : Entry) : Entry := { e with place := e.place.map (offset + ·) }

@[simp] theorem shift_filler (offset : Nat) : filler.shift offset = filler := rfl

@[simp] theorem before_shift (offset : Nat) (a b : Entry) :
    (a.shift offset).before (b.shift offset) = a.before b := by
  have place : placeLe (a.place.map (offset + ·)) (b.place.map (offset + ·)) =
      placeLe a.place b.place := by
    cases a.place <;> cases b.place <;> simp [placeLe]
  unfold before shift
  rw [place]

end Entry

@[simp] theorem best_map_shift (offset k : Nat) (entries : List Entry) :
    best k (entries.map (Entry.shift offset)) = (best k entries).map (Entry.shift offset) := by
  have sorted : sort (entries.map (Entry.shift offset)) = (sort entries).map (Entry.shift offset) :=
    (List.map_mergeSort fun a _ b _ => (Entry.before_shift offset a b).symm).symm
  simp only [best, pad, sorted, ← List.map_take, List.map_append, List.map_replicate,
    Entry.shift_filler, List.length_map]

end TokenSearch.Selection
