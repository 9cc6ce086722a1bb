import TokenSearch.Proofs.Faultless
import TokenSearch.Proofs.Selection.Cells
import TokenSearch.Selection.Selector

/-!
The two-stage selection against one sort. The parts of a row cover it once, so their best
entries hold the best of the row, and the rows' best entries hold the best of the batch element:
the candidates are those that sorting all entries of an element would give, however the rows
are cut and whatever the buffers held.
-/

namespace TokenSearch

/-- No score is a NaN with its sign bit set. -/
def NoNegativeNaN (scores : Scores) : Prop := ∀ x ∈ scores, x.isNegativeNaN = false

instance (scores : Scores) : Decidable (NoNegativeNaN scores) :=
  inferInstanceAs (Decidable (∀ x ∈ scores, x.isNegativeNaN = false))

theorem NoNegativeNaN.get {scores : Scores} (h : NoNegativeNaN scores) (i : Nat) :
    scores[i]!.isNegativeNaN = false := by
  by_cases inside : i < scores.size
  · rw [getElem!_pos scores i inside]
    exact h _ (Array.getElem_mem inside)
  · rw [getElem!_neg scores i inside]
    decide

theorem NoNegativeNaN.row {m : Scores} (h : NoNegativeNaN m) (width r : Nat) :
    NoNegativeNaN (ScoreMatrix.row m width r) := by
  intro x hx
  obtain ⟨i, hi, rfl⟩ := Array.mem_iff_getElem.1 hx
  simp only [ScoreMatrix.row, Array.getElem_extract]
  exact h _ (Array.getElem_mem _)

theorem NoNegativeNaN.of_rows {m : Scores} {rows width : Nat} (size : m.size = rows * width)
    (h : ∀ r < rows, NoNegativeNaN (ScoreMatrix.row m width r)) : NoNegativeNaN m := by
  intro x hx
  obtain ⟨i, hi, rfl⟩ := Array.mem_iff_getElem.1 hx
  have inside : i < rows * width := size ▸ hi
  have entry := (h _ (div_lt_rows inside)).get (i % width)
  rwa [ScoreMatrix.getElem!_row (div_lt_rows inside) (mod_lt_width inside)
    (Nat.le_of_eq size.symm), Nat.div_add_mod', getElem!_pos m i hi] at entry

namespace Selection

/-! ## The entries of a matrix -/

def rowEntries (scores : Scores) (vocabSize row : Nat) : List Entry :=
  (List.range vocabSize).map fun token => ⟨scores[row * vocabSize + token]!, some token⟩

/-- All continuations of a batch element, at their places `beam * vocabSize + token`. -/
def elementEntries (scores : Scores) (numBeams vocabSize element : Nat) : List Entry :=
  (List.range (numBeams * vocabSize)).map fun place =>
    ⟨scores[element * (numBeams * vocabSize) + place]!, some place⟩

theorem clean_rowEntries {scores : Scores} (clean : NoNegativeNaN scores) (vocabSize row : Nat) :
    ∀ e ∈ rowEntries scores vocabSize row, e.clean = true := by
  intro e he
  obtain ⟨token, -, rfl⟩ := List.mem_map.1 he
  simp [Entry.clean, clean.get]

theorem elementEntries_eq (scores : Scores) (numBeams vocabSize element : Nat) :
    elementEntries scores numBeams vocabSize element =
      (List.range numBeams).flatMap fun beam =>
        (rowEntries scores vocabSize (element * numBeams + beam)).map
          (Entry.shift (beam * vocabSize)) := by
  rw [elementEntries, ← flatMap_range_map_range]
  refine congrArg (List.flatMap · _) (funext fun beam => ?_)
  simp only [rowEntries, List.map_map]
  refine List.map_congr_left fun token _ => ?_
  simp only [Function.comp_apply, Entry.shift, Option.map_some, Nat.add_mul, Nat.mul_assoc,
    Nat.add_assoc]

/-! ## The parts of a row -/

theorem le_mul_ceilDiv (n : Nat) {parts : Nat} (h : 0 < parts) : n ≤ parts * ceilDiv n parts := by
  have split := Nat.div_add_mod (n + parts - 1) parts
  have rest := Nat.mod_lt (n + parts - 1) h
  unfold ceilDiv
  omega

theorem flatMap_parts (vocabSize partSize count : Nat) :
    ((List.range count).flatMap fun part =>
      List.range' (min (part * partSize) vocabSize)
        (min ((part + 1) * partSize) vocabSize - min (part * partSize) vocabSize)) =
      List.range (min (count * partSize) vocabSize) := by
  induction count with
  | zero => simp
  | succ count ih =>
    have grows : count * partSize ≤ (count + 1) * partSize :=
      Nat.mul_le_mul_right _ (Nat.le_succ count)
    rw [List.range_succ, List.flatMap_append, ih, List.range_eq_range', List.range_eq_range',
      List.flatMap_singleton]
    have next := @List.range'_append_1 0 (min (count * partSize) vocabSize)
      (min ((count + 1) * partSize) vocabSize - min (count * partSize) vocabSize)
    rw [Nat.zero_add] at next
    rw [next]
    congr 1
    omega

/-! ## The stages -/

section Stages

variable {scores : Scores} {s : Shape} {partSize : Nat}

theorem partBest_eq (scores : Scores) (s : Shape) (partSize row part : Nat) :
    partBest scores s partSize row part =
      best s.k ((List.range' (min (part * partSize) s.vocabSize)
        (min ((part + 1) * partSize) s.vocabSize - min (part * partSize) s.vocabSize)).map
          fun token => ⟨scores[row * s.vocabSize + token]!, some token⟩) := by
  rw [partBest, pad_topK]

theorem best_parts (clean : NoNegativeNaN scores) (cover : s.vocabSize ≤ s.parts * partSize)
    (row : Nat) :
    best s.k ((List.range s.parts).flatMap (partBest scores s partSize row)) =
      best s.k (rowEntries scores s.vocabSize row) := by
  rw [funext (partBest_eq scores s partSize row), best_flatMap, ← List.map_flatMap, flatMap_parts,
    Nat.min_eq_right cover, rowEntries]
  intro part _ e he
  obtain ⟨token, -, rfl⟩ := List.mem_map.1 he
  simp [Entry.clean, clean.get]

theorem mem_best {e : Entry} {k : Nat} {entries : List Entry} (h : e ∈ best k entries) :
    e ∈ entries ∨ e = .filler := by
  rw [best, pad, List.mem_append] at h
  obtain h | h := h
  · exact .inl (mem_sort.1 (List.mem_of_mem_take h))
  · exact .inr (List.eq_of_mem_replicate h)

theorem within_partBest {row part : Nat} {e : Entry}
    (h : e ∈ partBest scores s partSize row part) : e.Within s.vocabSize := by
  rw [partBest_eq] at h
  obtain h | rfl := mem_best h
  · obtain ⟨token, range, rfl⟩ := List.mem_map.1 h
    intro p hp
    cases hp
    have := List.mem_range'_1.1 range
    omega
  · exact Entry.within_filler _

variable {w : Workspace} {scratch output rows : Nat}

def afterParts (scores : Scores) (s : Shape) (rows partSize : Nat) (w : Workspace) : Workspace :=
  w.writeScratch s.k 0 (tabulate (rows * s.parts) fun i =>
    partBest scores s partSize (i / s.parts) (i % s.parts))

theorem readScratch_afterParts (sized : w.Sized scratch output) (small : s.vocabSize ≤ 2 ^ 31)
    (room : rows * s.parts * s.k ≤ scratch) {row : Nat} (h : row < rows) :
    (afterParts scores s rows partSize w).readScratch 0 (row * s.parts * s.k) (s.parts * s.k) =
      (List.range s.parts).flatMap (partBest scores s partSize row) := by
  have within : row * s.parts + s.parts ≤ rows * s.parts := by
    rw [← Nat.succ_mul]
    exact Nat.mul_le_mul_right _ h
  have read := Workspace.readScratch_writeScratch 0 sized
    (fun i => length_partBest scores s partSize (i / s.parts) (i % s.parts))
    (fun i _ e he => (within_partBest he).storable small) (by omega) 0 within
  have parts : ∀ part ∈ List.range s.parts,
      (partBest scores s partSize ((row * s.parts + part) / s.parts)
        ((row * s.parts + part) % s.parts)).map (Entry.shift 0) =
      partBest scores s partSize row part := by
    intro part hp
    have inside := List.mem_range.1 hp
    rw [row_mul_add_div row inside, row_mul_add_mod row inside,
      List.map_congr_left (g := id) fun e _ => Entry.shift_zero e, List.map_id]
  rw [Nat.zero_add] at read
  rw [afterParts, read, List.flatMap_congr parts]

theorem rowBest_eq (sized : w.Sized scratch output) (clean : NoNegativeNaN scores)
    (small : s.vocabSize ≤ 2 ^ 31) (cover : s.vocabSize ≤ s.parts * partSize)
    (room : rows * s.parts * s.k ≤ scratch) {row : Nat} (h : row < rows) :
    rowBest s (afterParts scores s rows partSize w) row =
      best s.k (rowEntries scores s.vocabSize row) := by
  rw [rowBest, pad_topK, readScratch_afterParts sized small room h, best_parts clean cover]

theorem within_rowBest (sized : w.Sized scratch output) (small : s.vocabSize ≤ 2 ^ 31)
    (room : rows * s.parts * s.k ≤ scratch) {row : Nat} (h : row < rows) {e : Entry}
    (he : e ∈ rowBest s (afterParts scores s rows partSize w) row) : e.Within s.vocabSize := by
  rw [rowBest, pad_topK, readScratch_afterParts sized small room h] at he
  obtain he | rfl := mem_best he
  · obtain ⟨part, -, he⟩ := List.mem_flatMap.1 he
    exact within_partBest he
  · exact Entry.within_filler _

def afterRows (scores : Scores) (s : Shape) (rows partSize : Nat) (w : Workspace) : Workspace :=
  let w := afterParts scores s rows partSize w
  w.writeScratch s.k (rows * s.parts * s.k) (tabulate rows (rowBest s w))

theorem readScratch_afterRows (sized : w.Sized scratch output) (small : s.vocabSize ≤ 2 ^ 31)
    (room : rows * s.parts * s.k + rows * s.k ≤ scratch) (offset : Nat) {row : Nat}
    (h : row < rows) :
    (afterRows scores s rows partSize w).readScratch offset
        (rows * s.parts * s.k + row * s.k) s.k =
      (rowBest s (afterParts scores s rows partSize w) row).map (Entry.shift offset) := by
  have sizedParts : (afterParts scores s rows partSize w).Sized scratch output :=
    sized.writeScratch _ _ _
  have read := Workspace.readScratch_writeScratch (n := 1) (rows * s.parts * s.k) sizedParts
    (length_rowBest s (afterParts scores s rows partSize w))
    (fun row hr e he => (within_rowBest sized small (by omega) hr he).storable small) room offset h
  rw [Nat.one_mul] at read
  rw [afterRows]
  refine read.trans ?_
  rw [List.range_one, List.flatMap_singleton, Nat.add_zero]

section Elements

variable (sized : w.Sized scratch output) (small : s.vocabSize ≤ 2 ^ 31)
  (room : s.batchSize * s.numBeams * s.parts * s.k + s.batchSize * s.numBeams * s.k ≤ scratch)
  {element : Nat} (h : element < s.batchSize)

include sized small room h

theorem elementBest_eq (clean : NoNegativeNaN scores) (cover : s.vocabSize ≤ s.parts * partSize) :
    elementBest s (afterRows scores s (s.batchSize * s.numBeams) partSize w)
        (s.batchSize * s.numBeams * s.parts * s.k) element =
      best s.k (elementEntries scores s.numBeams s.vocabSize element) := by
  have beams : ∀ beam ∈ List.range s.numBeams,
      (afterRows scores s (s.batchSize * s.numBeams) partSize w).readScratch
          (beam * s.vocabSize) (s.batchSize * s.numBeams * s.parts * s.k +
            (element * s.numBeams + beam) * s.k) s.k =
        best s.k ((rowEntries scores s.vocabSize (element * s.numBeams + beam)).map
          (Entry.shift (beam * s.vocabSize))) := by
    intro beam hb
    have inside := row_mul_add_lt h (List.mem_range.1 hb)
    rw [readScratch_afterRows sized small room _ inside,
      rowBest_eq sized clean small cover (by omega) inside, best_map_shift]
  have cleanRow : ∀ beam ∈ List.range s.numBeams,
      ∀ e ∈ (rowEntries scores s.vocabSize (element * s.numBeams + beam)).map
        (Entry.shift (beam * s.vocabSize)), e.clean = true := by
    intro beam _ e he
    obtain ⟨e', he', rfl⟩ := List.mem_map.1 he
    exact clean_rowEntries clean s.vocabSize _ e' he'
  rw [elementBest, pad_topK, List.flatMap_congr beams, best_flatMap _ _ _ cleanRow,
    elementEntries_eq]

theorem within_elementBest {e : Entry}
    (he : e ∈ elementBest s (afterRows scores s (s.batchSize * s.numBeams) partSize w)
      (s.batchSize * s.numBeams * s.parts * s.k) element) :
    e.Within (s.numBeams * s.vocabSize) := by
  rw [elementBest, pad_topK] at he
  obtain he | rfl := mem_best he
  · obtain ⟨beam, hb, he⟩ := List.mem_flatMap.1 he
    have inside := row_mul_add_lt h (List.mem_range.1 hb)
    rw [readScratch_afterRows sized small room _ inside] at he
    obtain ⟨e', he', rfl⟩ := List.mem_map.1 he
    exact (within_rowBest sized small (by omega) inside he').shift (List.mem_range.1 hb)
  · exact Entry.within_filler _

end Elements

end Stages

/-! ## Candidates -/

namespace Entry

def column (vocabSize : Nat) (e : Entry) : Token :=
  match e.place with
  | some p => (p % vocabSize : Nat)
  | none => -1

def line (vocabSize : Nat) (e : Entry) : Token :=
  match e.place with
  | some p => (p / vocabSize : Nat)
  | none => 0

end Entry

def Candidates.ofEntries (vocabSize : Nat) (entries : List Entry) : Candidates where
  scores := (entries.map (·.score)).toArray
  tokens := (entries.map (Entry.column vocabSize)).toArray
  beams := (entries.map (Entry.line vocabSize)).toArray

def Candidates.ofWritten (vocabSize : Nat) (entries : List Entry) : Candidates where
  scores := (entries.map Entry.outScore).toArray
  tokens := (entries.map (Entry.outToken vocabSize)).toArray
  beams := (entries.map (Entry.outBeam vocabSize)).toArray

/-- The best `2 * numBeams` continuations of every batch element, each from one sort of them
all and lengthened by fillers. -/
def sortedEntries (scores : Scores) (batchSize numBeams vocabSize : Nat) : List Entry :=
  (List.range batchSize).flatMap fun element =>
    best (2 * numBeams) (elementEntries scores numBeams vocabSize element)

namespace Workspace

def candidates (w : Workspace) : Candidates := ⟨w.scores, w.tokens, w.beams⟩

end Workspace

theorem mapIdx_tabulate {α : Type} [Inhabited α] {buffer : Array α} {count k : Nat}
    {list : Nat → List Entry} (lengths : ∀ i, (list i).length = k) (g : Entry → α)
    (full : buffer.size = count * k) :
    (buffer.mapIdx fun i old =>
      if i < (tabulate count list).size * k then g (entryAt (tabulate count list) k i) else old) =
      (((List.range count).flatMap list).map g).toArray := by
  have total : ((List.range count).flatMap list).length = count * k :=
    length_flatMap_range fun i _ => lengths i
  simp only [size_tabulate]
  refine Array.ext (by simp [full, total]) fun i hi hi' => ?_
  have inside : i < count * k := by simpa [full] using hi
  have entry := entryAt_tabulate lengths inside
  rw [← getElem?_flatMap_range (fun r _ => lengths r) inside,
    List.getElem?_eq_getElem (total ▸ inside), Option.some.injEq] at entry
  rw [Array.getElem_mapIdx, if_pos inside, entry]
  simp

theorem place_of_mem_sortedEntries {scores : Scores} {batchSize numBeams vocabSize : Nat}
    {e : Entry} (h : e ∈ sortedEntries scores batchSize numBeams vocabSize) :
    e = .filler ∨ ∃ p < numBeams * vocabSize, e.place = some p := by
  obtain ⟨element, -, h⟩ := List.mem_flatMap.1 h
  obtain h | rfl := mem_best h
  · obtain ⟨p, range, rfl⟩ := List.mem_map.1 h
    exact .inr ⟨p, List.mem_range.1 range, rfl⟩
  · exact .inl rfl

theorem ofWritten_eq {vocabSize numBeams : Nat} {entries : List Entry}
    (beams : numBeams ≤ 2 ^ 31) (small : vocabSize ≤ 2 ^ 31)
    (places : ∀ e ∈ entries, e = .filler ∨ ∃ p < numBeams * vocabSize, e.place = some p) :
    Candidates.ofWritten vocabSize entries = .ofEntries vocabSize entries := by
  have each : ∀ e ∈ entries, e.outScore = e.score ∧ e.outToken vocabSize = e.column vocabSize ∧
      e.outBeam vocabSize = e.line vocabSize := by
    intro e he
    obtain rfl | ⟨p, hp, place⟩ := places e he
    · exact ⟨rfl, rfl, rfl⟩
    · have column := mod_lt_width hp
      have line := div_lt_rows hp
      rw [Entry.outScore, Entry.outToken, Entry.outBeam, Entry.column, Entry.line, place,
        Option.map_some, Option.getD_some, Option.map_some, Option.getD_some,
        Token.ofIndex_of_lt (by omega), Token.ofIndex_of_lt (by omega)]
      exact ⟨rfl, rfl, rfl⟩
  rw [Candidates.ofWritten, Candidates.ofEntries, List.map_congr_left fun e he => (each e he).1,
    List.map_congr_left fun e he => (each e he).2.1,
    List.map_congr_left fun e he => (each e he).2.2]

section TwoStage

variable {scores : Scores} {s : Shape} {partSize scratch output : Nat} {w : Workspace}
  (sized : w.Sized scratch output) (full : output = s.batchSize * s.k)

include sized full

theorem written_twoStage : (twoStage scores s (s.batchSize * s.numBeams) partSize w).candidates =
    .ofWritten s.vocabSize ((List.range s.batchSize).flatMap
      (elementBest s (afterRows scores s (s.batchSize * s.numBeams) partSize w)
        (s.batchSize * s.numBeams * s.parts * s.k))) := by
  have lengths := length_elementBest s
    (afterRows scores s (s.batchSize * s.numBeams) partSize w)
    (s.batchSize * s.numBeams * s.parts * s.k)
  rw [Candidates.ofWritten,
    ← mapIdx_tabulate lengths Entry.outScore (sized.scores.trans full),
    ← mapIdx_tabulate lengths (Entry.outToken s.vocabSize) (sized.tokens.trans full),
    ← mapIdx_tabulate lengths (Entry.outBeam s.vocabSize) (sized.beams.trans full)]
  rfl

theorem candidates_twoStage (clean : NoNegativeNaN scores)
    (small : s.vocabSize ≤ 2 ^ 31) (cover : s.vocabSize ≤ s.parts * partSize)
    (room : s.batchSize * s.numBeams * s.parts * s.k + s.batchSize * s.numBeams * s.k ≤ scratch)
    (double : s.k = 2 * s.numBeams) (beams : s.numBeams ≤ 2 ^ 31) :
    (twoStage scores s (s.batchSize * s.numBeams) partSize w).candidates =
      .ofEntries s.vocabSize (sortedEntries scores s.batchSize s.numBeams s.vocabSize) := by
  have elements : ∀ element ∈ List.range s.batchSize,
      elementBest s (afterRows scores s (s.batchSize * s.numBeams) partSize w)
        (s.batchSize * s.numBeams * s.parts * s.k) element =
      best s.k (elementEntries scores s.numBeams s.vocabSize element) := fun element he =>
    elementBest_eq sized small room (List.mem_range.1 he) clean cover
  rw [← ofWritten_eq beams small fun e => place_of_mem_sortedEntries, sortedEntries, ← double,
    ← List.flatMap_congr elements, written_twoStage sized full]

end TwoStage

end Selection

end TokenSearch
