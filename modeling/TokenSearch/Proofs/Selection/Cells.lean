import TokenSearch.Proofs.Rows
import TokenSearch.Proofs.Selection.Best
import TokenSearch.Selection.TwoStage

/-!
Scratch cells and output positions of a selection. Entries whose tokens fit a 32-bit word come
back from the cells as they went in, whatever the cells held before; this is the only link
between the stages, so stale cells cannot reach a later stage.
-/

namespace TokenSearch.Selection

/-! ## Lists by number -/

theorem entryAt_tabulate {count k i : Nat} {list : Nat → List Entry}
    (lengths : ∀ j, (list j).length = k) (h : i < count * k) :
    some (entryAt (tabulate count list) k i) = (list (i / k))[i % k]? := by
  have place := mod_lt_width h
  rw [entryAt, tabulate, getElem!_pos _ (i / k) (by simpa using div_lt_rows h)]
  simp only [Array.getElem_map, Array.getElem_range]
  rw [List.getElem!_toArray, List.getElem?_eq_getElem (by rwa [lengths]),
    getElem!_pos _ _ (by rwa [lengths])]

@[simp] theorem size_tabulate (count : Nat) (list : Nat → List Entry) :
    (tabulate count list).size = count := by
  simp [tabulate]

/-! ## Cells -/

namespace Entry

def Storable (e : Entry) : Prop := ∀ p ∈ e.place, p < 2 ^ 31

def Within (n : Nat) (e : Entry) : Prop := ∀ p ∈ e.place, p < n

theorem within_filler (n : Nat) : filler.Within n := by
  intro p hp
  cases hp

theorem Within.storable {n : Nat} {e : Entry} (h : e.Within n) (small : n ≤ 2 ^ 31) :
    e.Storable :=
  fun p hp => Nat.lt_of_lt_of_le (h p hp) small

theorem Within.shift {rows width row : Nat} {e : Entry} (h : e.Within width) (hr : row < rows) :
    (e.shift (row * width)).Within (rows * width) := by
  intro p hp
  obtain ⟨q, hq, rfl⟩ := Option.map_eq_some_iff.1 hp
  exact row_mul_add_lt hr (h q hq)

-- Opened by rewriting: a check by computation would unfold the word's modulus.
@[simp] theorem cellToken_some (score : Binary32) (p : Nat) :
    cellToken ⟨score, some p⟩ = Token.ofIndex p := by
  rw [cellToken, Option.map_some, Option.getD_some]

theorem ofCell_of_nonneg (offset : Nat) (score : Binary32) {t : Token} (h : 0 ≤ t) :
    ofCell offset score t = ⟨score, some (offset + Token.toIndex t)⟩ := by
  rw [ofCell, if_neg (Int.not_lt.2 h)]

theorem ofCell_cellToken (offset : Nat) {e : Entry} (h : e.Storable) :
    ofCell offset e.score e.cellToken = e.shift offset := by
  obtain ⟨score, place⟩ := e
  cases place with
  | none => rfl
  | some p =>
    have small : p < 2 ^ 31 := h p rfl
    have nonneg : 0 ≤ Token.ofIndex p := by
      rw [Token.ofIndex_of_lt small]
      exact Int.natCast_nonneg p
    rw [cellToken_some, ofCell_of_nonneg offset score nonneg, Token.toIndex_ofIndex small,
      shift, Option.map_some]

@[simp] theorem shift_zero (e : Entry) : e.shift 0 = e := by
  obtain ⟨score, place⟩ := e
  cases place <;> simp [shift]

end Entry

namespace Workspace

structure Sized (w : Workspace) (scratch output : Nat) : Prop where
  scratchScores : w.scratchScores.size = scratch
  scratchTokens : w.scratchTokens.size = scratch
  scores : w.scores.size = output
  tokens : w.tokens.size = output
  beams : w.beams.size = output

theorem Sized.writeScratch {w : Workspace} {scratch output : Nat} (h : w.Sized scratch output)
    (k first : Nat) (lists : Array (Array Entry)) :
    (w.writeScratch k first lists).Sized scratch output where
  scratchScores := Array.size_mapIdx.trans h.scratchScores
  scratchTokens := Array.size_mapIdx.trans h.scratchTokens
  scores := h.scores
  tokens := h.tokens
  beams := h.beams

theorem Sized.writeOutput {w : Workspace} {scratch output : Nat} (h : w.Sized scratch output)
    (k vocabSize : Nat) (lists : Array (Array Entry)) :
    (w.writeOutput k vocabSize lists).Sized scratch output where
  scratchScores := h.scratchScores
  scratchTokens := h.scratchTokens
  scores := Array.size_mapIdx.trans h.scores
  tokens := Array.size_mapIdx.trans h.tokens
  beams := Array.size_mapIdx.trans h.beams

variable {w : Workspace} {scratch output k first count : Nat} {list : Nat → List Entry}

theorem ofCell_writeScratch (sized : w.Sized scratch output)
    (lengths : ∀ j, (list j).length = k) (storable : ∀ j < count, ∀ e ∈ list j, e.Storable)
    (room : first + count * k ≤ scratch) (offset : Nat) {i : Nat} (h : i < count * k) :
    let w' := w.writeScratch k first (tabulate count list)
    some (Entry.ofCell offset w'.scratchScores[first + i]! w'.scratchTokens[first + i]!) =
      ((list (i / k))[i % k]?).map (Entry.shift offset) := by
  intro w'
  have stored := entryAt_tabulate lengths h
  have member : entryAt (tabulate count list) k i ∈ list (i / k) :=
    List.mem_of_getElem? stored.symm
  have written : first ≤ first + i && first + i < first + (tabulate count list).size * k := by
    simpa using h
  have score : w'.scratchScores[first + i]! = (entryAt (tabulate count list) k i).score := by
    show (w.scratchScores.mapIdx _)[first + i]! = _
    rw [getElem!_mapIdx _ (by rw [sized.scratchScores]; omega), if_pos written,
      Nat.add_sub_cancel_left]
  have token : w'.scratchTokens[first + i]! = (entryAt (tabulate count list) k i).cellToken := by
    show (w.scratchTokens.mapIdx _)[first + i]! = _
    rw [getElem!_mapIdx _ (by rw [sized.scratchTokens]; omega), if_pos written,
      Nat.add_sub_cancel_left]
  rw [score, token, Entry.ofCell_cellToken offset (storable _ (div_lt_rows h) _ member), ← stored]
  rfl

theorem readScratch_writeScratch (first : Nat) (sized : w.Sized scratch output)
    (lengths : ∀ j, (list j).length = k) (storable : ∀ j < count, ∀ e ∈ list j, e.Storable)
    (room : first + count * k ≤ scratch) (offset : Nat) {j n : Nat} (h : j + n ≤ count) :
    (w.writeScratch k first (tabulate count list)).readScratch offset (first + j * k) (n * k) =
      (List.range n).flatMap fun p => (list (j + p)).map (Entry.shift offset) := by
  have mapped : ∀ p < n, ((list (j + p)).map (Entry.shift offset)).length = k := by
    simp [lengths]
  refine List.ext_getElem? fun i => ?_
  by_cases inside : i < n * k
  · have column := mod_lt_width inside
    have cell : j * k + i < count * k :=
      calc j * k + i < j * k + n * k := Nat.add_lt_add_left inside _
        _ = (j + n) * k := (Nat.add_mul j n k).symm
        _ ≤ count * k := Nat.mul_le_mul_right k h
    have read := ofCell_writeScratch sized lengths storable room offset cell
    rw [getElem?_flatMap_range mapped inside, List.getElem?_map]
    rw [Nat.mul_comm j k, Nat.mul_add_div (Nat.zero_lt_of_lt column), Nat.mul_add_mod] at read
    rw [← read, readScratch, List.getElem?_map, List.getElem?_range' inside, Nat.add_assoc,
      Nat.mul_comm k j, Nat.one_mul]
    rfl
  · rw [List.getElem?_eq_none, List.getElem?_eq_none]
    · rw [length_flatMap_range mapped]
      omega
    · simp only [readScratch, List.length_map, List.length_range']
      omega

end Workspace

end TokenSearch.Selection
