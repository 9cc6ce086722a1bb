import Mathlib.Data.List.Basic
import TokenSearch.ScoreMatrix

/-!
Flat buffers seen as rows: position `i` lies in row `i / width` and column `i % width`. A list of
lists of one length, put together, is read the same way, and an operation that gives every entry
its new value by position acts on each row by itself.
-/

namespace TokenSearch

variable {α β : Type}

/-! ## Positions -/

theorem row_mul_add_div {width column : Nat} (row : Nat) (h : column < width) :
    (row * width + column) / width = row := by
  rw [Nat.mul_comm, Nat.mul_add_div (Nat.zero_lt_of_lt h), Nat.div_eq_of_lt h, Nat.add_zero]

theorem row_mul_add_mod {width column : Nat} (row : Nat) (h : column < width) :
    (row * width + column) % width = column := by
  rw [Nat.mul_comm, Nat.mul_add_mod, Nat.mod_eq_of_lt h]

theorem row_mul_add_lt {rows width row column : Nat} (hr : row < rows) (hc : column < width) :
    row * width + column < rows * width :=
  calc row * width + column < row * width + width := Nat.add_lt_add_left hc _
    _ = (row + 1) * width := (Nat.succ_mul row width).symm
    _ ≤ rows * width := Nat.mul_le_mul_right width hr

theorem div_lt_rows {rows width i : Nat} (h : i < rows * width) : i / width < rows :=
  Nat.div_lt_of_lt_mul (by rwa [Nat.mul_comm])

theorem mod_lt_width {rows width i : Nat} (h : i < rows * width) : i % width < width :=
  Nat.mod_lt i (Nat.pos_of_ne_zero fun zero => by simp [zero] at h)

/-! ## Lists put together -/

theorem length_flatMap_range {f : Nat → List α} {rows width : Nat}
    (h : ∀ r < rows, (f r).length = width) :
    ((List.range rows).flatMap f).length = rows * width := by
  induction rows with
  | zero => simp
  | succ rows ih =>
    rw [List.range_succ, List.flatMap_append, List.length_append,
      ih fun r hr => h r (Nat.lt_succ_of_lt hr), Nat.succ_mul]
    simp [h rows (Nat.lt_succ_self rows)]

theorem getElem?_flatMap_range {f : Nat → List α} {rows width i : Nat}
    (h : ∀ r < rows, (f r).length = width) (hi : i < rows * width) :
    ((List.range rows).flatMap f)[i]? = (f (i / width))[i % width]? := by
  induction rows with
  | zero => simp at hi
  | succ rows ih =>
    have before : ((List.range rows).flatMap f).length = rows * width :=
      length_flatMap_range fun r hr => h r (Nat.lt_succ_of_lt hr)
    rw [List.range_succ, List.flatMap_append]
    by_cases earlier : i < rows * width
    · rw [List.getElem?_append_left (before ▸ earlier),
        ih (fun r hr => h r (Nat.lt_succ_of_lt hr)) earlier]
    · obtain ⟨column, rfl⟩ := Nat.exists_eq_add_of_le (Nat.le_of_not_lt earlier)
      have inside : column < width := by
        rw [Nat.succ_mul] at hi
        omega
      rw [List.getElem?_append_right (by omega), before, Nat.add_sub_cancel_left,
        row_mul_add_div rows inside, row_mul_add_mod rows inside]
      simp

theorem flatMap_range_map_range (rows width : Nat) (f : Nat → α) :
    ((List.range rows).flatMap fun r => (List.range width).map fun c => f (r * width + c)) =
      (List.range (rows * width)).map f := by
  have lengths : ∀ r < rows,
      ((List.range width).map fun c => f (r * width + c)).length = width := by simp
  refine List.ext_getElem? fun i => ?_
  by_cases inside : i < rows * width
  · rw [getElem?_flatMap_range lengths inside]
    simp [inside, mod_lt_width inside, Nat.div_add_mod']
  · rw [List.getElem?_eq_none, List.getElem?_eq_none]
    · simpa using inside
    · rw [length_flatMap_range lengths]
      omega

/-! ## Buffers -/

theorem getElem!_mapIdx [Inhabited α] [Inhabited β] (f : Nat → α → β) {xs : Array α} {i : Nat}
    (h : i < xs.size) : (xs.mapIdx f)[i]! = f i xs[i]! := by
  rw [getElem!_pos (xs.mapIdx f) i (by simpa using h), getElem!_pos xs i h, Array.getElem_mapIdx]

theorem getElem!_map [Inhabited α] [Inhabited β] (f : α → β) {xs : Array α} {i : Nat}
    (h : i < xs.size) : (xs.map f)[i]! = f xs[i]! := by
  rw [getElem!_pos (xs.map f) i (by simpa using h), getElem!_pos xs i h, Array.getElem_map]

theorem getElem!_set! [Inhabited α] {xs : Array α} {i : Nat} (x : α) (j : Nat)
    (h : i < xs.size) : (xs.set! i x)[j]! = if j = i then x else xs[j]! := by
  simp only [Array.set!_eq_setIfInBounds, Array.getElem!_eq_getD, Array.getD_eq_getD_getElem?,
    Array.getElem?_setIfInBounds, eq_comm (a := j)]
  split <;> simp_all

namespace ScoreMatrix

theorem size_row {xs : Array α} {rows width r : Nat} (hr : r < rows)
    (h : rows * width ≤ xs.size) : (row xs width r).size = width := by
  have stop : r * width + width ≤ rows * width := by
    rw [← Nat.succ_mul]
    exact Nat.mul_le_mul_right width hr
  rw [row, Array.size_extract]
  omega

theorem getElem!_row [Inhabited α] {xs : Array α} {rows width r c : Nat} (hr : r < rows)
    (hc : c < width) (h : rows * width ≤ xs.size) :
    (row xs width r)[c]! = xs[r * width + c]! := by
  have inside := row_mul_add_lt hr hc
  rw [getElem!_pos (row xs width r) c (by rwa [size_row hr h]),
    getElem!_pos xs (r * width + c) (by omega)]
  exact Array.getElem_extract _

theorem row_mapIdx {xs : Array α} (f : Nat → α → β) {rows width r : Nat} (hr : r < rows)
    (h : rows * width ≤ xs.size) :
    row (xs.mapIdx f) width r = (row xs width r).mapIdx fun c => f (r * width + c) := by
  have size := size_row hr h
  have size' : (row (xs.mapIdx f) width r).size = width := size_row hr (by simpa using h)
  refine Array.ext (by rw [size', Array.size_mapIdx, size]) fun c hc hc' => ?_
  rw [Array.getElem_mapIdx]
  simp only [row, Array.getElem_extract, Array.getElem_mapIdx]

theorem row_flatMap_range {f : Nat → List α} {rows width r : Nat}
    (h : ∀ r < rows, (f r).length = width) (hr : r < rows) :
    row ((List.range rows).flatMap f).toArray width r = (f r).toArray := by
  have size : ((List.range rows).flatMap f).toArray.size = rows * width :=
    length_flatMap_range h
  have width' := size_row hr (Nat.le_of_eq size.symm)
  refine Array.ext (by simp [width', h r hr]) fun c hc hc' => ?_
  have column : c < width := width' ▸ hc
  have inside : c < (f r).length := by rwa [h r hr]
  have value := getElem?_flatMap_range h (row_mul_add_lt hr column)
  rw [row_mul_add_div r column, row_mul_add_mod r column, List.getElem?_eq_getElem inside] at value
  simp only [row, Array.getElem_extract, List.getElem_toArray]
  exact Option.some.inj ((List.getElem?_eq_getElem _).symm.trans value)

theorem row_flatMap [Inhabited α] {xs : Array α} {f : α → Array β} {width r : Nat}
    (h : ∀ i < xs.size, (f xs[i]!).size = width) (hr : r < xs.size) :
    (xs.flatMap f).size = xs.size * width ∧ row (xs.flatMap f) width r = f xs[r]! := by
  have entries : xs.toList = (List.range xs.size).map (xs[·]!) := by
    refine List.ext_getElem (by simp) fun i hi hi' => ?_
    have inside : i < xs.size := by simpa using hi
    simp [inside]
  have flat : xs.flatMap f = ((List.range xs.size).flatMap fun i => (f xs[i]!).toList).toArray := by
    refine Array.ext' ?_
    rw [Array.toList_flatMap, entries, List.flatMap_map]
  refine ⟨?_, ?_⟩
  · rw [flat]
    exact length_flatMap_range h
  · rw [flat, row_flatMap_range h hr, Array.toArray_toList]

theorem getElem!_flatMap [Inhabited α] [Inhabited β] {xs : Array α} {f : α → Array β}
    {width r c : Nat} (h : ∀ i < xs.size, (f xs[i]!).size = width) (hr : r < xs.size)
    (hc : c < width) : (xs.flatMap f)[r * width + c]! = (f xs[r]!)[c]! := by
  obtain ⟨size, row⟩ := row_flatMap h hr
  rw [← row, getElem!_row hr hc (Nat.le_of_eq size.symm)]

end ScoreMatrix

end TokenSearch
