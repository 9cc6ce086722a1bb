import TokenSearch.Proofs.AnySession
import TokenSearch.Proofs.Rows
import TokenSearch.SequenceStore

/-!
What a store of sequences holds: one list of tokens per slot. Appending a column makes every
list one token longer, and gathering takes each slot's list from its source slot as it was
before the step, since no row of the buffer that is read is written.
-/

namespace TokenSearch

open TokenSearch.Run TokenSearch.Action

/-- Prompt number `b` of prompts that are `length` tokens long. -/
def prompt (input : Tokens) (length b : Nat) : List Token :=
  (ScoreMatrix.row input length b).toList

namespace SequenceStore

def slot (s : SequenceStore) (i : Nat) : List Token :=
  (s.tokens.extract (i * s.maxLength) (i * s.maxLength + s.length)).toList

theorem toList_eq (s : SequenceStore) : s.toList = (List.range s.slots).map s.slot := rfl

structure Sized (s : SequenceStore) (rows width : Nat) : Prop where
  slots : s.slots = rows
  maxLength : s.maxLength = width
  tokens : s.tokens.size = rows * width
  spare : ∀ buffer, s.spare = some buffer → buffer.size = rows * width
  length : s.length ≤ width

theorem toList_extract_eq {tokens : Tokens} {rows width length i : Nat}
    (size : tokens.size = rows * width) (short : length ≤ width) (h : i < rows) :
    (tokens.extract (i * width) (i * width + length)).toList =
      (List.range length).map fun column => tokens[i * width + column]! := by
  have stop : i * width + width ≤ rows * width := by
    rw [← Nat.succ_mul]
    exact Nat.mul_le_mul_right width h
  refine List.ext_getElem (by simp; omega) fun column hc hc' => ?_
  have inside : column < length := by simpa using hc'
  rw [Array.getElem_toList, Array.getElem_extract, List.getElem_map, List.getElem_range,
    getElem!_pos tokens _ (by omega)]

section

variable {s : SequenceStore} {rows width i : Nat}

theorem Sized.slot_eq (sized : s.Sized rows width) (h : i < rows) :
    s.slot i = (List.range s.length).map fun column => s.tokens[i * width + column]! := by
  rw [slot, sized.maxLength]
  exact toList_extract_eq sized.tokens sized.length h

theorem Sized.length_slot (sized : s.Sized rows width) (h : i < rows) :
    (s.slot i).length = s.length := by
  rw [sized.slot_eq h, List.length_map, List.length_range]

end

/-! ## A new store -/

section New

variable {input : Tokens} {batchSize numBeams maxLength : Nat}

/-- Prompts that a store takes: rows of one length, not empty and not too long. -/
structure Accepts (input : Tokens) (batchSize maxLength : Nat) : Prop where
  rows : input.size % batchSize = 0
  some : 0 < input.size / batchSize
  short : input.size / batchSize ≤ maxLength

theorem Accepts.size_eq (accepted : Accepts input batchSize maxLength) :
    input.size = batchSize * (input.size / batchSize) := by
  have split := Nat.div_add_mod input.size batchSize
  rw [accepted.rows] at split
  exact split.symm

def freshSpare (numBeams n : Nat) : Option Tokens :=
  if 1 < numBeams then some (.replicate n 0) else none

def fresh (input : Tokens) (batchSize numBeams maxLength : Nat) : SequenceStore where
  tokens := (Array.replicate (batchSize * numBeams * maxLength) 0).mapIdx fun i zero =>
    if i % maxLength < input.size / batchSize
    then input[i / maxLength / numBeams * (input.size / batchSize) + i % maxLength]! else zero
  spare := freshSpare numBeams (batchSize * numBeams * maxLength)
  slots := batchSize * numBeams
  maxLength := maxLength
  length := input.size / batchSize

theorem size_freshSpare {n : Nat} {buffer : Tokens} (h : freshSpare numBeams n = some buffer) :
    buffer.size = n := by
  unfold freshSpare at h
  split at h <;> cases h
  exact Array.size_replicate

theorem isSome_freshSpare (n : Nat) (many : 1 < numBeams) :
    (freshSpare numBeams n).isSome = true := by
  rw [freshSpare, if_pos many]
  rfl

theorem sized_fresh (short : input.size / batchSize ≤ maxLength) :
    (fresh input batchSize numBeams maxLength).Sized (batchSize * numBeams) maxLength :=
  ⟨rfl, rfl, by simp [fresh], fun _ h => size_freshSpare h, short⟩

theorem getElem!_fresh {i column : Nat} (hi : i < batchSize * numBeams)
    (inside : column < maxLength) :
    (fresh input batchSize numBeams maxLength).tokens[i * maxLength + column]! =
      if column < input.size / batchSize
      then input[i / numBeams * (input.size / batchSize) + column]! else 0 := by
  have position := row_mul_add_lt hi inside
  have zero : (Array.replicate (batchSize * numBeams * maxLength) (0 : Token))[i * maxLength +
      column]! = 0 := by
    rw [getElem!_pos _ _ (by simpa using position), Array.getElem_replicate]
  dsimp only [fresh]
  rw [getElem!_mapIdx _ (by simpa using position), row_mul_add_div i inside,
    row_mul_add_mod i inside, zero]

theorem slot_fresh (accepted : Accepts input batchSize maxLength) {i : Nat}
    (hi : i < batchSize * numBeams) : (fresh input batchSize numBeams maxLength).slot i =
      prompt input (input.size / batchSize) (i / numBeams) := by
  have row : i / numBeams < batchSize := div_lt_rows hi
  rw [(sized_fresh accepted.short).slot_eq hi, prompt, ScoreMatrix.row,
    toList_extract_eq accepted.size_eq (Nat.le_refl _) row]
  refine List.map_congr_left fun column hc => ?_
  have short : column < input.size / batchSize := List.mem_range.1 hc
  rw [getElem!_fresh hi (Nat.lt_of_lt_of_le short accepted.short), if_pos short]

theorem gives_spare {n : Nat} (room : n * 4 < 2 ^ 63) {rest : Option Tokens → Run SequenceStore}
    {s : SequenceStore} (h : (rest (freshSpare numBeams n)).Gives s) :
    (if 1 < numBeams then some <$> Buffer.allocTokens n >>= rest else pure none >>= rest).Gives
      s := by
  unfold freshSpare at h
  split at h
  case isTrue many =>
    rw [if_pos many]
    exact ((gives_allocTokens room).map some).bind h
  case isFalse few =>
    rw [if_neg few]
    exact (gives_pure _).bind h

theorem gives_fresh (batch : 1 ≤ batchSize) (accepted : Accepts input batchSize maxLength)
    (room : batchSize * numBeams * maxLength * 4 < 2 ^ 63) :
    (new input batchSize numBeams maxLength).Gives (fresh input batchSize numBeams maxLength) := by
  have pos : 0 < maxLength := Nat.lt_of_lt_of_le accepted.some accepted.short
  have slots : batchSize * numBeams ≤ batchSize * numBeams * maxLength :=
    Nat.le_mul_of_pos_right _ pos
  have blank : Buffer.tokens (batchSize * numBeams * maxLength) = .ok _ :=
    Buffer.filled_of_lt 0 room
  exact (gives_require _ (by simp; omega)).bind <|
    (gives_require _ (by simp [accepted.rows])).bind <|
    (gives_require _ (by simp [Nat.pos_iff_ne_zero.1 accepted.some])).bind <|
    (gives_require _ (by simp [accepted.short])).bind <|
    (gives_ofOutcome (Outcome.size_of_lt (by omega))).bind <|
    (gives_ofOutcome (Outcome.size_of_lt (by omega))).bind <|
    (gives_ofOutcome blank).bind <| (gives_call _).bind <| gives_spare room (gives_pure _)

theorem gives_new (batch : 1 ≤ batchSize)
    (accepted : Accepts input batchSize maxLength)
    (room : batchSize * numBeams * maxLength * 4 < 2 ^ 63) :
    ∃ s, (new input batchSize numBeams maxLength).Gives s ∧
      s.Sized (batchSize * numBeams) maxLength ∧ s.length = input.size / batchSize ∧
      (1 < numBeams → s.spare.isSome = true) ∧
      ∀ i < batchSize * numBeams,
        s.slot i = prompt input (input.size / batchSize) (i / numBeams) :=
  ⟨_, gives_fresh batch accepted room, sized_fresh accepted.short, rfl, isSome_freshSpare _,
    fun _ hi => slot_fresh accepted hi⟩

end New

/-! ## Steps -/

section Buffers

variable {old tokens sources src dst : Tokens} {rows width length : Nat}

theorem appendColumn_eq (size : old.size = rows * width) (room : length < width)
    (small : rows * width < 2 ^ 64) (one : rows ≤ tokens.size) :
    ∃ m, appendColumn old tokens rows width length = .ok m ∧ m.size = rows * width ∧
      (∀ i < rows, ∀ c < width, c ≠ length → m[i * width + c]! = old[i * width + c]!) ∧
      ∀ i < rows, m[i * width + length]! = tokens[i]! := by
  refine ⟨_, Outcome.bind_eq_ok (Outcome.require_eq_ok _ (by simpa using room)) <|
    Outcome.bind_eq_ok (Outcome.size_of_lt small) <|
    Outcome.bind_eq_ok (Outcome.require_eq_ok _ (by simp [size])) rfl,
    Array.size_mapIdx.trans size, fun i hi c inside other => ?_, fun i hi => ?_⟩
  · have position := row_mul_add_lt hi inside
    rw [getElem!_mapIdx _ (size ▸ position), row_mul_add_mod i inside, if_neg (by simp [other])]
  · have position := row_mul_add_lt hi room
    rw [getElem!_mapIdx _ (size ▸ position), row_mul_add_mod i room, row_mul_add_div i room,
      if_pos (by simp [position])]
    simp [Nat.lt_of_lt_of_le hi one]

theorem gatherAppend_eq (size : src.size = rows * width) (size' : dst.size = rows * width)
    (room : length < width) (small : rows * width < 2 ^ 64) (one : rows ≤ tokens.size)
    (one' : sources.size = rows) (inside : ∀ i < rows, Token.toIndex sources[i]! < rows) :
    ∃ m, gatherAppend src dst sources tokens rows width length = .ok m ∧ m.size = rows * width ∧
      (∀ i < rows, ∀ c < length,
        m[i * width + c]! = src[Token.toIndex sources[i]! * width + c]!) ∧
      (∀ i < rows, ∀ c < width, length < c → m[i * width + c]! = dst[i * width + c]!) ∧
      ∀ i < rows, m[i * width + length]! = tokens[i]! := by
  have gathered : (List.range rows).all (gathers src sources tokens width length) = true := by
    refine List.all_eq_true.2 fun r hr => ?_
    have hr : r < rows := List.mem_range.1 hr
    have source := row_mul_add_lt (inside r hr) room
    rw [gathers, Array.getElem?_eq_getElem (one' ▸ hr),
      Array.getElem?_eq_getElem (Nat.lt_of_lt_of_le hr one)]
    rw [getElem!_pos sources r (one' ▸ hr)] at source
    simpa [size] using Nat.le_of_lt source
  refine ⟨_, Outcome.bind_eq_ok (Outcome.require_eq_ok _ (by simpa using room)) <|
    Outcome.bind_eq_ok (Outcome.size_of_lt small) <|
    Outcome.bind_eq_ok (Outcome.require_eq_ok _ (by simp [size'])) <|
    Outcome.bind_eq_ok (Outcome.require_eq_ok _ gathered) rfl,
    Array.size_mapIdx.trans size', fun i hi c hc => ?_, fun i hi c column later => ?_,
    fun i hi => ?_⟩
  · have column : c < width := Nat.lt_trans hc room
    have position := row_mul_add_lt hi column
    rw [getElem!_mapIdx _ (size' ▸ position), row_mul_add_mod i column, row_mul_add_div i column,
      if_pos position, if_pos hc]
  · have position := row_mul_add_lt hi column
    rw [getElem!_mapIdx _ (size' ▸ position), row_mul_add_mod i column, if_pos position,
      if_neg (Nat.lt_asymm later), if_neg (Nat.ne_of_gt later)]
  · have position := row_mul_add_lt hi room
    rw [getElem!_mapIdx _ (size' ▸ position), row_mul_add_mod i room, row_mul_add_div i room,
      if_pos position, if_neg (Nat.lt_irrefl length), if_pos rfl]

end Buffers

section Steps

variable {s : SequenceStore} {slots maxLength : Nat} {tokens sources : Tokens}

theorem slot_eq_append {s' : SequenceStore} {i j : Nat} {t : Token}
    (sized : s.Sized slots maxLength) (sized' : s'.Sized slots maxLength)
    (longer : s'.length = s.length + 1) (hi : i < slots) (hj : j < slots)
    (kept : ∀ column < s.length,
      s'.tokens[i * maxLength + column]! = s.tokens[j * maxLength + column]!)
    (last : s'.tokens[i * maxLength + s.length]! = t) : s'.slot i = s.slot j ++ [t] := by
  rw [sized'.slot_eq hi, sized.slot_eq hj, longer, List.range_succ, List.map_append,
    List.map_singleton, last]
  exact congrArg (· ++ [t]) (List.map_congr_left fun column h => kept column (List.mem_range.1 h))

theorem requireRoom_eq (sized : s.Sized slots maxLength) (room : s.length < maxLength) :
    s.requireRoom = .ok () :=
  Outcome.require_eq_ok _ (by simpa [sized.maxLength] using room)

/-- No buffer has a token in a column from the length on. -/
structure Blank (s : SequenceStore) (rows width : Nat) : Prop where
  tokens : ∀ i < rows, ∀ c < width, s.length ≤ c → s.tokens[i * width + c]! = 0
  spare : ∀ buffer, s.spare = some buffer →
    ∀ i < rows, ∀ c < width, s.length ≤ c → buffer[i * width + c]! = 0

theorem attempts_append (sized : s.Sized slots maxLength) (room : s.length < maxLength)
    (small : slots * maxLength < 2 ^ 64) (one : slots ≤ tokens.size) :
    ∃ s', (append tokens).Attempts .appendColumn s s' ∧ s'.Sized slots maxLength ∧
      s'.length = s.length + 1 ∧ (∀ i < slots, s'.slot i = s.slot i ++ [tokens[i]!]) ∧
      s'.spare = s.spare ∧ (s.Blank slots maxLength → s'.Blank slots maxLength) := by
  obtain ⟨rows, written, size, kept, last⟩ := appendColumn_eq sized.tokens room small one
  have sized' : Sized { s with tokens := rows, length := s.length + 1 } slots maxLength :=
    ⟨sized.slots, sized.maxLength, size, sized.spare, room⟩
  have before : ∀ i < slots, ∀ column < s.length,
      rows[i * maxLength + column]! = s.tokens[i * maxLength + column]! := fun i hi column h =>
    kept i hi column (Nat.lt_trans h room) (Nat.ne_of_lt h)
  rw [← sized.slots, ← sized.maxLength] at written
  refine ⟨_, ?_, sized', rfl, fun i hi => slot_eq_append sized sized' rfl hi hi (before i hi)
    (last i hi), rfl, fun blank => ⟨fun i hi c hc later => ?_, fun buffer h i hi c hc later => ?_⟩⟩
  · exact attempts_object <| attempts_ofOutcome (requireRoom_eq sized room) <|
      attempts_call written fun rows (s : SequenceStore) =>
        { s with tokens := rows, length := s.length + 1 }
  · rw [kept i hi c hc (Nat.ne_of_gt later), blank.tokens i hi c hc (Nat.le_of_lt later)]
  · exact blank.spare buffer h i hi c hc (Nat.le_of_succ_le later)

theorem attempts_appendReordered (sized : s.Sized slots maxLength) (room : s.length < maxLength)
    (small : slots * maxLength < 2 ^ 64) (double : s.spare.isSome = true)
    (one : slots ≤ tokens.size) (one' : sources.size = slots)
    (inside : ∀ i < slots, Token.toIndex sources[i]! < slots) :
    ∃ s', (appendReordered sources tokens).Attempts .gatherAppend s s' ∧
      s'.Sized slots maxLength ∧ s'.length = s.length + 1 ∧
      (∀ i < slots, s'.slot i = s.slot (Token.toIndex sources[i]!) ++ [tokens[i]!]) ∧
      s'.spare.isSome = true ∧ (s.Blank slots maxLength → s'.Blank slots maxLength) := by
  obtain ⟨spare, other⟩ := Option.isSome_iff_exists.1 double
  obtain ⟨rows, written, size, kept, stale, last⟩ :=
    gatherAppend_eq sized.tokens (sized.spare spare other) room small one one' inside
  have sized' : Sized { s with tokens := rows, spare := some s.tokens, length := s.length + 1 }
      slots maxLength :=
    ⟨sized.slots, sized.maxLength, size, fun _ h => Option.some.inj h ▸ sized.tokens, room⟩
  rw [← sized.slots, ← sized.maxLength] at written
  refine ⟨_, ?_, sized', rfl,
    fun i hi => slot_eq_append sized sized' rfl hi (inside i hi) (kept i hi) (last i hi), rfl,
    fun blank => ⟨fun i hi c hc later => ?_, fun buffer h i hi c hc later => ?_⟩⟩
  · refine attempts_object <| attempts_ofOutcome (requireRoom_eq sized room) ?_
    rw [other]
    exact attempts_call written fun rows (s : SequenceStore) =>
      { s with tokens := rows, spare := some s.tokens, length := s.length + 1 }
  -- The columns that a gathering does not write still hold what the second buffer held.
  · rw [stale i hi c hc later, blank.spare spare other i hi c hc (Nat.le_of_lt later)]
  · cases h
    exact blank.tokens i hi c hc (Nat.le_of_succ_le later)

theorem takes_append (sized : s.Sized slots maxLength) (room : s.length < maxLength)
    (small : slots * maxLength < 2 ^ 64) (one : tokens.size = slots) :
    ∃ s', (append tokens).Takes s () s' ∧ s'.Sized slots maxLength ∧
      s'.length = s.length + 1 ∧ ∀ i < slots, s'.slot i = s.slot i ++ [tokens[i]!] := by
  obtain ⟨s', attempts, sized', longer, each, -⟩ :=
    attempts_append sized room small (Nat.le_of_eq one.symm)
  exact ⟨s', attempts.takes, sized', longer, each⟩

theorem takes_appendReordered (sized : s.Sized slots maxLength) (room : s.length < maxLength)
    (small : slots * maxLength < 2 ^ 64) (double : s.spare.isSome = true)
    (one : tokens.size = slots) (one' : sources.size = slots)
    (inside : ∀ i < slots, Token.toIndex sources[i]! < slots) :
    ∃ s', (appendReordered sources tokens).Takes s () s' ∧ s'.Sized slots maxLength ∧
      s'.length = s.length + 1 ∧ s'.spare.isSome = true ∧
      ∀ i < slots, s'.slot i = s.slot (Token.toIndex sources[i]!) ++ [tokens[i]!] := by
  obtain ⟨s', attempts, sized', longer, each, double', -⟩ :=
    attempts_appendReordered sized room small double (Nat.le_of_eq one.symm) one' inside
  exact ⟨s', attempts.takes, sized', longer, double', each⟩

theorem room_of_appendReordered {s' : SequenceStore}
    (h : (appendReordered sources tokens).Takes s () s') : s.length < s.maxLength := by
  obtain ⟨_, room, -⟩ := Takes.of_outcome (Takes.of_object h)
  exact of_decide_eq_true (Outcome.of_require room)

theorem gives_sequence (sized : s.Sized slots maxLength) {i : Nat} (h : i < slots) :
    (s.sequence i).Gives (s.slot i) := by
  have stop : i * maxLength + s.length ≤ s.tokens.size := by
    rw [sized.tokens]
    calc i * maxLength + s.length ≤ i * maxLength + maxLength :=
          Nat.add_le_add_left sized.length _
      _ = (i + 1) * maxLength := (Nat.succ_mul i maxLength).symm
      _ ≤ slots * maxLength := Nat.mul_le_mul_right maxLength h
  exact (gives_require _ (by simpa [sized.slots] using h)).bind <| (gives_call _).bind <|
    gives_ofOutcome <| Outcome.bind_eq_ok
      (Outcome.require_eq_ok _ (by simpa [sized.maxLength] using stop)) rfl

end Steps

end SequenceStore

end TokenSearch
