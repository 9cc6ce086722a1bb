import TokenSearch.Proofs.Binary32.Arithmetic
import TokenSearch.Proofs.Scoring

/-!
The penalty on repeated tokens against a loop that walks over every row's history and adjusts the
scores in place. The loop keeps a table of the tokens it has seen, since a score that is adjusted
twice may change its side of zero in between; what is left of the history and what the table marks
are always apart. The loop and the formula agree, so that only the set of tokens in a row counts.
-/

namespace TokenSearch

namespace ScoreMatrix

/-! ## The loop -/

/-- The penalty in place, token after token, on the row that begins at `base`. What is no token of
the row is passed over, and so is what `seen` marks. -/
def penalizeFrom (penalty : Binary32) (vocabSize base : Nat) (seen : Array Bool) (scores : Scores) :
    List Token → Scores
  | [] => scores
  | token :: rest =>
    if token < 0 ∨ vocabSize ≤ token.toNat ∨ seen[token.toNat]! then
      penalizeFrom penalty vocabSize base seen scores rest
    else
      let i := base + token.toNat
      penalizeFrom penalty vocabSize base (seen.set! token.toNat true)
        (scores.set! i (penalize penalty scores[i]!)) rest

def penalizeEach (sequences : Tokens) (scores : Scores)
    (rows vocabSize maxLength length : Nat) (penalty : Binary32) : Scores :=
  (List.range rows).foldl (fun scores r =>
    penalizeFrom penalty vocabSize (r * vocabSize) (Array.replicate vocabSize false) scores
      (history sequences maxLength length r).toList) scores

section Loop

variable {penalty : Binary32} {vocabSize base : Nat} {seen : Array Bool} {scores : Scores}
  {tokens : List Token}

@[simp] theorem size_penalizeFrom (tokens : List Token) :
    (penalizeFrom penalty vocabSize base seen scores tokens).size = scores.size := by
  induction tokens generalizing seen scores with
  | nil => rfl
  | cons token rest ih =>
    unfold penalizeFrom
    split
    · exact ih
    · exact ih.trans (by simp)

theorem penalizeFrom_outside (room : base + vocabSize ≤ scores.size) {i : Nat}
    (outside : i < base ∨ base + vocabSize ≤ i) :
    (penalizeFrom penalty vocabSize base seen scores tokens)[i]! = scores[i]! := by
  induction tokens generalizing seen scores with
  | nil => rfl
  | cons token rest ih =>
    unfold penalizeFrom
    split
    case isTrue => exact ih room
    case isFalse new =>
      have other : i ≠ base + token.toNat := by omega
      rw [ih (by simpa using room), getElem!_set! _ _ (by omega), if_neg other]

theorem penalizeFrom_inside (table : seen.size = vocabSize)
    (room : base + vocabSize ≤ scores.size) {t : Nat} (inside : t < vocabSize) :
    (penalizeFrom penalty vocabSize base seen scores tokens)[base + t]! =
      if seen[t]! = false ∧ (t : Token) ∈ tokens then penalize penalty scores[base + t]!
      else scores[base + t]! := by
  induction tokens generalizing seen scores with
  | nil => simp [penalizeFrom]
  | cons token rest ih =>
    unfold penalizeFrom
    split
    case isTrue passed =>
      have other : seen[t]! = false → (t : Token) ≠ token := by
        rintro fresh rfl
        rw [Int.toNat_natCast, fresh] at passed
        rcases passed with negative | outside | marked
        · exact absurd negative (Int.not_lt.2 (Int.natCast_nonneg t))
        · omega
        · cases marked
      rw [ih table room]
      grind
    case isFalse new =>
      rw [not_or, not_or] at new
      obtain ⟨k, rfl⟩ := Int.eq_ofNat_of_zero_le (Int.not_lt.1 new.1)
      rw [Int.toNat_natCast] at new ⊢
      dsimp only
      rw [ih (by simpa using table) (by simpa using room), getElem!_set! _ _ (by omega),
        getElem!_set! _ _ (by omega)]
      by_cases here : t = k
      · subst here
        simp [new.2.2]
      · have other : (t : Token) ≠ k := mt Int.ofNat_inj.1 here
        simp [here, other]

end Loop

/-! ## All rows -/

/-- Of the scores `old`, those that are present in their rows were adjusted once, and no others. -/
structure Penalized (penalty : Binary32) (present : Nat → Nat → Prop) (rows vocabSize : Nat)
    (old new : Scores) : Prop where
  size : new.size = old.size
  once : ∀ r < rows, ∀ t < vocabSize, present r t →
    new[r * vocabSize + t]! = penalize penalty old[r * vocabSize + t]!
  absent : ∀ r < rows, ∀ t < vocabSize, ¬ present r t →
    new[r * vocabSize + t]! = old[r * vocabSize + t]!
  past : ∀ i, rows * vocabSize ≤ i → new[i]! = old[i]!

section Rows

variable {penalty : Binary32} {present : Nat → Nat → Prop} {rows vocabSize : Nat}
  {old new scores : Scores}

theorem Penalized.getElem_eq (h : Penalized penalty present rows vocabSize old new) (i : Nat) :
    new[i]! = penalize penalty old[i]! ∨ new[i]! = old[i]! := by
  rcases Nat.lt_or_ge i (rows * vocabSize) with inside | past
  · have once := h.once _ (div_lt_rows inside) _ (mod_lt_width inside)
    have absent := h.absent _ (div_lt_rows inside) _ (mod_lt_width inside)
    rw [Nat.div_add_mod'] at once absent
    exact (em _).imp once absent
  · exact .inr (h.past i past)

theorem Penalized.congr {present' : Nat → Nat → Prop}
    (h : Penalized penalty present rows vocabSize old new)
    (same : ∀ r < rows, ∀ t < vocabSize, present r t ↔ present' r t) :
    Penalized penalty present' rows vocabSize old new where
  size := h.size
  once := fun r hr t ht here => h.once r hr t ht ((same r hr t ht).2 here)
  absent := fun r hr t ht gone => h.absent r hr t ht (mt (same r hr t ht).1 gone)
  past := h.past

theorem Penalized.unique {new' : Scores} (h : Penalized penalty present rows vocabSize old new)
    (h' : Penalized penalty present rows vocabSize old new') : new = new' := by
  refine Array.ext (h.size.trans h'.size.symm) fun i hi hi' => ?_
  rw [← getElem!_pos new i hi, ← getElem!_pos new' i hi']
  rcases Nat.lt_or_ge i (rows * vocabSize) with inside | past
  · have row := div_lt_rows inside
    have column := mod_lt_width inside
    rw [← Nat.div_add_mod' i vocabSize]
    by_cases here : present (i / vocabSize) (i % vocabSize)
    · rw [h.once _ row _ column here, h'.once _ row _ column here]
    · rw [h.absent _ row _ column here, h'.absent _ row _ column here]
  · rw [h.past i past, h'.past i past]

variable (penalty) (sequences : Tokens) (maxLength length : Nat)

theorem penalized_penalizeEach (room : rows * vocabSize ≤ scores.size) :
    Penalized penalty (fun r t => (t : Token) ∈ history sequences maxLength length r) rows vocabSize
      scores (penalizeEach sequences scores rows vocabSize maxLength length penalty) := by
  induction rows with
  | zero => exact ⟨rfl, by simp, by simp, fun _ _ => rfl⟩
  | succ rows ih =>
    rw [Nat.succ_mul] at room
    have before := ih (Nat.le_of_add_right_le room)
    have step : penalizeEach sequences scores (rows + 1) vocabSize maxLength length penalty =
        penalizeFrom penalty vocabSize (rows * vocabSize) (Array.replicate vocabSize false)
          (penalizeEach sequences scores rows vocabSize maxLength length penalty)
          (history sequences maxLength length rows).toList := by
      simp only [penalizeEach, List.range_succ, List.foldl_append, List.foldl_cons, List.foldl_nil]
    generalize penalizeEach sequences scores rows vocabSize maxLength length penalty = m at before step
    rw [step]
    have room' : rows * vocabSize + vocabSize ≤ m.size := before.size ▸ room
    have entry : ∀ r < rows + 1, ∀ t < vocabSize,
        (penalizeFrom penalty vocabSize (rows * vocabSize) (Array.replicate vocabSize false) m
          (history sequences maxLength length rows).toList)[r * vocabSize + t]! =
        if (t : Token) ∈ history sequences maxLength length r
        then penalize penalty scores[r * vocabSize + t]! else scores[r * vocabSize + t]! := by
      intro r hr t ht
      rcases Nat.lt_succ_iff_lt_or_eq.1 hr with earlier | rfl
      · rw [penalizeFrom_outside room' (.inl (row_mul_add_lt earlier ht))]
        split
        · exact before.once r earlier t ht ‹_›
        · exact before.absent r earlier t ht ‹_›
      · rw [penalizeFrom_inside Array.size_replicate room' ht, before.past _ (Nat.le_add_right _ _)]
        simp [ht]
    exact {
      size := (size_penalizeFrom _).trans before.size
      once := fun r hr t ht here => (entry r hr t ht).trans (if_pos here)
      absent := fun r hr t ht gone => (entry r hr t ht).trans (if_neg gone)
      past := fun i hi => by
        rw [Nat.succ_mul] at hi
        rw [penalizeFrom_outside room' (.inr hi), before.past i (by omega)] }

theorem penalized_penalizeRepeats (room : rows * vocabSize ≤ scores.size) :
    Penalized penalty (fun r t => (t : Token) ∈ history sequences maxLength length r) rows vocabSize
      scores (scores.mapIdx fun i old =>
        if i < rows * vocabSize ∧
          ((i % vocabSize : Nat) : Token) ∈ history sequences maxLength length (i / vocabSize)
        then penalize penalty old else old) := by
  have entry : ∀ r < rows, ∀ t < vocabSize, (scores.mapIdx fun i old =>
      if i < rows * vocabSize ∧
        ((i % vocabSize : Nat) : Token) ∈ history sequences maxLength length (i / vocabSize)
      then penalize penalty old else old)[r * vocabSize + t]! =
        if (t : Token) ∈ history sequences maxLength length r
        then penalize penalty scores[r * vocabSize + t]! else scores[r * vocabSize + t]! := by
    intro r hr t ht
    have inside := row_mul_add_lt hr ht
    rw [getElem!_mapIdx _ (Nat.lt_of_lt_of_le inside room), row_mul_add_div r ht,
      row_mul_add_mod r ht]
    simp [inside]
  exact {
    size := Array.size_mapIdx
    once := fun r hr t ht here => (entry r hr t ht).trans (if_pos here)
    absent := fun r hr t ht gone => (entry r hr t ht).trans (if_neg gone)
    past := fun i hi => by
      rcases Nat.lt_or_ge i scores.size with inside | outside
      · rw [getElem!_mapIdx _ inside, if_neg (by omega)]
      · rw [getElem!_neg _ i (by simpa using outside), getElem!_neg _ i (by simpa using outside)] }

end Rows

/-! ## What the penalty does to a score -/

theorem penalize_le {penalty x : Binary32} (number : x.isNaN = false)
    (finite : penalty.isFinite = true) (above : Binary32.one.lt penalty = true) :
    (penalize penalty x).le x = true := by
  have bounded := (Binary32.isFinite_iff.1 finite).2
  have large := Binary32.le_of_lt above
  unfold penalize
  split
  case isTrue negative =>
    have unit : Binary32.zero.lt Binary32.one = true := by decide
    exact Binary32.mul_le negative (Binary32.lt_trans unit above) bounded large
  case isFalse other =>
    exact Binary32.div_le ((Binary32.le_total Binary32.isNaN_zero number).resolve_right other)
      bounded large

theorem mem_history {sequences : Tokens} {maxLength length r : Nat} {t : Token}
    (room : r * maxLength + length ≤ sequences.size) :
    t ∈ history sequences maxLength length r ↔
      ∃ i < length, sequences[r * maxLength + i]! = t := by
  have size : (history sequences maxLength length r).size = length := by
    rw [history, Array.size_extract]
    omega
  constructor
  · intro member
    obtain ⟨i, h, rfl⟩ := Array.mem_iff_getElem.1 member
    refine ⟨i, size ▸ h, ?_⟩
    rw [getElem!_pos sequences _ (by omega)]
    simp [history]
  · rintro ⟨i, h, rfl⟩
    rw [getElem!_pos sequences _ (by omega)]
    exact Array.mem_iff_getElem.2 ⟨i, size.symm ▸ h, by simp [history]⟩

section Repeats

variable {sequences : Tokens} {scores : Scores} {rows vocabSize maxLength length : Nat}

theorem penalized_of_repeats (penalty : Binary32) (vocabulary : 1 ≤ vocabSize)
    (room : rows * vocabSize ≤ scores.size) (small : rows * vocabSize < 2 ^ 64)
    (held : rows * maxLength ≤ sequences.size) (small' : rows * maxLength < 2 ^ 64)
    (short : length ≤ maxLength) :
    penalizeRepeats sequences scores rows vocabSize maxLength length penalty =
        .ok (penalizeEach sequences scores rows vocabSize maxLength length penalty) ∧
      Penalized penalty (fun r t => ∃ i < length, sequences[r * maxLength + i]! = (t : Token))
        rows vocabSize scores
        (penalizeEach sequences scores rows vocabSize maxLength length penalty) := by
  have stop : ∀ r < rows, r * maxLength + length ≤ sequences.size := by
    intro r hr
    have next : (r + 1) * maxLength ≤ rows * maxLength := Nat.mul_le_mul_right _ hr
    rw [Nat.succ_mul] at next
    omega
  have formula := penalized_penalizeRepeats penalty sequences maxLength length room
  have loop := penalized_penalizeEach penalty sequences maxLength length room
  refine ⟨?_, loop.congr fun r hr t _ => mem_history (stop r hr)⟩
  rw [penalizeRepeats_of_le penalty room small (Nat.pos_iff_ne_zero.1 vocabulary) held small' short,
    formula.unique loop]

/-- A token of a row that its history holds, however often, is adjusted once, and no other entry of
the buffer is. Nothing else about the histories counts, and a penalty above one raises no score. -/
theorem penalizeRepeats_adjusts_once (penalty : Binary32) (vocabulary : 1 ≤ vocabSize)
    (room : rows * vocabSize ≤ scores.size) (small : rows * vocabSize < 2 ^ 64)
    (held : rows * maxLength ≤ sequences.size) (small' : rows * maxLength < 2 ^ 64)
    (short : length ≤ maxLength) :
    ∃ m, penalizeRepeats sequences scores rows vocabSize maxLength length penalty = .ok m ∧
      m = penalizeEach sequences scores rows vocabSize maxLength length penalty ∧
      Penalized penalty (fun r t => ∃ i < length, sequences[r * maxLength + i]! = (t : Token))
        rows vocabSize scores m ∧
      (∀ (sequences' : Tokens) (maxLength' length' : Nat), rows * maxLength' ≤ sequences'.size →
        rows * maxLength' < 2 ^ 64 → length' ≤ maxLength' →
        (∀ r < rows, ∀ t < vocabSize, (∃ i < length, sequences[r * maxLength + i]! = (t : Token)) ↔
          ∃ i < length', sequences'[r * maxLength' + i]! = (t : Token)) →
        penalizeRepeats sequences' scores rows vocabSize maxLength' length' penalty = .ok m) ∧
      (penalty.isFinite = true → Binary32.one.lt penalty = true →
        ∀ i < scores.size, scores[i]!.isNaN = false → m[i]!.le scores[i]! = true) := by
  obtain ⟨ran, adjusted⟩ := penalized_of_repeats penalty vocabulary room small held small' short
  refine ⟨_, ran, rfl, adjusted, ?_, ?_⟩
  · intro sequences' maxLength' length' held' small'' short' same
    obtain ⟨ran', adjusted'⟩ :=
      penalized_of_repeats penalty vocabulary room small held' small'' short'
    rw [ran', adjusted'.unique (adjusted.congr same)]
  · intro finite above i _ number
    rcases adjusted.getElem_eq i with once | same
    · rw [once]
      exact penalize_le number finite above
    · rw [same]
      exact Binary32.le_refl number

/-- Two rows of three tokens, with a score behind them: in the first one a token stands twice, one
is no token and one comes too late; in the second one is outside the vocabulary. -/
theorem penalizeRepeats_adjusts_once_of_two_rows :
    let penalty : Binary32 := ⟨0x40000000⟩
    let down : Binary32 := ⟨0xbf800000⟩
    let sequences : Tokens := #[2, -1, 2, 0, 7, 1, 2, 0]
    let scores : Scores := #[down, .one, down, .one, .one, down, .one]
    2 * 3 ≤ scores.size ∧ 2 * 4 ≤ sequences.size ∧
      ∃ m, penalizeRepeats sequences scores 2 3 4 3 penalty = .ok m ∧
        m = #[down, .one, ⟨0xc0000000⟩, .one, ⟨0x3f000000⟩, ⟨0xc0000000⟩, .one] ∧
        penalizeRepeats #[2, 2, 2, 1] scores 2 3 2 2 penalty = .ok m ∧
        m[5]!.le scores[5]! = true := by
  intro penalty down sequences scores
  obtain ⟨m, ran, loop, -, sets, lower⟩ :=
    penalizeRepeats_adjusts_once penalty (by decide : 1 ≤ 3) (by decide : 2 * 3 ≤ scores.size)
      (by decide) (by decide : 2 * 4 ≤ sequences.size) (by decide) (by decide : 3 ≤ 4)
  refine ⟨by decide, by decide, m, ran, loop.trans (by decide +kernel), ?_, ?_⟩
  · exact sets #[2, 2, 2, 1] 2 2 (by decide) (by decide) (by decide) (by decide +kernel)
  · exact lower (by decide) (by decide +kernel) 5 (by decide) (by decide)

end Repeats

end ScoreMatrix

end TokenSearch
