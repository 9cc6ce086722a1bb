import TokenSearch.Proofs.Sequences.History

/-!
Appending a column in place against gathering every row from its own slot. The second buffer may
hold any rows, and is the first one afterwards; what makes the two agree in every cell is that no
buffer ever holds a token behind the length of its rows, whatever calls were made before and
whatever came of them. They differ on a token buffer that is too short: gathering refuses it, and
appending leaves a zero in the rows that have no token.
-/

namespace TokenSearch

open TokenSearch.Run TokenSearch.Action

def Action.Refuses {σ α : Type} (x : Action σ α) (s : σ) : Prop :=
  ∀ session, ∃ f session', x (session, s) = .error f (session', s)

namespace SequenceStore

/-! ## Columns, read off the success of a write -/

section Columns

variable {old tokens sources src dst m : Tokens} {rows width length : Nat}

theorem of_appendColumn (h : appendColumn old tokens rows width length = .ok m) :
    length < width ∧ m.size = old.size ∧
      ∀ i < rows, ∀ c < width, c ≠ length → m[i * width + c]! = old[i * width + c]! := by
  have size := size_appendColumn h
  obtain ⟨_, room, h⟩ := Outcome.of_bind h
  obtain ⟨n, total, h⟩ := Outcome.of_bind h
  obtain ⟨_, inside, h⟩ := Outcome.of_bind h
  obtain rfl := Outcome.eq_of_size total
  have enough : rows * width ≤ old.size := of_decide_eq_true (Outcome.of_require inside)
  cases h
  refine ⟨of_decide_eq_true (Outcome.of_require room), size, fun i hi c hc other => ?_⟩
  have position := row_mul_add_lt hi hc
  rw [getElem!_mapIdx _ (Nat.lt_of_lt_of_le position enough), row_mul_add_mod i hc,
    if_neg (by simp [other])]

theorem of_gatherAppend (h : gatherAppend src dst sources tokens rows width length = .ok m) :
    length < width ∧ m.size = dst.size ∧ rows ≤ tokens.size ∧
      ∀ i < rows, ∀ c < width, length < c → m[i * width + c]! = dst[i * width + c]! := by
  have size := size_gatherAppend h
  obtain ⟨_, room, h⟩ := Outcome.of_bind h
  obtain ⟨n, total, h⟩ := Outcome.of_bind h
  obtain ⟨_, inside, h⟩ := Outcome.of_bind h
  obtain ⟨_, gathered, h⟩ := Outcome.of_bind h
  obtain rfl := Outcome.eq_of_size total
  have enough : rows * width ≤ dst.size := of_decide_eq_true (Outcome.of_require inside)
  have each := List.all_eq_true.1 (Outcome.of_require gathered)
  cases h
  refine ⟨of_decide_eq_true (Outcome.of_require room), size, ?_, fun i hi c hc later => ?_⟩
  · by_contra short
    have missing := each tokens.size (List.mem_range.2 (Nat.lt_of_not_le short))
    unfold gathers at missing
    rw [Array.getElem?_eq_none (Nat.le_refl tokens.size)] at missing
    cases source : sources[tokens.size]? <;> rw [source] at missing <;> cases missing
  · have position := row_mul_add_lt hi hc
    rw [getElem!_mapIdx _ (Nat.lt_of_lt_of_le position enough), row_mul_add_mod i hc,
      if_pos position, if_neg (Nat.lt_asymm later), if_neg (Nat.ne_of_gt later)]

end Columns

/-! ## Any calls -/

/-- What is left of a store by steps with any buffers, in any sessions, whatever came of each. -/
inductive Becomes (s₀ : SequenceStore) : SequenceStore → Prop
  | start : Becomes s₀ s₀
  | step {s : SequenceStore} (step : Step) (session : Session) :
    Becomes s₀ s → Becomes s₀ (step.run.left session s)

section Becomes

variable {s s₀ : SequenceStore} {numBeams slots maxLength : Nat} {tokens sources : Tokens}

theorem append_cases (tokens : Tokens) (session : Session) (s : SequenceStore) :
    (∃ f session', append tokens (session, s) = .error f (session', s)) ∨
      ∃ rows session', appendColumn s.tokens tokens s.slots s.maxLength s.length = .ok rows ∧
        append tokens (session, s) =
          .ok () (session', { s with tokens := rows, length := s.length + 1 }) := by
  rcases ofOutcome_bind s.requireRoom _ (session, s) with ⟨f, none⟩ | ⟨_, -, room⟩
  · exact .inl ⟨f, _, none⟩
  rcases call_bind .appendColumn _ session s with ⟨f, none⟩ | called
  · exact .inl ⟨f, _, room.trans none⟩
  rcases ofOutcome_bind _ _ (session.record .appendColumn, s) with ⟨f, none⟩ | ⟨rows, written, last⟩
  · exact .inl ⟨f, _, room.trans (called.trans none)⟩
  · exact .inr ⟨rows, _, written, room.trans (called.trans last)⟩

theorem appendReordered_cases (sources tokens : Tokens) (session : Session) (s : SequenceStore) :
    (∃ f session', appendReordered sources tokens (session, s) = .error f (session', s)) ∨
      ∃ spare rows session', s.spare = some spare ∧
        gatherAppend s.tokens spare sources tokens s.slots s.maxLength s.length = .ok rows ∧
        appendReordered sources tokens (session, s) = .ok () (session',
          { s with tokens := rows, spare := some s.tokens, length := s.length + 1 }) := by
  rcases ofOutcome_bind s.requireRoom _ (session, s) with ⟨f, none⟩ | ⟨_, -, room⟩
  · exact .inl ⟨f, _, none⟩
  replace room : appendReordered sources tokens (session, s) = _ := room
  cases double : s.spare with
  | none =>
    simp only [double] at room
    exact .inl ⟨_, _, room⟩
  | some spare =>
    simp only [double] at room
    rcases call_bind .gatherAppend _ session s with ⟨f, none⟩ | called
    · exact .inl ⟨f, _, room.trans none⟩
    rcases ofOutcome_bind _ _ (session.record .gatherAppend, s) with ⟨f, none⟩ | ⟨rows, written, last⟩
    · exact .inl ⟨f, _, room.trans (called.trans none)⟩
    · exact .inr ⟨spare, rows, _, rfl, written, room.trans (called.trans last)⟩

theorem keeps_append (tokens : Tokens) :
    (append tokens).Keeps fun s => s.Sound numBeams slots maxLength := by
  intro session s sound
  unfold left
  rcases append_cases tokens session s with ⟨f, _, ran⟩ | ⟨rows, _, written, ran⟩
  · rwa [ran]
  rw [ran]
  rw [sound.sized.slots, sound.sized.maxLength] at written
  obtain ⟨room, size, kept⟩ := of_appendColumn written
  refine ⟨⟨sound.sized.slots, sound.sized.maxLength, size.trans sound.sized.tokens,
    sound.sized.spare, room⟩, sound.double, ⟨fun i hi c hc later => ?_,
    fun buffer held i hi c hc later => ?_⟩⟩
  · exact (kept i hi c hc (Nat.ne_of_gt later)).trans
      (sound.blank.tokens i hi c hc (Nat.le_of_lt later))
  · exact sound.blank.spare buffer held i hi c hc (Nat.le_of_lt later)

theorem keeps_appendReordered (sources tokens : Tokens) :
    (appendReordered sources tokens).Keeps fun s => s.Sound numBeams slots maxLength := by
  intro session s sound
  unfold left
  rcases appendReordered_cases sources tokens session s with
    ⟨f, _, ran⟩ | ⟨spare, rows, _, double, written, ran⟩
  · rwa [ran]
  rw [ran]
  rw [sound.sized.slots, sound.sized.maxLength] at written
  obtain ⟨room, size, -, stale⟩ := of_gatherAppend written
  have size' := size.trans (sound.sized.spare spare double)
  refine ⟨⟨sound.sized.slots, sound.sized.maxLength, size', ?_, room⟩, fun _ => rfl,
    ⟨fun i hi c hc later => ?_, ?_⟩⟩
  · rintro buffer ⟨⟩
    exact sound.sized.tokens
  · exact (stale i hi c hc later).trans
      (sound.blank.spare spare double i hi c hc (Nat.le_of_lt later))
  · rintro buffer ⟨⟩ i hi c hc later
    exact sound.blank.tokens i hi c hc (Nat.le_of_lt later)

theorem Becomes.sound (becomes : s₀.Becomes s) (sound : s₀.Sound numBeams slots maxLength) :
    s.Sound numBeams slots maxLength := by
  induction becomes with
  | start => exact sound
  | step step session _ ih =>
    cases step with
    | append tokens => exact keeps_append tokens session _ ih
    | reorder sources tokens => exact keeps_appendReordered sources tokens session _ ih

end Becomes

/-! ## Each slot from itself -/

def ownSlots (slots : Nat) : Tokens := (Array.range slots).map Int.ofNat

@[simp] theorem size_ownSlots (slots : Nat) : (ownSlots slots).size = slots := by
  simp [ownSlots]

theorem toIndex_ownSlots {slots i : Nat} (wide : slots < 2 ^ 64) (h : i < slots) :
    Token.toIndex (ownSlots slots)[i]! = i := by
  have entry : (ownSlots slots)[i]! = (i : Int) := by simp [ownSlots, h]
  rw [entry, Token.toIndex_natCast (Nat.lt_trans h wide)]

section Agreement

variable {s s' : SequenceStore} {slots maxLength : Nat} {tokens sources : Tokens}

theorem Sized.tokens_ext (sized : s.Sized slots maxLength) (sized' : s'.Sized slots maxLength)
    (blank : s.Blank slots maxLength) (blank' : s'.Blank slots maxLength)
    (length : s.length = s'.length) (each : ∀ i < slots, s.slot i = s'.slot i) :
    s.tokens = s'.tokens := by
  refine Array.ext (sized.tokens.trans sized'.tokens.symm) fun k hk hk' => ?_
  have inside : k < slots * maxLength := sized.tokens ▸ hk
  have row := div_lt_rows inside
  have column := mod_lt_width inside
  have same : s.tokens[k / maxLength * maxLength + k % maxLength]! =
      s'.tokens[k / maxLength * maxLength + k % maxLength]! := by
    rcases Nat.lt_or_ge (k % maxLength) s.length with written | later
    · have rows := each _ row
      rw [sized.slot_eq row, sized'.slot_eq row, ← length] at rows
      exact List.map_inj_left.1 rows _ (List.mem_range.2 written)
    · rw [blank.tokens _ row _ column later, blank'.tokens _ row _ column (length ▸ later)]
  rwa [Nat.div_add_mod', getElem!_pos s.tokens k hk, getElem!_pos s'.tokens k hk'] at same

theorem refuses_appendReordered (sized : s.Sized slots maxLength) (short : tokens.size < slots) :
    (appendReordered sources tokens).Refuses s := by
  intro session
  rcases appendReordered_cases sources tokens session s with
    refused | ⟨spare, rows, _, -, written, -⟩
  · exact refused
  · have enough := (of_gatherAppend written).2.2.1
    rw [sized.slots] at enough
    exact absurd enough (Nat.not_le_of_lt short)

theorem refuses_of_full (sized : s.Sized slots maxLength) (full : s.length = maxLength)
    (step : Step) : step.run.Refuses s :=
  fun session => ⟨_, _, run_of_full sized full step session⟩

end Agreement

/-- A store with a second buffer, at any time after it was made. With a token for every slot or more,
appending and gathering each row from its own slot both succeed and leave the same length and the
same buffer, where every sequence has its slot's token at its end; or both refuse, because the rows
are full. With fewer tokens gathering refuses. -/
theorem append_agrees_with_reorder {input : Tokens} {batchSize numBeams maxLength : Nat}
    {s₀ s : SequenceStore} (many : 1 < numBeams)
    (made : (new input batchSize numBeams maxLength).Returns s₀) (becomes : s₀.Becomes s)
    (tokens : Tokens) :
    let slots := batchSize * numBeams
    let reorder := appendReordered (ownSlots slots) tokens
    (slots ≤ tokens.size →
      (s.length < maxLength ∧ ∃ s' s'' host, (append tokens).Takes s () s' ∧ reorder.Takes s () s'' ∧
        s'.length = s.length + 1 ∧ s''.length = s.length + 1 ∧
        s'.toHost.Gives host ∧ s''.toHost.Gives host ∧
        ∀ i < slots, ∃ row, (s.sequence i).Gives row ∧
          (s'.sequence i).Gives (row ++ [tokens[i]!]) ∧
          (s''.sequence i).Gives (row ++ [tokens[i]!])) ∨
      (s.length = maxLength ∧ (append tokens).Refuses s ∧ reorder.Refuses s)) ∧
    (tokens.size < slots → reorder.Refuses s) := by
  obtain ⟨accepted, room, rfl⟩ := eq_of_new made
  intro slots reorder
  have small : batchSize * numBeams * maxLength < 2 ^ 64 := by omega
  have sound : s.Sound numBeams slots maxLength :=
    becomes.sound ⟨sized_fresh accepted.short, isSome_freshSpare _, blank_fresh⟩
  refine ⟨fun enough => ?_, refuses_appendReordered sound.sized⟩
  rcases Nat.lt_or_eq_of_le sound.sized.length with free | full
  case inr =>
    exact .inr ⟨full, refuses_of_full sound.sized full (.append tokens),
      refuses_of_full sound.sized full (.reorder (ownSlots slots) tokens)⟩
  have wide : slots < 2 ^ 64 :=
    Nat.lt_of_le_of_lt (Nat.le_mul_of_pos_right _ (Nat.zero_lt_of_lt free)) small
  have own : ∀ i < slots, Token.toIndex (ownSlots slots)[i]! = i := fun i => toIndex_ownSlots wide
  obtain ⟨s', attempts, sized', longer, each, -, blank⟩ :=
    attempts_append sound.sized free small enough
  obtain ⟨s'', attempts', sized'', longer', each', -, blank'⟩ :=
    attempts_appendReordered sound.sized free small (sound.double many) enough (size_ownSlots slots)
      fun i hi => (own i hi).symm ▸ hi
  have same : ∀ i < slots, s'.slot i = s''.slot i := fun i hi => by
    rw [each i hi, each' i hi, own i hi]
  have host : s''.tokens = s'.tokens := (sized'.tokens_ext sized'' (blank sound.blank)
    (blank' sound.blank) (longer.trans longer'.symm) same).symm
  refine .inl ⟨free, s', s'', s'.tokens, attempts.takes, attempts'.takes, longer, longer',
    (gives_call _).bind (gives_pure _), ?_, fun i hi => ⟨s.slot i, gives_sequence sound.sized hi, ?_⟩⟩
  · rw [← host]
    exact (gives_call _).bind (gives_pure _)
  · rw [← each i hi]
    exact ⟨gives_sequence sized' hi, same i hi ▸ gives_sequence sized'' hi⟩

/-- After a token too few and an exchange of the rows, a buffer with a token too many. -/
theorem append_agrees_with_reorder_of_long_buffer :
    ∃ s₀ s s' s'' : SequenceStore, ∃ host, (new #[5, 6] 1 2 5).Returns s₀ ∧ s₀.Becomes s ∧
      s.toList = [[5, 6, 0, 8], [5, 6, 7, 9]] ∧
      (append #[1, 2, 3]).Takes s () s' ∧ (appendReordered (ownSlots 2) #[1, 2, 3]).Takes s () s'' ∧
      s'.length = 5 ∧ s''.length = 5 ∧ s'.toHost.Gives host ∧ s''.toHost.Gives host := by
  let s₀ := fresh #[5, 6] 1 2 5
  have made : (new #[5, 6] 1 2 5).Returns s₀ := ⟨.start none, _, rfl⟩
  let short := (Step.append #[7]).run.left (.start none) s₀
  let s := (Step.reorder #[1, 0] #[8, 9]).run.left (.start none) short
  have becomes : s₀.Becomes s := .step _ _ (.step _ _ .start)
  have rows : s.toList = [[5, 6, 0, 8], [5, 6, 7, 9]] := by decide
  have length : s.length = 4 := by decide
  rcases (append_agrees_with_reorder (by decide) made becomes #[1, 2, 3]).1 (by decide) with
    ⟨-, s', s'', host, takes, takes', longer, longer', given, given', -⟩ | ⟨full, -⟩
  · rw [length] at longer longer'
    exact ⟨s₀, s, s', s'', host, made, becomes, rows, takes, takes', longer, longer', given, given'⟩
  · rw [length] at full
    exact absurd full (by decide)

/-- Two slots and one token: the second sequence gets a zero that nobody chose, where gathering
refuses. -/
theorem short_append_leaves_zero :
    ∃ s s' : SequenceStore, (new #[5] 1 2 2).Returns s ∧ (append #[7]).Takes s () s' ∧
      s'.length = s.length + 1 ∧ s'.toHost.Gives #[5, 7, 5, 0] ∧
      (appendReordered (ownSlots 2) #[7]).Refuses s := by
  let s := fresh #[5] 1 2 2
  have made : (new #[5] 1 2 2).Returns s := ⟨.start none, _, rfl⟩
  have sized : (fresh #[5] 1 2 2).Sized (1 * 2) 2 := sized_fresh (by decide)
  have written : appendColumn s.tokens #[7] s.slots s.maxLength s.length = .ok #[5, 7, 5, 0] := by
    decide
  have attempts : (append #[7]).Attempts .appendColumn s
      { s with tokens := #[5, 7, 5, 0], length := 2 } :=
    attempts_object <| attempts_ofOutcome (requireRoom_eq sized (by decide)) <|
      attempts_call written fun rows (s : SequenceStore) =>
        { s with tokens := rows, length := s.length + 1 }
  exact ⟨s, _, made, attempts.takes, rfl, (gives_call _).bind (gives_pure _),
    refuses_appendReordered sized (by decide)⟩

end SequenceStore

end TokenSearch
