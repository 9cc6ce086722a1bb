import TokenSearch.Proofs.Sequences

/-!
A store over its history. Calls that append a column and calls that gather rows come in any order,
each in a session of its own, and any of them may fail. What a store holds then is what the calls
that succeeded make of the prompts, read as a list of rows; its columns from the length on are
zeros in both buffers, since a gathering leaves in them what the other buffer had there before.
-/

namespace TokenSearch.SequenceStore

open TokenSearch.Run TokenSearch.Action

inductive Step where
  | append (tokens : Tokens)
  | reorder (sources tokens : Tokens)
deriving DecidableEq, Repr

namespace Step

def run : Step → Action SequenceStore Unit
  | append tokens => SequenceStore.append tokens
  | reorder sources tokens => appendReordered sources tokens

def call : Step → Call
  | append _ => .appendColumn
  | reorder _ _ => .gatherAppend

def Fits (numBeams slots : Nat) : Step → Prop
  | append tokens => tokens.size = slots
  | reorder sources tokens => 1 < numBeams ∧ sources.size = slots ∧ tokens.size = slots ∧
      ∀ source ∈ sources, ∃ slot < slots, source = (slot : Int)

instance (numBeams slots : Nat) : DecidablePred (Fits numBeams slots)
  | append tokens => inferInstanceAs (Decidable (tokens.size = slots))
  | reorder sources tokens => inferInstanceAs (Decidable (1 < numBeams ∧ sources.size = slots ∧
      tokens.size = slots ∧ ∀ source ∈ sources, ∃ slot < slots, source = (slot : Int)))

def apply (rows : List (List Token)) : Step → List (List Token)
  | append tokens => List.zipWith (fun row token => row ++ [token]) rows tokens.toList
  | reorder sources tokens =>
    List.zipWith (fun source token => rows[Token.toIndex source]! ++ [token]) sources.toList
      tokens.toList

end Step

def prompts (input : Tokens) (batchSize numBeams : Nat) : List (List Token) :=
  (List.range (batchSize * numBeams)).map fun i =>
    prompt input (input.size / batchSize) (i / numBeams)

/-- `s₀` becomes `s` by calls of which those of the steps `done` succeeded. -/
inductive Reaches (numBeams : Nat) (s₀ : SequenceStore) : List Step → SequenceStore → Prop
  | start : Reaches numBeams s₀ [] s₀
  | success {done : List Step} {s s' : SequenceStore} {step : Step} {session session' : Session} :
    Reaches numBeams s₀ done s → step.Fits numBeams s₀.slots →
    step.run (session, s) = .ok () (session', s') → Reaches numBeams s₀ (done ++ [step]) s'
  | failure {done : List Step} {s s' : SequenceStore} {step : Step} {f : Failure}
    {session session' : Session} : Reaches numBeams s₀ done s → step.Fits numBeams s₀.slots →
    step.run (session, s) = .error f (session', s') → Reaches numBeams s₀ done s'

/-! ## New stores -/

section New

variable {input : Tokens} {batchSize numBeams maxLength : Nat} {s : SequenceStore}

theorem blank_fresh : (fresh input batchSize numBeams maxLength).Blank (batchSize * numBeams)
    maxLength where
  tokens := by
    intro i hi c hc later
    rw [getElem!_fresh hi hc]
    exact if_neg (Nat.not_lt_of_le later)
  spare := by
    intro buffer h i hi c hc _
    have position := row_mul_add_lt hi hc
    dsimp only [fresh, freshSpare] at h
    split at h <;> cases h
    rw [getElem!_pos _ _ (by simpa using position), Array.getElem_replicate]

theorem toList_fresh (accepted : Accepts input batchSize maxLength) :
    (fresh input batchSize numBeams maxLength).toList = prompts input batchSize numBeams := by
  rw [toList_eq, prompts]
  exact List.map_congr_left fun i hi => slot_fresh accepted (List.mem_range.1 hi)

theorem eq_of_allocTokens {n : Nat} {buffer : Tokens} (h : (Buffer.allocTokens n).Returns buffer) :
    buffer = .replicate n 0 := by
  obtain ⟨_, -, filled⟩ := h.of_bind
  exact (Buffer.eq_of_filled filled.of_outcome).2

theorem of_spare {n : Nat} {rest : Option Tokens → Run SequenceStore}
    (h : (if 1 < numBeams then some <$> Buffer.allocTokens n >>= rest
      else pure none >>= rest).Returns s) : (rest (freshSpare numBeams n)).Returns s := by
  unfold freshSpare
  split at h
  case isTrue many =>
    obtain ⟨_, spare, given⟩ := h.of_bind
    obtain ⟨buffer, made, rfl⟩ := spare.of_map
    rwa [if_pos many, ← eq_of_allocTokens made]
  case isFalse few =>
    obtain ⟨_, spare, given⟩ := h.of_bind
    rwa [if_neg few, spare.of_pure]

/-- A store is made of nothing but good prompts that take up no more than there is room for, and
there is one way to make it. -/
theorem eq_of_new (made : (new input batchSize numBeams maxLength).Returns s) :
    Accepts input batchSize maxLength ∧ batchSize * numBeams * maxLength * 4 < 2 ^ 63 ∧
      s = fresh input batchSize numBeams maxLength := by
  obtain ⟨_, batch, made⟩ := made.of_bind
  obtain ⟨_, rows, made⟩ := made.of_bind
  obtain ⟨_, some, made⟩ := made.of_bind
  obtain ⟨_, short, made⟩ := made.of_bind
  obtain ⟨slots, count, made⟩ := made.of_bind
  obtain ⟨n, total, made⟩ := made.of_bind
  obtain ⟨blank, filled, made⟩ := made.of_bind
  obtain ⟨_, -, made⟩ := made.of_bind
  obtain rfl := Outcome.eq_of_size count.of_outcome
  obtain rfl := Outcome.eq_of_size total.of_outcome
  obtain ⟨room, rfl⟩ := Buffer.eq_of_filled filled.of_outcome
  refine ⟨⟨?_, ?_, ?_⟩, room, (of_spare made).of_pure.symm⟩
  · simpa using rows.of_require
  · simpa [Nat.pos_iff_ne_zero] using some.of_require
  · simpa using short.of_require

end New

/-! ## Steps -/

structure Sound (s : SequenceStore) (numBeams slots maxLength : Nat) : Prop where
  sized : s.Sized slots maxLength
  double : 1 < numBeams → s.spare.isSome = true
  blank : s.Blank slots maxLength

section Steps

variable {s s₀ : SequenceStore} {numBeams slots maxLength : Nat} {step : Step} {done : List Step}

theorem Sized.getElem!_toList (sized : s.Sized slots maxLength) {i : Nat} (h : i < slots) :
    s.toList[i]! = s.slot i := by
  have inside : i < s.toList.length := by simpa [toList_eq, sized.slots] using h
  rw [getElem!_pos s.toList i inside]
  simp only [toList_eq, List.getElem_map, List.getElem_range]

theorem toList_eq_zipWith {α : Type} {s' : SequenceStore} {tokens : Tokens} {list : List α}
    {row : α → List Token} (sized' : s'.Sized slots maxLength) (one : tokens.size = slots)
    (one' : list.length = slots)
    (each : ∀ i (h : i < list.length), s'.slot i = row list[i] ++ [tokens[i]!]) :
    s'.toList = List.zipWith (fun a token => row a ++ [token]) list tokens.toList := by
  refine List.ext_getElem (by simp [toList_eq, sized'.slots, one, one']) fun i hi hi' => ?_
  have inside : i < slots := by simpa [toList_eq, sized'.slots] using hi
  have token := getElem!_pos tokens i (one ▸ inside)
  have row := each i (one' ▸ inside)
  rw [token, ← Array.getElem_toList] at row
  rw [List.getElem_zipWith, ← row]
  simp only [toList_eq, List.getElem_map, List.getElem_range]

theorem attempts_step (sound : s.Sound numBeams slots maxLength) (fits : step.Fits numBeams slots)
    (room : s.length < maxLength) (small : slots * maxLength < 2 ^ 64) :
    ∃ s', step.run.Attempts step.call s s' ∧ s'.Sound numBeams slots maxLength ∧
      s'.length = s.length + 1 ∧ s'.toList = step.apply s.toList := by
  have count : s.toList.length = slots := by simp [toList_eq, sound.sized.slots]
  cases step with
  | append tokens =>
    obtain ⟨s', attempts, sized', longer, each, spare, blank⟩ :=
      attempts_append sound.sized room small (Nat.le_of_eq (Eq.symm fits))
    refine ⟨s', attempts, ⟨sized', fun many => spare ▸ sound.double many, blank sound.blank⟩,
      longer, toList_eq_zipWith sized' fits count fun i hi => ?_⟩
    have inside : i < slots := count ▸ hi
    rw [each i inside, ← sound.sized.getElem!_toList inside, getElem!_pos s.toList i hi]
  | reorder sources tokens =>
    obtain ⟨many, one', one, range⟩ := fits
    have wide : slots < 2 ^ 64 :=
      Nat.lt_of_le_of_lt (Nat.le_mul_of_pos_right _ (Nat.zero_lt_of_lt room)) small
    have inside : ∀ source ∈ sources, Token.toIndex source < slots := by
      intro source h
      obtain ⟨slot, bound, rfl⟩ := range source h
      rwa [Token.toIndex_natCast (Nat.lt_trans bound wide)]
    have member : ∀ i (h : i < sources.size), sources[i]! ∈ sources := fun i h => by
      rw [getElem!_pos sources i h]
      exact Array.getElem_mem h
    obtain ⟨s', attempts, sized', longer, each, spare, blank⟩ :=
      attempts_appendReordered sound.sized room small (sound.double many) (Nat.le_of_eq one.symm)
        one' fun i hi => inside _ (member i (one' ▸ hi))
    refine ⟨s', attempts, ⟨sized', fun _ => spare, blank sound.blank⟩, longer,
      toList_eq_zipWith sized' one one' fun i hi => ?_⟩
    have source : sources[i]! = sources.toList[i] := getElem!_pos sources i hi
    have slot := inside _ (member i hi)
    rw [each i (one' ▸ hi), ← sound.sized.getElem!_toList slot, source]

theorem run_of_full (sized : s.Sized slots maxLength) (full : s.length = maxLength)
    (step : Step) (session : Session) :
    step.run (session, s) = .error (.violation (.sequencesFull s.length)) (session, s) := by
  have none : s.requireRoom = .error (.violation (.sequencesFull s.length)) := by
    simp [requireRoom, Outcome.require, Outcome.violate, sized.maxLength, full]
  cases step <;>
    simp only [Step.run, append, appendReordered, bind, EStateM.bind, object, Action.ofOutcome,
      lift, Run.ofOutcome, none]

theorem Reaches.refines (reached : s₀.Reaches numBeams done s)
    (sound₀ : s₀.Sound numBeams slots maxLength) (small : slots * maxLength < 2 ^ 64) :
    s.Sound numBeams slots maxLength ∧ s.length = s₀.length + done.length ∧
      s.toList = done.foldl Step.apply s₀.toList := by
  induction reached with
  | start => exact ⟨sound₀, rfl, rfl⟩
  | success _ fits ran ih =>
    obtain ⟨sound, length, rows⟩ := ih
    rw [sound₀.sized.slots] at fits
    rcases Nat.lt_or_eq_of_le sound.sized.length with room | full
    · obtain ⟨s', attempts, sound', longer, rows'⟩ := attempts_step sound fits room small
      obtain rfl := attempts.of_ok ran
      refine ⟨sound', ?_, ?_⟩
      · rw [longer, length, List.length_append, List.length_singleton, Nat.add_assoc]
      · rw [rows', rows, List.foldl_append, List.foldl_cons, List.foldl_nil]
    · cases (run_of_full sound.sized full _ _).symm.trans ran
  | failure _ fits ran ih =>
    obtain ⟨sound, length, rows⟩ := ih
    rw [sound₀.sized.slots] at fits
    rcases Nat.lt_or_eq_of_le sound.sized.length with room | full
    · obtain ⟨s', attempts, -⟩ := attempts_step sound fits room small
      obtain rfl := attempts.of_error ran
      exact ⟨sound, length, rows⟩
    · cases (run_of_full sound.sized full _ _).symm.trans ran
      exact ⟨sound, length, rows⟩

end Steps

/-- A store that was made of prompts, at any time after: it holds the rows that the calls which
succeeded make of the prompts, all as long as there were such calls, and nothing behind them. The
next call succeeds unless its device call fails or the rows are full, and then nothing changes. -/
theorem store_refines_rows {input : Tokens} {batchSize numBeams maxLength : Nat}
    {s₀ s : SequenceStore} {done : List Step}
    (made : (new input batchSize numBeams maxLength).Returns s₀)
    (reached : s₀.Reaches numBeams done s) :
    let slots := batchSize * numBeams
    let rows := done.foldl Step.apply (prompts input batchSize numBeams)
    s.toList = rows ∧ rows.length = slots ∧ (∀ i < slots, (s.sequence i).Gives rows[i]!) ∧
    s.length = input.size / batchSize + done.length ∧ s.length ≤ maxLength ∧
    (∃ buffer, s.toHost.Gives buffer ∧ buffer.size = slots * maxLength ∧
      ∀ i < slots, ∀ column < maxLength, s.length ≤ column →
        buffer[i * maxLength + column]! = 0) ∧
    ∀ (step : Step) (session : Session), step.Fits numBeams slots →
      (s.length < maxLength → session.fails step.call = none →
        ∃ s', step.run (session, s) = .ok () (session.record step.call, s')) ∧
      (s.length < maxLength → ∀ fault, session.fails step.call = some fault →
        step.run (session, s) =
          .error (.error (.device fault.message)) (session.record step.call, s)) ∧
      (s.length = maxLength →
        step.run (session, s) = .error (.violation (.sequencesFull maxLength)) (session, s)) := by
  obtain ⟨accepted, room, rfl⟩ := eq_of_new made
  have small : batchSize * numBeams * maxLength < 2 ^ 64 := by omega
  have sound₀ : (fresh input batchSize numBeams maxLength).Sound numBeams (batchSize * numBeams)
      maxLength := ⟨sized_fresh accepted.short, isSome_freshSpare _, blank_fresh⟩
  obtain ⟨sound, length, held⟩ := reached.refines sound₀ small
  rw [toList_fresh accepted] at held
  intro slots rows
  have count : rows.length = slots := by
    rw [show rows = _ from held.symm, toList_eq, List.length_map, List.length_range,
      sound.sized.slots]
  refine ⟨held, count, fun i hi => ?_, length, sound.sized.length,
    ⟨s.tokens, (gives_call _).bind (gives_pure _), sound.sized.tokens, sound.blank.tokens⟩,
    fun step session fits => ⟨fun room free => ?_, fun room fault planned => ?_, fun full => ?_⟩⟩
  · rw [show rows = _ from held.symm, sound.sized.getElem!_toList hi]
    exact gives_sequence sound.sized hi
  · obtain ⟨s', attempts, -⟩ := attempts_step sound fits room small
    exact ⟨s', by rw [attempts session, attempt, free]⟩
  · obtain ⟨s', attempts, -⟩ := attempts_step sound fits room small
    rw [attempts session, attempt, planned]
  · rw [run_of_full sound.sized full, full]

/-- Two beams of one prompt: the second is gathered into both slots, a call fails, each slot gets
a token of its own, and the rows are full. -/
theorem store_refines_rows_of_two_beams :
    ∃ s₀ s : SequenceStore, (new #[5, 6] 1 2 4).Returns s₀ ∧
      s₀.Reaches 2 [.append #[7, 8], .reorder #[1, 1] #[9, 10]] s ∧
      s.toList = [[5, 6, 8, 9], [5, 6, 8, 10]] ∧ s.length = 4 ∧
      ∀ session, (Step.append #[1, 1]).run (session, s) =
        .error (.violation (.sequencesFull 4)) (session, s) := by
  let s₀ := fresh #[5, 6] 1 2 4
  have made : (new #[5, 6] 1 2 4).Returns s₀ := ⟨.start none, _, rfl⟩
  have first : s₀.Reaches 2 [.append #[7, 8]] _ := .success .start (by decide)
    (show (Step.append #[7, 8]).run (.start none, s₀) = _ from rfl)
  have lost : s₀.Reaches 2 [.append #[7, 8]] _ := .failure first (by decide)
    (show (Step.reorder #[1, 1] #[9, 10]).run (.start (some ⟨.gatherAppend, 0, "lost"⟩), _) = _
      from rfl)
  have reached : s₀.Reaches 2 [.append #[7, 8], .reorder #[1, 1] #[9, 10]] _ :=
    .success lost (by decide)
      (show (Step.reorder #[1, 1] #[9, 10]).run (.start none, _) = _ from rfl)
  obtain ⟨rows, -, -, length, -, -, next⟩ := store_refines_rows made reached
  refine ⟨_, _, made, reached, rows.trans (by decide), length, fun session => ?_⟩
  exact (next (.append #[1, 1]) session rfl).2.2 rfl

end TokenSearch.SequenceStore
