import TokenSearch.Proofs.Beam.Run

/-!
The prompts of one batch do not influence one another. A batch element follows the plain search
of its prompt, in a batch of any size, so a run on that prompt alone ends in the same rows.
-/

namespace TokenSearch

def Configuration.single (c : Configuration) : Configuration := { c with batchSize := 1 }

namespace Configuration

variable {c : Configuration}

theorem validate_single (accepted : c.validate = .ok ()) : c.single.validate = .ok () := by
  rw [validate_eq_ok_iff] at accepted ⊢
  unfold fault? at accepted
  split at accepted
  · cases accepted
  · exact accepted

theorem runnable_single (accepted : c.validate = .ok ()) (run : c.Runnable) : c.single.Runnable := by
  have one : 1 * c.numBeams ≤ c.batchSize * c.numBeams := Nat.mul_le_mul_right _ run.batch
  refine ⟨valid_of_validate (validate_single accepted), ⟨⟨?_, ?_⟩, ?_, run.tokens⟩, run.many, run.few⟩
  · exact Nat.lt_of_le_of_lt (Nat.mul_le_mul_right _ (Nat.mul_le_mul_right _ one)) run.matrix
  · exact Nat.lt_of_le_of_lt (Nat.mul_le_mul_right _ (Nat.mul_le_mul_right _ one)) run.sequences
  · exact Nat.lt_of_le_of_lt one run.slots

variable {input : Tokens} {b : Nat}

def own (c : Configuration) (input : Tokens) (b : Nat) : Tokens :=
  (prompt input (c.promptLength input) b).toArray

theorem promptLength_own (prompts : SequenceStore.Accepts input c.batchSize c.maxLength)
    (hb : b < c.batchSize) : c.single.promptLength (c.own input b) = c.promptLength input := by
  rw [promptLength, single, Nat.div_one, own, List.size_toArray, length_prompt prompts hb]

theorem prompt_own (prompts : SequenceStore.Accepts input c.batchSize c.maxLength)
    (hb : b < c.batchSize) :
    prompt (c.own input b) (c.promptLength input) 0 = prompt input (c.promptLength input) b := by
  have whole : (c.own input b).extract 0 (c.promptLength input) = c.own input b :=
    Array.extract_eq_self_of_le (Nat.le_of_eq (length_prompt prompts hb))
  rw [prompt, ScoreMatrix.row, Nat.zero_mul, Nat.zero_add, whole, own]

theorem accepts_own (prompts : SequenceStore.Accepts input c.batchSize c.maxLength)
    (hb : b < c.batchSize) : SequenceStore.Accepts (c.own input b) 1 c.maxLength := by
  have length : (c.own input b).size / 1 = c.promptLength input := promptLength_own prompts hb
  exact ⟨Nat.mod_one _, length ▸ prompts.some, length ▸ prompts.short⟩

end Configuration

namespace BeamSearch

section Single

variable {c : Configuration} {logits : List Token → List Binary32} {input : Tokens} {b : Nat}
  (prompts : SequenceStore.Accepts input c.batchSize c.maxLength) (hb : b < c.batchSize)

include prompts hb

theorem plain_own (t : Nat) :
    plain c.single logits (c.own input b) t 0 = plain c logits input t b := by
  rw [plain, plain, Configuration.promptLength_own prompts hb, Configuration.prompt_own prompts hb]
  rfl

theorem going_of_own {t : Nat} (going : stops c.single logits (c.own input b) t = false) :
    stops c logits input t = false ∧ (plain c logits input t b).finished = false := by
  have room := c.single.room_of_going going
  obtain ⟨i, hi, unfinished⟩ := c.single.exists_of_going going
  obtain rfl : i = 0 := Nat.lt_one_iff.1 hi
  rw [Configuration.promptLength_own prompts hb] at room
  rw [plain_own prompts hb] at unfinished
  refine ⟨Bool.eq_false_iff.2 fun stopped => ?_, unfinished⟩
  rcases c.stops_iff.1 stopped with full | all
  · exact Nat.not_le.2 room full
  · exact absurd ((all b hb).symm.trans unfinished) (by decide)

theorem noNegativeNaN_own {t : Nat} {s s' : BeamSearch} {m : Scores}
    (tracks : Tracks c.single logits (c.own input b) t s)
    (decoded : Decoded c.single
      [.minLength c.minLength, .repetitionPenalty c.repetitionPenalty] m s s')
    (rows : ∀ r < c.single.slotCount,
      ScoreMatrix.row m c.vocabSize r = (logits (s.state.sequences.slot r)).toArray)
    (finished : (plain c logits input t b).finished = false)
    (clean : (plain c logits input t b).Clean c logits) :
    NoNegativeNaN s'.state.scores.scores := by
  have slots : c.single.slotCount = c.numBeams := Nat.one_mul _
  refine .of_rows decoded.sound.state.scores fun j hj => ?_
  have row := tracks.row_eq decoded rows (show 0 < 1 by decide)
    (by rw [plain_own prompts hb]; exact finished) (slots ▸ hj)
  rw [plain_own prompts hb, Nat.zero_mul, Nat.zero_add] at row
  rw [row]
  exact clean finished j (slots ▸ hj)

end Single

end BeamSearch

/-- For every prompt of a batch, the run on the whole batch returns the rows and scores that a run
on that prompt alone returns. All slots of the batch and all tokens have to fit signed 32-bit words,
which is not checked: a batch with more slots cannot number them, while a single prompt still may. -/
theorem beam_elements_independent {c : Configuration} (accepted : c.validate = .ok ())
    (many : 2 ≤ c.numBeams) (few : c.numBeams ≤ Selection.maxBeams) (fits : c.Addressable)
    {input : Tokens} (prompts : SequenceStore.Accepts input c.batchSize c.maxLength)
    {logits : List Token → List Binary32} (width : ∀ tokens, (logits tokens).length = c.vocabSize)
    (clean : ∀ g₀, (Generator.new c input (.ofSlots logits)).Gives g₀ →
      ∀ t g, g₀.Reaches (t + 1) g → NoNegativeNaN g.search.state.scores.scores) :
    ∃ output g, (Generator.runToEnd c input (.ofSlots logits)).Gives (output, g) ∧
      output.scores.size = c.batchSize * c.numReturned ∧
      output.tokens.size = c.batchSize * c.numReturned * c.maxLength ∧
      ∀ b < c.batchSize, ∃ alone g',
        (Generator.runToEnd c.single (c.own input b) (.ofSlots logits)).Gives (alone, g') ∧
        g'.steps ≤ g.steps ∧ alone.scores.size = c.numReturned ∧
        alone.tokens.size = c.numReturned * c.maxLength ∧
        ∀ j < c.numReturned, output.row (b * c.numReturned + j) = alone.row j ∧
          output.scores[b * c.numReturned + j]! = alone.scores[j]! := by
  have run : c.Runnable := ⟨Configuration.valid_of_validate accepted, fits, many, few⟩
  obtain ⟨tokens, scores, g, batched, whole, stopped, before⟩ :=
    BeamSearch.gives_runToEnd accepted run prompts width clean
  refine ⟨_, g, batched, whole.count, whole.size, fun b hb => ?_⟩
  have run' := Configuration.runnable_single accepted run
  have accepted' := Configuration.validate_single accepted
  have own : SequenceStore.Accepts (c.own input b) 1 c.maxLength :=
    Configuration.accepts_own prompts hb
  -- The run on one prompt goes on only while the batch does, and so only over clean rows.
  have early : ∀ t, BeamSearch.stops c.single logits (c.own input b) t = false →
      t < g.steps ∧ (BeamSearch.plain c logits input t b).finished = false ∧
        (BeamSearch.plain c logits input t b).Clean c logits := by
    intro t going
    obtain ⟨going', finished⟩ := BeamSearch.going_of_own prompts hb going
    have earlier : t < g.steps := by
      refine Nat.lt_of_not_le fun late => ?_
      have done := BeamSearch.stops_of_le late stopped
      exact absurd (done.symm.trans going') (by decide)
    exact ⟨earlier, finished, (before t earlier).2 b hb⟩
  obtain ⟨tokens', scores', g', single, part, -, going⟩ :=
    BeamSearch.gives_runToEnd accepted' run' own width
      fun g₀ made t g reached => BeamSearch.noNegativeNaN_of_reaches run' width
        (fun t s m s' tracks going decoded rows => BeamSearch.noNegativeNaN_own prompts hb tracks
          decoded rows (early t going).2.1 (early t going).2.2)
        accepted' own made reached
  have same : BeamSearch.plain c.single logits (c.own input b)
      (c.single.maxLength - c.single.promptLength (c.own input b)) 0 =
      BeamSearch.plain c logits input (c.maxLength - c.promptLength input) b := by
    rw [Configuration.promptLength_own prompts hb]
    exact BeamSearch.plain_own prompts hb _
  have sizes : c.single.batchSize * c.single.numReturned = c.numReturned := Nat.one_mul _
  refine ⟨_, g', single, ?_, part.count.trans sizes, ?_, fun j hj => ⟨?_, ?_⟩⟩
  · refine Nat.le_of_not_lt fun longer => ?_
    exact Nat.lt_irrefl _ (early g.steps (going g.steps longer).1).1
  · rw [part.size, sizes]
    rfl
  · have alone := part.row 0 (show 0 < 1 by decide) j hj
    rw [same, Nat.zero_mul, Nat.zero_add] at alone
    exact Array.ext' ((whole.row b hb j hj).trans alone.symm)
  · have alone := part.score 0 (show 0 < 1 by decide) j hj
    rw [same, Nat.zero_mul, Nat.zero_add] at alone
    exact (whole.score b hb j hj).trans alone.symm

/-- Two prompts of one token, with one step to go: the second row of the batch is the row of the
second prompt alone. -/
theorem beam_elements_independent_of_two_prompts :
    let c : Configuration :=
      { batchSize := 2, numBeams := 2, vocabSize := 2, maxLength := 2, eosToken := 1, padToken := 0 }
    let logits : List Token → List Binary32 := fun tokens =>
      if tokens = [0] then [⟨0x3f800000⟩, .zero] else [.zero, ⟨0x3f800000⟩]
    ∃ output g alone g', (Generator.runToEnd c #[0, 1] (.ofSlots logits)).Gives (output, g) ∧
      (Generator.runToEnd c.single #[1] (.ofSlots logits)).Gives (alone, g') ∧
      output.row 1 = alone.row 0 ∧ output.scores[1]! = alone.scores[0]! := by
  intro c logits
  have accepted : c.validate = .ok () := by decide +kernel
  have fits : c.Addressable := ⟨⟨by decide, by decide⟩, by decide, by decide⟩
  have run : c.Runnable := ⟨Configuration.valid_of_validate accepted, fits, by decide, by decide⟩
  have prompts : SequenceStore.Accepts #[0, 1] 2 2 := ⟨by decide, by decide, by decide⟩
  have width : ∀ tokens, (logits tokens).length = 2 := by
    intro tokens
    by_cases h : tokens = [0]
    · simp [logits, h]
    · simp [logits, h]
  have own : c.own #[0, 1] 1 = #[1] := by decide +kernel
  have clean : ∀ t s m s', BeamSearch.Tracks c logits #[0, 1] t s →
      BeamSearch.stops c logits #[0, 1] t = false →
      BeamSearch.Decoded c [.minLength 0, .repetitionPenalty c.repetitionPenalty] m s s' →
      (∀ r < 4, ScoreMatrix.row m 2 r = (logits (s.state.sequences.slot r)).toArray) →
      NoNegativeNaN s'.state.scores.scores := by
    intro t s m s' tracks going decoded rows
    have room : c.promptLength #[0, 1] + t < 2 := c.room_of_going going
    rw [show c.promptLength #[0, 1] = 1 from by decide] at room
    obtain rfl : t = 0 := by omega
    have live : ∀ b < 2, (BeamSearch.plain c logits #[0, 1] 0 b).Clean c logits := by
      intro b hb _ j hj
      rcases Nat.le_one_iff_eq_zero_or_eq_one.1 (Nat.le_of_lt_succ hb) with rfl | rfl <;>
      rcases Nat.le_one_iff_eq_zero_or_eq_one.1 (Nat.le_of_lt_succ hj) with rfl | rfl
      all_goals
        unfold NoNegativeNaN
        decide +kernel
    refine .of_rows decoded.sound.state.scores fun r hr => ?_
    have inside : r % 2 < 2 := Nat.mod_lt _ (by decide)
    have row := tracks.row_eq decoded rows (div_lt_rows hr) rfl inside
    rw [show c.numBeams = 2 from rfl, Nat.div_add_mod'] at row
    exact row ▸ live _ (div_lt_rows hr) rfl _ inside
  obtain ⟨output, g, batched, -, -, all⟩ := beam_elements_independent accepted (by decide)
    (by decide) fits prompts width fun g₀ made t g reached =>
      BeamSearch.noNegativeNaN_of_reaches run width clean accepted prompts made reached
  obtain ⟨alone, g', single, -, -, -, same⟩ := all 1 (by decide)
  exact ⟨output, g, alone, g', batched, own ▸ single, same 0 (by decide)⟩

end TokenSearch
