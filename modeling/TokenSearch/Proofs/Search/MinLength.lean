import TokenSearch.Proofs.Beam.Run
import TokenSearch.Proofs.LogProbabilities
import TokenSearch.Proofs.Search.Completion

/-!
The minimum length in greedy search. While the sequences are shorter, the score of the end token is
the lowest finite number, rescaled by the penalty for repeated tokens if the prompt holds the end
token. Any other token that scores more is chosen before it, and no slot ends.
-/

namespace TokenSearch

open TokenSearch.Run TokenSearch.Action

/-! ## What the minimum length relies on -/

/-- In every row of logits there is no NaN and no positive infinity, and a token that does not end
a sequence has a finite one. -/
def Model.Regular (c : Configuration) (model : Model) : Prop :=
  ∀ passes sequences logits, sequences.length = c.slotCount →
    model.forward passes sequences = .ok logits → ∀ r < c.slotCount,
      (∀ x ∈ ScoreMatrix.row logits c.vocabSize r, x.isNaN = false ∧ x ≠ Binary32.top) ∧
      ∃ t < c.vocabSize, (t : Token) ≠ c.eosToken ∧
        (ScoreMatrix.row logits c.vocabSize r)[t]!.isFinite = true

theorem Model.Fits.size_eq {c : Configuration} {model : Model} (sized : model.Fits c)
    {passes : Nat} {sequences : List (List Token)} {logits : Scores}
    (count : sequences.length = c.slotCount)
    (forward : model.forward passes sequences = .ok logits) :
    logits.size = c.slotCount * c.vocabSize := by
  obtain ⟨_, same, size⟩ := sized passes sequences count
  rw [forward] at same
  cases same
  exact size

theorem Model.Regular.normalizable {c : Configuration} {model : Model} (regular : model.Regular c)
    (sized : model.Fits c) {passes : Nat} {sequences : List (List Token)} {logits : Scores}
    (count : sequences.length = c.slotCount) (forward : model.forward passes sequences = .ok logits)
    {r : Nat} (hr : r < c.slotCount) : Normalizable (ScoreMatrix.row logits c.vocabSize r) := by
  obtain ⟨plain, t, ht, -, finite⟩ := regular passes sequences logits count forward r hr
  have width := ScoreMatrix.size_row hr (Nat.le_of_eq (sized.size_eq count forward).symm)
  rw [← width] at ht
  refine ⟨fun x hx => (plain x hx).1, fun x hx => (plain x hx).2, _, ?_, finite⟩
  rw [getElem!_pos _ t ht]
  exact Array.getElem_mem ht

namespace Configuration

/-- What the end token scores while it is held back behind a prompt. -/
def heldScore (c : Configuration) (prompt : List Token) : Binary32 :=
  TokenSearch.heldScore c.eosToken c.repetitionPenalty prompt

/-- Some token that does not end a sequence scores more than an end token that is held back. -/
def Spares (c : Configuration) (prompt : List Token) (row : Scores) : Prop :=
  ∃ t < c.vocabSize, (t : Token) ≠ c.eosToken ∧ (c.heldScore prompt).lt row[t]! = true

def SparesAll (c : Configuration) (input : Tokens) (scores : Scores) : Prop :=
  ∀ b < c.batchSize, ∀ i < c.numBeams, c.Spares (prompt input (c.promptLength input) b)
    (ScoreMatrix.row scores c.vocabSize (b * c.numBeams + i))

/-- No end token between a prompt of `length` tokens and the minimum length. -/
def Late (c : Configuration) (length : Nat) (tokens : List Token) : Prop :=
  ∀ k, length ≤ k → k < c.minLength → tokens[k]? ≠ some c.eosToken

variable {c : Configuration} {length : Nat} {tokens : List Token}

/-- A score above the lowest finite number is enough where the penalty does not raise that number or
the prompt does not hold the end token. -/
theorem spares_of_least {prompt : List Token} {row : Scores} (accepted : c.validate = .ok ())
    (gentle : Binary32.one.le c.repetitionPenalty = true ∨ c.eosToken ∉ prompt)
    (spared : ∃ t < c.vocabSize, (t : Token) ≠ c.eosToken ∧ Binary32.least.lt row[t]! = true) :
    c.Spares prompt row := by
  obtain ⟨finite, positive⟩ := penalty_of_validate accepted
  obtain ⟨t, inside, goes, high⟩ := spared
  exact ⟨t, inside, goes, Binary32.lt_of_le_of_lt (heldScore_le_least finite positive gentle) high⟩

theorem heldScore_append {prompt : List Token} (fresh : c.eosToken ∉ tokens) :
    c.heldScore (prompt ++ tokens) = c.heldScore prompt := by
  simp [heldScore, TokenSearch.heldScore, fresh]

theorem Late.append (late : c.Late length tokens) {token : Token}
    (spared : tokens.length < c.minLength → token ≠ c.eosToken) :
    c.Late length (tokens ++ [token]) := by
  intro k first below found
  rcases Nat.lt_trichotomy k tokens.length with old | rfl | beyond
  · rw [List.getElem?_append_left old] at found
    exact late k first below found
  · rw [List.getElem?_concat_length, Option.some.injEq] at found
    exact spared below found
  · rw [List.getElem?_eq_none (List.length_append.trans_le beyond)] at found
    cases found

theorem Late.not_mem_drop (late : c.Late length tokens) (short : tokens.length ≤ c.minLength) :
    c.eosToken ∉ tokens.drop length := by
  intro member
  obtain ⟨k, found⟩ := List.getElem?_of_mem member
  rw [List.getElem?_drop] at found
  have inside := (List.getElem?_eq_some_iff.1 found).1
  exact late _ (Nat.le_add_right _ _) (Nat.lt_of_lt_of_le inside short) found

theorem Spares.chosen_ne {prompt : List Token} {row : Scores} (spares : c.Spares prompt row)
    (width : row.size = c.vocabSize) (small : c.vocabSize ≤ 2 ^ 31)
    (held : ∀ t < c.vocabSize, (t : Token) = c.eosToken → row[t]! = c.heldScore prompt) :
    Token.ofIndex (Selection.leastArgmax row) ≠ c.eosToken := by
  obtain ⟨other, inside, -, high⟩ := spares
  have number : (c.heldScore prompt).isNaN = false := (Binary32.lt_iff.1 high).1
  obtain ⟨best, largest⟩ := Selection.leastArgmax_largest (by omega)
    (Binary32.lt_of_le_of_lt (Binary32.bottom_le number) high)
  rw [width] at best
  rw [Token.ofIndex_of_lt (by omega)]
  intro chosen
  have lower := largest other (by omega)
  rw [held _ best chosen, high] at lower
  cases lower

end Configuration

/-- Nothing has ended: no greedy slot has generated the end token, and no beam is a hypothesis. -/
def Search.Withholds (c : Configuration) (input : Tokens) : Search → Prop
  | greedy s => ∀ b < c.batchSize, s.state.termination.mask[b]! = false ∧
    c.eosToken ∉ (s.state.sequences.slot b).drop (c.promptLength input)
  | beam s => ∀ b < c.batchSize, s.ranking.elements[b]!.pool.kept = []

namespace GreedySearch

section Step

variable {c : Configuration} {s s' : GreedySearch} {logits : Scores} {b : Nat}

theorem Decoded.bestToken_ne (fits : c.Addressable) (greedy : c.numBeams = 1) (sound : s.Sound c)
    (decoded : Decoded c [.minLength c.minLength, .repetitionPenalty c.repetitionPenalty]
      logits s s')
    (size : logits.size = c.slotCount * c.vocabSize) (hb : b < c.batchSize)
    (short : s.state.sequences.length < c.minLength)
    (spared : c.Spares (s.state.sequences.slot b)
      (ScoreMatrix.row s'.state.scores.scores c.vocabSize b)) :
    bestToken c [.minLength c.minLength, .repetitionPenalty c.repetitionPenalty] logits s b ≠
      c.eosToken := by
  have slot : b < c.slotCount := Configuration.slotCount_of_greedy greedy ▸ hb
  have width := ScoreMatrix.size_row slot (Nat.le_of_eq decoded.sound.state.scores.symm)
  have width' := ScoreMatrix.size_row slot (Nat.le_of_eq size.symm)
  rw [bestToken, ← decoded.rows b slot]
  refine spared.chosen_ne width fits.tokens fun t inside held => ?_
  rw [decoded.rows b slot]
  refine getElem!_processedRow ?_ (by omega) held
  rwa [sound.state.sequences.length_slot slot]

end Step

/-! ## Whole runs -/

structure Withheld (c : Configuration) (input : Tokens) (t : Nat) (s : GreedySearch) : Prop where
  sound : s.Sound c
  length : s.state.sequences.length = c.promptLength input + t
  prompts : ∀ b < c.batchSize,
    prompt input (c.promptLength input) b <+: s.state.sequences.slot b
  late : ∀ b < c.batchSize, c.Late (c.promptLength input) (s.state.sequences.slot b)
  going : c.promptLength input + t ≤ c.minLength →
    ∀ b < c.batchSize, s.state.termination.mask[b]! = false
  done : s.state.termination.done = true →
    (∀ b < c.batchSize, s.state.termination.mask[b]! = true) ∨
      c.maxLength ≤ s.state.sequences.length

section Withheld

variable {c : Configuration} {input : Tokens} {t : Nat} {s s' : GreedySearch} {logits : Scores}

theorem Withheld.length_slot (greedy : c.numBeams = 1) (withheld : Withheld c input t s) {b : Nat}
    (hb : b < c.batchSize) : (s.state.sequences.slot b).length = c.promptLength input + t := by
  rw [withheld.sound.state.sequences.length_slot (Configuration.slotCount_of_greedy greedy ▸ hb),
    withheld.length]

theorem Withheld.withholds (greedy : c.numBeams = 1) (withheld : Withheld c input t s)
    (short : c.promptLength input + t ≤ c.minLength) : (Search.greedy s).Withholds c input := by
  intro b hb
  refine ⟨withheld.going short b hb, (withheld.late b hb).not_mem_drop ?_⟩
  rwa [withheld.length_slot greedy hb]

theorem withheld_new (accepted : c.validate = .ok ()) (fits : c.Allocatable)
    (greedy : c.numBeams = 1) (prompts : SequenceStore.Accepts input c.batchSize c.maxLength) :
    ∃ s, (Search.new c input).Gives (.greedy s) ∧ Withheld c input 0 s := by
  obtain ⟨s, made, sound, length, held, flags, done⟩ := gives_new fits accepted greedy prompts
  refine ⟨s, made, sound, length, fun b hb => ?_, fun b hb k first _ found => ?_, fun _ => flags,
    fun ended => .inr ?_⟩
  · exact ⟨[], by rw [List.append_nil, held b hb]⟩
  · rw [held b hb, List.getElem?_eq_none (by rw [length_prompt prompts hb]; exact first)] at found
    cases found
  · rw [length]
    exact of_decide_eq_true (done.symm.trans ended)

section Decode

variable (fits : c.Addressable) (greedy : c.numBeams = 1)
  (prompts : SequenceStore.Accepts input c.batchSize c.maxLength)
  (withheld : Withheld c input t s)
  (decoded : Decoded c [.minLength c.minLength, .repetitionPenalty c.repetitionPenalty] logits s s')
  (size : logits.size = c.slotCount * c.vocabSize)
  (spared : c.promptLength input + t < c.minLength → c.SparesAll input s'.state.scores.scores)

include fits greedy prompts withheld decoded size spared

theorem Withheld.goes_on {b : Nat} (hb : b < c.batchSize)
    (short : c.promptLength input + t < c.minLength) :
    s.state.termination.mask[b]! = false ∧
      bestToken c [.minLength c.minLength, .repetitionPenalty c.repetitionPenalty] logits s b ≠
        c.eosToken := by
  refine ⟨withheld.going (Nat.le_of_lt short) b hb, ?_⟩
  refine decoded.bestToken_ne fits greedy withheld.sound size hb (withheld.length ▸ short) ?_
  have spares := spared short b hb 0 (greedy ▸ Nat.one_pos)
  rw [greedy, Nat.mul_one, Nat.add_zero] at spares
  obtain ⟨tokens, grown⟩ := withheld.prompts b hb
  have fresh := (withheld.late b hb).not_mem_drop (by
    rw [withheld.length_slot greedy hb]
    omega)
  rw [← grown, List.drop_left' (length_prompt prompts hb)] at fresh
  rwa [← grown, Configuration.Spares, Configuration.heldScore_append fresh]

theorem Withheld.decode : Withheld c input (t + 1) s' := by
  have held {b : Nat} (hb : b < c.batchSize) :=
    withheld.goes_on fits greedy prompts decoded size spared hb
  constructor
  case sound => exact decoded.sound
  case length => rw [decoded.length, withheld.length, Nat.add_assoc]
  case prompts =>
    intro b hb
    rw [decoded.slots b hb]
    exact (withheld.prompts b hb).trans (List.prefix_append _ _)
  case late =>
    intro b hb
    rw [decoded.slots b hb]
    refine (withheld.late b hb).append fun short => ?_
    obtain ⟨going, other⟩ := held hb (withheld.length_slot greedy hb ▸ short)
    rwa [going, if_neg (by decide)]
  case going =>
    intro short b hb
    obtain ⟨going, other⟩ := held hb (by omega)
    rw [decoded.mask b hb, going, decide_eq_false other]
    rfl
  case done =>
    intro ended
    rw [decoded.done, Bool.or_eq_true, Bool.or_eq_true, decide_eq_true_iff] at ended
    rcases ended with (before | all) | full
    · refine (withheld.done before).imp (fun flags b hb => ?_) fun full => ?_
      · rw [decoded.mask b hb, flags b hb, Bool.true_or]
      · rw [decoded.length]
        omega
    · exact .inl fun b hb => (all_flags_iff (decoded.sound.state.mask.trans
        (Configuration.slotCount_of_greedy greedy))).1 all b hb
    · exact .inr (Nat.le_of_eq full.symm)

end Decode

theorem Withheld.late_fit (greedy : c.numBeams = 1)
    (withheld : Withheld c input t s) (ended : s.state.termination.done = true) {b : Nat}
    (hb : b < c.batchSize) : c.Late (c.promptLength input)
      (Ranking.fit c.maxLength c.padToken (s.state.sequences.slot b)) := by
  have length := withheld.length_slot greedy hb
  have room := withheld.sound.state.sequences.length
  rw [withheld.length] at room
  intro k first below found
  rw [Ranking.fit, List.take_of_length_le (length ▸ room), length] at found
  rcases Nat.lt_or_ge k (c.promptLength input + t) with held | beyond
  · rw [List.getElem?_append_left (length ▸ held)] at found
    exact withheld.late b hb k first below found
  · have full : c.maxLength ≤ c.promptLength input + t := by
      rcases withheld.done ended with flags | full
      · have going := withheld.going (by omega) b hb
        exact absurd (going.symm.trans (flags b hb)) (by decide)
      · exact withheld.length ▸ full
    rw [Nat.sub_eq_zero_of_le full, List.replicate_zero, List.append_nil,
      List.getElem?_eq_none (length ▸ beyond)] at found
    cases found

end Withheld

structure Stands (c : Configuration) (input : Tokens) (model : Model) (g₀ : Generator) (t : Nat)
    (g : Generator) : Prop where
  model : g.model = model
  reached : g₀.Reaches t g
  kept : ∃ s, g.search = .greedy s ∧ Withheld c input t s

section Runs

variable {c : Configuration} {input : Tokens} {model : Model} {g₀ : Generator}
  (accepted : c.validate = .ok ()) (fits : c.Addressable) (greedy : c.numBeams = 1)
  (prompts : SequenceStore.Accepts input c.batchSize c.maxLength) (sized : model.Fits c)
  (spared : ∀ t g, g₀.Reaches (t + 1) g → c.promptLength input + t < c.minLength →
    c.SparesAll input g.search.state.scores.scores)

include accepted fits greedy prompts sized spared

theorem turns_stands : Generator.Turns (Stands c input model g₀)
    (fun _ g => ∃ t s, g.search = .greedy s ∧ Withheld c input t s ∧
      s.state.termination.done = true)
    (c.maxLength - c.promptLength input) := by
  rintro t g ⟨held, reached, s, search, withheld⟩
  have valid := Configuration.valid_of_validate accepted
  have answer : Search.isDone.Takes g.search s.state.termination.done (.greedy s) := by
    rw [search]
    exact Search.takes_greedy (takes_isDone s)
  refine ⟨_, _, answer, fun ended => ⟨t, s, rfl, withheld, ended⟩, fun goes => ?_⟩
  have room : s.state.sequences.length < c.maxLength := by
    refine Nat.lt_of_not_le fun full => ?_
    exact absurd (goes.symm.trans (withheld.sound.full full)) (by decide)
  have count : s.state.sequences.toList.length = c.slotCount := by
    rw [SequenceStore.toList_eq, List.length_map, List.length_range]
    exact withheld.sound.state.sequences.slots
  obtain ⟨logits, forward, size⟩ := sized g.passes _ count
  obtain ⟨s', decoded, taken⟩ := takes_step (g := { g with search := .greedy s }) valid
    fits.toAllocatable greedy withheld.sound room rfl (held ▸ forward) size
  have next := reached.step (goes ▸ answer) taken
  have spares := spared t _ next
  dsimp only [Search.state] at spares
  have longer := withheld.decode fits greedy prompts decoded size spares
  rw [withheld.length] at room
  exact ⟨by omega, _, _, taken, held, next, s', rfl, longer⟩

theorem gives_runToEnd_late {s₀ : GreedySearch} (made : (Search.new c input).Gives (.greedy s₀))
    (first : Withheld c input 0 s₀) (start : g₀ = ⟨.greedy s₀, model, 0, 0⟩) :
    ∃ tokens scores g, (Generator.runToEnd c input model).Gives
        (⟨tokens, scores, c.numReturned, c.maxLength⟩, g) ∧
      ∀ i < c.batchSize * c.numReturned,
        c.Late (c.promptLength input) (ScoreMatrix.row tokens c.maxLength i).toList := by
  have valid := Configuration.valid_of_validate accepted
  have one : c.numReturned = 1 := by
    have returned := valid.returned
    omega
  subst start
  obtain ⟨-, tokens, scores, g, given, rows⟩ := Generator.gives_runToEnd_of_turns
    (Q := fun _ tokens _ _ => ∀ i < c.batchSize * c.numReturned,
      c.Late (c.promptLength input) (ScoreMatrix.row tokens c.maxLength i).toList)
    valid fits.toAllocatable made first.sound.state.configuration first.length
    ⟨rfl, .start, s₀, rfl, first⟩
    (turns_stands accepted fits greedy prompts sized spared) fun _ g ended => by
      obtain ⟨t, s, search, withheld, done⟩ := ended
      have finalized := takes_finalize fits.toAllocatable greedy withheld.sound
      rw [one, Nat.mul_one, search]
      refine ⟨_, _, _, Search.takes_greedy finalized, fun b hb => ?_⟩
      rw [ScoreMatrix.row_flatMap_range (by simp) hb]
      exact withheld.late_fit greedy done hb
  exact ⟨tokens, scores, g, given, rows⟩

end Runs

/-! ## The first step -/

theorem reaches_one {c : Configuration} {input : Tokens} {logits : List Token → List Binary32}
    (accepted : c.validate = .ok ()) (fits : c.Allocatable) (greedy : c.numBeams = 1)
    (prompts : SequenceStore.Accepts input c.batchSize c.maxLength)
    (room : c.promptLength input < c.maxLength)
    (width : ∀ tokens, (logits tokens).length = c.vocabSize) :
    ∃ g₀ g s, (Generator.new c input (.ofSlots logits)).Gives g₀ ∧ g₀.Reaches 1 g ∧
      g.search = .greedy s ∧ ∀ b < c.batchSize,
        let start := prompt input (c.promptLength input) b
        ScoreMatrix.row s.state.scores.scores c.vocabSize b = processedRow c.eosToken
          [.minLength c.minLength, .repetitionPenalty c.repetitionPenalty] start
          (logits start).toArray ∧
        s.state.termination.mask[b]! = decide (Decoding.choose c logits start = c.eosToken) := by
  have valid := Configuration.valid_of_validate accepted
  have slots : c.slotCount = c.batchSize := Configuration.slotCount_of_greedy greedy
  obtain ⟨s, made, sound, length, held, flags, done⟩ := gives_new fits accepted greedy prompts
  obtain ⟨m, forward, size, rows⟩ := Model.forward_ofSlots sound.state.sequences width 0
  obtain ⟨s', decoded, taken⟩ := takes_step (g := ⟨.greedy s, .ofSlots logits, 0, 0⟩) valid fits
    greedy sound (length ▸ room) rfl forward size
  have going : s.state.termination.done = false := by
    rw [done]
    exact decide_eq_false (Nat.not_le.2 room)
  have asked : Search.isDone.Takes (.greedy s) false (.greedy s) :=
    going ▸ Search.takes_greedy (takes_isDone s)
  refine ⟨_, _, s', made.bind (gives_pure _), .step .start asked taken, rfl, fun b hb => ?_⟩
  have row := rows b (slots ▸ hb)
  rw [held b hb] at row
  refine ⟨?_, ?_⟩
  · rw [decoded.rows b (slots ▸ hb), held b hb, row]
  · rw [decoded.mask b hb, flags b hb, Bool.false_or, bestToken, held b hb, row]
    rfl

end GreedySearch

end TokenSearch
