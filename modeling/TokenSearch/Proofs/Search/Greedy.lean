import Mathlib.Dynamics.FixedPoints.Basic
import TokenSearch.Proofs.Search.Steps
import TokenSearch.Proofs.Selection.LeastArgmax

/-!
Greedy search against the loop that decodes one prompt. A slot that has ended goes on being
scored and chosen for, and its flag turns every further token into padding, so it stands for a
decoding that no longer moves; the run is done at the first step at which no decoding moves.
-/

namespace TokenSearch

open TokenSearch.Run TokenSearch.Action

/-! ## Decoding one prompt -/

/-- One prompt with the tokens appended so far. -/
structure Decoding where
  tokens : List Token
  /-- The token appended last ended the sequence. -/
  finished : Bool
deriving DecidableEq, Repr

namespace Decoding

section

variable (c : Configuration) (logits : List Token → List Binary32)

def choose (tokens : List Token) : Token :=
  Token.ofIndex <| Selection.leastArgmax <| processedRow c.eosToken
    [.minLength c.minLength, .repetitionPenalty c.repetitionPenalty] tokens (logits tokens).toArray

/-- Appends the best token, unless the sequence has ended or is full. -/
def advance (d : Decoding) : Decoding :=
  if d.finished || c.maxLength ≤ d.tokens.length then d
  else ⟨d.tokens ++ [choose c logits d.tokens], choose c logits d.tokens = c.eosToken⟩

def after (steps : Nat) (tokens : List Token) : Decoding :=
  (advance c logits)^[steps] ⟨tokens, false⟩

def padded (d : Decoding) : List Token :=
  d.tokens ++ List.replicate (c.maxLength - d.tokens.length) c.padToken

end

variable {c : Configuration} {logits : List Token → List Binary32} {d : Decoding}

theorem advance_of_finished (h : d.finished = true) : advance c logits d = d := by
  rw [advance, h]
  rfl

theorem advance_of_open (h : d.finished = false) (room : d.tokens.length < c.maxLength) :
    advance c logits d =
      ⟨d.tokens ++ [choose c logits d.tokens], choose c logits d.tokens = c.eosToken⟩ := by
  rw [advance, h, Bool.false_or, if_neg (by simpa using room)]

theorem after_succ (steps : Nat) (tokens : List Token) :
    after c logits (steps + 1) tokens = advance c logits (after c logits steps tokens) :=
  Function.iterate_succ_apply' _ _ _

theorem length_after (logits : List Token → List Binary32) {steps : Nat} {tokens : List Token}
    (room : tokens.length + steps ≤ c.maxLength) :
    (after c logits steps tokens).tokens.length ≤ tokens.length + steps ∧
      ((after c logits steps tokens).finished = false →
        (after c logits steps tokens).tokens.length = tokens.length + steps) := by
  induction steps with
  | zero => exact ⟨Nat.le_refl _, fun _ => rfl⟩
  | succ steps ih =>
    obtain ⟨le, eq⟩ := ih (by omega)
    rw [after_succ]
    cases ended : (after c logits steps tokens).finished with
    | true =>
      rw [advance_of_finished ended]
      exact ⟨by omega, fun h => absurd (ended.symm.trans h) (by decide)⟩
    | false =>
      have length := eq ended
      rw [advance_of_open ended (by omega)]
      simp only [List.length_append, List.length_singleton]
      exact ⟨by omega, fun _ => by omega⟩

theorem after_add {steps : Nat} {tokens : List Token} (more : Nat)
    (h : (after c logits steps tokens).finished = true) :
    after c logits (steps + more) tokens = after c logits steps tokens := by
  have fixed : Function.IsFixedPt (advance c logits) (after c logits steps tokens) :=
    advance_of_finished h
  rw [after, Nat.add_comm, Function.iterate_add_apply]
  exact fixed.iterate more

theorem length_padded (h : d.tokens.length ≤ c.maxLength) : (d.padded c).length = c.maxLength := by
  rw [padded, List.length_append, List.length_replicate, Nat.add_sub_cancel' h]

end Decoding

/-! ## Steps of a greedy search -/

namespace GreedySearch

section Step

variable {c : Configuration} {g : GreedySearch} (valid : c.Valid) (fits : c.Allocatable)
  (greedy : c.numBeams = 1)

include valid fits greedy

theorem takes_next (sound : g.state.Sound c) (one : g.nextTokens.size = c.batchSize) :
    ∃ tokens, next.Takes g () { g with nextTokens := tokens } ∧ tokens.size = c.batchSize ∧
      ∀ b < c.batchSize, tokens[b]! = Token.ofIndex
        (Selection.leastArgmax (ScoreMatrix.row g.state.scores.scores c.vocabSize b)) := by
  have slots : c.slotCount = c.batchSize := Configuration.slotCount_of_greedy greedy
  have matrix := fits.matrix_lt
  have size := sound.scores
  rw [slots] at matrix size
  obtain ⟨tokens, chosen, size', each⟩ :=
    Selection.argmaxRows_eq size (by omega) valid.vocabulary (Nat.le_of_eq one.symm)
  rw [← sound.configuration] at chosen
  refine ⟨tokens, (takes_call _ _).bind <| (takes_object _).bind <|
    (takes_ofOutcome chosen).bind (takes_update _ _), size'.trans one, fun b hb => ?_⟩
  rw [each b hb, Selection.argmax_eq]

omit valid in
theorem takes_append (sound : g.state.Sound c) (one : g.nextTokens.size = c.batchSize)
    (room : g.state.sequences.length < c.maxLength) :
    ∃ store, append.Takes g () { g with state := { g.state with
        sequences := store
        termination := { g.state.termination with
          done := g.state.termination.done || decide (store.length = c.maxLength) } } } ∧
      store.Sized c.slotCount c.maxLength ∧ store.length = g.state.sequences.length + 1 ∧
      ∀ b < c.batchSize, store.slot b = g.state.sequences.slot b ++ [g.nextTokens[b]!] := by
  have slots : c.slotCount = c.batchSize := Configuration.slotCount_of_greedy greedy
  have sequences := fits.sequences_lt
  obtain ⟨store, appended, sized, longer, each⟩ := SequenceStore.takes_append sound.sequences room
    (by omega) (one.trans slots.symm)
  rw [slots] at each
  refine ⟨store, (takes_object _).bind ?_, sized, longer, each⟩
  have put : (onState (SearchState.onSequences (SequenceStore.append g.nextTokens))).Takes g ()
      { g with state := { g.state with sequences := store } } := takes_focus (takes_focus appended)
  refine put.bind <| (takes_object _).bind ?_
  dsimp only
  rw [sound.configuration]
  by_cases full : store.length = c.maxLength
  · rw [if_pos full, decide_eq_true full, Bool.or_true]
    exact takes_focus (SearchState.takes_markDone _)
  · rw [if_neg full, decide_eq_false full, Bool.or_false]
    exact takes_pure _ _

end Step

theorem takes_checkForEos (g : GreedySearch) :
    let t := g.state.termination
    let checked := TokenSearch.checkForEos g.nextTokens t.mask t.eosToken t.padToken t.done
    checkForEos.Takes g ()
      ⟨{ g.state with termination := { t with mask := checked.mask, done := checked.done } },
        checked.tokens⟩ :=
  (takes_object _).bind <| (takes_focus (takes_focus (Termination.takes_check _ _))).bind
    (takes_update _ _)

theorem takes_chosen {c : Configuration} {g : GreedySearch} (valid : c.Valid)
    (fits : c.Allocatable) (greedy : c.numBeams = 1) (sound : g.state.Sound c)
    (one : g.nextTokens.size = c.batchSize) :
    let flags := g.state.termination.mask
    let best (b : Nat) : Token := Token.ofIndex
      (Selection.leastArgmax (ScoreMatrix.row g.state.scores.scores c.vocabSize b))
    ∃ (tokens : Tokens) (mask : Array Bool) (g₁ : GreedySearch), next.Takes g () g₁ ∧
      checkForEos.Takes g₁ () ⟨{ g.state with termination :=
        ⟨mask, g.state.termination.done || mask.all id, c.eosToken, c.padToken⟩ }, tokens⟩ ∧
      tokens.size = c.batchSize ∧ mask.size = c.batchSize ∧ ∀ b < c.batchSize,
        tokens[b]! = (if flags[b]! then c.padToken else best b) ∧
        mask[b]! = (flags[b]! || best b = c.eosToken) := by
  intro flags best
  obtain ⟨tokens, chosen, size, each⟩ := takes_next valid fits greedy sound one
  have checked := takes_checkForEos { g with nextTokens := tokens }
  have inside : flags.size = c.batchSize :=
    sound.mask.trans (Configuration.slotCount_of_greedy greedy)
  dsimp only at checked
  rw [sound.eosToken, sound.padToken] at checked
  refine ⟨_, _, _, chosen, checked, by simpa using size, by simpa using inside, fun b hb => ?_⟩
  rw [getElem!_tokens_checkForEos _ _ _ (size ▸ hb) (inside ▸ hb),
    getElem!_mask_checkForEos _ _ _ (size ▸ hb) (inside ▸ hb), each b hb]
  exact ⟨rfl, rfl⟩

theorem takes_isDone (g : GreedySearch) : isDone.Takes g g.state.termination.done g := by
  unfold isDone onState
  exact takes_focus (SearchState.takes_isDone g.state)

/-! ## A whole step -/

structure Sound (c : Configuration) (g : GreedySearch) : Prop where
  state : g.state.Sound c
  nextTokens : g.nextTokens.size = c.batchSize
  full : c.maxLength ≤ g.state.sequences.length → g.state.termination.done = true

theorem gives_new {c : Configuration} {input : Tokens} (fits : c.Allocatable)
    (accepted : c.validate = .ok ()) (greedy : c.numBeams = 1)
    (prompts : SequenceStore.Accepts input c.batchSize c.maxLength) :
    ∃ g, (Search.new c input).Gives (.greedy g) ∧ g.Sound c ∧
      g.state.sequences.length = c.promptLength input ∧
      (∀ b < c.batchSize,
        g.state.sequences.slot b = prompt input (c.promptLength input) b) ∧
      (∀ b < c.batchSize, g.state.termination.mask[b]! = false) ∧
      g.state.termination.done = decide (c.maxLength ≤ c.promptLength input) := by
  have valid := Configuration.valid_of_validate accepted
  have slots : c.slotCount = c.batchSize := Configuration.slotCount_of_greedy greedy
  have alloc := fits.slotCount_lt valid
  rw [slots] at alloc
  obtain ⟨s, made, sound, length, -, held, flags, done⟩ := SearchState.gives_new valid fits prompts
  rw [slots] at held flags
  have created : (new c input).Gives ⟨s, .replicate c.batchSize 0⟩ :=
    (gives_require _ (by simpa using greedy)).bind <|
      (gives_ofOutcome (by rw [accepted]; rfl)).bind <|
      (gives_allocTokens alloc).bind <| made.bind (gives_pure _)
  have kind : c.isBeamSearch = false := by simp [Configuration.isBeamSearch, greedy]
  refine ⟨⟨s, .replicate c.batchSize 0⟩, ?_, ⟨sound, Array.size_replicate, fun full => ?_⟩, length,
    fun b hb => ?_, flags, done⟩
  · refine (gives_ofOutcome (by rw [accepted]; rfl)).bind <| (gives_emit _).bind ?_
    rw [kind]
    exact created.bind (gives_pure _)
  · rw [done, ← length]
    exact decide_eq_true full
  · rw [held b hb, greedy, Nat.div_one]

def bestToken (c : Configuration) (processors : List Processor) (logits : Scores)
    (g : GreedySearch) (b : Nat) : Token :=
  Token.ofIndex <| Selection.leastArgmax <| processedRow c.eosToken processors
    (g.state.sequences.slot b) (ScoreMatrix.row logits c.vocabSize b)

structure Decoded (c : Configuration) (processors : List Processor) (logits : Scores)
    (g g' : GreedySearch) : Prop where
  sound : g'.Sound c
  length : g'.state.sequences.length = g.state.sequences.length + 1
  rows : ∀ r < c.slotCount, ScoreMatrix.row g'.state.scores.scores c.vocabSize r =
    processedRow c.eosToken processors (g.state.sequences.slot r)
      (ScoreMatrix.row logits c.vocabSize r)
  slots : ∀ b < c.batchSize, g'.state.sequences.slot b = g.state.sequences.slot b ++
    [if g.state.termination.mask[b]! then c.padToken else bestToken c processors logits g b]
  mask : ∀ b < c.batchSize, g'.state.termination.mask[b]! =
    (g.state.termination.mask[b]! || bestToken c processors logits g b = c.eosToken)
  done : g'.state.termination.done = (g.state.termination.done ||
    g'.state.termination.mask.all id || decide (g'.state.sequences.length = c.maxLength))

theorem takes_decode {c : Configuration} {g : GreedySearch} (valid : c.Valid)
    (fits : c.Allocatable) (greedy : c.numBeams = 1) (sound : g.Sound c)
    (room : g.state.sequences.length < c.maxLength) {logits : Scores}
    (size : logits.size = c.slotCount * c.vocabSize) (processors : List Processor) :
    ∃ g', (Search.decode logits processors).Takes (.greedy g) () (.greedy g') ∧
      Decoded c processors logits g g' := by
  have slots : c.slotCount = c.batchSize := Configuration.slotCount_of_greedy greedy
  obtain ⟨m, scored, size', rows⟩ := Search.takes_scored (s := .greedy g) valid fits
    sound.state size processors
  let g₁ : GreedySearch := { g with state := g.state.withMatrix m }
  have sound₁ : g₁.state.Sound c := sound.state.withMatrix size'
  obtain ⟨tokens, mask, g₂, chosen, checked, one, flags, each⟩ :=
    takes_chosen valid fits greedy sound₁ sound.nextTokens
  let g₃ : GreedySearch := ⟨{ g₁.state with termination :=
    ⟨mask, g₁.state.termination.done || mask.all id, c.eosToken, c.padToken⟩ }, tokens⟩
  have sound₃ : g₃.state.Sound c :=
    { sound₁ with mask := flags.trans slots.symm, eosToken := rfl, padToken := rfl }
  obtain ⟨store, appended, sized, longer, grown⟩ :=
    takes_append (g := g₃) fits greedy sound₃ one room
  have best : ∀ b < c.batchSize, Token.ofIndex
      (Selection.leastArgmax (ScoreMatrix.row m c.vocabSize b)) =
      bestToken c processors logits g b := by
    intro b hb
    rw [rows b (slots ▸ hb), bestToken]
    rfl
  refine ⟨_, Search.takes_decode scored <| (Search.takes_greedy chosen).bind <|
    (Search.takes_greedy checked).bind (takes_logged _ (Search.takes_greedy appended)), ?_⟩
  constructor
  case sound =>
    refine ⟨{ sound₃ with sequences := sized }, one, fun full => ?_⟩
    have reached : store.length = c.maxLength := Nat.le_antisymm sized.length full
    simp [reached]
  case length => exact longer
  case rows => exact rows
  case slots =>
    intro b hb
    rw [← best b hb]
    exact (grown b hb).trans (congrArg (g.state.sequences.slot b ++ [·]) (each b hb).1)
  case mask =>
    intro b hb
    rw [← best b hb]
    exact (each b hb).2
  case done => rfl

theorem takes_step {c : Configuration} {s : GreedySearch} (valid : c.Valid) (fits : c.Allocatable)
    (greedy : c.numBeams = 1) (sound : s.Sound c) (room : s.state.sequences.length < c.maxLength)
    {g : Generator} (search : g.search = .greedy s) {logits : Scores}
    (forward : g.model.forward g.passes s.state.sequences.toList = .ok logits)
    (size : logits.size = c.slotCount * c.vocabSize) :
    ∃ s', Decoded c [.minLength c.minLength, .repetitionPenalty c.repetitionPenalty] logits s s' ∧
      Generator.step.Takes g s'.state.termination.done
        { g with search := .greedy s', steps := g.steps + 1, passes := g.passes + 1 } := by
  obtain ⟨s', taken, decoded⟩ := takes_decode valid fits greedy sound room size
    [.minLength c.minLength, .repetitionPenalty c.repetitionPenalty]
  have configuration : g.search.state.configuration = c := by
    rw [search]
    exact sound.state.configuration
  rw [← search] at taken
  exact ⟨s', decoded, Generator.takes_step configuration (by rw [search]; exact forward) taken
    (Search.takes_greedy (takes_isDone s'))⟩

/-! ## Final rows -/

theorem gives_rows {c : Configuration} {s : SearchState} (sound : s.Sound c) {list : List Nat}
    (inside : ∀ i ∈ list, i < c.slotCount) :
    (rows s list).Gives
      (list.flatMap fun i => Ranking.fit c.maxLength c.padToken (s.sequences.slot i)) := by
  induction list with
  | nil => exact gives_pure _
  | cons i rest ih =>
    have row := SequenceStore.gives_sequence sound.sequences (inside i List.mem_cons_self)
    have others := ih fun i h => inside i (List.mem_cons_of_mem _ h)
    rw [List.flatMap_cons]
    refine row.bind <| others.bind ?_
    rw [sound.configuration]
    exact gives_pure _

theorem takes_finalize {c : Configuration} {g : GreedySearch} (fits : c.Allocatable)
    (greedy : c.numBeams = 1) (sound : g.Sound c) :
    (finalize 1 (c.batchSize * c.maxLength) c.batchSize).Takes g
      (((List.range c.batchSize).flatMap fun b =>
          Ranking.fit c.maxLength c.padToken (g.state.sequences.slot b)).toArray,
        .replicate c.batchSize Binary32.zero) g := by
  have slots : c.slotCount = c.batchSize := Configuration.slotCount_of_greedy greedy
  have alloc := fits.sequences_lt
  have collected := gives_rows sound.state fun i (hi : i ∈ List.range c.batchSize) =>
    slots ▸ List.mem_range.1 hi
  rw [slots] at alloc
  refine (takes_object _).bind ?_
  dsimp only
  rw [sound.state.configuration]
  exact (takes_require _ rfl).bind <| (takes_ofOutcome (Outcome.size_of_lt (by omega))).bind <|
    (takes_require _ (by simp)).bind <| (takes_require _ (by simp)).bind <|
    (takes_lift collected).bind (takes_pure _ _)

/-! ## A run against the decodings -/

section Run

variable (c : Configuration) (logits : List Token → List Binary32) (input : Tokens)

def decoding (t b : Nat) : Decoding :=
  Decoding.after c logits t (prompt input (c.promptLength input) b)

abbrev stops (t : Nat) : Bool :=
  c.stops input t fun b => (decoding c logits input t b).finished

/-- The state of a search after `t` steps. A slot that has ended is behind the others in its
decoding, and its row holds padding there. -/
structure Tracks (t : Nat) (g : GreedySearch) : Prop where
  sound : g.state.Sound c
  next : g.nextTokens.size = c.batchSize
  length : g.state.sequences.length = c.promptLength input + t
  slots : ∀ b < c.batchSize, g.state.sequences.slot b = (decoding c logits input t b).tokens ++
    List.replicate (c.promptLength input + t - (decoding c logits input t b).tokens.length)
      c.padToken
  mask : ∀ b < c.batchSize, g.state.termination.mask[b]! = (decoding c logits input t b).finished
  done : g.state.termination.done = stops c logits input t

structure Drives (t : Nat) (g : Generator) : Prop where
  model : g.model = .ofSlots logits
  steps : g.steps = t
  room : c.promptLength input + t ≤ c.maxLength
  tracks : ∃ s, g.search = .greedy s ∧ Tracks c logits input t s

structure Returned (t : Nat) (tokens : Tokens) (scores : Scores) : Prop where
  tokens_eq : tokens = ((List.range c.batchSize).flatMap fun b =>
    (decoding c logits input t b).padded c).toArray
  scores_eq : scores = .replicate c.batchSize Binary32.zero

end Run

section Refinement

variable {c : Configuration} {logits : List Token → List Binary32} {input : Tokens}

theorem decoding_succ (t b : Nat) : decoding c logits input (t + 1) b =
    Decoding.advance c logits (decoding c logits input t b) := Decoding.after_succ _ _

theorem length_decoding (logits : List Token → List Binary32)
    (accepted : SequenceStore.Accepts input c.batchSize c.maxLength) {t b : Nat}
    (hb : b < c.batchSize) (room : c.promptLength input + t ≤ c.maxLength) :
    (decoding c logits input t b).tokens.length ≤ c.promptLength input + t ∧
      ((decoding c logits input t b).finished = false →
        (decoding c logits input t b).tokens.length = c.promptLength input + t) := by
  have length := length_prompt accepted hb
  have bound := Decoding.length_after logits
    (show (prompt input (c.promptLength input) b).length + t ≤ c.maxLength by omega)
  rwa [length] at bound

theorem slot_succ (held : List Token)
    (accepted : SequenceStore.Accepts input c.batchSize c.maxLength) {t b : Nat} {token : Token}
    (hb : b < c.batchSize)
    (room : c.promptLength input + t < c.maxLength)
    (slot : held = (decoding c logits input t b).tokens ++
      List.replicate (c.promptLength input + t - (decoding c logits input t b).tokens.length)
        c.padToken)
    (chosen : (decoding c logits input t b).finished = false →
      token = Decoding.choose c logits held) :
    held ++ [if (decoding c logits input t b).finished then c.padToken else token] =
        (decoding c logits input (t + 1) b).tokens ++ List.replicate
          (c.promptLength input + (t + 1) - (decoding c logits input (t + 1) b).tokens.length)
          c.padToken ∧
      (decoding c logits input (t + 1) b).finished =
        ((decoding c logits input t b).finished || token = c.eosToken) := by
  obtain ⟨le, eq⟩ := length_decoding logits accepted hb (Nat.le_of_lt room)
  rw [decoding_succ]
  cases ended : (decoding c logits input t b).finished with
  | true =>
    have longer : c.promptLength input + (t + 1) - (decoding c logits input t b).tokens.length =
        c.promptLength input + t - (decoding c logits input t b).tokens.length + 1 := by omega
    rw [Decoding.advance_of_finished ended, slot, longer, List.replicate_succ', if_pos rfl, ended,
      List.append_assoc]
    exact ⟨rfl, rfl⟩
  | false =>
    have length := eq ended
    rw [length, Nat.sub_self, List.replicate_zero, List.append_nil] at slot
    subst slot
    rw [Decoding.advance_of_open ended (by omega), chosen ended]
    simp [length, Nat.add_assoc]

theorem Tracks.toSound {t : Nat} {g : GreedySearch} (tracks : Tracks c logits input t g) :
    g.Sound c := by
  refine ⟨tracks.sound, tracks.next, fun full => ?_⟩
  rw [tracks.done, stops, c.stops_of_full _ (tracks.length ▸ full)]

theorem tracks_decode (valid : c.Valid) (fits : c.Allocatable) (greedy : c.numBeams = 1)
    (accepted : SequenceStore.Accepts input c.batchSize c.maxLength) {t : Nat} {g : GreedySearch}
    (tracks : Tracks c logits input t g) (going : stops c logits input t = false) {m : Scores}
    (size : m.size = c.slotCount * c.vocabSize)
    (rows : ∀ r < c.slotCount,
      ScoreMatrix.row m c.vocabSize r = (logits (g.state.sequences.slot r)).toArray) :
    ∃ g', (Search.decode m
        [.minLength c.minLength, .repetitionPenalty c.repetitionPenalty]).Takes
        (.greedy g) () (.greedy g') ∧ Tracks c logits input (t + 1) g' := by
  have slots : c.slotCount = c.batchSize := Configuration.slotCount_of_greedy greedy
  have room := c.room_of_going going
  obtain ⟨g', taken, decoded⟩ := takes_decode valid fits greedy tracks.toSound
    (tracks.length ▸ room) size [.minLength c.minLength, .repetitionPenalty c.repetitionPenalty]
  have best : ∀ b < c.batchSize, bestToken c
      [.minLength c.minLength, .repetitionPenalty c.repetitionPenalty] m g b =
      Decoding.choose c logits (g.state.sequences.slot b) := by
    intro b hb
    rw [bestToken, rows b (slots ▸ hb), Decoding.choose]
  have step : ∀ b < c.batchSize, _ := fun b hb => slot_succ (g.state.sequences.slot b)
    accepted hb room (tracks.slots b hb) fun _ => best b hb
  have flagged : ∀ b < c.batchSize,
      g'.state.termination.mask[b]! = (decoding c logits input (t + 1) b).finished := by
    intro b hb
    rw [(step b hb).2, ← tracks.mask b hb]
    exact decoded.mask b hb
  have length : g'.state.sequences.length = c.promptLength input + (t + 1) := by
    rw [decoded.length, tracks.length, Nat.add_assoc]
  refine ⟨g', taken, decoded.sound.state, decoded.sound.nextTokens, length, fun b hb => ?_,
    flagged, ?_⟩
  · rw [decoded.slots b hb, ← (step b hb).1, ← tracks.mask b hb]
  · have full : decide (g'.state.sequences.length = c.maxLength) =
        decide (c.maxLength ≤ c.promptLength input + (t + 1)) := by
      rw [decide_eq_decide]
      omega
    rw [decoded.done, tracks.done, going, full,
      all_flags_eq (decoded.sound.state.mask.trans slots) flagged, Bool.false_or, stops,
      Configuration.stops, Bool.or_comm]

theorem tracks_new (logits : List Token → List Binary32) (fits : c.Allocatable)
    (accepted : c.validate = .ok ()) (greedy : c.numBeams = 1)
    (prompts : SequenceStore.Accepts input c.batchSize c.maxLength) :
    ∃ g, (Search.new c input).Gives (.greedy g) ∧ Tracks c logits input 0 g := by
  have valid := Configuration.valid_of_validate accepted
  obtain ⟨g, made, sound, length, held, flags, done⟩ := gives_new fits accepted greedy prompts
  refine ⟨g, made, sound.state, sound.nextTokens, length, fun b hb => ?_, flags, ?_⟩
  · have same := length_prompt prompts hb
    rw [held b hb]
    simp [decoding, Decoding.after, same]
  · have unfinished : (List.range c.batchSize).all (fun b => (decoding c logits input 0 b).finished) =
        false := by
      rw [List.all_eq_false]
      exact ⟨0, List.mem_range.2 valid.batch, by simp [decoding, Decoding.after]⟩
    rw [stops, Configuration.stops, unfinished, Bool.or_false]
    exact done

theorem decoding_of_stops {t b : Nat} (hb : b < c.batchSize)
    (le : c.promptLength input + t ≤ c.maxLength) (stopped : stops c logits input t = true) :
    decoding c logits input (c.maxLength - c.promptLength input) b = decoding c logits input t b :=
  c.last_of_stops (f := fun t => decoding c logits input t b) hb le stopped fun ended more =>
    Decoding.after_add more ended

theorem fit_slot (accepted : SequenceStore.Accepts input c.batchSize c.maxLength) {t b : Nat}
    {g : GreedySearch} (tracks : Tracks c logits input t g) (hb : b < c.batchSize)
    (le : c.promptLength input + t ≤ c.maxLength) :
    Ranking.fit c.maxLength c.padToken (g.state.sequences.slot b) =
      (decoding c logits input t b).padded c := by
  have short := (length_decoding logits accepted hb le).1
  have slot := tracks.slots b hb
  have length : (g.state.sequences.slot b).length = c.promptLength input + t := by
    rw [slot, List.length_append, List.length_replicate]
    omega
  have total : c.promptLength input + t - (decoding c logits input t b).tokens.length +
      (c.maxLength - (c.promptLength input + t)) =
      c.maxLength - (decoding c logits input t b).tokens.length := by omega
  rw [Ranking.fit, List.take_of_length_le (by omega), length, slot, List.append_assoc,
    List.replicate_append_replicate, total]
  rfl

theorem rows_eq (accepted : SequenceStore.Accepts input c.batchSize c.maxLength) {t : Nat}
    {g : GreedySearch} (tracks : Tracks c logits input t g)
    (le : c.promptLength input + t ≤ c.maxLength) :
    (List.range c.batchSize).flatMap (fun b =>
        Ranking.fit c.maxLength c.padToken (g.state.sequences.slot b)) =
      (List.range c.batchSize).flatMap fun b => (decoding c logits input t b).padded c :=
  List.flatMap_congr fun _ hb => fit_slot accepted tracks (List.mem_range.1 hb) le

section Drives

variable {t : Nat} {g : Generator}

theorem Drives.asked (drives : Drives c logits input t g) :
    ∃ s, Search.isDone.Takes g.search (stops c logits input t) s ∧
      Drives c logits input t { g with search := s } := by
  obtain ⟨s, search, tracks⟩ := drives.tracks
  refine ⟨.greedy s, ?_, { drives with tracks := ⟨s, rfl, tracks⟩ }⟩
  rw [search, ← tracks.done]
  exact Search.takes_greedy (takes_isDone s)

theorem Drives.stepped (valid : c.Valid) (fits : c.Allocatable) (greedy : c.numBeams = 1)
    (accepted : SequenceStore.Accepts input c.batchSize c.maxLength)
    (width : ∀ tokens, (logits tokens).length = c.vocabSize) (drives : Drives c logits input t g)
    (going : stops c logits input t = false) :
    ∃ g' done, Generator.step.Takes g done g' ∧ Drives c logits input (t + 1) g' := by
  obtain ⟨s, search, tracks⟩ := drives.tracks
  obtain ⟨m, forward, size, rows⟩ := Model.forward_ofSlots tracks.sound.sequences width g.passes
  obtain ⟨s', decoded, tracks'⟩ :=
    tracks_decode valid fits greedy accepted tracks going size rows
  have configuration : g.search.state.configuration = c := by
    rw [search]
    exact tracks.sound.configuration
  rw [← search] at decoded
  rw [← drives.model] at forward
  exact ⟨_, _, Generator.takes_step configuration (by rw [search]; exact forward) decoded
    (Search.takes_greedy (takes_isDone s')),
    drives.model, congrArg (· + 1) drives.steps, c.room_of_going going, s', rfl, tracks'⟩

theorem Drives.finalized (fits : c.Allocatable) (greedy : c.numBeams = 1)
    (one : c.numReturned = 1) (accepted : SequenceStore.Accepts input c.batchSize c.maxLength)
    (drives : Drives c logits input t g) : ∃ tokens scores s,
      (Search.finalize c.numReturned (c.batchSize * c.numReturned * c.maxLength)
        (c.batchSize * c.numReturned)).Takes g.search (tokens, scores) s ∧
      Returned c logits input t tokens scores := by
  obtain ⟨s, search, tracks⟩ := drives.tracks
  have finalized := takes_finalize fits greedy tracks.toSound
  rw [rows_eq accepted tracks drives.room] at finalized
  refine ⟨_, _, .greedy s, ?_, rfl, rfl⟩
  rw [one, Nat.mul_one, search]
  exact Search.takes_greedy finalized

end Drives

theorem gives_runToEnd (logits : List Token → List Binary32) (accepted : c.validate = .ok ())
    (greedy : c.numBeams = 1) (fits : c.Allocatable)
    (prompts : SequenceStore.Accepts input c.batchSize c.maxLength)
    (width : ∀ tokens, (logits tokens).length = c.vocabSize) :
    ∃ tokens scores g, (Generator.runToEnd c input (.ofSlots logits)).Gives
        (⟨tokens, scores, 1, c.maxLength⟩, g) ∧
      Returned c logits input g.steps tokens scores ∧
      c.promptLength input + g.steps ≤ c.maxLength ∧ stops c logits input g.steps = true ∧
      ∀ t < g.steps, stops c logits input t = false := by
  have valid := Configuration.valid_of_validate accepted
  have one : c.numReturned = 1 := by
    have := valid.returned
    omega
  obtain ⟨s₀, made, tracks₀⟩ := tracks_new logits fits accepted greedy prompts
  obtain ⟨t, tokens, scores, g, s, given, ⟨-, rfl, le, -⟩, returned, stopped, going⟩ :=
    Generator.gives_runToEnd (P := Drives c logits input) (Q := Returned c logits input) valid fits
      made tracks₀.sound.configuration tracks₀.length
      ⟨rfl, rfl, prompts.short, s₀, rfl, tracks₀⟩
      (fun _ _ drives => drives.asked)
      (fun _ _ drives going => drives.stepped valid fits greedy prompts width going)
      fun _ _ drives _ => drives.finalized fits greedy one prompts
  rw [one] at given
  exact ⟨tokens, scores, _, given, returned, le, stopped, going⟩

end Refinement

end GreedySearch

/-- Batched greedy decoding returns for every prompt the row of its own decoding, and stops at
the first step at which all prompts have ended or the rows are full. -/
theorem greedy_runToEnd {c : Configuration} (accepted : c.validate = .ok ())
    (greedy : c.numBeams = 1) (fits : c.Allocatable) {input : Tokens}
    (prompts : SequenceStore.Accepts input c.batchSize c.maxLength)
    {logits : List Token → List Binary32} (width : ∀ tokens, (logits tokens).length = c.vocabSize) :
    ∃ output g, (Generator.runToEnd c input (.ofSlots logits)).Gives (output, g) ∧
      output.numReturned = 1 ∧ output.tokens.size = c.batchSize * c.maxLength ∧
      (∀ b < c.batchSize, (output.row b).toList =
        ((Decoding.after c logits (c.maxLength - c.promptLength input)
          (prompt input (c.promptLength input) b)).padded c)) ∧
      output.scores = .replicate c.batchSize Binary32.zero ∧
      c.promptLength input + g.steps ≤ c.maxLength ∧
      (c.promptLength input + g.steps = c.maxLength ∨ ∀ b < c.batchSize,
        (Decoding.after c logits g.steps (prompt input (c.promptLength input) b)).finished) ∧
      ∀ t < g.steps, ∃ b < c.batchSize,
        (Decoding.after c logits t (prompt input (c.promptLength input) b)).finished = false := by
  obtain ⟨_, _, g, given, ⟨rfl, rfl⟩, le, stopped, going⟩ :=
    GreedySearch.gives_runToEnd logits accepted greedy fits prompts width
  have lengths : ∀ b < c.batchSize,
      ((GreedySearch.decoding c logits input g.steps b).padded c).length = c.maxLength :=
    fun b hb => Decoding.length_padded
      (Nat.le_trans (GreedySearch.length_decoding logits prompts hb le).1 le)
  refine ⟨_, g, given, rfl, ?_, fun b hb => ?_, rfl, le, ?_, fun i hi => ?_⟩
  · exact length_flatMap_range lengths
  · have row := ScoreMatrix.row_flatMap_range lengths hb
    have final := GreedySearch.decoding_of_stops hb le stopped
    exact (congrArg Array.toList row).trans (congrArg (Decoding.padded c) final.symm)
  · exact (c.stops_iff.1 stopped).imp_left (Nat.le_antisymm le)
  · exact c.exists_of_going (going i hi)

/-- One prompt ends a step before the rows are full, the other one holds an end token from the
start and goes on. -/
theorem greedy_runToEnd_of_two_prompts :
    let c : Configuration :=
      { batchSize := 2, vocabSize := 2, maxLength := 4, eosToken := 1, padToken := 0 }
    let logits (tokens : List Token) : List Binary32 :=
      if tokens.contains 1 || tokens.length < 2 then [.one, .zero] else [.zero, .one]
    ∃ output g, (Generator.runToEnd c #[0, 1] (.ofSlots logits)).Gives (output, g) ∧
      (output.row 0).toList = [0, 0, 1, 0] ∧ (output.row 1).toList = [1, 0, 0, 0] ∧
      output.scores = #[.zero, .zero] := by
  intro c logits
  have width : ∀ tokens, (logits tokens).length = 2 := by
    intro tokens
    dsimp only [logits]
    split <;> rfl
  have prompts : SequenceStore.Accepts #[0, 1] 2 4 := ⟨by decide, by decide, by decide⟩
  obtain ⟨output, g, run, -, -, rows, scores, -⟩ :=
    greedy_runToEnd (c := c) (by decide +kernel) rfl ⟨by decide, by decide⟩ prompts width
  refine ⟨output, g, run, (rows 0 (by decide)).trans ?_, (rows 1 (by decide)).trans ?_, scores⟩
  · decide +kernel
  · decide +kernel

end TokenSearch
