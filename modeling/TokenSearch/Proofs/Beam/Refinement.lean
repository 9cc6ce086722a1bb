import Mathlib.Data.List.Induction
import TokenSearch.Proofs.Beam.Plain
import TokenSearch.Proofs.Search.Beam

/-!
Beam search against the plain search of each prompt. Slot `b * numBeams + i` stands for path `i`
of prompt `b`: its sequence, the ranking's score and the running score on the device all belong
to the same path, because every step permutes them by the same sources.
-/

namespace TokenSearch

open TokenSearch.Run TokenSearch.Action TokenSearch.Selection

/-! ## The candidates of a plain search -/

namespace Extension

def entry (vocabSize : Nat) (x : Extension) : Entry :=
  ⟨x.score, some (x.path * vocabSize + x.token)⟩

@[simp] theorem before_entry (vocabSize : Nat) (x y : Extension) :
    (x.entry vocabSize).before (y.entry vocabSize) = x.precedes vocabSize y := rfl

theorem precedes_trans {vocabSize : Nat} (x y z : Extension) (h : x.precedes vocabSize y = true)
    (h' : y.precedes vocabSize z = true) : x.precedes vocabSize z = true :=
  Selection.Entry.before_trans (x.entry vocabSize) (y.entry vocabSize) (z.entry vocabSize) h h'

theorem precedes_total {vocabSize : Nat} (x y : Extension) :
    (x.precedes vocabSize y || y.precedes vocabSize x) = true :=
  Selection.Entry.before_total (x.entry vocabSize) (y.entry vocabSize)

theorem not_precedes_of_lt {vocabSize : Nat} {x y : Extension} (h : x.score.rank < y.score.rank) :
    ¬ x.precedes vocabSize y = true := by
  have larger : ¬ y.score.rank < x.score.rank := UInt32.lt_asymm h
  have other : y.score.rank ≠ x.score.rank := (UInt32.ne_of_lt h).symm
  simp [precedes, larger, other.symm]

theorem rank_le_of_precedes {vocabSize : Nat} {x y : Extension}
    (h : x.precedes vocabSize y = true) : y.score.rank ≤ x.score.rank :=
  UInt32.not_lt.1 fun less => not_precedes_of_lt less h

def toCandidate (x : Extension) : Candidate := ⟨x.score, (x.token : Nat), (x.path : Nat)⟩

theorem ofEntry_entry {vocabSize : Nat} {x : Extension} (token : x.token < vocabSize)
    (small : vocabSize ≤ 2 ^ 31) (path : x.path < 2 ^ 31) :
    Candidate.ofEntry vocabSize (x.entry vocabSize) = x.toCandidate := by
  unfold Candidate.ofEntry Entry.outScore Entry.outToken Entry.outBeam entry
  rw [Option.map_some, Option.getD_some, Option.map_some, Option.getD_some,
    row_mul_add_mod x.path token, row_mul_add_div x.path token,
    Token.ofIndex_of_lt (Nat.lt_of_lt_of_le token small), Token.ofIndex_of_lt path]
  rfl

theorem slot_toCandidate (base : Nat) {x : Extension} (path : x.path < 2 ^ 31) :
    x.toCandidate.slot base = base + x.path := by
  have index : Token.toIndex (x.path : Nat) = x.path := by
    unfold Token.toIndex
    omega
  rw [Candidate.slot, toCandidate, index]

end Extension

namespace PlainBeam

section Candidates

variable {c : Configuration} {rows : Nat → Scores} {p : PlainBeam} {m : Scores} {b : Nat}

theorem elementEntries_eq (size : m.size = c.slotCount * c.vocabSize) (hb : b < c.batchSize)
    (held : ∀ j < c.numBeams, ScoreMatrix.row m c.vocabSize (b * c.numBeams + j) =
      (rows j).map (· + p.live[j]!.score)) :
    elementEntries m c.numBeams c.vocabSize b =
      (p.extensions c rows).map (Extension.entry c.vocabSize) := by
  rw [Selection.elementEntries_eq, extensions, List.map_flatMap]
  refine List.flatMap_congr fun j hj => ?_
  have path := List.mem_range.1 hj
  have slot : b * c.numBeams + j < c.slotCount := row_mul_add_lt hb path
  have width := ScoreMatrix.size_row slot (Nat.le_of_eq size.symm)
  rw [rowEntries, List.map_map, List.map_map]
  refine List.map_congr_left fun t ht => ?_
  have token := List.mem_range.1 ht
  have score : m[(b * c.numBeams + j) * c.vocabSize + t]! = (rows j)[t]! + p.live[j]!.score := by
    rw [← ScoreMatrix.getElem!_row slot token (Nat.le_of_eq size.symm),
      getElem!_sums width (held j path) token]
  simp only [Function.comp_apply, Entry.shift, Extension.entry, Option.map_some, score]

theorem best_elementEntries (size : m.size = c.slotCount * c.vocabSize) (hb : b < c.batchSize)
    (pairs : 2 ≤ c.vocabSize)
    (held : ∀ j < c.numBeams, ScoreMatrix.row m c.vocabSize (b * c.numBeams + j) =
      (rows j).map (· + p.live[j]!.score)) :
    best (2 * c.numBeams) (elementEntries m c.numBeams c.vocabSize b) =
      (p.candidates c rows).map (Extension.entry c.vocabSize) := by
  have sorted : sort ((p.extensions c rows).map (Extension.entry c.vocabSize)) =
      ((p.extensions c rows).mergeSort (Extension.precedes c.vocabSize)).map
        (Extension.entry c.vocabSize) :=
    (List.map_mergeSort fun x _ y _ => (Extension.before_entry c.vocabSize x y).symm).symm
  have enough : (p.candidates c rows).length = 2 * c.numBeams := length_candidates pairs
  rw [elementEntries_eq size hb held, best, sorted, ← List.map_take, ← candidates, pad,
    List.length_map, enough, Nat.sub_self, List.replicate_zero, List.append_nil]

theorem candidatesOf_eq {cs : Selection.Candidates} (run : c.Runnable) (hb : b < c.batchSize)
    (selected : cs.Selected m c.batchSize c.numBeams c.vocabSize) (clean : NoNegativeNaN m)
    (size : m.size = c.slotCount * c.vocabSize)
    (held : ∀ j < c.numBeams, ScoreMatrix.row m c.vocabSize (b * c.numBeams + j) =
      (rows j).map (· + p.live[j]!.score)) :
    Ranking.candidatesOf cs (2 * c.numBeams) b =
      (p.candidates c rows).map Extension.toCandidate := by
  rw [selected.sorted clean b hb, best_elementEntries size hb (run.pairs run.many) held,
    List.map_map]
  refine List.map_congr_left fun x hx => ?_
  obtain ⟨path, token⟩ := mem_candidates hx
  have few : c.numBeams ≤ 32 := run.few
  exact Extension.ofEntry_entry token run.tokens (by omega)

end Candidates

/-! ## One element -/

section Element

variable {c : Configuration} {p : PlainBeam} {cs : List Extension} {read : Nat → List Token}
  {base : Nat}

@[simp] theorem going_toCandidate (eosToken : Token) (cs : List Extension) :
    Candidate.going eosToken (cs.map Extension.toCandidate) =
      (cs.filter (!·.ends eosToken)).map Extension.toCandidate := by
  rw [Candidate.going, List.filter_map]
  exact congrArg _ (List.filter_congr fun x _ => decide_not)

@[simp] theorem ended_toCandidate (eosToken : Token) (cs : List Extension) :
    Candidate.ended eosToken (cs.map Extension.toCandidate) =
      (cs.filter (·.ends eosToken)).map Extension.toCandidate := by
  rw [Candidate.ended, List.filter_map]
  exact congrArg _ (List.filter_congr fun x _ => rfl)

@[simp] theorem chosen_toCandidate (index : Nat) :
    Element.chosen c.numBeams c.eosToken index (cs.map Extension.toCandidate) =
      (going c cs).map fun x => x.toCandidate.toBeam (index * c.numBeams) := by
  rw [Element.chosen, going_toCandidate, ← List.map_take, List.map_map]
  rfl

theorem foldl_retire (held : ∀ j < c.numBeams, read (base + j) = p.live[j]!.tokens)
    (few : c.numBeams ≤ 2 ^ 31) (paths : ∀ x ∈ cs, x.path < c.numBeams) (e : Element) :
    (cs.map Extension.toCandidate).foldl (Element.retire read base) e =
      { e with pool := cs.foldl (fun pool x => pool.add (p.extend x) x.score) e.pool } := by
  induction cs generalizing e with
  | nil => rfl
  | cons x rest ih =>
    have path := paths x List.mem_cons_self
    have one : e.retire read base x.toCandidate =
        { e with pool := e.pool.add (p.extend x) x.score } := by
      rw [Element.retire, Extension.slot_toCandidate base (Nat.lt_of_lt_of_le path few), held _ path]
      rfl
    rw [List.map_cons, List.foldl_cons, List.foldl_cons, one,
      ih fun x hx => paths x (List.mem_cons_of_mem _ hx)]

theorem stepped_eq (e : Element) {length index : Nat} (active : e.status.isDone = false)
    (pool : e.pool = p.pool) (beams : 1 ≤ c.numBeams) (few : c.numBeams ≤ 2 ^ 31)
    (paths : ∀ x ∈ cs, x.path < c.numBeams) (enough : (going c cs).length = c.numBeams)
    (held : ∀ j < c.numBeams, read (index * c.numBeams + j) = p.live[j]!.tokens)
    (lengths : ∀ j < c.numBeams, p.live[j]!.tokens.length = length) :
    e.stepped c.numBeams c.eosToken c.padToken read length index
        (cs.map Extension.toCandidate) =
      { status := if (p.take c cs).finished then .done .completed else e.status
        pool := (p.take c cs).pool
        beams := ((going c cs).map fun x => x.toCandidate.toBeam (index * c.numBeams)).toArray } := by
  have all : (Candidate.going c.eosToken (cs.map Extension.toCandidate)).length ≥ c.numBeams := by
    simp [going] at enough
    simp
    omega
  have retired : (Candidate.ended c.eosToken ((cs.map Extension.toCandidate).take c.numBeams)).foldl
      (Element.retire read (index * c.numBeams)) e = { e with pool := (p.take c cs).pool } := by
    rw [← List.map_take, ended_toCandidate, ← ended, foldl_retire held few, pool]
    · rfl
    · exact fun x hx => paths x (mem_of_mem_ended hx)
  obtain ⟨x, rest, first⟩ : ∃ x rest, going c cs = x :: rest :=
    List.exists_cons_of_length_pos (by omega)
  have member : x ∈ cs := mem_of_mem_going (first ▸ List.mem_cons_self)
  have finished : (p.take c cs).finished =
      (p.take c cs).pool.isComplete x.score (length + 1) := by
    have longer : (p.extend x).length = length + 1 := by
      rw [extend, List.length_append, lengths _ (paths x member), List.length_singleton]
    simp only [take, first, List.map_cons, List.getElem!_cons_zero, longer]
  rw [Element.stepped_of_enough active all, retired, chosen_toCandidate, finished]
  simp only [first, List.map_cons, List.getElem!_cons_zero]
  rfl

end Element

end PlainBeam

/-! ## Elements and plain searches -/

namespace BeamSearch

/-- The slots of element `b` stand for the paths of a plain search. -/
structure Keeps (c : Configuration) (s : BeamSearch) (b : Nat) (p : PlainBeam) : Prop where
  isOpen : s.ranking.elements[b]!.isOpen = true
  capped : s.ranking.elements[b]!.status.isDone = true → c.maxLength ≤ s.state.sequences.length
  paths : p.live.length = c.numBeams
  tokens : ∀ i < c.numBeams,
    s.state.sequences.slot (b * c.numBeams + i) = p.live[i]!.tokens
  scores : ∀ i < c.numBeams, s.ranking.elements[b]!.beams[i]!.score = p.live[i]!.score

/-- Element `b` has got where the plain search has. -/
structure Follows (c : Configuration) (s : BeamSearch) (b : Nat) (p : PlainBeam) : Prop where
  pool : s.ranking.elements[b]!.pool = p.pool
  finished : p.finished = true → s.ranking.elements[b]!.status = .done .completed
  live : p.finished = false → Keeps c s b p

section Follows

variable {c : Configuration} {s s' : BeamSearch} {b : Nat} {p : PlainBeam}

theorem Sound.getElem!_beamScores (sound : s.Sound c) {i : Nat} (hb : b < c.batchSize)
    (hi : i < c.numBeams) :
    s.beamScores[b * c.numBeams + i]! = s.ranking.elements[b]!.beams[i]!.score := by
  rw [sound.scores]
  exact sound.ranking.getElem!_slot Beam.score hb hi

theorem follows_start (ranking : s.ranking = .initial c) {prompt : List Token}
    (hb : b < c.batchSize)
    (held : ∀ i < c.numBeams, s.state.sequences.slot (b * c.numBeams + i) = prompt) :
    Follows c s b (.start c prompt) where
  pool := by
    rw [ranking, Ranking.getElem!_initial hb]
    rfl
  finished := nofun
  live := by
    intro _
    constructor
    case isOpen =>
      rw [ranking, Ranking.getElem!_initial hb]
      rfl
    case capped =>
      rw [ranking, Ranking.getElem!_initial hb]
      nofun
    case paths => simp [PlainBeam.start]
    case tokens =>
      intro i hi
      rw [held i hi]
      simp [PlainBeam.start, hi]
    case scores =>
      intro i hi
      rw [ranking, Ranking.score_initial hb hi]
      simp [PlainBeam.start, hi]

theorem follows_new {input : Tokens} (accepted : c.validate = .ok ()) (run : c.Runnable)
    (prompts : SequenceStore.Accepts input c.batchSize c.maxLength) :
    ∃ s, (Search.new c input).Gives (.beam s) ∧ s.Sound c ∧
      s.state.sequences.length = c.promptLength input ∧
      ∀ b < c.batchSize, Follows c s b (.start c (prompt input (c.promptLength input) b)) := by
  obtain ⟨s, made, sound, ranking, length, held⟩ := gives_new accepted run prompts
  refine ⟨s, gives_newSearch accepted run.many made, sound, length, fun b hb => ?_⟩
  refine follows_start ranking hb fun i hi => ?_
  rw [held _ (row_mul_add_lt hb hi), row_mul_add_div b hi]

/-- An element that is not done takes the step of any plain search whose paths its slots hold. -/
theorem Sound.getElem!_processed (run : c.Runnable) (sound : s.Sound c) (hb : b < c.batchSize)
    {cs : Selection.Candidates} {m : Scores} {rows : Nat → Scores}
    (selected : cs.Selected m c.batchSize c.numBeams c.vocabSize) (clean : NoNegativeNaN m)
    (size : m.size = c.slotCount * c.vocabSize)
    (active : s.ranking.elements[b]!.status.isDone = false)
    (pool : s.ranking.elements[b]!.pool = p.pool)
    (tokens : ∀ i < c.numBeams,
      s.state.sequences.slot (b * c.numBeams + i) = p.live[i]!.tokens)
    (held : ∀ j < c.numBeams, ScoreMatrix.row m c.vocabSize (b * c.numBeams + j) =
      (rows j).map (· + p.live[j]!.score)) :
    (s.ranking.processed s.state.sequences.slot s.state.sequences.length cs).elements[b]! =
      { status :=
          if (p.take c (p.candidates c rows)).finished then .done .completed
          else s.ranking.elements[b]!.status
        pool := (p.take c (p.candidates c rows)).pool
        beams := ((PlainBeam.going c (p.candidates c rows)).map
          fun x => x.toCandidate.toBeam (b * c.numBeams)).toArray } := by
  have few : c.numBeams ≤ 32 := run.few
  have lengths : ∀ j < c.numBeams, p.live[j]!.tokens.length = s.state.sequences.length := by
    intro j hj
    rw [← tokens j hj, sound.state.sequences.length_slot (row_mul_add_lt hb hj)]
  rw [Ranking.getElem!_processed sound.ranking hb,
    PlainBeam.candidatesOf_eq run hb selected clean size held]
  exact PlainBeam.stepped_eq _ active pool run.beams (by omega)
    (fun x hx => (PlainBeam.mem_candidates hx).1)
    (PlainBeam.length_going run.toValid (run.pairs run.many)) tokens lengths

theorem Keeps.rows (sound : s.Sound c) (hb : b < c.batchSize) (keeps : Keeps c s b p)
    {processors : List Processor} {logits : Scores} (decoded : Decoded c processors logits s s')
    {j : Nat} (hj : j < c.numBeams) :
    ScoreMatrix.row s'.state.scores.scores c.vocabSize (b * c.numBeams + j) =
      (p.processed c processors
        (fun j => ScoreMatrix.row logits c.vocabSize (b * c.numBeams + j)) j).map
        (· + p.live[j]!.score) := by
  rw [decoded.rows _ (row_mul_add_lt hb hj), sound.getElem!_beamScores hb hj, keeps.scores j hj,
    keeps.tokens j hj]
  rfl

section Decode

variable (run : c.Runnable) (sound : s.Sound c) (room : s.state.sequences.length < c.maxLength)
  {processors : List Processor} {logits : Scores} (decoded : Decoded c processors logits s s')
  (clean : NoNegativeNaN s'.state.scores.scores) (hb : b < c.batchSize)

abbrev candidatesAt (c : Configuration) (processors : List Processor) (logits : Scores) (b : Nat)
    (p : PlainBeam) : List Extension :=
  p.candidates c <| p.processed c processors fun j =>
    ScoreMatrix.row logits c.vocabSize (b * c.numBeams + j)

include run sound room decoded clean hb

theorem Keeps.element_eq (keeps : Keeps c s b p) (pool : s.ranking.elements[b]!.pool = p.pool) :
    let cs := candidatesAt c processors logits b p
    s'.ranking.elements[b]! =
      { status := if (p.take c cs).finished then .done .completed else .active
        pool := (p.take c cs).pool
        beams := ((PlainBeam.going c cs).map
          fun x => x.toCandidate.toBeam (b * c.numBeams)).toArray } := by
  intro cs
  obtain ⟨chosen, selected, ranking⟩ := decoded.ranking
  have active : s.ranking.elements[b]!.status = .active := by
    have going := mt keeps.capped (Nat.not_le.2 room)
    cases status : s.ranking.elements[b]!.status with
    | active => rfl
    | done _ => exact absurd (by rw [status]; rfl) going
  rw [ranking, sound.getElem!_processed run hb selected clean decoded.sound.state.scores
    (by rw [active]; rfl) pool keeps.tokens fun j hj => keeps.rows sound hb decoded hj, active]

/-- The slots of an element that goes on stand for the next paths. -/
theorem Keeps.decode (keeps : Keeps c s b p) (pool : s.ranking.elements[b]!.pool = p.pool)
    (going : (p.take c (candidatesAt c processors logits b p)).finished = false) :
    Keeps c s' b (p.take c (candidatesAt c processors logits b p)) := by
  let cs := candidatesAt c processors logits b p
  have element := keeps.element_eq run sound room decoded clean hb pool
  have few : c.numBeams ≤ 32 := run.few
  have length : (PlainBeam.going c cs).length = c.numBeams :=
    PlainBeam.length_going run.toValid (run.pairs run.many)
  have beam : ∀ i < c.numBeams, ∃ x ∈ PlainBeam.going c cs,
      (p.take c cs).live[i]! = ⟨p.extend x, x.score⟩ ∧
      s'.ranking.elements[b]!.beams[i]! = x.toCandidate.toBeam (b * c.numBeams) := by
    intro i hi
    have inside : i < (PlainBeam.going c cs).length := length ▸ hi
    refine ⟨(PlainBeam.going c cs)[i], List.getElem_mem inside, ?_, ?_⟩
    · simp [PlainBeam.take, inside]
    · rw [element]
      simp [cs, inside]
  have status : s'.ranking.elements[b]!.status = .active := by
    rw [element, if_neg (by rw [going]; decide)]
  constructor
  case isOpen => rw [Element.isOpen, status]
  case capped =>
    rw [status]
    nofun
  case paths => exact (List.length_map _).trans length
  case tokens =>
    intro i hi
    obtain ⟨x, hx, path, same⟩ := beam i hi
    have slot : b * c.numBeams + i < c.slotCount := row_mul_add_lt hb hi
    have old : x.path < c.numBeams :=
      (PlainBeam.mem_candidates (PlainBeam.mem_of_mem_going hx)).1
    have below : b * c.numBeams + x.path < 2 ^ 31 :=
      Nat.lt_trans (row_mul_add_lt hb old) run.slots
    rw [decoded.slots _ slot, Ranking.sources, Ranking.tokens,
      decoded.sound.ranking.getElem!_slot _ hb hi, decoded.sound.ranking.getElem!_slot _ hb hi,
      same, Candidate.source_toBeam, Extension.slot_toCandidate _ (by omega),
      Token.toIndex_ofIndex below, keeps.tokens _ old]
    exact (congrArg Path.tokens path).symm
  case scores =>
    intro i hi
    obtain ⟨x, -, path, same⟩ := beam i hi
    rw [same]
    exact (congrArg Path.score path).symm

omit run room clean in
theorem Follows.element_eq (follows : Follows c s b p) (finished : p.finished = true) :
    s'.ranking.elements[b]! = s.ranking.elements[b]!.idle c.padToken (b * c.numBeams) := by
  obtain ⟨cs, -, ranking⟩ := decoded.ranking
  have completed := follows.finished finished
  rw [ranking, Ranking.getElem!_processed sound.ranking hb,
    Element.stepped_of_done (by rw [completed]; rfl)]

theorem follows_decode (follows : Follows c s b p) :
    Follows c s' b (p.advance c processors fun j =>
      ScoreMatrix.row logits c.vocabSize (b * c.numBeams + j)) := by
  cases finished : p.finished with
  | true =>
    have same := follows.element_eq sound decoded hb finished
    have completed := follows.finished finished
    rw [PlainBeam.advance_of_finished finished]
    exact ⟨by rw [same]; exact follows.pool, fun _ => by rw [same]; exact completed,
      fun going => absurd (finished.symm.trans going) (by decide)⟩
  | false =>
    have keeps := follows.live finished
    have element := keeps.element_eq run sound room decoded clean hb follows.pool
    rw [PlainBeam.advance, if_neg (by simp [finished])]
    exact ⟨by rw [element], fun ended => by rw [element, if_pos ended],
      keeps.decode run sound room decoded clean hb follows.pool⟩

end Decode

theorem follows_asked (sound : s.Sound c) (hb : b < c.batchSize) (follows : Follows c s b p) :
    Follows c s.asked b p := by
  have element : s.asked.ranking.elements[b]! =
      if c.maxLength ≤ s.state.sequences.length then s.ranking.elements[b]!.capped
      else s.ranking.elements[b]! := Ranking.getElem!_capLength sound.ranking hb
  by_cases full : c.maxLength ≤ s.state.sequences.length
  · rw [if_pos full] at element
    refine ⟨?_, fun finished => ?_, fun going => ?_⟩
    · simp [element, follows.pool]
    · have completed := follows.finished finished
      rw [element, Element.capped_of_done (by rw [completed]; rfl), completed]
    · have keeps := follows.live going
      refine ⟨?_, fun _ => full, keeps.paths, keeps.tokens, fun i hi => ?_⟩
      · simp [element, keeps.isOpen]
      · simp [element, keeps.scores i hi]
  · rw [if_neg full] at element
    exact ⟨by rw [element]; exact follows.pool, by rw [element]; exact follows.finished,
      fun going => { follows.live going with
        isOpen := by rw [element]; exact (follows.live going).isOpen
        capped := by rw [element]; exact (follows.live going).capped
        scores := by rw [element]; exact (follows.live going).scores }⟩

end Follows

end BeamSearch

/-! ## Whole runs -/

namespace PlainBeam

def move (c : Configuration) (b : Nat) (p : PlainBeam) : Search.Move → PlainBeam
  | .decode logits processors => p.advance c processors fun j =>
    ScoreMatrix.row logits c.vocabSize (b * c.numBeams + j)
  | .ask => p

def moved (c : Configuration) (input : Tokens) (b : Nat) (moves : List Search.Move) : PlainBeam :=
  moves.foldl (move c b) (start c (prompt input (c.promptLength input) b))

end PlainBeam

namespace BeamSearch

theorem follows_driven {c : Configuration} {input : Tokens} (accepted : c.validate = .ok ())
    (run : c.Runnable) (prompts : SequenceStore.Accepts input c.batchSize c.maxLength)
    {moves : List Search.Move}
    (sizes : ∀ logits processors, .decode logits processors ∈ moves →
      logits.size = c.slotCount * c.vocabSize)
    (room : c.promptLength input + moves.countP Search.Move.grows ≤ c.maxLength)
    (clean : ∀ earlier logits processors, earlier ++ [.decode logits processors] <+: moves →
      ∀ s, (Search.driven c input (earlier ++ [.decode logits processors])).Gives s →
        NoNegativeNaN s.state.scores.scores) :
    ∃ s, (Search.driven c input moves).Gives (.beam s) ∧ s.Sound c ∧
      s.state.sequences.length = c.promptLength input + moves.countP Search.Move.grows ∧
      ∀ b < c.batchSize, Follows c s b (PlainBeam.moved c input b moves) := by
  obtain ⟨s₀, created, sound₀, length₀, follows₀⟩ := follows_new accepted run prompts
  suffices h : ∃ s, (Search.drive moves).Takes (.beam s₀) () (.beam s) ∧ s.Sound c ∧
      s.state.sequences.length = c.promptLength input + moves.countP Search.Move.grows ∧
      ∀ b < c.batchSize, Follows c s b (PlainBeam.moved c input b moves) by
    obtain ⟨s, driven, rest⟩ := h
    exact ⟨s, Search.gives_driven created driven, rest⟩
  -- From the end of the list: `clean` speaks of the search that the last move leads to.
  induction moves using List.reverseRecOn with
  | nil =>
    exact ⟨s₀, takes_pure _ _, sound₀, length₀, follows₀⟩
  | append_singleton moves m ih =>
    obtain ⟨s, driven, sound, length, follows⟩ := ih
      (fun logits processors h => sizes logits processors (List.mem_append_left _ h))
      (by rw [List.countP_append] at room; omega)
      (fun earlier logits processors h => clean earlier logits processors
        (h.trans (List.prefix_append _ _)))
    rw [List.countP_append] at room ⊢
    cases m with
    | decode logits processors =>
      have one : [Search.Move.decode logits processors].countP Search.Move.grows = 1 := rfl
      obtain ⟨s', taken, decoded⟩ := takes_decode run sound (by omega)
        (sizes logits processors (List.mem_append_right _ List.mem_cons_self)) processors
      have driven' := Search.takes_drive_append (m := .decode logits processors) driven taken
      have clean' : NoNegativeNaN s'.state.scores.scores :=
        clean _ _ _ (List.prefix_refl _) _ (Search.gives_driven created driven')
      refine ⟨s', driven', decoded.sound, by rw [decoded.length]; omega, fun b hb => ?_⟩
      rw [PlainBeam.moved, List.foldl_append]
      exact follows_decode run sound (by omega) decoded clean' hb (follows b hb)
    | ask =>
      obtain ⟨told, sound'⟩ := takes_isDone sound
      have asked : Search.Move.ask.act.Takes (.beam s) () (.beam s.asked) :=
        (Search.takes_beam told).bind (takes_pure _ _)
      refine ⟨s.asked, Search.takes_drive_append driven asked, sound', length, fun b hb => ?_⟩
      rw [PlainBeam.moved, List.foldl_append]
      exact follows_asked sound hb (follows b hb)

end BeamSearch

/-- After any steps on any logits, and questions whether the run is done between them, every
prompt has got where its plain search has: its pool is the plain one, and while the plain search
goes on, slot by slot the sequence, the ranking's score and the running score on the device are
those of one plain path. That slots and tokens fit signed 32-bit words is assumed, for no check of
the configuration sees to it; a token past them is taken for a filler, which the plain search has
none of, and the sequence of a slot past them cannot be gathered. -/
theorem beam_refines_plain {c : Configuration} (accepted : c.validate = .ok ())
    (many : 2 ≤ c.numBeams) (few : c.numBeams ≤ maxBeams) (fits : c.Addressable) {input : Tokens}
    (prompts : SequenceStore.Accepts input c.batchSize c.maxLength) {moves : List Search.Move}
    (sizes : ∀ logits processors, .decode logits processors ∈ moves →
      logits.size = c.slotCount * c.vocabSize)
    (room : c.promptLength input + moves.countP Search.Move.grows ≤ c.maxLength)
    (clean : ∀ earlier logits processors, earlier ++ [.decode logits processors] <+: moves →
      ∀ s, (Search.driven c input (earlier ++ [.decode logits processors])).Gives s →
        NoNegativeNaN s.state.scores.scores) :
    ∃ s : BeamSearch, (Search.driven c input moves).Gives (.beam s) ∧
      s.state.sequences.length = c.promptLength input + moves.countP Search.Move.grows ∧
      ∀ b < c.batchSize,
        let e := s.ranking.elements[b]!
        let p := PlainBeam.moved c input b moves
        e.pool = p.pool ∧
        (p.finished = true → e.status = .done .completed) ∧
        (p.finished = false →
          (e.status = .active ∨
            e.status = .done .lengthCap ∧ s.state.sequences.length = c.maxLength) ∧
          p.live.length = c.numBeams ∧
          ∀ i < c.numBeams,
            s.state.sequences.slot (b * c.numBeams + i) = p.live[i]!.tokens ∧
            e.beams[i]!.score = p.live[i]!.score ∧
            s.beamScores[b * c.numBeams + i]! = p.live[i]!.score) := by
  have run : c.Runnable := ⟨Configuration.valid_of_validate accepted, fits, many, few⟩
  obtain ⟨s, driven, sound, length, follows⟩ :=
    BeamSearch.follows_driven accepted run prompts sizes room clean
  refine ⟨s, driven, length, fun b hb => ⟨(follows b hb).pool, (follows b hb).finished, ?_⟩⟩
  intro going
  have keeps := (follows b hb).live going
  refine ⟨?_, keeps.paths, fun i hi => ⟨keeps.tokens i hi, keeps.scores i hi, ?_⟩⟩
  · have isOpen := keeps.isOpen
    have capped := keeps.capped
    unfold Element.isOpen at isOpen
    cases status : s.ranking.elements[b]!.status with
    | active => exact .inl rfl
    | done reason =>
      rw [status] at isOpen capped
      cases reason with
      | lengthCap => exact .inr ⟨rfl, Nat.le_antisymm (length ▸ room) (capped rfl)⟩
      | completed => exact absurd isOpen (by decide)
      | exhausted => exact absurd isOpen (by decide)
  · rw [sound.getElem!_beamScores hb hi, keeps.scores i hi]

/-- A tie on the first step: one continuation of the leading path ends and is retired, the other
one goes on, and the next path falls in behind it. -/
theorem beam_refines_plain_of_tie :
    let c : Configuration :=
      { batchSize := 1, numBeams := 2, vocabSize := 2, maxLength := 3, eosToken := 1, padToken := 0 }
    let logits : Scores := #[.zero, .zero, .zero, .zero]
    ∃ s : BeamSearch, (Search.driven c #[0] [.decode logits [.minLength 1]]).Gives (.beam s) ∧
      s.state.sequences.slot 0 = [0, 0] ∧ s.state.sequences.slot 1 = [0, 0] ∧
      s.ranking.elements[0]!.pool.kept.map (·.tokens) = [[0, 1]] := by
  intro c logits
  let m : Search.Move := .decode logits [.minLength 1]
  have accepted : c.validate = .ok () := by decide +kernel
  have fits : c.Addressable := ⟨⟨by decide, by decide⟩, by decide, by decide⟩
  have run : c.Runnable := ⟨Configuration.valid_of_validate accepted, fits, by decide, by decide⟩
  have prompts : SequenceStore.Accepts #[0] 1 3 := ⟨by decide, by decide, by decide⟩
  have held : prompt #[0] (c.promptLength #[0]) 0 = [0] := by decide +kernel
  have clean : ∀ s, (Search.driven c #[0] [m]).Gives s → NoNegativeNaN s.state.scores.scores := by
    intro s given
    obtain ⟨s₀, made, sound, length, follows⟩ := BeamSearch.follows_new accepted run prompts
    obtain ⟨s', taken, decoded⟩ := BeamSearch.takes_decode run sound (length ▸ by decide)
      (show logits.size = 2 * 2 from rfl) [.minLength 1]
    have driven : (Search.driven c #[0] [m]).Gives (.beam s') :=
      Search.gives_driven made (taken.bind (takes_pure _ _))
    have rows : ∀ r < 2, NoNegativeNaN (ScoreMatrix.row s'.state.scores.scores 2 r) := by
      intro r hr
      have row := ((follows 0 (by decide)).live rfl).rows sound (by decide) decoded hr
      rw [held, Nat.zero_mul, Nat.zero_add] at row
      refine row ▸ ?_
      rcases Nat.le_one_iff_eq_zero_or_eq_one.1 (Nat.le_of_lt_succ hr) with rfl | rfl
      · unfold NoNegativeNaN
        decide +kernel
      · unfold NoNegativeNaN
        decide +kernel
    rw [given.unique driven]
    exact .of_rows decoded.sound.state.scores rows
  obtain ⟨s, driven, -, all⟩ := @beam_refines_plain c accepted (by decide) (by decide) fits #[0]
    prompts [m] (fun l processors h => by
      obtain ⟨rfl, -⟩ := Search.Move.decode.inj (List.mem_singleton.1 h)
      rfl) (by decide)
    (fun earlier l processors h => by
      cases earlier with
      | nil =>
        obtain ⟨rfl, rfl⟩ := Search.Move.decode.inj (List.cons_prefix_cons.1 h).1
        exact clean
      | cons x rest => simp at h)
  -- The kernel computes with the scores but not through the sort; the list is in order already.
  let list : List Extension :=
    [⟨0, 0, ⟨0xbf317218⟩⟩, ⟨0, 1, ⟨0xbf317218⟩⟩, ⟨1, 0, inactiveScore⟩, ⟨1, 1, inactiveScore⟩]
  let start := PlainBeam.start c [0]
  have extensions : start.extensions c (start.processed c [.minLength 1] fun j =>
      ScoreMatrix.row logits 2 (0 * 2 + j)) = list := by decide +kernel
  have sorted : list.mergeSort (Extension.precedes 2) = list :=
    List.mergeSort_of_pairwise (by decide +kernel)
  have candidates : start.candidates c (start.processed c [.minLength 1] fun j =>
      ScoreMatrix.row logits 2 (0 * 2 + j)) = list := by
    rw [PlainBeam.candidates, extensions, sorted]
    rfl
  have moved : PlainBeam.moved c #[0] 0 [m] = start.take c list := by
    rw [PlainBeam.moved, held, ← candidates]
    rfl
  obtain ⟨pool, -, going⟩ := all 0 (by decide)
  rw [moved] at pool going
  obtain ⟨-, -, slots⟩ := going (by decide +kernel)
  refine ⟨s, driven, (slots 0 (by decide)).1.trans ?_, (slots 1 (by decide)).1.trans ?_, ?_⟩
  · decide +kernel
  · decide +kernel
  · rw [pool]
    decide +kernel

end TokenSearch
