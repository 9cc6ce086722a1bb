import TokenSearch.Proofs.AnySession
import TokenSearch.Proofs.Beam.Ranking

/-!
Re-ranking from any state that a ranking can be in, over any candidates. No operation on a ranking
changes its sizes, also where a read fails or a precondition is broken on the way, and this is all
that a step relies on. Each element then takes its candidates in two lists, those that end its
sequences at ranks below `numBeams` and those that go on, in the order of their ranks.
-/

namespace TokenSearch

open TokenSearch.Run TokenSearch.Action

/-! ## Sizes -/

namespace Element

section Keeps

variable {n : Nat} (numBeams : Nat) (eosToken padToken : Token) (view : SequenceView)

theorem keeps_offer (tokens : Element → List Token) (sum : Element → Binary32) :
    Keeps (fun e : Element => e.beams.size = n) (Action.update fun e => e.offer (tokens e) (sum e)) :=
  keeps_update fun _ size => size

theorem keeps_walk (base rank chosen retired : Nat) (cs : List Candidate) :
    Keeps (fun e : Element => e.beams.size = n)
      (walk numBeams eosToken view base rank chosen retired cs) := by
  induction cs generalizing rank chosen retired with
  | nil => exact keeps_pure _
  | cons c rest ih =>
    unfold walk
    refine (keeps_ofOutcome _).bind fun source => keeps_ite (keeps_ite (ih _ _ _) ?_) ?_
    · exact (keeps_lift _).bind fun tokens => (keeps_offer _ _).bind fun _ => ih _ _ _
    · refine (keeps_update fun e size => ?_).bind fun _ => keeps_ite (keeps_pure _) (ih _ _ _)
      simpa [setBeam] using size

theorem keeps_offerBeams (list : List Nat) :
    Keeps (fun e : Element => e.beams.size = n) (offerBeams view list) := by
  induction list with
  | nil => exact keeps_pure _
  | cons i rest ih =>
    exact keeps_object.bind fun e => (keeps_lift _).bind fun tokens =>
      (keeps_offer _ _).bind fun _ => ih

theorem keeps_step (length index : Nat) (cs : List Candidate) :
    Keeps (fun e : Element => e.beams.size = n)
      (step numBeams eosToken padToken view length index cs) := by
  refine keeps_object.bind fun e => keeps_ite (keeps_update fun e size => ?_) ?_
  · simpa [idle] using size
  · refine (keeps_walk _ _ _ _ _ _ _ _).bind fun counts => keeps_ite ?_ ?_
    · refine (keeps_offerBeams _ _).bind fun _ => (keeps_update fun e size => ?_).bind fun _ =>
        keeps_emit _
      simpa [exhaust] using size
    · refine keeps_object.bind fun e => (keeps_require _ _).bind fun _ => keeps_ite ?_ ?_
      · exact Keeps.bind (keeps_update fun _ size => size) fun _ => keeps_emit _
      · exact keeps_ite (keeps_emit _) (keeps_pure _)

theorem keeps_closeFrom (base : Nat) (list : List Nat) :
    Keeps (fun e : Element => e.beams.size = n) (closeFrom view base list) := by
  induction list with
  | nil => exact keeps_pure _
  | cons i rest ih =>
    exact (keeps_lift _).bind fun tokens => (keeps_offer _ _).bind fun _ => ih

theorem keeps_close (index : Nat) :
    Keeps (fun e : Element => e.beams.size = n) (close numBeams view index) :=
  keeps_object.bind fun _ => keeps_ite (keeps_closeFrom _ _ _) (keeps_pure _)

end Keeps

end Element

namespace Ranking

section Reachable

variable {c : Configuration} {r : Ranking}

@[simp] theorem left_onElement (index : Nat) (x : Action Element Unit) (session : Session)
    (r : Ranking) :
    (onElement index x).left session r = if index < r.elements.size then
      { r with elements := r.elements.set! index (x.left session r.elements[index]!) } else r := by
  refine (left_object_bind _ session r).trans ?_
  cases here : r.elements[index]? with
  | none =>
    rw [if_neg (Nat.not_lt.2 (Array.getElem?_eq_none_iff.1 here))]
    rfl
  | some e =>
    obtain ⟨inside, rfl⟩ := Array.getElem?_eq_some_iff.1 here
    rw [if_pos inside, getElem!_pos r.elements index inside]
    exact left_focus x session r

theorem keeps_onElement {x : Action Element Unit} (index : Nat)
    (h : Keeps (fun e : Element => e.beams.size = c.numBeams) x) :
    Keeps (Shaped c) (onElement index x) := by
  intro session r shaped
  rw [left_onElement]
  split
  case isTrue inside =>
    have size := h session _ (shaped.beams index (shaped.elements ▸ inside))
    refine { shaped with elements := by simp [shaped.elements], beams := fun b hb => ?_ }
    dsimp only
    rw [getElem!_set! _ _ inside]
    split
    · exact size
    · exact shaped.beams b hb
  case isFalse => exact shaped

theorem keeps_process (view : SequenceView) (cs : Selection.Candidates) :
    Keeps (Shaped c) (process view cs) :=
  keeps_object.bind fun _ => (keeps_ofOutcome _).bind fun _ => (keeps_ofOutcome _).bind fun _ =>
    (keeps_require _ _).bind fun _ => (keeps_ofOutcome _).bind fun _ =>
      keeps_forM fun _ => keeps_onElement _ (Element.keeps_step _ _ _ _ _ _ _)

theorem keeps_finalize (view : SequenceView) (n outputSize scoresSize : Nat) :
    Keeps (Shaped c) (finalize view n outputSize scoresSize) :=
  keeps_object.bind fun _ => (keeps_require _ _).bind fun _ => (keeps_ofOutcome _).bind fun _ =>
    (keeps_ofOutcome _).bind fun _ => (keeps_require _ _).bind fun _ =>
      (keeps_require _ _).bind fun _ =>
        (keeps_forM fun _ => keeps_onElement _ (Element.keeps_close _ _ _)).bind fun _ =>
          keeps_object.bind fun _ => keeps_pure _

theorem shaped_of_new (h : new c = .ok r) : r.Shaped c := by
  obtain ⟨_, -, h⟩ := Outcome.of_bind h
  obtain ⟨_, -, h⟩ := Outcome.of_bind h
  obtain ⟨_, -, h⟩ := Outcome.of_bind h
  dsimp only at h
  split at h <;>
  · obtain ⟨pool, -, h⟩ := Outcome.of_bind h
    cases h
    exact ⟨rfl, rfl, rfl, rfl, by simp, fun b hb => by simp [hb]⟩

/-- The states of a ranking: what it is made as, and what its operations leave, in any session and
whatever comes of them. -/
inductive Reachable (c : Configuration) : Ranking → Prop
  | new {r : Ranking} : Ranking.new c = .ok r → Reachable c r
  | process {r : Ranking} (view : SequenceView) (cs : Selection.Candidates) (session : Session) :
    Reachable c r → Reachable c ((process view cs).left session r)
  | capLength {r : Ranking} (length : Nat) : Reachable c r → Reachable c (r.capLength length)
  | finalize {r : Ranking} (view : SequenceView) (n outputSize scoresSize : Nat)
    (session : Session) : Reachable c r →
    Reachable c ((finalize view n outputSize scoresSize).left session r)

theorem Reachable.shaped (reachable : Reachable c r) : r.Shaped c := by
  induction reachable with
  | new h => exact shaped_of_new h
  | process view cs session _ shaped => exact keeps_process view cs session _ shaped
  | capLength length _ shaped => exact shaped.capLength length
  | finalize view n outputSize scoresSize session _ shaped =>
    exact keeps_finalize view n outputSize scoresSize session _ shaped

theorem Reachable.slots_lt (reachable : Reachable c r) : c.batchSize * c.numBeams < 2 ^ 64 := by
  induction reachable with
  | new h =>
    obtain ⟨_, slots, -⟩ := Outcome.of_bind h
    exact Outcome.lt_of_size slots
  | process _ _ _ _ ih => exact ih
  | capLength _ _ ih => exact ih
  | finalize _ _ _ _ _ _ ih => exact ih

end Reachable

end Ranking

/-! ## Candidates in two lists -/

namespace Element

open Candidate

def offered (read : Nat → List Token) (base : Nat) (cs : List Candidate) (p : HypothesisPool) :
    HypothesisPool :=
  cs.foldl (fun p d => p.add (read (d.slot base) ++ [d.token]) d.score) p

section Offered

variable {read : Nat → List Token} {base : Nat}

@[simp] theorem pool_foldl_retire (e : Element) (cs : List Candidate) :
    (cs.foldl (retire read base) e).pool = offered read base cs e.pool := by
  induction cs generalizing e with
  | nil => rfl
  | cons d rest ih => exact ih (e.retire read base d)

theorem pool_foldl_offerBeam (e : Element) {cs : List Candidate}
    (inside : ∀ d ∈ cs, d.slot base < 2 ^ 31) :
    ((cs.map (toBeam base)).foldl (offerBeam read) e).pool = offered read base cs e.pool := by
  induction cs generalizing e with
  | nil => rfl
  | cons d rest ih =>
    have source : Token.toIndex (d.toBeam base).source = d.slot base := by
      rw [source_toBeam, Token.toIndex_ofIndex (inside d List.mem_cons_self)]
    have first : offerBeam read e (d.toBeam base) = e.retire read base d := by
      rw [offerBeam, source]
      rfl
    rw [List.map_cons, List.foldl_cons, first,
      ih _ fun d' h => inside d' (List.mem_cons_of_mem _ h)]
    rfl

end Offered

/-- What one step makes of the element `before` by its candidates: of `ended`, those that end a
sequence at a rank below `numBeams`, and of `going`, all that go on. -/
structure Reranked (c : Configuration) (read : Nat → List Token) (length index : Nat)
    (cs : List Candidate) (before after : Element) : Prop where
  size : after.beams.size = c.numBeams
  /-- An element that is done appends padding to its own sequences. -/
  idle : before.status.isDone = true → after.status = before.status ∧ after.pool = before.pool ∧
    ∀ i < c.numBeams, after.beams[i]! =
      ⟨.zero, c.padToken, Token.ofIndex (index * c.numBeams + i)⟩
  /-- The first candidates that go on are the next beams. -/
  chosen : before.status.isDone = false → ∀ i (h : i < (going c.eosToken cs).length),
    i < c.numBeams → after.beams[i]! = (going c.eosToken cs)[i].toBeam (index * c.numBeams)
  /-- With enough of them, only those that end a sequence are offered. -/
  filled : before.status.isDone = false → c.numBeams ≤ (going c.eosToken cs).length →
    let pool := offered read (index * c.numBeams) (ended c.eosToken (cs.take c.numBeams))
      before.pool
    after.pool = pool ∧
    after.status = (if pool.isComplete after.beams[0]!.score (length + 1) then .done .completed
      else .active)
  /-- With too few, they are offered as well, the other beams are idle, and the element is done. -/
  exhausted : before.status.isDone = false → (going c.eosToken cs).length < c.numBeams →
    after.pool = offered read (index * c.numBeams) (going c.eosToken cs)
      (offered read (index * c.numBeams) (ended c.eosToken (cs.take c.numBeams)) before.pool) ∧
    after.status = .done .exhausted ∧
    ∀ i < c.numBeams, (going c.eosToken cs).length ≤ i → after.beams[i]! =
      ⟨inactiveScore, c.padToken, Token.ofIndex (index * c.numBeams + i)⟩

section Stepped

variable {c : Configuration} {read : Nat → List Token} {length index : Nat} {cs : List Candidate}
  {e : Element}

theorem reranked_stepped (size : e.beams.size = c.numBeams) (some : 1 ≤ c.numBeams)
    (inside : ∀ d ∈ cs, d.slot (index * c.numBeams) < 2 ^ 31) :
    Reranked c read length index cs e
      (e.stepped c.numBeams c.eosToken c.padToken read length index cs) where
  size := size_stepped size some
  idle done := by
    rw [stepped_of_done done]
    exact ⟨rfl, rfl, fun i hi => getElem!_idle (size ▸ hi)⟩
  chosen active i h inside := by
    have here : i < (chosen c.numBeams c.eosToken index cs).length := by
      simp
      omega
    rw [(beams_stepped active size inside).2, if_pos here, getElem!_pos _ i here]
    simp only [Element.chosen, List.getElem_map, List.getElem_take]
  filled active enough := by
    have going : e.status = .active := by
      cases status : e.status with
      | active => rfl
      | done reason => simp [status, Status.isDone] at active
    rw [stepped_of_enough active enough, pool_foldl_retire, going]
    exact ⟨rfl, by rw [List.getElem!_toArray]⟩
  exhausted active few := by
    have all : chosen c.numBeams c.eosToken index cs =
        (going c.eosToken cs).map (toBeam (index * c.numBeams)) := by
      rw [chosen, List.take_of_length_le (Nat.le_of_lt few)]
    have inside' : ∀ d ∈ going c.eosToken cs, d.slot (index * c.numBeams) < 2 ^ 31 :=
      fun d hd => inside d (List.mem_of_mem_filter hd)
    refine ⟨?_, ?_, fun i h late => ?_⟩
    · rw [stepped_of_few active few, all]
      exact (pool_foldl_offerBeam _ inside').trans
        (congrArg (offered read _ _) (pool_foldl_retire e _))
    · rw [stepped_of_few active few]
      rfl
    · have later : ¬ i < (chosen c.numBeams c.eosToken index cs).length := by
        rw [all, List.length_map]
        omega
      rw [(beams_stepped active size h).2, if_neg later]
      rfl

end Stepped

end Element

namespace Ranking

theorem mem_candidatesOf {cs : Selection.Candidates} {k index count : Nat} {d : Candidate}
    (beams : cs.beams.size = count * k) (h : index < count) (hd : d ∈ candidatesOf cs k index) :
    d.beam ∈ cs.beams := by
  obtain ⟨i, hi, rfl⟩ := List.mem_map.1 hd
  have inside : index * k + i < cs.beams.size :=
    beams ▸ row_mul_add_lt h (List.mem_range.1 hi)
  dsimp only
  rw [getElem!_pos cs.beams _ inside]
  exact Array.getElem_mem inside

/-- From any state, over candidates of any scores, tokens and order whose beams lie within their
elements, and sequences that can be read, a step returns and re-ranks each element as it should.
Slots have to be numbers that a signed 32-bit word can store. -/
theorem process_reranks {c : Configuration} {r : Ranking} {view : SequenceView}
    {read : Nat → List Token} {length : Nat} {cs : Selection.Candidates}
    (reachable : Reachable c r) (some : 1 ≤ c.numBeams) (wide : c.numBeams < 2 ^ 31)
    (slots : c.batchSize * c.numBeams < 2 ^ 31) (size : view.length = .ok length)
    (reads : ∀ i < c.batchSize * c.numBeams, (view.read i).Gives (read i))
    (scores : cs.scores.size = c.batchSize * (2 * c.numBeams))
    (tokens : cs.tokens.size = c.batchSize * (2 * c.numBeams))
    (beams : cs.beams.size = c.batchSize * (2 * c.numBeams))
    (inside : ∀ beam ∈ cs.beams, ∃ i < c.numBeams, beam = (i : Int)) :
    ∃ r', (process view cs).Takes r () r' ∧ r'.Shaped c ∧ ∀ b < c.batchSize,
      Element.Reranked c read length b (candidatesOf cs (2 * c.numBeams) b) r.elements[b]!
        r'.elements[b]! := by
  have shaped := reachable.shaped
  have within : ∀ b < c.batchSize, ∀ d ∈ candidatesOf cs (2 * c.numBeams) b,
      Token.toIndex d.beam < c.numBeams := by
    intro b hb d hd
    obtain ⟨i, hi, same⟩ := inside _ (mem_candidatesOf beams hb hd)
    rwa [same, Token.toIndex_natCast (by omega)]
  have takes := takes_process shaped some (Nat.le_of_lt wide) (Nat.le_of_lt slots) size reads
    scores tokens beams within
  refine ⟨_, takes, shaped.processed some, fun b hb => ?_⟩
  rw [getElem!_processed shaped hb]
  refine Element.reranked_stepped (shaped.beams b hb) some fun d hd => ?_
  exact Nat.lt_trans (row_mul_add_lt hb (within b hb d hd)) slots

/-- The first element has one candidate that goes on, twice, and the second has one, once. -/
theorem process_reranks_of_two_elements :
    let c : Configuration :=
      { batchSize := 2, numBeams := 2, vocabSize := 8, maxLength := 4, eosToken := 0, padToken := 3 }
    let score : Binary32 := ⟨0xbf800000⟩
    let view : SequenceView := ⟨.ok 2, fun i => pure [7, (i : Int)]⟩
    let cs : Selection.Candidates :=
      ⟨.replicate 8 score, #[0, 5, 5, 0, 0, 6, 0, 0], #[1, 0, 0, 1, 1, 1, 0, 0]⟩
    ∃ r r', Reachable c r ∧ (process view cs).Takes r () r' ∧
      r'.elements[0]!.status = .active ∧ r'.elements[0]!.beams[1]! = ⟨score, 5, 0⟩ ∧
      r'.elements[0]!.pool.kept.map (·.tokens) = [[7, 1, 0]] ∧
      r'.elements[1]!.status = .done .exhausted ∧
      r'.elements[1]!.beams[1]! = ⟨inactiveScore, 3, 3⟩ ∧
      r'.elements[1]!.pool.kept.map (·.tokens) = [[7, 3, 0], [7, 3, 6]] := by
  intro c score view cs
  have reachable : Reachable c (initial c) := .new rfl
  have size : view.length = .ok 2 := rfl
  have reads : ∀ i < c.batchSize * c.numBeams, (view.read i).Gives [7, (i : Int)] :=
    fun i _ => gives_pure _
  have inside : ∀ beam ∈ cs.beams, ∃ i < c.numBeams, beam = (i : Int) := by decide
  obtain ⟨r', takes, -, each⟩ := process_reranks reachable (by decide) (by decide) (by decide) size
    reads rfl rfl rfl inside
  have first := each 0 (by decide)
  have second := each 1 (by decide)
  rw [getElem!_initial (by decide)] at first second
  have beams := first.chosen rfl
  obtain ⟨pool, status⟩ := first.filled rfl (by decide)
  obtain ⟨pool', status', idle⟩ := second.exhausted rfl (by decide)
  refine ⟨_, r', reachable, takes, ?_, (beams 1 (by decide) (by decide)).trans (by decide), ?_, status',
    (idle 1 (by decide) (by decide)).trans (by decide), ?_⟩
  · rw [status, beams 0 (by decide) (by decide)]
    decide +kernel
  · rw [pool]
    decide +kernel
  · rw [pool']
    decide +kernel

end Ranking

end TokenSearch
