import Mathlib.Algebra.GroupWithZero.Nat
import TokenSearch.Proofs.Beam.Pool
import TokenSearch.Proofs.Beam.Process

/-!
The life of a batch element over any calls that succeed. What a call did is read off its success:
the sequences may differ from read to read, but how many hypotheses a step offers, which beams it
chooses and what ends the element depends on the candidates alone. With early stopping an element
that goes on has in its pool as many hypotheses as it has retired end candidates, and the one step
that fills the pool and all beams completes it.
-/

namespace TokenSearch

open TokenSearch.Run TokenSearch.Action

/-! ## A step, read off its success -/

namespace Element

open Candidate

def offerAll (e : Element) (offers : List (List Token × Binary32)) : Element :=
  { e with pool := e.pool.addAll offers }

section Walk

variable {numBeams base : Nat} {eosToken : Token} {view : SequenceView}

theorem returns_walk {cs : List Candidate} {rank chosen retired : Nat} {e e' : Element}
    {counts : Nat × Nat} (free : chosen < numBeams) (late : chosen ≤ rank)
    (size : e.beams.size = numBeams)
    (h : (walk numBeams eosToken view base rank chosen retired cs).Returns e counts e') :
    counts.1 = min numBeams (chosen + (going eosToken cs).length) ∧
      ∃ offers : List (List Token × Binary32),
        offers.length = (ended eosToken (cs.take (numBeams - rank))).length ∧
        e' = (e.offerAll offers).setBeams chosen
          (((going eosToken cs).take (numBeams - chosen)).map (toBeam base)) := by
  induction cs generalizing rank chosen retired e with
  | nil =>
    obtain ⟨rfl, rfl⟩ := h.of_pure
    refine ⟨by simp [going]; omega, [], by simp [ended], ?_⟩
    simp [going, offerAll, HypothesisPool.addAll]
  | cons c rest ih =>
    unfold walk at h
    obtain ⟨source, given, h⟩ := h.of_outcome
    obtain rfl := Outcome.eq_of_size given
    by_cases eos : c.token = eosToken
    · rw [if_pos eos] at h
      rw [going_cons_of_eos rest eos]
      -- No end candidate is offered from rank `numBeams` on, however few beams are filled yet.
      by_cases weak : numBeams ≤ rank
      · have last : numBeams - rank = numBeams - (rank + 1) := by omega
        have first : numBeams - (rank + 1) = 0 := by omega
        rw [if_pos weak] at h
        rw [last, first, List.take_zero]
        simpa only [first, List.take_zero] using ih free (Nat.le_succ_of_le late) size h
      · rw [if_neg weak] at h
        obtain ⟨tokens, -, h⟩ := h.of_lift
        obtain ⟨count, offers, length, same⟩ :=
          ih (e := e.offer (tokens ++ [c.token]) c.score) free (Nat.le_succ_of_le late) size
            h.of_update
        have step : numBeams - rank = numBeams - (rank + 1) + 1 := by omega
        refine ⟨count, (tokens ++ [c.token], c.score) :: offers, ?_, same⟩
        rw [step, List.take_succ_cons, ended_cons_of_eos _ eos, List.length_cons, List.length_cons,
          length]
    · rw [if_neg eos] at h
      have h := h.of_update
      rw [going_cons_of_ne rest eos, ended_take_cons_of_ne rest eos, List.length_cons]
      by_cases last : chosen + 1 = numBeams
      · rw [if_pos last] at h
        obtain ⟨rfl, rfl⟩ := h.of_pure
        have none : numBeams - (rank + 1) = 0 := by omega
        have one : numBeams - chosen = 1 := by omega
        refine ⟨by omega, [], by simp [none, ended], ?_⟩
        have final := setBeams_setBeam (c.toBeam base) [] (size ▸ free)
        rw [setBeams_nil] at final
        rw [one]
        exact final
      · rw [if_neg last] at h
        obtain ⟨count, offers, length, same⟩ :=
          ih (by omega) (Nat.succ_le_succ late) (by simpa [setBeam] using size) h
        have step : numBeams - chosen = numBeams - (chosen + 1) + 1 := by omega
        refine ⟨by rw [count]; omega, offers, length, ?_⟩
        rw [step, List.take_succ_cons, List.map_cons, same]
        exact setBeams_setBeam (e := e.offerAll offers) (c.toBeam base) _ (size ▸ free)

theorem returns_offerBeams {list : List Nat} {e e' : Element} {u : Unit}
    (h : (offerBeams view list).Returns e u e') : ∃ offers, e' = e.offerAll offers := by
  induction list generalizing e with
  | nil =>
    obtain ⟨-, rfl⟩ := h.of_pure
    exact ⟨[], rfl⟩
  | cons i rest ih =>
    obtain ⟨tokens, -, h⟩ := h.of_object.of_lift
    obtain ⟨offers, same⟩ := ih h.of_update
    exact ⟨(tokens ++ [e.beams[i]!.token], e.beams[i]!.score) :: offers, same⟩

end Walk

/-- What a step that returned has made of the element `before`, whatever it read. -/
structure Turned (c : Configuration) (length index : Nat) (cs : List Candidate)
    (before after : Element) : Prop where
  /-- The beams do not depend on what is read. -/
  beams : after.beams = (before.stepped c.numBeams c.eosToken c.padToken (fun _ => []) length index
    cs).beams
  idle : before.status.isDone = true → after.status = before.status ∧ after.pool = before.pool
  /-- With enough candidates that go on, those that end a sequence at a rank below `numBeams` are
  offered, one each. -/
  filled : before.status.isDone = false → c.numBeams ≤ (going c.eosToken cs).length →
    ∃ offers : List (List Token × Binary32),
      offers.length = (ended c.eosToken (cs.take c.numBeams)).length ∧
      after.pool = before.pool.addAll offers ∧
      after.status = if after.pool.isComplete after.beams[0]!.score (length + 1)
        then .done .completed else .active
  exhausted : before.status.isDone = false → (going c.eosToken cs).length < c.numBeams →
    (∃ offers, after.pool = before.pool.addAll offers) ∧ after.status = .done .exhausted

theorem beams_setBeams_congr {e e' : Element} (same : e.beams = e'.beams) (i : Nat)
    (beams : List Beam) : (e.setBeams i beams).beams = (e'.setBeams i beams).beams := by
  simp only [setBeams, same]

theorem beams_exhaust_congr {e e' : Element} (same : e.beams = e'.beams) (padToken : Token)
    (base chosen : Nat) :
    (e.exhaust padToken base chosen).beams = (e'.exhaust padToken base chosen).beams := by
  simp only [exhaust, same]

section Step

variable {c : Configuration} {view : SequenceView} {length index : Nat} {cs : List Candidate}
  {e e' : Element}

theorem turned_of_filled {walked : Element} {retired : Nat}
    {offers : List (List Token × Binary32)}
    (size : e.beams.size = c.numBeams) (active : e.status.isDone = false)
    (enough : c.numBeams ≤ (going c.eosToken cs).length)
    (offered : offers.length = (ended c.eosToken (cs.take c.numBeams)).length)
    (same : walked = (e.offerAll offers).setBeams 0 (chosen c.numBeams c.eosToken index cs))
    (h : Action.Returns (do
      let e ← Action.object
      Action.require (0 < e.beams.size) .outOfBounds
      if e.pool.isComplete e.beams[0]!.score (length + 1) then
        Action.update fun e => { e with status := .done .completed }
        Action.emit (.completed index e.pool.size)
      else if 0 < retired then Action.emit (.retired index retired)) walked () e') :
    Turned c length index cs e e' := by
  have full : e.beams.size ≤ (chosen c.numBeams c.eosToken index cs).length := by
    simp
    omega
  have beams : walked.beams = (chosen c.numBeams c.eosToken index cs).toArray := by
    rw [same]
    exact beams_setBeams_of_length full
  have pool : walked.pool = e.pool.addAll offers := by rw [same]; rfl
  have going_on : walked.status = .active := by
    have status : walked.status = e.status := by rw [same]; rfl
    rw [status]
    cases before : e.status with
    | active => rfl
    | done reason =>
      rw [before] at active
      cases active
  obtain ⟨-, h⟩ := h.of_object.of_require
  have left : e' = { walked with
      status :=
        if walked.pool.isComplete walked.beams[0]!.score (length + 1) then .done .completed
        else .active } := by
    split at h
    case isTrue complete =>
      rw [if_pos complete]
      exact h.of_update.of_emit
    case isFalse incomplete =>
      rw [if_neg incomplete, ← going_on]
      split at h
      · exact h.of_emit
      · exact h.of_pure.2
  subst left
  refine ⟨?_, fun done => ?_, fun _ _ => ⟨offers, offered, pool, rfl⟩, fun _ few => ?_⟩
  · rw [stepped_of_enough active enough]
    exact beams
  · rw [active] at done
    cases done
  · exact absurd enough (Nat.not_le_of_lt few)

theorem turned_of_few {walked : Element} {count retired : Nat}
    {offers : List (List Token × Binary32)} (active : e.status.isDone = false)
    (few : (going c.eosToken cs).length < c.numBeams)
    (counted : count = (going c.eosToken cs).length)
    (same : walked = (e.offerAll offers).setBeams 0 (chosen c.numBeams c.eosToken index cs))
    (h : Action.Returns (do
      offerBeams view (List.range count)
      Action.update (exhaust c.padToken (index * c.numBeams) count)
      Action.emit (.exhausted index count retired)) walked () e') :
    Turned c length index cs e e' := by
  obtain ⟨_, rest, ran, h⟩ := h.of_bind
  obtain ⟨more, rfl⟩ := returns_offerBeams ran
  obtain rfl := h.of_update.of_emit
  have all : (chosen c.numBeams c.eosToken index cs).length = count := by
    simp [counted]
    omega
  refine ⟨?_, fun done => ?_, fun _ enough => ?_, fun _ _ => ⟨⟨offers ++ more, ?_⟩, rfl⟩⟩
  · rw [stepped_of_few active few, all]
    refine beams_exhaust_congr ?_ _ _ _
    have kept : (walked.offerAll more).beams = walked.beams := rfl
    rw [beams_foldl_offerBeam, kept, same]
    exact beams_setBeams_congr (beams_foldl_retire _ _ e _).symm _ _
  · rw [active] at done
    cases done
  · exact absurd enough (Nat.not_le_of_lt few)
  · rw [same]
    exact List.foldl_append.symm

theorem turned_of_step (some : 1 ≤ c.numBeams) (size : e.beams.size = c.numBeams)
    (h : (step c.numBeams c.eosToken c.padToken view length index cs).Returns e () e') :
    Turned c length index cs e e' := by
  unfold step at h
  have h := h.of_object
  dsimp only at h
  cases done : e.status.isDone with
  | true =>
    rw [if_pos done] at h
    obtain ⟨session, session', run⟩ := h
    cases run
    refine ⟨by rw [stepped_of_done done], fun _ => ⟨rfl, rfl⟩, fun active => ?_, fun active => ?_⟩ <;>
      rw [done] at active <;> cases active
  | false =>
    rw [if_neg (by simp [done])] at h
    obtain ⟨⟨count, retired⟩, walked, ran, h⟩ := h.of_bind
    obtain ⟨counted, offers, offered, same⟩ := returns_walk some (Nat.le_refl 0) size ran
    rw [Nat.zero_add] at counted
    rw [Nat.sub_zero] at offered same
    dsimp only at counted h
    rcases Nat.lt_or_ge (going c.eosToken cs).length c.numBeams with few | enough
    · rw [if_pos (by omega)] at h
      exact turned_of_few done few (by omega) same h
    · rw [if_neg (by omega)] at h
      exact turned_of_filled size done enough offered same h

end Step

end Element

/-! ## A call, read off its success -/

namespace Ranking

section Loop

variable {r r' : Ranking} {x : Nat → Action Element Unit}

theorem of_onElement {index : Nat} {y : Action Element Unit} {u : Unit}
    (h : (onElement index y).Returns r u r') : index < r.elements.size ∧
      ∃ e, y.Returns r.elements[index]! u e ∧
        r' = { r with elements := r.elements.set! index e } := by
  have h := h.of_object
  cases here : r.elements[index]? with
  | none =>
    rw [here] at h
    obtain ⟨session, session', run⟩ := h
    cases run
  | some e =>
    rw [here] at h
    obtain ⟨inside, rfl⟩ := Array.getElem?_eq_some_iff.1 here
    obtain ⟨e', ran, same⟩ := h.of_focus
    rw [getElem!_pos r.elements index inside]
    exact ⟨inside, e', ran, same⟩

theorem of_onElements {indices : List Nat} (distinct : indices.Nodup) {u : Unit}
    (h : (indices.forM fun b => onElement b (x b)).Returns r u r') :
    (∀ b ∈ indices, (x b).Returns r.elements[b]! () r'.elements[b]!) ∧
      ∀ b ∉ indices, r'.elements[b]! = r.elements[b]! := by
  induction indices generalizing r with
  | nil =>
    obtain ⟨-, rfl⟩ := h.of_pure
    exact ⟨nofun, fun _ _ => rfl⟩
  | cons b rest ih =>
    obtain ⟨_, middle, ran, h⟩ := h.of_bind
    obtain ⟨inside, e, step, rfl⟩ := of_onElement ran
    obtain ⟨fresh, distinct⟩ := List.nodup_cons.1 distinct
    obtain ⟨each, others⟩ := ih distinct h
    have written (b' : Nat) := getElem!_set! e b' inside
    refine ⟨fun b' member => ?_, fun b' outside => ?_⟩
    · rcases List.mem_cons.1 member with rfl | later
      · rw [others b' fresh, written, if_pos rfl]
        exact step
      · have other : b' ≠ b := fun same => fresh (same ▸ later)
        have ran := each b' later
        rwa [written, if_neg other] at ran
    · have other : b' ≠ b := fun same => outside (same ▸ List.mem_cons_self)
      rw [others b' fun later => outside (List.mem_cons_of_mem _ later), written, if_neg other]

end Loop

theorem of_process {c : Configuration} {r r' : Ranking} {view : SequenceView}
    {cs : Selection.Candidates} (shaped : r.Shaped c) (beams : 1 ≤ c.numBeams)
    (h : (process view cs).Returns r () r') : r'.Shaped c ∧
      cs.beams.size = c.batchSize * (2 * c.numBeams) ∧ ∃ length, ∀ b < c.batchSize,
        Element.Turned c length b (candidatesOf cs (2 * c.numBeams) b) r.elements[b]!
          r'.elements[b]! := by
  have after : r'.Shaped c := (keeps_process view cs).of_returns h shaped
  obtain ⟨k, double, h⟩ := h.of_object.of_outcome
  obtain ⟨expected, total, h⟩ := h.of_outcome
  obtain rfl := Outcome.eq_of_size double
  obtain rfl := Outcome.eq_of_size total
  obtain ⟨sizes, h⟩ := h.of_require
  obtain ⟨length, -, h⟩ := h.of_outcome
  rw [shaped.numBeams, shaped.elements, shaped.eosToken, shaped.padToken] at *
  simp only [Bool.and_eq_true, decide_eq_true_eq] at sizes
  obtain ⟨each, -⟩ := of_onElements List.nodup_range h
  exact ⟨after, sizes.2, length, fun b hb =>
    Element.turned_of_step beams (shaped.beams b hb) (each b (List.mem_range.2 hb))⟩

/-! ## Histories -/

inductive Operation where
  | process (view : SequenceView) (cs : Selection.Candidates)
  | isDone (length : Nat)

namespace Operation

/-- Some session lets the call succeed on `r` and leave `r'`. Candidates extend beams of their own
element. -/
def Runs (c : Configuration) (r r' : Ranking) : Operation → Prop
  | process view cs => (∀ beam ∈ cs.beams, ∃ i < c.numBeams, beam = (i : Int)) ∧
      (Ranking.process view cs).Returns r () r'
  | isDone length => r' = r.capLength length

/-- How many candidates of element `b` end a sequence at a rank below `numBeams`. -/
def retired (c : Configuration) (b : Nat) : Operation → Nat
  | process _ cs => (Candidate.ended c.eosToken
      ((candidatesOf cs (2 * c.numBeams) b).take c.numBeams)).length
  | isDone _ => 0

end Operation

inductive History (c : Configuration) (start : Ranking) : List Operation → Ranking → Prop
  | start : History c start [] start
  | call {ops : List Operation} {op : Operation} {r r' : Ranking} : History c start ops r →
    op.Runs c r r' → History c start (ops ++ [op]) r'

def retired (c : Configuration) (b : Nat) (ops : List Operation) : Nat :=
  (ops.map (Operation.retired c b)).sum

end Ranking

namespace Element

open Candidate

/-- What element `b` keeps, of which `retired` end candidates were retired so far. -/
structure Living (c : Configuration) (b retired : Nat) (e : Element) : Prop where
  capacity : e.pool.capacity = c.numBeams
  earlyStopping : e.pool.earlyStopping = c.earlyStopping
  size : e.pool.size ≤ c.numBeams
  source : ∀ i < c.numBeams, ∃ j < c.numBeams,
    e.beams[i]!.source = Token.ofIndex (b * c.numBeams + j)
  counted : c.earlyStopping = true → e.status = .active →
    e.pool.size = retired ∧ e.pool.size < c.numBeams

section Living

variable {c : Configuration} {b retired length : Nat} {cs : List Candidate} {e e' : Element}

theorem isDone_of_ne_active (h : e.status ≠ .active) : e.status.isDone = true := by
  cases status : e.status with
  | active => exact absurd status h
  | done reason => rfl

theorem Living.capped (living : Living c b retired e) : Living c b retired e.capped := by
  unfold Element.capped
  split
  · exact living
  · exact { living with counted := fun _ active => by cases active }

theorem Living.addAll (living : Living c b retired e) (offers : List (List Token × Binary32)) :
    (e.pool.addAll offers).capacity = c.numBeams ∧
      (e.pool.addAll offers).earlyStopping = c.earlyStopping ∧
      (e.pool.addAll offers).size = min c.numBeams (e.pool.size + offers.length) := by
  have size := HypothesisPool.size_addAll (living.capacity ▸ living.size) offers
  simp [size, living.capacity, living.earlyStopping]

theorem isComplete_of_early {p : HypothesisPool} (early : p.earlyStopping = true) (best : Binary32)
    (length : Nat) : p.isComplete best length = true ↔ p.capacity ≤ p.size := by
  simp [HypothesisPool.isComplete, HypothesisPool.isFull, early]

section Turned

variable (living : Living c b retired e) (turn : Turned c length b cs e e')

include living turn

theorem Living.turned (size : e.beams.size = c.numBeams)
    (inside : ∀ d ∈ cs, Token.toIndex d.beam < c.numBeams) :
    Living c b (retired + (ended c.eosToken (cs.take c.numBeams)).length) e' := by
  have source : ∀ i < c.numBeams, ∃ j < c.numBeams,
      e'.beams[i]!.source = Token.ofIndex (b * c.numBeams + j) := fun i hi => by
    rw [turn.beams]
    exact source_stepped inside size hi
  cases done : e.status.isDone with
  | true =>
    obtain ⟨status, pool⟩ := turn.idle done
    refine ⟨?_, ?_, ?_, source, fun _ active => ?_⟩
    · rw [pool, living.capacity]
    · rw [pool, living.earlyStopping]
    · rw [pool]
      exact living.size
    · rw [← status, active] at done
      cases done
  | false =>
    rcases Nat.lt_or_ge (going c.eosToken cs).length c.numBeams with few | enough
    · obtain ⟨⟨offers, pool⟩, status⟩ := turn.exhausted done few
      obtain ⟨capacity, early, count⟩ := living.addAll offers
      rw [← pool] at capacity early count
      refine ⟨capacity, early, by omega, source, fun _ active => ?_⟩
      rw [status] at active
      cases active
    · obtain ⟨offers, offered, pool, status⟩ := turn.filled done enough
      obtain ⟨capacity, early, count⟩ := living.addAll offers
      rw [← pool] at capacity early count
      refine ⟨capacity, early, by omega, source, fun stopping active => ?_⟩
      have before : e.status = .active := by
        by_contra other
        rw [isDone_of_ne_active other] at done
        cases done
      have filling := living.counted stopping before
      rw [status] at active
      split at active
      · cases active
      case isFalse incomplete =>
        rw [isComplete_of_early (early.trans stopping), capacity] at incomplete
        omega

theorem Living.completed_iff (stopping : c.earlyStopping = true) (active : e.status = .active) :
    e'.status = .done .completed ↔
      c.numBeams ≤ retired + (ended c.eosToken (cs.take c.numBeams)).length ∧
      c.numBeams ≤ (going c.eosToken cs).length := by
  have done : e.status.isDone = false := by rw [active]; rfl
  have filling := living.counted stopping active
  rcases Nat.lt_or_ge (going c.eosToken cs).length c.numBeams with few | enough
  · rw [(turn.exhausted done few).2]
    exact ⟨nofun, fun h => absurd h.2 (Nat.not_le_of_lt few)⟩
  · obtain ⟨offers, offered, pool, status⟩ := turn.filled done enough
    obtain ⟨capacity, early, count⟩ := living.addAll offers
    rw [← pool] at capacity early count
    have full := isComplete_of_early (early.trans stopping) e'.beams[0]!.score (length + 1)
    rw [capacity] at full
    rw [status]
    split
    case isTrue complete => exact iff_of_true rfl ⟨by have := full.1 complete; omega, enough⟩
    case isFalse incomplete =>
      exact iff_of_false nofun fun h => incomplete (full.2 (by omega))

omit living in
theorem Turned.ne_lengthCap (active : e.status = .active) : e'.status ≠ .done .lengthCap := by
  have done : e.status.isDone = false := by rw [active]; rfl
  rcases Nat.lt_or_ge (going c.eosToken cs).length c.numBeams with few | enough
  · rw [(turn.exhausted done few).2]
    nofun
  · obtain ⟨-, -, -, status⟩ := turn.filled done enough
    rw [status]
    split <;> nofun

end Turned

end Living

end Element

namespace Ranking

section LifeCycle

variable {c : Configuration} {r r' : Ranking} {ops : List Operation} {op : Operation} {b : Nat}

structure Lives (c : Configuration) (ops : List Operation) (r : Ranking) : Prop where
  shaped : r.Shaped c
  living : ∀ b < c.batchSize, Element.Living c b (retired c b ops) r.elements[b]!

theorem lives_initial (beams : 1 ≤ c.numBeams) : Lives c [] (initial c) where
  shaped := shaped_initial c
  living := by
    intro b hb
    rw [getElem!_initial hb]
    refine ⟨rfl, rfl, Nat.zero_le _, fun i hi => ⟨i, hi, ?_⟩, fun _ _ => ⟨rfl, beams⟩⟩
    simp [hi]

theorem retired_append (c : Configuration) (b : Nat) (ops : List Operation) (op : Operation) :
    retired c b (ops ++ [op]) = retired c b ops + op.retired c b := by
  simp [retired]

/-- What a call that succeeds does to an element. -/
theorem of_runs (shaped : r.Shaped c) (beams : 1 ≤ c.numBeams) (wide : c.numBeams < 2 ^ 64)
    (ran : op.Runs c r r') : r'.Shaped c ∧
      ((∃ view cs length, op = .process view cs ∧ ∀ b < c.batchSize,
        (∀ d ∈ candidatesOf cs (2 * c.numBeams) b, Token.toIndex d.beam < c.numBeams) ∧
        Element.Turned c length b (candidatesOf cs (2 * c.numBeams) b) r.elements[b]!
          r'.elements[b]!) ∨
      ∃ length, op = .isDone length ∧ ∀ b < c.batchSize, r'.elements[b]! =
        if c.maxLength ≤ length then r.elements[b]!.capped else r.elements[b]!) := by
  cases op with
  | process view cs =>
    obtain ⟨inside, ran⟩ := ran
    obtain ⟨after, size, length, turned⟩ := of_process shaped beams ran
    refine ⟨after, .inl ⟨view, cs, length, rfl, fun b hb => ⟨fun d hd => ?_, turned b hb⟩⟩⟩
    obtain ⟨i, hi, same⟩ := inside _ (mem_candidatesOf size hb hd)
    rwa [same, Token.toIndex_natCast (by omega)]
  | isDone length =>
    obtain rfl : r' = r.capLength length := ran
    exact ⟨shaped.capLength length, .inr ⟨length, rfl, fun b hb => getElem!_capLength shaped hb⟩⟩

section Calls

variable (beams : 1 ≤ c.numBeams) (wide : c.numBeams < 2 ^ 64)

include beams wide

theorem Lives.runs (lives : Lives c ops r) (ran : op.Runs c r r') : Lives c (ops ++ [op]) r' := by
  obtain ⟨after, did⟩ := of_runs lives.shaped beams wide ran
  refine ⟨after, fun b hb => ?_⟩
  rw [retired_append]
  rcases did with ⟨view, cs, length, rfl, turned⟩ | ⟨length, rfl, capped⟩
  · obtain ⟨inside, turn⟩ := turned b hb
    exact (lives.living b hb).turned turn (lives.shaped.beams b hb) inside
  · rw [capped b hb]
    split
    · exact (lives.living b hb).capped
    · exact lives.living b hb

theorem lives_of_history (history : History c (initial c) ops r) : Lives c ops r := by
  induction history with
  | start => exact lives_initial beams
  | call _ ran lives => exact lives.runs beams wide ran

theorem settled_of_runs (shaped : r.Shaped c) (ran : op.Runs c r r') (hb : b < c.batchSize)
    (done : r.elements[b]!.status.isDone = true) :
    r'.elements[b]!.status = r.elements[b]!.status ∧
      r'.elements[b]!.pool = r.elements[b]!.pool := by
  rcases (of_runs shaped beams wide ran).2 with ⟨view, cs, length, -, turned⟩ | ⟨length, -, capped⟩
  · exact (turned b hb).2.idle done
  · rw [capped b hb, Element.capped_of_done done, ite_self]
    exact ⟨rfl, rfl⟩

theorem settled_of_history (shaped : r.Shaped c) (history : History c r ops r')
    (hb : b < c.batchSize) (done : r.elements[b]!.status.isDone = true) : r'.Shaped c ∧
      r'.elements[b]!.status = r.elements[b]!.status ∧
      r'.elements[b]!.pool = r.elements[b]!.pool := by
  induction history with
  | start => exact ⟨shaped, rfl, rfl⟩
  | call _ ran ih =>
    obtain ⟨middle, status, pool⟩ := ih
    obtain ⟨status', pool'⟩ := settled_of_runs beams wide middle ran hb (status ▸ done)
    exact ⟨(of_runs middle beams wide ran).1, status'.trans status, pool'.trans pool⟩

theorem Lives.ends (lives : Lives c ops r) (ran : op.Runs c r r') (hb : b < c.batchSize)
    (active : r.elements[b]!.status = .active) :
    (r'.elements[b]!.status = .done .lengthCap ↔
      ∃ length, op = .isDone length ∧ c.maxLength ≤ length) ∧
    (c.earlyStopping = true → (r'.elements[b]!.status = .done .completed ↔
      ∃ view cs, op = .process view cs ∧ c.numBeams ≤ retired c b (ops ++ [op]) ∧
        c.numBeams ≤
          (Candidate.going c.eosToken (candidatesOf cs (2 * c.numBeams) b)).length)) := by
  rw [retired_append]
  rcases (of_runs lives.shaped beams wide ran).2 with
    ⟨view, cs, length, rfl, turned⟩ | ⟨length, rfl, capped⟩
  · obtain ⟨-, turn⟩ := turned b hb
    refine ⟨iff_of_false (turn.ne_lengthCap active) ?_, fun stopping => ?_⟩
    · rintro ⟨_, same, -⟩
      cases same
    · rw [(lives.living b hb).completed_iff turn stopping active]
      constructor
      · exact fun h => ⟨view, cs, rfl, h⟩
      · rintro ⟨_, _, same, h⟩
        cases same
        exact h
  · have after : r'.elements[b]!.status =
        if c.maxLength ≤ length then .done .lengthCap else .active := by
      rw [capped b hb]
      unfold Element.capped
      rw [active]
      split <;> simp [active, Status.isDone]
    rw [after]
    constructor
    · constructor
      · intro same
        refine ⟨length, rfl, Decidable.byContradiction fun short => ?_⟩
        rw [if_neg short] at same
        cases same
      · rintro ⟨_, same, long⟩
        cases same
        rw [if_pos long]
    · intro _
      constructor
      · intro same
        split at same <;> cases same
      · rintro ⟨_, _, same, -⟩
        cases same

end Calls

/-- From its making on, over any calls that succeed, whatever the sequences, scores and candidates
are: an element that is done keeps its reason and its pool; no pool exceeds the number of beams; a
slot goes on from a slot of its own element; the length cap comes from the question at a length as
long as allowed and from nothing else; and with early stopping an element that goes on has pooled
what it has retired, fewer than there are beams, and is completed by the step that retires enough
and fills all beams. -/
theorem ranking_life_cycle (batch : 1 ≤ c.batchSize) (beams : 1 ≤ c.numBeams)
    (slots : c.batchSize * c.numBeams < 2 ^ 31) :
    ∃ r₀, new c = .ok r₀ ∧ ∀ ops r, History c r₀ ops r →
      r.sources.size = c.batchSize * c.numBeams ∧ ∀ b < c.batchSize,
        let e := r.elements[b]!
        e.pool.size ≤ c.numBeams ∧
        (∀ i < c.numBeams, ∃ j < c.numBeams,
          r.sources[b * c.numBeams + i]! = ((b * c.numBeams + j : Nat) : Int)) ∧
        (c.earlyStopping = true → e.status = .active →
          e.pool.size = retired c b ops ∧ e.pool.size < c.numBeams) ∧
        (∀ later r', History c r later r' → e.status.isDone = true →
          r'.elements[b]!.status = e.status ∧ r'.elements[b]!.pool = e.pool) ∧
        ∀ op r', op.Runs c r r' → e.status = .active →
          (r'.elements[b]!.status = .done .lengthCap ↔
            ∃ length, op = .isDone length ∧ c.maxLength ≤ length) ∧
          (c.earlyStopping = true → (r'.elements[b]!.status = .done .completed ↔
            ∃ view cs, op = .process view cs ∧ c.numBeams ≤ retired c b (ops ++ [op]) ∧
              c.numBeams ≤
                (Candidate.going c.eosToken (candidatesOf cs (2 * c.numBeams) b)).length)) := by
  have wide : c.numBeams < 2 ^ 64 := by
    have := Nat.le_mul_of_pos_left c.numBeams batch
    omega
  refine ⟨initial c, new_of_slots batch beams slots, fun ops r history => ?_⟩
  have lives := lives_of_history beams wide history
  refine ⟨Array.size_map.trans (lives.shaped.size_beams batch), fun b hb => ?_⟩
  have living := lives.living b hb
  refine ⟨living.size, fun i hi => ?_, living.counted, fun later r' history done => ?_,
    fun op r' ran active => lives.ends beams wide ran hb active⟩
  · obtain ⟨j, hj, same⟩ := living.source i hi
    refine ⟨j, hj, (lives.shaped.getElem!_slot (·.source) hb hi).trans (same.trans ?_)⟩
    exact Token.ofIndex_of_lt (Nat.lt_trans (row_mul_add_lt hb hj) slots)
  · exact (settled_of_history beams wide lives.shaped history hb done).2

/-- Two steps over scores that are no numbers: the first retires one candidate and the second one
more, which completes the element for good. -/
theorem ranking_life_cycle_of_two_steps :
    let c : Configuration :=
      { batchSize := 1, numBeams := 2, vocabSize := 8, maxLength := 4, eosToken := 0, padToken := 3,
        earlyStopping := true }
    let view : SequenceView := ⟨.ok 2, fun i => pure [7, (i : Int)]⟩
    let first : Selection.Candidates := ⟨.replicate 4 .invalid, #[0, 5, 6, 0], #[0, 1, 1, 0]⟩
    let second : Selection.Candidates := ⟨.replicate 4 .invalid, #[5, 0, 6, 0], #[1, 1, 0, 0]⟩
    let steps : List Operation := [.process view first, .process view second]
    ∃ r₀ r₁ r₂, new c = .ok r₀ ∧ History c r₀ (steps.take 1) r₁ ∧ History c r₀ steps r₂ ∧
      r₁.elements[0]!.status = .active ∧ r₁.elements[0]!.pool.size = 1 ∧
      ∀ later r', History c r₂ later r' → r'.elements[0]!.status = .done .completed := by
  intro c view first second steps
  let known : Nat → List Token := fun i => [7, (i : Int)]
  have size : view.length = .ok 2 := rfl
  have reads : ∀ i < c.batchSize * c.numBeams, (view.read i).Gives (known i) := fun i _ =>
    gives_pure _
  have inside : ∀ cs ∈ [first, second], ∀ b < c.batchSize,
      ∀ d ∈ candidatesOf cs (2 * c.numBeams) b, Token.toIndex d.beam < c.numBeams := by decide
  let r₁ := (initial c).processed known 2 first
  let r₂ := r₁.processed known 2 second
  have shaped : r₁.Shaped c := (shaped_initial c).processed (by decide)
  have ran : (Operation.process view first).Runs c (initial c) r₁ :=
    ⟨by decide, (takes_process (shaped_initial c) (by decide) (by decide) (by decide) size reads rfl
      rfl rfl (inside first (by simp))).returns⟩
  have ran' : (Operation.process view second).Runs c r₁ r₂ :=
    ⟨by decide, (takes_process shaped (by decide) (by decide) (by decide) size reads rfl rfl rfl
      (inside second (by simp))).returns⟩
  obtain ⟨r₀, made, lives⟩ := ranking_life_cycle (c := c) (by decide) (by decide) (by decide)
  cases made.symm.trans (new_of_slots (by decide) (by decide) (by decide))
  have one : History c (initial c) (steps.take 1) r₁ := .call .start ran
  have two : History c (initial c) steps r₂ := .call one ran'
  have active : r₁.elements[0]!.status = .active := by decide +kernel
  obtain ⟨-, -, counted, -, ends⟩ := (lives _ _ one).2 0 (by decide)
  obtain ⟨-, -, -, settled, -⟩ := (lives _ _ two).2 0 (by decide)
  have completed : r₂.elements[0]!.status = .done .completed :=
    ((ends _ _ ran' active).2 rfl).2 ⟨view, second, rfl, by decide, by decide⟩
  refine ⟨initial c, r₁, r₂, made, one, two, active, ?_, fun later r' history => ?_⟩
  · exact (counted rfl active).1.trans (by decide)
  · exact (settled later r' history (by rw [completed]; rfl)).1.trans completed

end LifeCycle

end Ranking

end TokenSearch
