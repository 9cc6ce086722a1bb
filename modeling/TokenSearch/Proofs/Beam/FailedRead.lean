import TokenSearch.Proofs.Beam.Pool
import TokenSearch.Proofs.Beam.Process

/-!
A step that cannot read a sequence. Elements are re-ranked one after another, and each reads the
sequences it offers in the order of its walk, so the state that is left is known from where the read
failed: the elements before are as after a step that read everything, those behind have not been
touched, and the one in between has offered what it had read and is still active.
-/

namespace TokenSearch

open TokenSearch.Run TokenSearch.Action

/-! ## Violations are not errors -/

namespace Action

variable {σ α : Type} {s : Session × σ} {t : Session × σ} {e : Error}

theorem of_size_error {n : Nat} {f : Nat → Action σ α}
    (h : (ofOutcome (Outcome.size n) >>= f) s = .error (.error e) t) :
    n < 2 ^ 64 ∧ f n s = .error (.error e) t := by
  by_cases small : n < 2 ^ 64
  · rw [Outcome.size_of_lt small] at h
    exact ⟨small, h⟩
  · rw [Outcome.size, if_neg small] at h
    cases h

theorem of_require_error {condition : Bool} {v : Violation} {f : Unit → Action σ α}
    (h : (require condition v >>= f) s = .error (.error e) t) :
    condition = true ∧ f () s = .error (.error e) t := by
  cases condition with
  | true => exact ⟨rfl, h⟩
  | false => cases h

end Action

/-! ## One element -/

namespace Element

def hypothesis (known : Nat → List Token) (o : Offer) : List Token × Binary32 :=
  (known o.slot ++ [o.token], o.sum)

@[simp] theorem pool_foldl_take (known : Nat → List Token) (offers : List Offer) (e : Element) :
    (offers.foldl (take known) e).pool = e.pool.addAll (offers.map (hypothesis known)) := by
  induction offers generalizing e with
  | nil => rfl
  | cons o rest ih => exact ih (e.take known o)

theorem hypotheses_of_done {numBeams index : Nat} {eosToken : Token} {cs : List Candidate}
    {e : Element} (done : e.status.isDone = true) :
    e.hypotheses numBeams eosToken index cs = [] :=
  if_pos done

@[simp] theorem hypotheses_without_beams {index : Nat} {eosToken : Token} {cs : List Candidate}
    {e : Element} : e.hypotheses 0 eosToken index cs = [] := by
  simp [hypotheses, Candidate.ended]

theorem step_without_beams {eosToken padToken : Token} {view : SequenceView} {length index : Nat}
    {e : Element} (size : e.beams.size = 0) (active : e.status.isDone = false) (s : Session) :
    ∃ v t, step 0 eosToken padToken view length index [] (s, e) = .error (.violation v) t := by
  refine ⟨.outOfBounds, (s, e), (bind_of_ok (x := Action.object) rfl).trans ?_⟩
  rw [if_neg (by simp [active])]
  refine bind_of_error (x := Action.require (decide (0 < e.beams.size)) .outOfBounds) ?_
  rw [size]
  rfl

end Element

/-! ## All elements -/

namespace Ranking

section Loop

variable {view : SequenceView} {known : Nat → List Token} {P : Session → Prop} {r : Ranking}
  {x : Nat → Action Element Unit} {offers : Nat → List Offer} {next : Nat → Element}

/-- Where a loop over the first `m` elements has stopped: at a read of the element `b`. -/
structure StoppedAt (view : SequenceView) (known : Nat → List Token) (P : Session → Prop)
    (r : Ranking) (offers : Nat → List Offer) (next : Nat → Element) (s : Session) (b : Nat)
    (before : List Offer) (o : Offer) (f : Failure) (t : Session) (r' : Ranking) : Prop where
  member : ∃ after, offers b = before ++ o :: after
  element : ∃ s' left, view.Reads s (((List.range b).flatMap offers).map (·.slot)) s' ∧
    Element.Stopped view known P s' r.elements[b]! before o f t left ∧
    r' = { r with elements := (r.below next b).elements.set! b left }

section StoppedAt

variable {s t : Session} {b : Nat} {before : List Offer} {o : Offer} {f : Failure} {r' : Ranking}
  (stopped : StoppedAt view known P r offers next s b before o f t r')

include stopped

theorem StoppedAt.reads : ∃ s', P s' ∧
    view.Reads s (((List.range b).flatMap offers ++ before).map (·.slot)) s' ∧
    view.read o.slot s' = .error f t := by
  obtain ⟨_, _, earlier, here, -⟩ := stopped.element
  obtain ⟨s', held, reads, fails⟩ := here.reads
  refine ⟨s', held, ?_, fails⟩
  rw [List.map_append]
  exact earlier.append reads

theorem StoppedAt.getElem!_lt (hb : b < r.elements.size) {b' : Nat} (less : b' < b) :
    r'.elements[b']! = next b' := by
  obtain ⟨_, left, -, -, rfl⟩ := stopped.element
  have inside : b < (r.below next b).elements.size := by simpa using hb
  dsimp only
  rw [getElem!_set! left b' inside, if_neg (Nat.ne_of_lt less),
    getElem!_below (Nat.lt_trans less hb), if_pos less]

theorem StoppedAt.getElem!_gt (hb : b < r.elements.size) {b' : Nat} (more : b < b') :
    r'.elements[b']! = r.elements[b']! := by
  obtain ⟨_, left, -, -, rfl⟩ := stopped.element
  have inside : b < (r.below next b).elements.size := by simpa using hb
  dsimp only
  rw [getElem!_set! left b' inside, if_neg (Nat.ne_of_gt more),
    getElem!_below_of_le (Nat.le_of_lt more)]

theorem StoppedAt.getElem!_self (hb : b < r.elements.size) :
    r'.elements[b]!.status = r.elements[b]!.status ∧
      r'.elements[b]!.pool = (before.foldl (Element.take known) r.elements[b]!).pool := by
  obtain ⟨_, left, -, here, rfl⟩ := stopped.element
  have inside : b < (r.below next b).elements.size := by simpa using hb
  dsimp only
  rw [getElem!_set! left b inside, if_pos rfl]
  exact ⟨here.status, here.pool⟩

end StoppedAt

/-- A loop over elements that take offers, or break a precondition, takes the offers of one after
another up to the first read that fails. -/
theorem firstElements_offer
    (each : ∀ b < r.elements.size,
      Element.Offers view known P (x b) r.elements[b]! (offers b) () (next b) ∨
        ∀ s, ∃ v t, x b (s, r.elements[b]!) = .error (.violation v) t)
    {m : Nat} (le : m ≤ r.elements.size) (s : Session) (held : P s) :
    let loop := (List.range m).forM fun b => onElement b (x b)
    (∃ t, P t ∧ view.Reads s (((List.range m).flatMap offers).map (·.slot)) t ∧
      loop (s, r) = .ok () (t, r.below next m)) ∨
    (∃ v t, loop (s, r) = .error (.violation v) t) ∨
    ∃ b < m, ∃ before o f t r', StoppedAt view known P r offers next s b before o f t r' ∧
      loop (s, r) = .error f (t, r') := by
  induction m with
  | zero => exact .inl ⟨s, held, .done s, by simp; rfl⟩
  | succ m ih =>
    have here : m < (r.below next m).elements.size := by simpa using Nat.lt_of_succ_le le
    have untouched : (r.below next m).elements[m]! = r.elements[m]! :=
      getElem!_below_of_le (Nat.le_refl m)
    rw [forM_range_succ, List.range_succ, List.flatMap_append, List.flatMap_singleton,
      List.map_append]
    -- The next element only matters where the loop has come through, and finds itself untouched.
    rcases ih (Nat.le_of_succ_le le) with ⟨s', held', reads, ran⟩ | ⟨v, t, ran⟩ |
      ⟨b, hb, before, o, f, t, r', stopped, ran⟩
    case inr.inl => exact .inr <| .inl ⟨v, t, bind_of_error ran⟩
    case inr.inr =>
      exact .inr <| .inr ⟨b, Nat.lt_succ_of_lt hb, before, o, f, t, r', stopped, bind_of_error ran⟩
    rcases each m le with takes | breaks
    case inr =>
      obtain ⟨v, t, ran'⟩ := breaks s'
      exact .inr <| .inl ⟨v, _, (bind_of_ok ran).trans <|
        onElement_of_error here (untouched ▸ ran')⟩
    rcases takes.runs s' held' with ⟨t, later, reads', ran'⟩ |
      ⟨before, o, after, f, t, left, split, stopped, ran'⟩
    · refine .inl ⟨t, later, reads.append reads', (bind_of_ok ran).trans ?_⟩
      rw [← below_succ]
      exact onElement_of_ok here (untouched ▸ ran')
    · exact .inr <| .inr ⟨m, Nat.lt_succ_self m, before, o, f, t, _,
        ⟨⟨after, split⟩, s', left, reads, stopped, rfl⟩,
        (bind_of_ok ran).trans <| onElement_of_error here (untouched ▸ ran')⟩

end Loop

def hypotheses (cs : Selection.Candidates) (r : Ranking) (b : Nat) : List Offer :=
  r.elements[b]!.hypotheses r.numBeams r.eosToken b (candidatesOf cs (2 * r.numBeams) b)

section Process

variable {c : Configuration} {r r' : Ranking} {view : SequenceView} {known : Nat → List Token}
  {length : Nat} {cs : Selection.Candidates}

structure Sized (c : Configuration) (cs : Selection.Candidates) : Prop where
  double : 2 * c.numBeams < 2 ^ 64
  total : c.batchSize * (2 * c.numBeams) < 2 ^ 64
  scores : cs.scores.size = c.batchSize * (2 * c.numBeams)
  tokens : cs.tokens.size = c.batchSize * (2 * c.numBeams)
  beams : cs.beams.size = c.batchSize * (2 * c.numBeams)

theorem sized_of_error (shaped : r.Shaped c) {s t : Session} {e : Error}
    (h : process view cs (s, r) = .error (.error e) (t, r')) : Sized c cs := by
  obtain ⟨double, h⟩ := of_size_error h
  obtain ⟨total, h⟩ := of_size_error h
  obtain ⟨sizes, -⟩ := of_require_error h
  rw [shaped.numBeams, shaped.elements] at *
  simp only [Bool.and_eq_true, decide_eq_true_eq] at sizes
  exact ⟨double, total, sizes.1.1, sizes.1.2, sizes.2⟩

theorem slot_candidatesOf_lt (sized : Sized c cs) (slots : c.batchSize * c.numBeams < 2 ^ 64)
    (inside : ∀ beam ∈ cs.beams, ∃ i < c.numBeams, beam = (i : Int)) {b : Nat}
    (hb : b < c.batchSize) {d : Candidate} (hd : d ∈ candidatesOf cs (2 * c.numBeams) b) :
    d.slot (b * c.numBeams) < 2 ^ 64 := by
  obtain ⟨i, hi, same⟩ := inside _ (mem_candidatesOf sized.beams hb hd)
  have double := sized.double
  rw [Candidate.slot, same, Token.toIndex_natCast (by omega)]
  exact Nat.lt_trans (row_mul_add_lt hb hi) slots

def steppedAt (known : Nat → List Token) (length : Nat) (cs : Selection.Candidates) (r : Ranking)
    (b : Nat) : Element :=
  r.elements[b]!.stepped r.numBeams r.eosToken r.padToken known length b
    (candidatesOf cs (2 * r.numBeams) b)

theorem getElem!_processed_eq {b : Nat} (h : b < r.elements.size) :
    (r.processed known length cs).elements[b]! = r.steppedAt known length cs b := by
  simp [processed, steppedAt, h]

theorem offers_stepAt {P : Session → Prop} (shaped : r.Shaped c) (sized : Sized c cs)
    (slots : c.batchSize * c.numBeams < 2 ^ 64)
    (inside : ∀ beam ∈ cs.beams, ∃ i < c.numBeams, beam = (i : Int))
    (logs : ∀ s event, P s → P (s.log event)) (knows : ∀ i, view.Knows known P i)
    {b : Nat} (hb : b < c.batchSize) (some : r.elements[b]!.status.isDone = false → 0 < c.numBeams) :
    Element.Offers view known P
      (Element.step r.numBeams r.eosToken r.padToken view length b
        (candidatesOf cs (2 * r.numBeams) b))
      r.elements[b]! (r.hypotheses cs b) () (r.steppedAt known length cs b) := by
  rw [hypotheses, steppedAt, shaped.numBeams]
  exact Element.offers_step logs (fun o _ => knows o.slot)
    (fun d hd => slot_candidatesOf_lt sized slots inside hb hd) some (shaped.beams b hb)

theorem offers_or_breaks (length : Nat) (shaped : r.Shaped c) (sized : Sized c cs)
    (slots : c.batchSize * c.numBeams < 2 ^ 64)
    (inside : ∀ beam ∈ cs.beams, ∃ i < c.numBeams, beam = (i : Int))
    (knows : ∀ i, view.Knows known (fun _ => True) i) {b : Nat} (hb : b < c.batchSize) :
    Element.Offers view known (fun _ => True) (Element.step r.numBeams r.eosToken r.padToken view
        length b (candidatesOf cs (2 * r.numBeams) b)) r.elements[b]! (r.hypotheses cs b) ()
        (r.steppedAt known length cs b) ∨
      ∀ s, ∃ v t, Element.step r.numBeams r.eosToken r.padToken view length b
        (candidatesOf cs (2 * r.numBeams) b) (s, r.elements[b]!) = .error (.violation v) t := by
  by_cases stuck : r.elements[b]!.status.isDone = false ∧ c.numBeams = 0
  · obtain ⟨active, none⟩ := stuck
    rw [shaped.numBeams, none]
    exact .inr (Element.step_without_beams ((shaped.beams b hb).trans none) active)
  · exact .inl <| offers_stepAt shaped sized slots inside (fun _ _ _ => trivial) knows hb
      fun active => Nat.pos_of_ne_zero fun none => stuck ⟨active, none⟩

theorem active_of_mem_hypotheses (shaped : r.Shaped c) {b : Nat} {o : Offer}
    (h : o ∈ r.hypotheses cs b) : r.elements[b]!.status = .active ∧ 0 < c.numBeams := by
  constructor
  · cases status : r.elements[b]!.status with
    | active => rfl
    | done reason =>
      rw [hypotheses, Element.hypotheses_of_done (by rw [status]; rfl)] at h
      cases h
  · refine Nat.pos_of_ne_zero fun zero => ?_
    simp [hypotheses, shaped.numBeams, zero] at h

theorem takes_process_known (shaped : r.Shaped c) (sized : Sized c cs) (some : 0 < c.numBeams)
    (slots : c.batchSize * c.numBeams < 2 ^ 64)
    (inside : ∀ beam ∈ cs.beams, ∃ i < c.numBeams, beam = (i : Int)) :
    (process ⟨.ok length, fun i => pure (known i)⟩ cs).Takes r () (r.processed known length cs) := by
  have each : ∀ b < r.elements.size, (Element.step r.numBeams r.eosToken r.padToken
      ⟨.ok length, fun i => pure (known i)⟩ length b (candidatesOf cs (2 * r.numBeams) b)).Takes
        r.elements[b]! () (r.steppedAt known length cs b) := fun b hb =>
    (offers_stepAt shaped sized slots inside (fun _ _ sound => sound)
      (fun i => Element.knows_of_gives (gives_pure _)) (shaped.elements ▸ hb)
      fun _ => some).takes fun o _ => gives_pure _
  intro session sound
  rw [process_eq shaped sized.double sized.total rfl sized.scores sized.tokens sized.beams]
  exact takes_onElements each session sound

end Process

/-- From any state, over candidates whose beams lie within their elements and sequences of which some
cannot be read. The error of a step is that of the first read that failed, in the order in which the
elements offer their hypotheses. The elements before the one whose read it was are as after a step
with all of them read, those after it are as before, and it is still active, with the hypotheses
offered that were read for it. -/
theorem process_contains_failed_read {c : Configuration} {r r' : Ranking} {view : SequenceView}
    {known : Nat → List Token} {length : Nat} {cs : Selection.Candidates} {s t : Session} {e : Error}
    (reachable : Reachable c r) (size : view.length = .ok length)
    (steady : ∀ i s tokens t, view.read i s = .ok tokens t → tokens = known i)
    (inside : ∀ beam ∈ cs.beams, ∃ i < c.numBeams, beam = (i : Int))
    (failed : process view cs (s, r) = .error (.error e) (t, r')) :
    r'.Shaped c ∧ r'.allDone = false ∧ ∃ b < c.batchSize, ∃ before o after s',
      r.hypotheses cs b = before ++ o :: after ∧
      view.Reads s (((List.range b).flatMap (r.hypotheses cs) ++ before).map (·.slot)) s' ∧
      view.read o.slot s' = .error (.error e) t ∧
      (∃ r'', (process ⟨.ok length, fun i => pure (known i)⟩ cs).Takes r () r'' ∧
        ∀ b' < b, r'.elements[b']! = r''.elements[b']!) ∧
      (∀ b', b < b' → r'.elements[b']! = r.elements[b']!) ∧
      r.elements[b]!.status = .active ∧ r'.elements[b]!.status = .active ∧
      r'.elements[b]!.pool = r.elements[b]!.pool.addAll (before.map (Element.hypothesis known)) := by
  have shaped := reachable.shaped
  have shaped' : r'.Shaped c := by
    have kept := keeps_process view cs s r shaped
    rwa [left, failed] at kept
  have sized := sized_of_error shaped failed
  have knows : ∀ i, view.Knows known (fun _ => True) i := fun i s tokens t _ ran =>
    ⟨steady i s tokens t ran, trivial⟩
  have each := fun b (hb : b < r.elements.size) => offers_or_breaks length shaped sized
    reachable.slots_lt inside knows (shaped.elements ▸ hb)
  rw [process_eq shaped sized.double sized.total size sized.scores sized.tokens sized.beams] at failed
  rcases firstElements_offer each (Nat.le_refl _) s trivial with ⟨_, -, -, ran⟩ | ⟨v, _, ran⟩ |
    ⟨b, hb, before, o, f, t', _, stopped, ran⟩
  · cases ran.symm.trans failed
  · cases ran.symm.trans failed
  cases ran.symm.trans failed
  have batch : b < c.batchSize := shaped.elements ▸ hb
  obtain ⟨after, split⟩ := stopped.member
  obtain ⟨s', -, reads, fails⟩ := stopped.reads
  obtain ⟨active, some⟩ := active_of_mem_hypotheses shaped (split ▸ List.mem_append_cons_self)
  obtain ⟨status, pool⟩ := stopped.getElem!_self hb
  have going := status.trans active
  have unfinished : r'.allDone = false := by
    refine Bool.eq_false_iff.2 fun all => ?_
    have done := (allDone_iff shaped').1 all b batch
    rw [going] at done
    cases done
  refine ⟨shaped', unfinished, b, batch, before, o, after, s', split, reads, fails,
    ⟨_, takes_process_known shaped sized some reachable.slots_lt inside, fun b' less => ?_⟩,
    fun b' more => stopped.getElem!_gt hb more, active, going, ?_⟩
  · rw [stopped.getElem!_lt hb less, getElem!_processed_eq (Nat.lt_trans less hb)]
  · simp [pool]

/-- Three elements of two beams, and slot 3 cannot be read: the first element completes, the second
stops at its second hypothesis and the third is not reached. -/
theorem process_contains_failed_read_of_three_elements :
    let c : Configuration :=
      { batchSize := 3, numBeams := 2, vocabSize := 8, maxLength := 4, eosToken := 0, padToken := 3 }
    let view : SequenceView :=
      ⟨.ok 2, fun i => if i = 3 then Run.fail (.device "gone") else pure [7, (i : Int)]⟩
    let cs : Selection.Candidates := ⟨.replicate 12 ⟨0xbf800000⟩,
      #[0, 0, 5, 6, 0, 0, 5, 6, 5, 6, 0, 0], #[0, 1, 0, 1, 0, 1, 0, 1, 0, 1, 0, 1]⟩
    ∃ t r', process view cs (.start none, initial c) = .error (.error (.device "gone")) (t, r') ∧
      r'.allDone = false ∧
      r'.elements[0]!.status = .done .completed ∧
      r'.elements[1]!.status = .active ∧ r'.elements[1]!.pool.kept.map (·.tokens) = [[7, 2, 0]] ∧
      r'.elements[2]! = (initial c).elements[2]! := by
  intro c view cs
  have reachable : Reachable c (initial c) := .new rfl
  have fails : (match process view cs (.start none, initial c) with
      | .error f _ => some f
      | .ok _ _ => none) = some (.error (.device "gone")) := by decide +kernel
  cases ran : process view cs (.start none, initial c) with
  | ok => simp [ran] at fails
  | error f state =>
    obtain ⟨t, r'⟩ := state
    obtain rfl : f = .error (.device "gone") := by simpa [ran] using fails
    let known : Nat → List Token := fun i => [7, (i : Int)]
    have steady : ∀ i s tokens t, view.read i s = .ok tokens t → tokens = known i := by
      intro i s tokens t read
      by_cases lost : i = 3
      · simp only [view, lost] at read
        cases read
      · simp only [view, lost] at read
        cases read
        rfl
    have readable : ∀ i s e t, view.read i s = .error e t → i = 3 := by
      intro i s e t read
      by_contra here
      simp only [view, here] at read
      cases read
    obtain ⟨-, going, b, hb, before, o, after, s', split, -, stopped, ⟨r'', takes, earlier⟩, later,
      -, active, pool⟩ := process_contains_failed_read reachable rfl steady (by decide) ran
    have slot := readable _ _ _ _ stopped
    have only : ∀ b < 3, 3 ∈ ((initial c).hypotheses cs b).map (·.slot) → b = 1 := by decide +kernel
    obtain rfl : b = 1 := only b hb (by simp [split, slot])
    have offers : (initial c).hypotheses cs 1 =
        [⟨2, 0, ⟨0xbf800000⟩⟩, ⟨3, 0, ⟨0xbf800000⟩⟩] := by decide +kernel
    obtain rfl : before = [⟨2, 0, ⟨0xbf800000⟩⟩] := by
      rw [offers] at split
      rcases before with _ | ⟨first, _ | ⟨second, rest⟩⟩
      · cases split
        cases slot
      · cases split
        rfl
      · simp at split
    obtain ⟨-, rfl⟩ := takes.unique <| takes_process_known (shaped_initial c)
      (sized_of_error (shaped_initial c) ran) (by decide) (by decide) (by decide)
    refine ⟨t, r', rfl, going, ?_, active, ?_, later 2 (by decide)⟩
    · rw [earlier 0 (by decide)]
      decide +kernel
    · rw [pool]
      decide +kernel

end Ranking

end TokenSearch
