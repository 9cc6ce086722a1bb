import TokenSearch.Proofs.AnySession
import TokenSearch.Proofs.Beam.Walk
import TokenSearch.Proofs.Settings

/-!
A ranking as its elements, one beside another: a loop over them acts on each by itself, and the
views over all slots read slot `b * numBeams + i` from beam `i` of element `b`.
-/

namespace TokenSearch

open TokenSearch.Run TokenSearch.Action

namespace Ranking

/-! ## Loops over the elements -/

theorem onElement_of_ok {r : Ranking} {index : Nat} {x : Action Element Unit} {e : Element}
    {s t : Session} (h : index < r.elements.size) (ran : x (s, r.elements[index]!) = .ok () (t, e)) :
    onElement index x (s, r) = .ok () (t, { r with elements := r.elements.set! index e }) := by
  rw [getElem!_pos r.elements index h] at ran
  refine (bind_of_ok (x := Action.object) rfl).trans ?_
  rw [Array.getElem?_eq_getElem h]
  exact focus_of_ok ran

theorem onElement_of_error {r : Ranking} {index : Nat} {x : Action Element Unit} {e : Element}
    {s t : Session} {f : Failure}
    (h : index < r.elements.size) (ran : x (s, r.elements[index]!) = .error f (t, e)) :
    onElement index x (s, r) = .error f (t, { r with elements := r.elements.set! index e }) := by
  rw [getElem!_pos r.elements index h] at ran
  refine (bind_of_ok (x := Action.object) rfl).trans ?_
  rw [Array.getElem?_eq_getElem h]
  exact focus_of_error ran

theorem takes_onElement {r : Ranking} {index : Nat} {x : Action Element Unit} {e : Element}
    (h : index < r.elements.size) (takes : x.Takes r.elements[index]! () e) :
    (onElement index x).Takes r () { r with elements := r.elements.set! index e } := by
  intro session sound
  obtain ⟨session', sound', ran⟩ := takes session sound
  exact ⟨session', sound', onElement_of_ok h ran⟩

theorem set!_mapIdx {α : Type} {xs : Array α} {m : Nat} (next : Nat → α) :
    (xs.mapIdx fun i x => if i < m then next i else x).set! m (next m) =
      xs.mapIdx fun i x => if i < m + 1 then next i else x := by
  apply Array.ext_getElem?
  intro i
  rw [Array.set!_eq_setIfInBounds, Array.getElem?_setIfInBounds, Array.size_mapIdx,
    Array.getElem?_mapIdx, Array.getElem?_mapIdx]
  rcases Nat.lt_trichotomy i m with less | rfl | more
  · have earlier : i < m + 1 := Nat.lt_succ_of_lt less
    simp only [Nat.ne_of_gt less, less, earlier, if_true, if_false]
  · by_cases here : i < xs.size <;> simp [here]
  · have later : ¬ i < m + 1 := Nat.not_lt_of_le more
    simp only [Nat.ne_of_lt more, Nat.not_lt_of_gt more, later, if_false]

def below (next : Nat → Element) (m : Nat) (r : Ranking) : Ranking :=
  { r with elements := r.elements.mapIdx fun b e => if b < m then next b else e }

section Below

variable {r : Ranking} {next : Nat → Element} {m : Nat}

@[simp] theorem size_below : (r.below next m).elements.size = r.elements.size := Array.size_mapIdx

theorem getElem!_below {b : Nat} (h : b < r.elements.size) :
    (r.below next m).elements[b]! = if b < m then next b else r.elements[b]! :=
  getElem!_mapIdx _ h

theorem getElem!_below_of_le {b : Nat} (h : m ≤ b) :
    (r.below next m).elements[b]! = r.elements[b]! := by
  rcases Nat.lt_or_ge b r.elements.size with inside | outside
  · rw [getElem!_below inside, if_neg (Nat.not_lt.2 h)]
  · rw [getElem!_neg (r.below next m).elements b (by simpa using outside),
      getElem!_neg r.elements b (by simpa using outside)]

@[simp] theorem below_zero : r.below next 0 = r := by
  have same : (r.elements.mapIdx fun b e => if b < 0 then next b else e) = r.elements :=
    Array.ext (by simp) fun b hb hb' => by simp
  rw [below, same]

theorem below_succ : { r.below next m with
    elements := (r.below next m).elements.set! m (next m) } = r.below next (m + 1) := by
  rw [below, below, set!_mapIdx next]

theorem forM_range_succ {x : Nat → Action Ranking Unit} :
    (List.range (m + 1)).forM x = (List.range m).forM x >>= fun _ => x m := by
  simp [List.range_succ, List.forM_eq_forM, List.forM_append]

end Below

section Loop

variable {r : Ranking} {x : Nat → Action Element Unit} {next : Nat → Element}
  (takes : ∀ b < r.elements.size, (x b).Takes r.elements[b]! () (next b))

include takes

theorem takes_firstElements {m : Nat} (le : m ≤ r.elements.size) :
    ((List.range m).forM fun b => onElement b (x b)).Takes r () (r.below next m) := by
  induction m with
  | zero =>
    rw [below_zero]
    exact takes_pure _ _
  | succ m ih =>
    have untouched : (r.below next m).elements[m]! = r.elements[m]! :=
      getElem!_below_of_le (Nat.le_refl m)
    have one := takes_onElement (r := r.below next m) (size_below ▸ le) (untouched ▸ takes m le)
    rw [below_succ] at one
    rw [forM_range_succ]
    exact (ih (Nat.le_of_succ_le le)).bind one

theorem takes_onElements :
    ((List.range r.elements.size).forM fun b => onElement b (x b)).Takes r ()
      { r with elements := (Array.range r.elements.size).map next } := by
  have all := takes_firstElements takes (Nat.le_refl _)
  rw [below] at all
  have same : (r.elements.mapIdx fun b e => if b < r.elements.size then next b else e) =
      (Array.range r.elements.size).map next := by
    apply Array.ext
    · simp
    · intro b hb hb'
      have inside : b < r.elements.size := by simpa using hb
      simp [inside]
  rwa [same] at all

end Loop

/-! ## Slots -/

structure Shaped (c : Configuration) (r : Ranking) : Prop where
  numBeams : r.numBeams = c.numBeams
  maxLength : r.maxLength = c.maxLength
  eosToken : r.eosToken = c.eosToken
  padToken : r.padToken = c.padToken
  elements : r.elements.size = c.batchSize
  beams : ∀ b < c.batchSize, r.elements[b]!.beams.size = c.numBeams

section Slots

variable {c : Configuration} {r : Ranking} (shaped : r.Shaped c)

include shaped

theorem Shaped.size_beams (batch : 1 ≤ c.batchSize) :
    r.beams.size = c.batchSize * c.numBeams := by
  have all := ScoreMatrix.row_flatMap (f := Element.beams) (r := 0)
    (fun b hb => shaped.beams b (shaped.elements ▸ hb)) (shaped.elements ▸ batch)
  rw [← shaped.elements]
  exact all.1

theorem Shaped.getElem!_beams {b i : Nat} (hb : b < c.batchSize) (hi : i < c.numBeams) :
    r.beams[b * c.numBeams + i]! = r.elements[b]!.beams[i]! :=
  ScoreMatrix.getElem!_flatMap (fun b hb => shaped.beams b (shaped.elements ▸ hb))
    (shaped.elements ▸ hb) hi

end Slots

theorem getElem!_map_beams {α : Type} [Inhabited α] {r : Ranking} (f : Beam → α) {s : Nat}
    (h : s < r.beams.size) : (r.beams.map f)[s]! = f r.beams[s]! := by
  rw [getElem!_pos r.beams s h, getElem!_pos _ s (by simpa using h), Array.getElem_map]

theorem Shaped.getElem!_slot {α : Type} [Inhabited α] {c : Configuration} {r : Ranking}
    (shaped : r.Shaped c) (f : Beam → α) {e i : Nat} (he : e < c.batchSize) (hi : i < c.numBeams) :
    (r.beams.map f)[e * c.numBeams + i]! = f r.elements[e]!.beams[i]! := by
  have batch : 1 ≤ c.batchSize := Nat.zero_lt_of_lt he
  rw [getElem!_map_beams f (shaped.size_beams batch ▸ row_mul_add_lt he hi),
    shaped.getElem!_beams he hi]

theorem allDone_iff {c : Configuration} {r : Ranking} (shaped : r.Shaped c) : r.allDone = true ↔
    ∀ e < c.batchSize, r.elements[e]!.status.isDone = true := by
  rw [allDone, Array.all_eq_true, ← shaped.elements]
  refine forall_congr' fun e => forall_congr' fun h => ?_
  rw [getElem!_pos r.elements e h]

/-! ## A new ranking -/

def initial (c : Configuration) : Ranking where
  numBeams := c.numBeams
  maxLength := c.maxLength
  eosToken := c.eosToken
  padToken := c.padToken
  elements := (Array.range c.batchSize).map fun b =>
    { status := .active
      pool := ⟨c.numBeams, c.lengthPenalty, c.earlyStopping, []⟩
      beams := (Array.range c.numBeams).map fun i =>
        Element.idleBeam c.padToken (if i = 0 then Binary32.zero else inactiveScore)
          (b * c.numBeams + i) }

theorem new_of_slots {c : Configuration} (batch : 1 ≤ c.batchSize) (beams : 1 ≤ c.numBeams)
    (slots : c.batchSize * c.numBeams < 2 ^ 31) : new c = .ok (initial c) := by
  have elements : c.batchSize ≤ c.batchSize * c.numBeams := Nat.le_mul_of_pos_right _ beams
  have wide : c.numBeams ≤ c.batchSize * c.numBeams := Nat.le_mul_of_pos_left _ batch
  have pool : HypothesisPool.new c.numBeams c.lengthPenalty c.earlyStopping =
      .ok ⟨c.numBeams, c.lengthPenalty, c.earlyStopping, []⟩ :=
    Outcome.bind_eq_ok (Outcome.size_of_lt (by omega)) <|
      Outcome.bind_eq_ok (Outcome.room_of_lt (by omega)) rfl
  refine Outcome.bind_eq_ok (Outcome.size_of_lt (by omega)) <|
    Outcome.bind_eq_ok (Outcome.room_of_lt (by omega)) <|
    Outcome.bind_eq_ok (Outcome.room_of_lt (by omega)) ?_
  rw [if_neg (Nat.pos_iff_ne_zero.1 batch)]
  exact Outcome.bind_eq_ok pool rfl

theorem new_eq {c : Configuration} (run : c.Runnable) : new c = .ok (initial c) :=
  new_of_slots run.batch run.beams run.slots

section Initial

variable {c : Configuration} {b : Nat}

theorem getElem!_initial (h : b < c.batchSize) : (initial c).elements[b]! =
    { status := .active
      pool := ⟨c.numBeams, c.lengthPenalty, c.earlyStopping, []⟩
      beams := (Array.range c.numBeams).map fun i =>
        Element.idleBeam c.padToken (if i = 0 then Binary32.zero else inactiveScore)
          (b * c.numBeams + i) } := by
  simp [initial, h]

theorem shaped_initial (c : Configuration) : (initial c).Shaped c where
  numBeams := rfl
  maxLength := rfl
  eosToken := rfl
  padToken := rfl
  elements := by simp [initial]
  beams := by
    intro b h
    rw [getElem!_initial h]
    simp

theorem score_initial {i : Nat} (h : b < c.batchSize) (hi : i < c.numBeams) :
    (initial c).elements[b]!.beams[i]!.score =
      if i = 0 then Binary32.zero else inactiveScore := by
  rw [getElem!_initial h]
  simp [hi, Element.idleBeam]

end Initial

/-! ## A step -/

section Process

variable {c : Configuration} {r : Ranking} {view : SequenceView} {read : Nat → List Token}
  {length : Nat} {cs : Selection.Candidates}

def processed (read : Nat → List Token) (length : Nat) (cs : Selection.Candidates) (r : Ranking) :
    Ranking :=
  { r with
    elements := (Array.range r.elements.size).map fun b =>
      r.elements[b]!.stepped r.numBeams r.eosToken r.padToken read length b
        (candidatesOf cs (2 * r.numBeams) b) }

theorem process_eq (shaped : r.Shaped c) (double : 2 * c.numBeams < 2 ^ 64)
    (total : c.batchSize * (2 * c.numBeams) < 2 ^ 64) (size : view.length = .ok length)
    (scores : cs.scores.size = c.batchSize * (2 * c.numBeams))
    (tokens : cs.tokens.size = c.batchSize * (2 * c.numBeams))
    (beams : cs.beams.size = c.batchSize * (2 * c.numBeams)) (session : Session) :
    process view cs (session, r) = ((List.range r.elements.size).forM fun b =>
      onElement b (Element.step r.numBeams r.eosToken r.padToken view length b
        (candidatesOf cs (2 * r.numBeams) b))) (session, r) := by
  refine (bind_of_ok (x := Action.object) rfl).trans <|
    (bind_of_ok (ofOutcome_of_ok (Outcome.size_of_lt ?_) _)).trans <|
    (bind_of_ok (ofOutcome_of_ok (Outcome.size_of_lt ?_) _)).trans <|
    (bind_of_ok (require_of_true _ ?_ _)).trans (bind_of_ok (ofOutcome_of_ok size _))
  · rwa [shaped.numBeams]
  · rwa [shaped.elements, shaped.numBeams]
  · simp [shaped.elements, shaped.numBeams, scores, tokens, beams]

theorem takes_process (shaped : r.Shaped c) (some : 1 ≤ c.numBeams) (wide : c.numBeams ≤ 2 ^ 31)
    (slots : c.batchSize * c.numBeams ≤ 2 ^ 31) (size : view.length = .ok length)
    (reads : ∀ i < c.batchSize * c.numBeams, (view.read i).Gives (read i))
    (scores : cs.scores.size = c.batchSize * (2 * c.numBeams))
    (tokens : cs.tokens.size = c.batchSize * (2 * c.numBeams))
    (beams : cs.beams.size = c.batchSize * (2 * c.numBeams))
    (inside : ∀ b < c.batchSize, ∀ d ∈ candidatesOf cs (2 * c.numBeams) b,
      Token.toIndex d.beam < c.numBeams) :
    (process view cs).Takes r () (r.processed read length cs) := by
  have each : ∀ b < r.elements.size,
      (Element.step r.numBeams r.eosToken r.padToken view length b
        (candidatesOf cs (2 * r.numBeams) b)).Takes r.elements[b]! ()
        (r.elements[b]!.stepped r.numBeams r.eosToken r.padToken read length b
          (candidatesOf cs (2 * r.numBeams) b)) := by
    intro b hb
    rw [shaped.elements] at hb
    refine Element.takes_step reads slots (fun d hd => ?_) ?_ ?_
    · rw [shaped.numBeams] at hd ⊢
      exact row_mul_add_lt hb (inside b hb d hd)
    · rw [shaped.numBeams]
      exact some
    · rw [shaped.numBeams]
      exact shaped.beams b hb
  have total : c.batchSize * (2 * c.numBeams) = 2 * (c.batchSize * c.numBeams) :=
    Nat.mul_left_comm _ _ _
  intro session sound
  rw [process_eq shaped (by omega) (by omega) size scores tokens beams]
  exact takes_onElements each session sound

section Processed

variable {read : Nat → List Token} {length : Nat} {cs : Selection.Candidates} (shaped : r.Shaped c)

include shaped

theorem getElem!_processed {e : Nat} (h : e < c.batchSize) :
    (r.processed read length cs).elements[e]! = r.elements[e]!.stepped c.numBeams c.eosToken
      c.padToken read length e (candidatesOf cs (2 * c.numBeams) e) := by
  have inside : e < r.elements.size := shaped.elements ▸ h
  simp [processed, inside, shaped.numBeams, shaped.eosToken, shaped.padToken]

theorem Shaped.processed (beams : 1 ≤ c.numBeams) : (r.processed read length cs).Shaped c where
  numBeams := shaped.numBeams
  maxLength := shaped.maxLength
  eosToken := shaped.eosToken
  padToken := shaped.padToken
  elements := by simp [Ranking.processed, shaped.elements]
  beams := by
    intro e h
    rw [getElem!_processed shaped h]
    exact Element.size_stepped (shaped.beams e h) beams

theorem source_processed
    (inside : ∀ b < c.batchSize, ∀ d ∈ candidatesOf cs (2 * c.numBeams) b,
      Token.toIndex d.beam < c.numBeams) {e i : Nat} (he : e < c.batchSize) (hi : i < c.numBeams) :
    ∃ j < c.numBeams, (r.processed read length cs).elements[e]!.beams[i]!.source =
      Token.ofIndex (e * c.numBeams + j) := by
  rw [getElem!_processed shaped he]
  exact Element.source_stepped (inside e he) (shaped.beams e he) hi

end Processed

end Process

end Ranking

/-! ## The length cap -/

namespace Element

def capped (e : Element) : Element :=
  if e.status.isDone then e else { e with status := .done .lengthCap }

theorem capped_of_done {e : Element} (done : e.status.isDone = true) : e.capped = e := if_pos done

@[simp] theorem isDone_capped (e : Element) : e.capped.status.isDone = true := by
  unfold capped
  split
  case isTrue done => exact done
  case isFalse => rfl

theorem status_capped_ne {e : Element} {reason : DoneReason} (h : e.status ≠ .done reason)
    (other : reason ≠ .lengthCap) : e.capped.status ≠ .done reason := by
  unfold capped
  split
  · exact h
  · exact fun same => other (Status.done.inj same).symm

@[simp] theorem pool_capped (e : Element) : e.capped.pool = e.pool := by
  unfold capped
  split <;> rfl

@[simp] theorem beams_capped (e : Element) : e.capped.beams = e.beams := by
  unfold capped
  split <;> rfl

@[simp] theorem isOpen_capped (e : Element) : e.capped.isOpen = e.isOpen := by
  obtain ⟨status, pool, beams⟩ := e
  cases status <;> rfl

end Element

namespace Ranking

section CapLength

variable {c : Configuration} {r : Ranking} {length : Nat}

@[simp] theorem beams_capLength (length : Nat) (r : Ranking) :
    (r.capLength length).beams = r.beams := by
  unfold capLength
  split
  · refine Array.ext' ?_
    simp only [beams, Array.toList_flatMap, Array.toList_map, List.flatMap_map]
    exact List.flatMap_congr fun e _ => congrArg Array.toList (Element.beams_capped e)
  · rfl

theorem getElem!_capLength (shaped : r.Shaped c) {e : Nat} (he : e < c.batchSize) :
    (r.capLength length).elements[e]! =
      if c.maxLength ≤ length then r.elements[e]!.capped else r.elements[e]! := by
  have inside : e < r.elements.size := shaped.elements ▸ he
  rw [capLength, shaped.maxLength]
  split
  · rw [getElem!_pos r.elements e inside, getElem!_pos _ e (by simpa using inside),
      Array.getElem_map]
    rfl
  · rfl

theorem Shaped.capLength (shaped : r.Shaped c) (length : Nat) : (r.capLength length).Shaped c := by
  have sizes : ∀ e < c.batchSize, (r.capLength length).elements[e]!.beams.size = c.numBeams := by
    intro e he
    rw [getElem!_capLength shaped he]
    split <;> simp [shaped.beams e he]
  by_cases full : r.maxLength ≤ length
  · rw [Ranking.capLength, if_pos full] at sizes ⊢
    exact { shaped with elements := by simp [shaped.elements], beams := sizes }
  · rw [Ranking.capLength, if_neg full]
    exact shaped

theorem isDone_capLength (shaped : r.Shaped c) {e : Nat} (he : e < c.batchSize)
    (done : r.elements[e]!.status.isDone = true) :
    (r.capLength length).elements[e]! = r.elements[e]! := by
  rw [getElem!_capLength shaped he, Element.capped_of_done done, ite_self]

theorem allDone_capLength (shaped : r.Shaped c) (all : r.allDone = true) :
    (r.capLength length).allDone = true := by
  rw [allDone_iff (shaped.capLength length)]
  intro e he
  have done := (allDone_iff shaped).1 all e he
  rw [isDone_capLength shaped he done, done]

theorem allDone_capLength_of_full (shaped : r.Shaped c) (full : c.maxLength ≤ length) :
    (r.capLength length).allDone = true := by
  rw [allDone_iff (shaped.capLength length)]
  intro e he
  simp [getElem!_capLength shaped he, full]

end CapLength

end Ranking

/-! ## Final rows -/

namespace Element

/-- The element after its live beams were offered as their sequences stand, if it is open. -/
def closed (numBeams : Nat) (read : Nat → List Token) (index : Nat) (e : Element) : Element :=
  if e.isOpen then
    (List.range numBeams).foldl
      (fun e i => e.offer (read (index * numBeams + i)) e.beams[i]!.score) e
  else e

@[simp] theorem beams_closed (numBeams : Nat) (read : Nat → List Token) (index : Nat) (e : Element) :
    (e.closed numBeams read index).beams = e.beams := by
  unfold closed
  split
  case isTrue opened =>
    clear opened
    induction List.range numBeams generalizing e with
    | nil => rfl
    | cons i rest ih => exact ih (e.offer (read (index * numBeams + i)) e.beams[i]!.score)
  case isFalse => rfl

theorem takes_closeFrom {view : SequenceView} {read : Nat → List Token} {base slots : Nat}
    (reads : ∀ i < slots, (view.read i).Gives (read i)) {list : List Nat} {e : Element}
    (inside : ∀ i ∈ list, base + i < slots) :
    (closeFrom view base list).Takes e ()
      (list.foldl (fun e i => e.offer (read (base + i)) e.beams[i]!.score) e) := by
  induction list generalizing e with
  | nil => exact takes_pure _ _
  | cons i rest ih =>
    exact (takes_lift (reads _ (inside i List.mem_cons_self))).bind <| (takes_update _ _).bind <|
      ih fun j hj => inside j (List.mem_cons_of_mem _ hj)

theorem takes_close {view : SequenceView} {read : Nat → List Token} {numBeams index slots : Nat}
    (reads : ∀ i < slots, (view.read i).Gives (read i)) (inside : (index + 1) * numBeams ≤ slots)
    (e : Element) : (close numBeams view index).Takes e () (e.closed numBeams read index) := by
  refine (takes_object _).bind ?_
  unfold closed
  split
  · refine takes_closeFrom reads fun i hi => ?_
    have := List.mem_range.1 hi
    rw [Nat.succ_mul] at inside
    omega
  · exact takes_pure _ _

end Element

namespace Ranking

section Finalize

variable {c : Configuration} {r : Ranking} {view : SequenceView} {read : Nat → List Token} {n : Nat}

def closed (read : Nat → List Token) (r : Ranking) : Ranking :=
  { r with
    elements := (Array.range r.elements.size).map fun b =>
      r.elements[b]!.closed r.numBeams read b }

theorem getElem!_closed (shaped : r.Shaped c) {b : Nat} (hb : b < c.batchSize) :
    (r.closed read).elements[b]! = r.elements[b]!.closed c.numBeams read b := by
  have inside : b < r.elements.size := shaped.elements ▸ hb
  simp [closed, inside, shaped.numBeams]

theorem Shaped.closed (shaped : r.Shaped c) (read : Nat → List Token) :
    (r.closed read).Shaped c where
  numBeams := shaped.numBeams
  maxLength := shaped.maxLength
  eosToken := shaped.eosToken
  padToken := shaped.padToken
  elements := by simp [Ranking.closed, shaped.elements]
  beams := by
    intro b hb
    simp [getElem!_closed shaped hb, shaped.beams b hb]

theorem finalize_eq (shaped : r.Shaped c) (returned : 1 ≤ n ∧ n ≤ c.numBeams)
    (rows : c.batchSize * n < 2 ^ 64) (room : c.batchSize * n * c.maxLength < 2 ^ 64)
    (session : Session) :
    finalize view n (c.batchSize * n * c.maxLength) (c.batchSize * n) (session, r) =
      (do
        (List.range r.elements.size).forM fun b => onElement b (Element.close r.numBeams view b)
        let r ← Action.object
        return (r.bestRows n, r.bestScores n) : Action Ranking (Tokens × Scores)) (session, r) := by
  refine (bind_of_ok (x := Action.object) rfl).trans <|
    (bind_of_ok (require_of_true _ ?_ _)).trans <|
    (bind_of_ok (ofOutcome_of_ok (Outcome.size_of_lt ?_) _)).trans <|
    (bind_of_ok (ofOutcome_of_ok (Outcome.size_of_lt ?_) _)).trans <|
    (bind_of_ok (require_of_true _ ?_ _)).trans (bind_of_ok (require_of_true _ ?_ _))
  · simp [shaped.numBeams, returned]
  · rwa [shaped.elements]
  · rwa [shaped.elements, shaped.maxLength]
  · simp [shaped.elements, shaped.maxLength]
  · simp [shaped.elements]

theorem takes_finalize (shaped : r.Shaped c)
    (reads : ∀ i < c.batchSize * c.numBeams, (view.read i).Gives (read i))
    (returned : 1 ≤ n ∧ n ≤ c.numBeams) (long : 1 ≤ c.maxLength)
    (room : c.batchSize * n * c.maxLength < 2 ^ 64) :
    (finalize view n (c.batchSize * n * c.maxLength) (c.batchSize * n)).Takes r
      ((r.closed read).bestRows n, (r.closed read).bestScores n) (r.closed read) := by
  have each : ∀ b < r.elements.size,
      (Element.close r.numBeams view b).Takes r.elements[b]! ()
        (r.elements[b]!.closed r.numBeams read b) := by
    intro b hb
    refine Element.takes_close reads ?_ _
    rw [shaped.numBeams]
    exact Nat.mul_le_mul_right _ (shaped.elements ▸ hb)
  have rows : c.batchSize * n ≤ c.batchSize * n * c.maxLength := Nat.le_mul_of_pos_right _ long
  intro session sound
  rw [finalize_eq shaped returned (Nat.lt_of_le_of_lt rows room) room]
  refine ((takes_onElements each).bind <| (takes_object _).bind ?_) session sound
  exact takes_pure _ _

def rowOf (c : Configuration) (pool : HypothesisPool) (i : Nat) : List Token :=
  fit c.maxLength c.padToken ((pool.sorted[i]?.map (·.tokens)).getD [])

def scoreOf (pool : HypothesisPool) (i : Nat) : Binary32 :=
  (pool.sorted[i]?.map (·.score)).getD Binary32.least

theorem getElem!_best (r : Ranking) {b i : Nat} (hb : b < r.elements.size) (hi : i < n) :
    (r.best n)[b * n + i]! = r.elements[b]!.pool.sorted[i]? := by
  have sizes : ∀ b < r.elements.size, ((Array.range n).map
      fun i => r.elements[b]!.pool.sorted[i]?).size = n := by simp
  refine (ScoreMatrix.getElem!_flatMap sizes hb hi).trans ?_
  simp [hi]

theorem getElem!_bestScores (r : Ranking) {b i : Nat} (hb : b < r.elements.size) (hi : i < n) :
    (r.bestScores n)[b * n + i]! = scoreOf r.elements[b]!.pool i := by
  have inside : b * n + i < (r.best n).size := by simpa using row_mul_add_lt hb hi
  rw [bestScores, getElem!_pos _ _ (by simpa using inside), Array.getElem_map,
    ← getElem!_pos (r.best n) _ inside, getElem!_best r hb hi]
  rfl

theorem row_bestRows (r : Ranking) {b i : Nat} (hb : b < r.elements.size) (hi : i < n)
    (maxLength : r.maxLength = c.maxLength) (padToken : r.padToken = c.padToken) :
    (ScoreMatrix.row (r.bestRows n) c.maxLength (b * n + i)).toList =
      rowOf c r.elements[b]!.pool i := by
  have inside : b * n + i < (r.best n).size := by simpa using row_mul_add_lt hb hi
  let rowOfBest (h : Option Hypothesis) : Tokens :=
    (fit r.maxLength r.padToken ((h.map (·.tokens)).getD [])).toArray
  have widths : ∀ j < (r.best n).size, (rowOfBest (r.best n)[j]!).size = c.maxLength := by
    intro j _
    simp [rowOfBest, maxLength]
  have row : ScoreMatrix.row (r.bestRows n) c.maxLength (b * n + i) =
      rowOfBest (r.best n)[b * n + i]! := (ScoreMatrix.row_flatMap widths inside).2
  rw [row, getElem!_best r hb hi, rowOf, ← maxLength, ← padToken]

structure Lists (c : Configuration) (pools : Nat → HypothesisPool) (tokens : Tokens)
    (scores : Scores) : Prop where
  size : tokens.size = c.batchSize * c.numReturned * c.maxLength
  count : scores.size = c.batchSize * c.numReturned
  row : ∀ b < c.batchSize, ∀ j < c.numReturned,
    (ScoreMatrix.row tokens c.maxLength (b * c.numReturned + j)).toList = rowOf c (pools b) j
  score : ∀ b < c.batchSize, ∀ j < c.numReturned,
    scores[b * c.numReturned + j]! = scoreOf (pools b) j

theorem lists_best (shaped : r.Shaped c) :
    Lists c (fun b => r.elements[b]!.pool) (r.bestRows c.numReturned)
      (r.bestScores c.numReturned) := by
  have elements := shaped.elements
  constructor
  case size => simp [elements, shaped.maxLength]
  case count => simp [elements]
  case row => exact fun b hb j hj =>
    row_bestRows r (elements ▸ hb) hj shaped.maxLength shaped.padToken
  case score => exact fun b hb j hj => getElem!_bestScores r (elements ▸ hb) hj

end Finalize

end Ranking

end TokenSearch
