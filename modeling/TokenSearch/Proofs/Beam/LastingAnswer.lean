import TokenSearch.Proofs.Beam.FinalRows

/-!
Re-ranking again after an element is done. A step leaves the reason and the pool of such an element
alone, so an answer that is made from the pool only is final: that of an element that completed, or
ran out of candidates. At the length cap the live beams are offered too, with the scores they have
at the end, and a step has overwritten these with zeros.
-/

namespace TokenSearch

open TokenSearch.Run TokenSearch.Action

namespace Element

/-- Done for a reason, with a pool, and with zeros for the scores of beams that still count. -/
structure Settled (numBeams : Nat) (reason : DoneReason) (pool : HypothesisPool) (e : Element) :
    Prop where
  size : e.beams.size = numBeams
  status : e.status = .done reason
  pool : e.pool = pool
  zero : reason = .lengthCap → ∀ i < numBeams, e.beams[i]!.score = .zero

section Settled

variable {numBeams : Nat} {reason : DoneReason} {pool : HypothesisPool} {e : Element}

theorem Settled.idle (settled : e.Settled numBeams reason pool) (padToken : Token) (base : Nat) :
    (e.idle padToken base).Settled numBeams reason pool where
  size := by simp [Element.idle, settled.size]
  status := settled.status
  pool := settled.pool
  zero _ i hi := by rw [getElem!_idle (settled.size ▸ hi), idleBeam]

theorem keeps_step_settled (beams : Nat) (eosToken padToken : Token) (view : SequenceView)
    (length index : Nat) (cs : List Candidate) :
    (step beams eosToken padToken view length index cs).Keeps (Settled numBeams reason pool) := by
  refine keeps_object_bind fun session e settled => ?_
  rw [if_pos (by rw [settled.status, Status.isDone])]
  exact settled.idle padToken _

theorem Settled.pool_closed (settled : e.Settled numBeams reason pool) (known : Nat → List Token)
    (index : Nat) :
    (e.closed numBeams known index).pool = pool.addAll (if reason = .lengthCap then
      (List.range numBeams).map fun i => (known (index * numBeams + i), .zero) else []) := by
  have opened : e.isOpen = true ↔ reason = .lengthCap := by
    simp [isOpen_iff, settled.status]
  rw [Element.pool_closed, settled.pool]
  by_cases cap : reason = .lengthCap
  · rw [if_pos (opened.2 cap), if_pos cap]
    refine congrArg pool.addAll (List.map_congr_left fun i hi => ?_)
    rw [settled.zero cap i (List.mem_range.1 hi)]
  · rw [if_neg (mt opened.1 cap), if_neg cap]

end Settled

end Element

namespace Ranking

/-- What is left of a ranking by steps over one view, any number of times, with any candidates, in
any sessions and whatever comes of them. -/
inductive Reprocessed (view : SequenceView) (r : Ranking) : Ranking → Prop
  | done : Reprocessed view r r
  | again {r' : Ranking} (cs : Selection.Candidates) (session : Session) :
    Reprocessed view r r' → Reprocessed view r ((process view cs).left session r')

section Reprocessed

variable {c : Configuration} {r r' : Ranking} {view : SequenceView} {P : Element → Prop} {b : Nat}

theorem keeps_onElement_at {index : Nat} {x : Action Element Unit} (h : x.Keeps P) :
    (onElement index x).Keeps fun r => b < r.elements.size ∧ P r.elements[b]! := by
  intro session r held
  rw [left_onElement]
  split
  case isTrue inside =>
    refine ⟨by simpa using held.1, ?_⟩
    dsimp only
    rw [getElem!_set! _ _ inside]
    split
    case isTrue same => exact h session _ (same ▸ held.2)
    case isFalse => exact held.2
  case isFalse => exact held

theorem keeps_process_at (cs : Selection.Candidates)
    (h : ∀ numBeams eosToken padToken length index cs,
      (Element.step numBeams eosToken padToken view length index cs).Keeps P) :
    (process view cs).Keeps fun r => b < r.elements.size ∧ P r.elements[b]! :=
  keeps_object.bind fun _ => (keeps_ofOutcome _).bind fun _ => (keeps_ofOutcome _).bind fun _ =>
    (keeps_require _ _).bind fun _ => (keeps_ofOutcome _).bind fun _ =>
      keeps_forM fun _ => keeps_onElement_at (h _ _ _ _ _ _)

theorem Reprocessed.shaped (again : r.Reprocessed view r') (shaped : r.Shaped c) : r'.Shaped c := by
  induction again with
  | done => exact shaped
  | again cs session _ ih => exact keeps_process view cs session _ ih

theorem Reprocessed.settled {reason : DoneReason} {pool : HypothesisPool}
    (again : r.Reprocessed view r') (inside : b < r.elements.size)
    (settled : r.elements[b]!.Settled c.numBeams reason pool) :
    b < r'.elements.size ∧ r'.elements[b]!.Settled c.numBeams reason pool := by
  induction again with
  | done => exact ⟨inside, settled⟩
  | again cs session _ ih =>
    exact keeps_process_at cs (fun beams eosToken padToken length index cs =>
      Element.keeps_step_settled beams eosToken padToken view length index cs) session _ ih

end Reprocessed

/-! ## The answer that is returned -/

section Answer

variable {read : Nat → Run (List Token)} {known : Nat → List Token} {slots : List Nat}
  {s t : Session}

theorem eq_of_mapM {sequences : List (List Token)}
    (steady : ∀ i s tokens t, read i s = .ok tokens t → tokens = known i)
    (h : slots.mapM read s = .ok sequences t) : sequences = slots.map known := by
  induction slots generalizing s sequences with
  | nil =>
    cases h
    rfl
  | cons i rest ih =>
    rw [List.mapM_cons] at h
    obtain ⟨tokens, s₁, ran, h⟩ := of_bind_ok h
    obtain ⟨others, s₂, later, h⟩ := of_bind_ok h
    cases h
    rw [List.map_cons, steady i _ _ _ ran, ih later]

theorem gives_mapM (reads : ∀ i ∈ slots, (read i).Gives (known i)) :
    (slots.mapM read).Gives (slots.map known) := by
  induction slots with
  | nil => exact gives_pure _
  | cons i rest ih =>
    rw [List.mapM_cons]
    exact (reads i List.mem_cons_self).bind <|
      (ih fun j hj => reads j (List.mem_cons_of_mem i hj)).bind (gives_pure _)

theorem lt_of_mem_openSlots {c : Configuration} {r : Ranking} (shaped : r.Shaped c) {i : Nat}
    (h : i ∈ r.openSlots) : i < c.batchSize * c.numBeams := by
  obtain ⟨b, hb, h⟩ := List.mem_flatMap.1 h
  unfold Element.openSlots at h
  split at h
  · obtain ⟨j, hj, rfl⟩ := List.mem_map.1 h
    rw [shaped.numBeams] at hj ⊢
    exact row_mul_add_lt (shaped.elements ▸ List.mem_range.1 hb) (List.mem_range.1 hj)
  · cases h

end Answer

section FinalizeInto

variable {c : Configuration} {r : Ranking} {view : SequenceView} {known : Nat → List Token}
  {n : Nat} {buffers : FinalBuffers} (shaped : r.Shaped c) (returned : 1 ≤ n ∧ n ≤ c.numBeams)
  (rows : c.batchSize * n < 2 ^ 64) (room : c.batchSize * n * c.maxLength < 2 ^ 64)
  (tokens : buffers.tokens.size = c.batchSize * n * c.maxLength)
  (scores : buffers.scores.size = c.batchSize * n)

include shaped returned rows room tokens scores

theorem takes_finalizeInto (reads : ∀ i < c.batchSize * c.numBeams, (view.read i).Gives (known i)) :
    (finalizeInto view n).Takes (r, buffers) ()
      (r.closed known, ⟨(r.closed known).bestRows n, (r.closed known).bestScores n⟩) := by
  intro session sound
  obtain ⟨session', sound', ran⟩ :=
    gives_mapM (fun i hi => reads i (lt_of_mem_openSlots shaped hi)) session sound
  exact ⟨session', sound', finalizeInto_of_reads shaped returned rows room tokens scores ran⟩

theorem of_finalizeInto (steady : ∀ i s tokens t, view.read i s = .ok tokens t → tokens = known i)
    {s : Ranking} {written : FinalBuffers} {u : Unit}
    (h : (finalizeInto view n).Returns (r, buffers) u (s, written)) {b i : Nat}
    (hb : b < c.batchSize) (hi : i < n) :
    let pool := (r.elements[b]!.closed c.numBeams known b).pool
    (ScoreMatrix.row written.tokens c.maxLength (b * n + i)).toList = rowOf c pool i ∧
      written.scores[b * n + i]! = scoreOf pool i := by
  intro pool
  obtain ⟨session, session', ran⟩ := h
  cases read : r.openSlots.mapM view.read session with
  | error f t =>
    obtain ⟨r', stopped⟩ := finalizeInto_of_error shaped returned rows room tokens scores read
    cases stopped.symm.trans ran
  | ok sequences t =>
    obtain rfl := eq_of_mapM steady read
    cases (finalizeInto_of_reads shaped returned rows room tokens scores read).symm.trans ran
    have closed := shaped.closed known
    have inside : b < (r.closed known).elements.size := closed.elements ▸ hb
    have same : (r.closed known).elements[b]!.pool = pool := by rw [getElem!_closed shaped hb]
    dsimp only
    rw [row_bestRows _ inside hi closed.maxLength closed.padToken, getElem!_bestScores _ inside hi,
      same]
    exact ⟨rfl, rfl⟩

end FinalizeInto

/-- From any state, an element that is done, and steps over sequences that do not change, any number
of them: the final rows and scores of the element are what they would have been before, if its
scores are zeros already where it is done because of its length. Finalizing returns in both states
if the sequences can be read. -/
theorem done_element_keeps_answer {c : Configuration} {r r' : Ranking} {view : SequenceView}
    {known : Nat → List Token} {n b : Nat} {reason : DoneReason} {buffers buffers' : FinalBuffers}
    (reachable : Reachable c r) (again : r.Reprocessed view r')
    (steady : ∀ i s tokens t, view.read i s = .ok tokens t → tokens = known i)
    (hb : b < c.batchSize) (done : r.elements[b]!.status = .done reason)
    (zero : reason = .lengthCap → ∀ i < c.numBeams, r.scores[b * c.numBeams + i]! = .zero)
    (returned : 1 ≤ n ∧ n ≤ c.numBeams) (room : c.batchSize * n * c.maxLength < 2 ^ 64)
    (tokens : buffers.tokens.size = c.batchSize * n * c.maxLength)
    (scores : buffers.scores.size = c.batchSize * n)
    (tokens' : buffers'.tokens.size = c.batchSize * n * c.maxLength)
    (scores' : buffers'.scores.size = c.batchSize * n) :
    (∀ s s' written written', (finalizeInto view n).Returns (r, buffers) () (s, written) →
      (finalizeInto view n).Returns (r', buffers') () (s', written') → ∀ i < n,
        ScoreMatrix.row written'.tokens c.maxLength (b * n + i) =
          ScoreMatrix.row written.tokens c.maxLength (b * n + i) ∧
        written'.scores[b * n + i]! = written.scores[b * n + i]!) ∧
    ((∀ i < c.batchSize * c.numBeams, (view.read i).Gives (known i)) →
      (∃ s written, (finalizeInto view n).Takes (r, buffers) () (s, written)) ∧
        ∃ s' written', (finalizeInto view n).Takes (r', buffers') () (s', written')) := by
  have shaped := reachable.shaped
  have shaped' := again.shaped shaped
  have rows : c.batchSize * n < 2 ^ 64 :=
    Nat.lt_of_le_of_lt (Nat.mul_le_mul_left _ returned.2) reachable.slots_lt
  have settled : r.elements[b]!.Settled c.numBeams reason r.elements[b]!.pool := by
    refine ⟨shaped.beams b hb, done, rfl, fun cap i hi => ?_⟩
    rw [← shaped.getElem!_slot (·.score) hb hi]
    exact zero cap i hi
  have settled' := (again.settled (shaped.elements ▸ hb) settled).2
  refine ⟨fun s s' written written' ran ran' i hi => ?_, fun reads =>
    ⟨⟨_, _, takes_finalizeInto shaped returned rows room tokens scores reads⟩,
      _, _, takes_finalizeInto shaped' returned rows room tokens' scores' reads⟩⟩
  have answer := of_finalizeInto shaped returned rows room tokens scores steady ran hb hi
  have answer' := of_finalizeInto shaped' returned rows room tokens' scores' steady ran' hb hi
  rw [settled.pool_closed] at answer
  rw [settled'.pool_closed] at answer'
  exact ⟨Array.toList_inj.1 (answer'.1.trans answer.1.symm), answer'.2.trans answer.2.symm⟩

/-- Completed by the first of two candidates, and finalized before and after another step. -/
theorem done_element_keeps_answer_of_completed :
    let c : Configuration :=
      { batchSize := 1, numBeams := 1, vocabSize := 8, maxLength := 4, eosToken := 0, padToken := 3 }
    let view : SequenceView := ⟨.ok 2, fun i => pure [7, (i : Int)]⟩
    let cs : Selection.Candidates := ⟨.replicate 2 ⟨0xbf800000⟩, #[0, 5], .replicate 2 0⟩
    let start : Session := .start none
    let r := (process view cs).left start (initial c)
    let r' := (process view cs).left start r
    Reachable c r ∧ r.Reprocessed view r' ∧ r.elements[0]!.status = .done .completed ∧
      r.elements[0]!.beams[0]!.score ≠ r'.elements[0]!.beams[0]!.score ∧
      ∃ s s' written written',
        (finalizeInto view 1).Returns (r, ⟨.replicate 4 0, .replicate 1 .zero⟩) () (s, written) ∧
        (finalizeInto view 1).Returns (r', ⟨.replicate 4 6, .replicate 1 .one⟩) () (s', written') ∧
        ScoreMatrix.row written'.tokens 4 0 = ScoreMatrix.row written.tokens 4 0 ∧
        written'.scores[0]! = written.scores[0]! := by
  intro c view cs start r r'
  have reachable : Reachable c r := .process view cs start (.new rfl)
  have again : r.Reprocessed view r' := .again cs start .done
  have done : r.elements[0]!.status = .done .completed := by decide +kernel
  have steady : ∀ i s tokens t, view.read i s = .ok tokens t → tokens = [7, (i : Int)] := by
    rintro i s tokens t ⟨⟩
    rfl
  let buffers : FinalBuffers := ⟨.replicate 4 0, .replicate 1 .zero⟩
  let buffers' : FinalBuffers := ⟨.replicate 4 6, .replicate 1 .one⟩
  have sizes : buffers.tokens.size = c.batchSize * 1 * c.maxLength ∧
      buffers.scores.size = c.batchSize * 1 := by decide
  have sizes' : buffers'.tokens.size = c.batchSize * 1 * c.maxLength ∧
      buffers'.scores.size = c.batchSize * 1 := by decide
  obtain ⟨same, returns⟩ := done_element_keeps_answer reachable again steady (by decide) done
    (fun cap => by cases cap) (by decide) (by decide) sizes.1 sizes.2 sizes'.1 sizes'.2
  obtain ⟨⟨s, written, takes⟩, s', written', takes'⟩ := returns fun i _ => gives_pure _
  exact ⟨reachable, again, done, by decide +kernel, s, s', written, written', takes.returns,
    takes'.returns, same s s' written written' takes.returns takes'.returns 0 (by decide)⟩

/-- At the length cap: the beam has the score minus one, and after another step it is offered with
zero. -/
theorem capped_element_loses_score :
    let c : Configuration :=
      { batchSize := 1, numBeams := 1, vocabSize := 8, maxLength := 2, eosToken := 0, padToken := 3 }
    let view : SequenceView := ⟨.ok 2, fun _ => pure [7, 5]⟩
    let cs : Selection.Candidates := ⟨.replicate 2 ⟨0xbf800000⟩, #[5, 6], .replicate 2 0⟩
    let buffers : FinalBuffers := ⟨.replicate 2 0, .replicate 1 .zero⟩
    ∃ r r' s s', Reachable c r ∧ r.elements[0]!.status = .done .lengthCap ∧
      (process view cs).Returns r () r' ∧
      (finalizeInto view 1).Takes (r, buffers) () (s, ⟨#[7, 5], #[⟨0xbf000000⟩]⟩) ∧
      (finalizeInto view 1).Takes (r', buffers) () (s', ⟨#[7, 5], #[.zero]⟩) := by
  intro c view cs buffers
  let r := ((process view cs).left (.start none) (initial c)).capLength 2
  have reachable : Reachable c r := .capLength 2 (.process view cs _ (.new rfl))
  let known : Nat → List Token := fun _ => [7, 5]
  let r' := r.processed known 2 cs
  have shaped := reachable.shaped
  have shaped' : r'.Shaped c := shaped.processed (by decide)
  have reads : ∀ i < c.batchSize * c.numBeams, (view.read i).Gives (known i) :=
    fun _ _ => gives_pure _
  have within : ∀ b < c.batchSize, ∀ d ∈ candidatesOf cs (2 * c.numBeams) b,
      Token.toIndex d.beam < c.numBeams := by decide
  have takes : (process view cs).Takes r () r' :=
    takes_process shaped (by decide) (by decide) (by decide) rfl reads rfl rfl rfl within
  have answer : ∀ {s : Ranking}, s.Shaped c → (finalizeInto view 1).Takes (s, buffers) ()
      (s.closed known, ⟨(s.closed known).bestRows 1, (s.closed known).bestScores 1⟩) :=
    fun shaped => takes_finalizeInto shaped (by decide) (by decide) (by decide) rfl rfl reads
  have before : (r.closed known).bestRows 1 = #[7, 5] ∧
      (r.closed known).bestScores 1 = #[⟨0xbf000000⟩] := by decide +kernel
  have after : (r'.closed known).bestRows 1 = #[7, 5] ∧
      (r'.closed known).bestScores 1 = #[.zero] := by decide +kernel
  exact ⟨r, r', _, _, reachable, by decide +kernel, takes.returns,
    before.1 ▸ before.2 ▸ answer shaped, after.1 ▸ after.2 ▸ answer shaped'⟩

end Ranking

end TokenSearch
