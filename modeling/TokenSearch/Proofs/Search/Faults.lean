import TokenSearch.Proofs.Faults
import TokenSearch.Proofs.Search.Steps

/-!
A planned fault in a run of the generator. No part of a search holds an error back, stage by stage
from the buffers to the whole run. A run that reaches the planned call therefore ends at that
call with its error, after the calls that the run without the fault makes up to there; any other
run does not notice the plan.
-/

namespace TokenSearch

open TokenSearch.Action

/-! ## Buffers -/

namespace Buffer

theorem failsFast_allocScores (length : Nat) : (allocScores length).FailsFast :=
  (Run.failsFast_call _).bind fun _ => Run.failsFast_ofOutcome _

theorem failsFast_allocTokens (length : Nat) : (allocTokens length).FailsFast :=
  (Run.failsFast_call _).bind fun _ => Run.failsFast_ofOutcome _

theorem failsFast_allocMask (length : Nat) : (allocMask length).FailsFast :=
  (Run.failsFast_call _).bind fun _ => Run.failsFast_ofOutcome _

end Buffer

namespace ScoreBuffer

theorem failsFast_new (rows vocabSize : Nat) : (new rows vocabSize).FailsFast :=
  (Run.failsFast_ofOutcome _).bind fun _ =>
    (Buffer.failsFast_allocScores _).bind fun _ => Run.failsFast_pure _

theorem failsFast_transform (call : Call) (f : Scores → Outcome Scores) :
    (transform call f).FailsFast :=
  (failsFast_call call).bind fun _ => failsFast_object.bind fun _ =>
    (failsFast_ofOutcome _).bind fun _ => failsFast_update _

theorem failsFast_setLogits (logits : Scores) : (setLogits logits).FailsFast :=
  failsFast_object.bind fun _ => (failsFast_ofOutcome _).bind fun _ =>
    (failsFast_require _ _).bind fun _ => (failsFast_require _ _).bind fun _ =>
      (failsFast_require _ _).bind fun _ => failsFast_transform _ _

end ScoreBuffer

namespace SequenceStore

theorem failsFast_new (input : Tokens) (batchSize numBeams maxLength : Nat) :
    (new input batchSize numBeams maxLength).FailsFast := by
  refine (Run.failsFast_require _ _).bind fun _ => (Run.failsFast_require _ _).bind fun _ =>
    (Run.failsFast_require _ _).bind fun _ => (Run.failsFast_require _ _).bind fun _ =>
      (Run.failsFast_ofOutcome _).bind fun _ => (Run.failsFast_ofOutcome _).bind fun n =>
        (Run.failsFast_ofOutcome _).bind fun _ => (Run.failsFast_call _).bind fun _ =>
          Run.failsFast_ite ?_ ?_
  · exact ((Buffer.failsFast_allocTokens n).map some).bind fun _ => Run.failsFast_pure _
  · exact (Run.failsFast_pure none).bind fun _ => Run.failsFast_pure _

theorem failsFast_append (tokens : Tokens) : (append tokens).FailsFast :=
  failsFast_object.bind fun _ => (failsFast_ofOutcome _).bind fun _ =>
    (failsFast_call _).bind fun _ => (failsFast_ofOutcome _).bind fun _ => failsFast_update _

theorem failsFast_appendReordered (sources tokens : Tokens) :
    (appendReordered sources tokens).FailsFast := by
  refine failsFast_object.bind fun s => (failsFast_ofOutcome _).bind fun _ => ?_
  cases s.spare with
  | none => exact failsFast_ofOutcome _
  | some spare =>
    exact (failsFast_call _).bind fun _ => (failsFast_ofOutcome _).bind fun _ =>
      failsFast_update _

theorem failsFast_sequence (s : SequenceStore) (slot : Nat) : (s.sequence slot).FailsFast :=
  (Run.failsFast_require _ _).bind fun _ =>
    (Run.failsFast_call _).bind fun _ => Run.failsFast_ofOutcome _

end SequenceStore

namespace Termination

theorem failsFast_new (slots : Nat) (eosToken padToken : Token) :
    (new slots eosToken padToken).FailsFast :=
  (Buffer.failsFast_allocMask _).bind fun _ =>
    (Run.failsFast_call _).bind fun _ => Run.failsFast_pure _

theorem failsFast_check (tokens : Tokens) : (check tokens).FailsFast :=
  (failsFast_call _).bind fun _ => failsFast_object.bind fun _ =>
    (failsFast_update _).bind fun _ => failsFast_pure _

theorem failsFast_markDone : markDone.FailsFast :=
  (failsFast_call _).bind fun _ => failsFast_update _

theorem failsFast_isDone : isDone.FailsFast :=
  (failsFast_call _).bind fun _ => failsFast_object.bind fun _ => failsFast_pure _

end Termination

namespace Selection

theorem Workspace.failsFast_new (scratch output : Nat) : (Workspace.new scratch output).FailsFast :=
  (Buffer.failsFast_allocScores _).bind fun _ => (Buffer.failsFast_allocTokens _).bind fun _ =>
    (Buffer.failsFast_allocScores _).bind fun _ => (Buffer.failsFast_allocTokens _).bind fun _ =>
      (Buffer.failsFast_allocTokens _).bind fun _ => Run.failsFast_pure _

theorem failsFast_beamTopK (scores : Scores) (s : Shape) (w : Workspace) :
    (beamTopK scores s w).FailsFast :=
  (Run.failsFast_ofOutcome _).bind fun _ => (Run.failsFast_ofOutcome _).bind fun _ =>
    (Run.failsFast_ofOutcome _).bind fun _ => (Run.failsFast_emit _).bind fun _ =>
      (Run.failsFast_require _ _).bind fun _ => (Run.failsFast_require _ _).bind fun _ =>
        Run.failsFast_pure _

namespace Selector

theorem failsFast_new (batchSize numBeams vocabSize : Nat) :
    (new batchSize numBeams vocabSize).FailsFast :=
  (Run.failsFast_require _ _).bind fun _ => (Run.failsFast_ofOutcome _).bind fun _ =>
    (Run.failsFast_ofOutcome _).bind fun _ => (Run.failsFast_ofOutcome _).bind fun _ =>
      (Run.failsFast_ofOutcome _).bind fun _ => (Run.failsFast_emit _).bind fun _ =>
        (Workspace.failsFast_new _ _).bind fun _ => Run.failsFast_pure _

theorem failsFast_select (scores : Scores) : (select scores).FailsFast :=
  failsFast_object.bind fun _ => (failsFast_ofOutcome _).bind fun _ =>
    (failsFast_ofOutcome _).bind fun _ => (failsFast_require _ _).bind fun _ =>
      (failsFast_call _).bind fun _ => (failsFast_lift (failsFast_beamTopK _ _ _)).bind fun _ =>
        failsFast_update _

theorem failsFast_candidates (s : Selector) : s.candidates.FailsFast :=
  (Run.failsFast_call _).bind fun _ => (Run.failsFast_call _).bind fun _ =>
    (Run.failsFast_call _).bind fun _ => Run.failsFast_pure _

end Selector

end Selection

/-! ## The state of a search -/

namespace SearchState

variable {α : Type}

theorem failsFast_onSequences {x : Action SequenceStore α} (h : x.FailsFast) :
    (onSequences x).FailsFast := failsFast_focus _ _ h

theorem failsFast_onScores {x : Action ScoreBuffer α} (h : x.FailsFast) :
    (onScores x).FailsFast := failsFast_focus _ _ h

theorem failsFast_onTermination {x : Action Termination α} (h : x.FailsFast) :
    (onTermination x).FailsFast := failsFast_focus _ _ h

theorem failsFast_new (c : Configuration) (input : Tokens) : (new c input).FailsFast := by
  refine (Run.failsFast_ofOutcome _).bind fun _ => (SequenceStore.failsFast_new _ _ _ _).bind
    fun _ => (ScoreBuffer.failsFast_new _ _).bind fun _ => (Termination.failsFast_new _ _ _).bind
      fun t => Run.failsFast_ite ?_ (Run.failsFast_pure _)
  exact (Termination.failsFast_markDone t).bind fun _ => Run.failsFast_pure _

theorem failsFast_minLength (value : Nat) : (minLength value).FailsFast :=
  failsFast_object.bind fun _ =>
    failsFast_ite (failsFast_onScores (ScoreBuffer.failsFast_transform _ _)) (failsFast_pure _)

theorem failsFast_repetitionPenalty (penalty : Binary32) :
    (repetitionPenalty penalty).FailsFast :=
  failsFast_object.bind fun _ =>
    failsFast_ite (failsFast_onScores (ScoreBuffer.failsFast_transform _ _)) (failsFast_pure _)

end SearchState

/-! ## Greedy search -/

namespace GreedySearch

variable {α : Type}

theorem failsFast_onState {x : Action SearchState α} (h : x.FailsFast) :
    (onState x).FailsFast := failsFast_focus _ _ h

theorem failsFast_new (c : Configuration) (input : Tokens) : (new c input).FailsFast :=
  (Run.failsFast_require _ _).bind fun _ => (Run.failsFast_ofOutcome _).bind fun _ =>
    (Buffer.failsFast_allocTokens _).bind fun _ => (SearchState.failsFast_new _ _).bind fun _ =>
      Run.failsFast_pure _

theorem failsFast_next : next.FailsFast :=
  (failsFast_call _).bind fun _ => failsFast_object.bind fun _ =>
    (failsFast_ofOutcome _).bind fun _ => failsFast_update _

theorem failsFast_checkForEos : checkForEos.FailsFast :=
  failsFast_object.bind fun _ =>
    (failsFast_onState (SearchState.failsFast_onTermination (Termination.failsFast_check _))).bind
      fun _ => failsFast_update _

theorem failsFast_append : append.FailsFast :=
  failsFast_object.bind fun _ =>
    (failsFast_onState (SearchState.failsFast_onSequences (SequenceStore.failsFast_append _))).bind
      fun _ => failsFast_object.bind fun _ => failsFast_ite
        (failsFast_onState (SearchState.failsFast_onTermination Termination.failsFast_markDone))
        (failsFast_pure _)

theorem failsFast_isDone : isDone.FailsFast :=
  failsFast_onState (SearchState.failsFast_onTermination Termination.failsFast_isDone)

theorem failsFast_rows (s : SearchState) (slots : List Nat) : (rows s slots).FailsFast := by
  induction slots with
  | nil => exact Run.failsFast_pure _
  | cons slot rest ih =>
    exact (SequenceStore.failsFast_sequence _ _).bind fun _ => ih.bind fun _ => Run.failsFast_pure _

theorem failsFast_finalize (n outputSize scoresSize : Nat) :
    (finalize n outputSize scoresSize).FailsFast :=
  failsFast_object.bind fun _ => (failsFast_require _ _).bind fun _ =>
    (failsFast_ofOutcome _).bind fun _ => (failsFast_require _ _).bind fun _ =>
      (failsFast_require _ _).bind fun _ => (failsFast_lift (failsFast_rows _ _)).bind fun _ =>
        failsFast_pure _

end GreedySearch

/-! ## Re-ranking, which reads sequences while it updates -/

def SequenceView.FailsFast (view : SequenceView) : Prop := ∀ slot, (view.read slot).FailsFast

namespace Element

variable {view : SequenceView}

theorem failsFast_walk (reads : view.FailsFast) (numBeams : Nat) (eosToken : Token) (base : Nat)
    (candidates : List Candidate) : ∀ rank chosen retired,
    (walk numBeams eosToken view base rank chosen retired candidates).FailsFast := by
  induction candidates with
  | nil => exact fun _ _ _ => failsFast_pure _
  | cons c rest ih =>
    refine fun rank chosen retired => (failsFast_ofOutcome _).bind fun source =>
      failsFast_ite (failsFast_ite (ih _ _ _) ?_) ?_
    · exact (failsFast_lift (reads source)).bind fun _ => (failsFast_update _).bind fun _ =>
        ih _ _ _
    · exact (failsFast_update _).bind fun _ => failsFast_ite (failsFast_pure _) (ih _ _ _)

theorem failsFast_offerBeams (reads : view.FailsFast) (beams : List Nat) :
    (offerBeams view beams).FailsFast := by
  induction beams with
  | nil => exact failsFast_pure ()
  | cons i rest ih =>
    exact failsFast_object.bind fun _ => (failsFast_lift (reads _)).bind fun _ =>
      (failsFast_update _).bind fun _ => ih

theorem failsFast_step (reads : view.FailsFast) (numBeams : Nat) (eosToken padToken : Token)
    (length index : Nat) (candidates : List Candidate) :
    (step numBeams eosToken padToken view length index candidates).FailsFast := by
  refine failsFast_object.bind fun _ => failsFast_ite (failsFast_update _)
    ((failsFast_walk reads _ _ _ _ _ _ _).bind fun counts => failsFast_ite ?_ ?_)
  · exact (failsFast_offerBeams reads _).bind fun _ => (failsFast_update _).bind fun _ =>
      failsFast_emit _
  · refine failsFast_object.bind fun _ => (failsFast_require _ _).bind fun _ =>
      failsFast_ite ?_ (failsFast_ite (failsFast_emit _) (failsFast_pure _))
    exact (failsFast_update _).bind fun _ => failsFast_emit _

theorem failsFast_closeFrom (reads : view.FailsFast) (base : Nat) (beams : List Nat) :
    (closeFrom view base beams).FailsFast := by
  induction beams with
  | nil => exact failsFast_pure ()
  | cons i rest ih =>
    exact (failsFast_lift (reads _)).bind fun _ => (failsFast_update _).bind fun _ => ih

theorem failsFast_close (reads : view.FailsFast) (numBeams index : Nat) :
    (close numBeams view index).FailsFast :=
  failsFast_object.bind fun _ =>
    failsFast_ite (failsFast_closeFrom reads _ _) (failsFast_pure _)

end Element

namespace Ranking

variable {view : SequenceView}

theorem failsFast_onElement (index : Nat) {x : Action Element Unit} (h : x.FailsFast) :
    (onElement index x).FailsFast := by
  refine failsFast_object.bind fun r => ?_
  cases r.elements[index]? with
  | none => exact failsFast_ofOutcome _
  | some e => exact failsFast_focus _ _ h

theorem failsFast_process (reads : view.FailsFast) (cs : Selection.Candidates) :
    (process view cs).FailsFast :=
  failsFast_object.bind fun _ => (failsFast_ofOutcome _).bind fun _ =>
    (failsFast_ofOutcome _).bind fun _ => (failsFast_require _ _).bind fun _ =>
      (failsFast_ofOutcome _).bind fun _ => failsFast_forM fun _ =>
        failsFast_onElement _ (Element.failsFast_step reads _ _ _ _ _ _)

theorem failsFast_finalize (reads : view.FailsFast) (n outputSize scoresSize : Nat) :
    (finalize view n outputSize scoresSize).FailsFast :=
  failsFast_object.bind fun _ => (failsFast_require _ _).bind fun _ =>
    (failsFast_ofOutcome _).bind fun _ => (failsFast_ofOutcome _).bind fun _ =>
      (failsFast_require _ _).bind fun _ => (failsFast_require _ _).bind fun _ =>
        (failsFast_forM fun _ => failsFast_onElement _ (Element.failsFast_close reads _ _)).bind
          fun _ => failsFast_object.bind fun _ => failsFast_pure _

end Ranking

/-! ## Beam search -/

namespace BeamSearch

variable {α : Type}

theorem failsFast_onState {x : Action SearchState α} (h : x.FailsFast) :
    (onState x).FailsFast := failsFast_focus _ _ h

theorem failsFast_markDone :
    (onState (SearchState.onTermination Termination.markDone)).FailsFast :=
  failsFast_onState (SearchState.failsFast_onTermination Termination.failsFast_markDone)

theorem failsFast_new (c : Configuration) (input : Tokens) : (new c input).FailsFast :=
  (Run.failsFast_require _ _).bind fun _ => (Run.failsFast_ofOutcome _).bind fun _ =>
    (Run.failsFast_ofOutcome _).bind fun _ => (Run.failsFast_ofOutcome _).bind fun _ =>
      (Selection.Selector.failsFast_new _ _ _).bind fun _ => (Run.failsFast_call _).bind fun _ =>
        (Buffer.failsFast_allocTokens _).bind fun _ => (Buffer.failsFast_allocTokens _).bind
          fun _ => (SearchState.failsFast_new _ _).bind fun _ => Run.failsFast_pure _

theorem failsFast_select : select.FailsFast :=
  failsFast_object.bind fun _ => (failsFast_ofOutcome _).bind fun _ =>
    (failsFast_onState (SearchState.failsFast_onScores
      (ScoreBuffer.failsFast_transform _ _))).bind fun _ => failsFast_object.bind fun _ =>
        Action.FailsFast.bind (failsFast_focus _ _ (Selection.Selector.failsFast_select _)) fun _ =>
          (failsFast_call _).bind fun _ => failsFast_object.bind fun _ =>
            failsFast_lift (Selection.Selector.failsFast_candidates _)

theorem failsFast_writeBeams : writeBeams.FailsFast :=
  failsFast_object.bind fun _ => (failsFast_call _).bind fun _ => failsFast_object.bind fun _ =>
    (failsFast_ofOutcome _).bind fun _ => (failsFast_update _).bind fun _ =>
      (failsFast_call _).bind fun _ => failsFast_object.bind fun _ =>
        (failsFast_ofOutcome _).bind fun _ => (failsFast_update _).bind fun _ =>
          (failsFast_call _).bind fun _ => failsFast_object.bind fun _ =>
            (failsFast_ofOutcome _).bind fun _ => failsFast_update _

theorem failsFast_view (b : BeamSearch) : b.state.sequences.view.FailsFast :=
  fun _ => SequenceStore.failsFast_sequence _ _

theorem failsFast_next : next.FailsFast :=
  failsFast_select.bind fun _ => failsFast_object.bind fun b =>
    Action.FailsFast.bind (failsFast_focus _ _ (Ranking.failsFast_process b.failsFast_view _))
      fun _ => failsFast_writeBeams

theorem failsFast_checkForEos : checkForEos.FailsFast :=
  failsFast_object.bind fun _ =>
    (failsFast_onState (SearchState.failsFast_onTermination (Termination.failsFast_check _))).bind
      fun _ => (failsFast_update _).bind fun _ =>
        failsFast_ite failsFast_markDone (failsFast_pure _)

theorem failsFast_append : append.FailsFast :=
  failsFast_object.bind fun _ => failsFast_onState
    (SearchState.failsFast_onSequences (SequenceStore.failsFast_appendReordered _ _))

theorem failsFast_isDone : isDone.FailsFast := by
  have answer : (onState (SearchState.onTermination Termination.isDone)).FailsFast :=
    failsFast_onState (SearchState.failsFast_onTermination Termination.failsFast_isDone)
  exact failsFast_object.bind fun _ =>
    Action.FailsFast.bind (failsFast_focus _ _ (failsFast_update _)) fun _ =>
      failsFast_object.bind fun _ =>
        failsFast_ite (failsFast_markDone.bind fun _ => answer) answer

theorem failsFast_finalize (n outputSize scoresSize : Nat) :
    (finalize n outputSize scoresSize).FailsFast :=
  failsFast_object.bind fun b =>
    failsFast_focus _ _ (Ranking.failsFast_finalize b.failsFast_view _ _ _)

end BeamSearch

/-! ## Runs -/

namespace Search

variable {α : Type}

theorem on_act_greedy (onGreedy : Action GreedySearch α) (onBeam : Action BeamSearch α)
    (g : GreedySearch) :
    on (greedy g) (act onGreedy onBeam) = (fun p => (p.1, greedy p.2)) <$> on g onGreedy := by
  funext session
  show _ = EStateM.map _ _ session
  unfold EStateM.map on act
  cases ran : onGreedy (session, g) <;> simp only [ran]

theorem on_act_beam (onGreedy : Action GreedySearch α) (onBeam : Action BeamSearch α)
    (b : BeamSearch) :
    on (beam b) (act onGreedy onBeam) = (fun p => (p.1, beam p.2)) <$> on b onBeam := by
  funext session
  show _ = EStateM.map _ _ session
  unfold EStateM.map on act
  cases ran : onBeam (session, b) <;> simp only [ran]

theorem failsFast_act {onGreedy : Action GreedySearch α} {onBeam : Action BeamSearch α}
    (first : onGreedy.FailsFast) (second : onBeam.FailsFast) :
    (act onGreedy onBeam).FailsFast := by
  intro s
  cases s with
  | greedy g =>
    rw [on_act_greedy]
    exact (first g).map _
  | beam b =>
    rw [on_act_beam]
    exact (second b).map _

theorem failsFast_onState {x : Action SearchState α} (h : x.FailsFast) :
    (onState x).FailsFast :=
  failsFast_act (GreedySearch.failsFast_onState h) (BeamSearch.failsFast_onState h)

theorem failsFast_new (c : Configuration) (input : Tokens) : (new c input).FailsFast := by
  refine (Run.failsFast_ofOutcome _).bind fun _ => (Run.failsFast_emit _).bind fun _ =>
    Run.failsFast_ite ?_ ?_
  · exact (BeamSearch.failsFast_new c input).bind fun _ => Run.failsFast_pure _
  · exact (GreedySearch.failsFast_new c input).bind fun _ => Run.failsFast_pure _

theorem failsFast_append : append.FailsFast :=
  failsFast_logged _ (failsFast_act GreedySearch.failsFast_append BeamSearch.failsFast_append)

theorem failsFast_isDone : isDone.FailsFast :=
  failsFast_act GreedySearch.failsFast_isDone BeamSearch.failsFast_isDone

theorem failsFast_finalize (n outputSize scoresSize : Nat) :
    (finalize n outputSize scoresSize).FailsFast :=
  failsFast_act (GreedySearch.failsFast_finalize _ _ _) (BeamSearch.failsFast_finalize _ _ _)

end Search

namespace Generator

variable {α : Type}

theorem failsFast_onSearch {x : Action Search α} (h : x.FailsFast) : (onSearch x).FailsFast :=
  failsFast_focus _ _ h

theorem failsFast_forward : forward.FailsFast :=
  failsFast_object.bind fun _ => (failsFast_update _).bind fun _ =>
    (failsFast_call _).bind fun _ => failsFast_ofOutcome _

theorem failsFast_step : step.FailsFast := by
  refine failsFast_forward.bind fun logits => failsFast_object.bind fun g =>
    Action.FailsFast.bind (failsFast_onSearch ?_) fun _ => (failsFast_update _).bind fun _ =>
      failsFast_onSearch Search.failsFast_isDone
  have loaded := SearchState.failsFast_onScores (ScoreBuffer.failsFast_setLogits logits)
  exact (Search.failsFast_onState loaded).bind fun _ =>
    (Search.failsFast_onState (SearchState.failsFast_minLength _)).bind fun _ =>
      (Search.failsFast_onState (SearchState.failsFast_repetitionPenalty _)).bind fun _ =>
        (Search.failsFast_act GreedySearch.failsFast_next BeamSearch.failsFast_next).bind fun _ =>
          (Search.failsFast_act GreedySearch.failsFast_checkForEos
            BeamSearch.failsFast_checkForEos).bind fun _ => Search.failsFast_append

theorem failsFast_stepUntilDone (room : Nat) : (stepUntilDone room).FailsFast := by
  have asked := failsFast_onSearch Search.failsFast_isDone
  induction room with
  | zero =>
    exact asked.bind fun _ => failsFast_ite (failsFast_pure ())
      (failsFast_step.bind fun _ => failsFast_pure ())
  | succ room ih =>
    exact asked.bind fun _ => failsFast_ite (failsFast_pure ())
      (failsFast_step.bind fun _ => ih)

theorem failsFast_tryGenerate : tryGenerate.FailsFast :=
  failsFast_object.bind fun _ => (failsFast_stepUntilDone _).bind fun _ =>
    (failsFast_ofOutcome _).bind fun _ => (failsFast_ofOutcome _).bind fun _ =>
      (failsFast_onSearch (Search.failsFast_finalize _ _ _)).bind fun _ =>
        failsFast_object.bind fun _ => (failsFast_emit _).bind fun _ => failsFast_pure _

theorem failsFast_runToEnd (c : Configuration) (input : Tokens) (model : Model) :
    (runToEnd c input model).FailsFast := by
  have made : (new c input model).FailsFast :=
    (Search.failsFast_new c input).bind fun _ => Run.failsFast_pure _
  exact made.bind failsFast_tryGenerate

/-- A fault planned for one call of a run. If the run makes that call, it returns the error of the
call and nothing is called afterwards; up to there both runs make the same calls. If it does not,
the plan changes neither the result nor the calls. -/
theorem runToEnd_with_fault (c : Configuration) (input : Tokens) (model : Model) (fault : Fault) :
    let free := (runToEnd c input model).finish (.start none)
    let hit := (runToEnd c input model).finish (.start (some fault))
    if fault.occurrence < free.2.calls.count fault.call then
      hit.1 = .error (.error (.device fault.message)) ∧
        ∃ before after : Array Call, free.2.calls = before ++ #[fault.call] ++ after ∧
          before.count fault.call = fault.occurrence ∧ hit.2.calls = before ++ #[fault.call]
    else hit.1 = free.1 ∧ hit.2.calls = free.2.calls := by
  intro free hit
  have parallel : Parallel fault free hit :=
    (failsFast_runToEnd c input model).parallel (.start fault) (Session.not_reached_start fault)
  generalize free = f at parallel ⊢
  generalize hit = h at parallel ⊢
  cases parallel with
  | missed _ missed twin => exact (if_neg missed).mpr ⟨rfl, twin.calls⟩
  | stopped _ cut => exact (if_pos cut.reached).mpr ⟨rfl, cut⟩

end Generator

end TokenSearch
