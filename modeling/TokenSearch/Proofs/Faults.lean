import TokenSearch.Buffer

/-!
A run with one planned fault beside the same run without. `x.FailsFast` says that nothing in `x`
holds a fault back: up to the planned call both make the same calls, that call is the last one of
the run with the fault, and its error is what that run returns. No way to put runs together loses
this, so a program has it once its parts do.
-/

namespace TokenSearch

variable {σ τ α β : Type}

namespace Session

def Reached (fault : Fault) (s : Session) : Prop := fault.occurrence < s.calls.count fault.call

/-- Two sessions after the same calls, and the fault is planned in the second one only. -/
structure Twin (fault : Fault) (free hit : Session) : Prop where
  unplanned : free.fault = none
  planned : hit.fault = some fault
  calls : hit.calls = free.calls

/-- The calls of `hit` are those of `free` up to the one that the fault is planned for. -/
def CutAt (fault : Fault) (free hit : Session) : Prop :=
  ∃ before after : Array Call, free.calls = before ++ #[fault.call] ++ after ∧
    before.count fault.call = fault.occurrence ∧ hit.calls = before ++ #[fault.call]

variable {s t u : Session} {fault : Fault}

theorem Twin.start (fault : Fault) : Twin fault (.start none) (.start (some fault)) :=
  ⟨rfl, rfl, rfl⟩

theorem not_reached_start (fault : Fault) : ¬ (start none).Reached fault := Nat.not_lt_zero _

theorem CutAt.reached (cut : CutAt fault s t) : s.Reached fault := by
  obtain ⟨before, after, calls, count, -⟩ := cut
  rw [Reached, calls, Array.count_append, Array.count_append, Array.count_singleton_self, count]
  omega

theorem CutAt.append (cut : CutAt fault s t) {more : Array Call}
    (grows : u.calls = s.calls ++ more) : CutAt fault u t := by
  obtain ⟨before, after, calls, count, last⟩ := cut
  exact ⟨before, after ++ more, by rw [grows, calls, Array.append_assoc], count, last⟩

theorem count_record (s : Session) (c d : Call) :
    (s.record c).calls.count d = s.calls.count d + if c = d then 1 else 0 := by
  rw [record, Array.count_push]
  simp

end Session

open Session

inductive Parallel (fault : Fault) : Outcome α × Session → Outcome α × Session → Prop
  | missed (result : Outcome α) {s u : Session} :
    ¬ s.Reached fault → Twin fault s u → Parallel fault (result, s) (result, u)
  | stopped (result : Outcome α) {s u : Session} :
    CutAt fault s u →
      Parallel fault (result, s) (.error (.error (.device fault.message)), u)

/-! ## Runs -/

namespace Run

def finish (x : Run α) (s : Session) : Outcome α × Session :=
  match x s with
  | .ok a s => (.ok a, s)
  | .error f s => (.error f, s)

structure FailsFast (x : Run α) : Prop where
  grows : ∀ s, ∃ more : Array Call, (x.finish s).2.calls = s.calls ++ more
  parallel : ∀ {fault s u}, Twin fault s u → ¬ s.Reached fault →
    Parallel fault (x.finish s) (x.finish u)

theorem failsFast_of_silent {x : Run α} (result : Outcome α) (log : Array Event → Array Event)
    (silent : ∀ s, x.finish s = (result, { s with events := log s.events })) : x.FailsFast where
  grows s := ⟨#[], by rw [silent, Array.append_empty]⟩
  parallel twin before := by
    rw [silent, silent]
    exact .missed result before ⟨twin.unplanned, twin.planned, twin.calls⟩

theorem failsFast_pure (a : α) : FailsFast (pure a) := failsFast_of_silent (.ok a) id fun _ => rfl

theorem failsFast_emit (event : Event) : (emit event).FailsFast :=
  failsFast_of_silent (.ok ()) (·.push event) fun _ => rfl

theorem failsFast_ofOutcome (x : Outcome α) : (ofOutcome x).FailsFast :=
  failsFast_of_silent x id fun _ => by cases x <;> rfl

theorem failsFast_require (condition : Bool) (v : Violation) : (require condition v).FailsFast :=
  failsFast_ofOutcome _

theorem finish_call_of_unplanned {s : Session} (c : Call) (unplanned : s.fault = none) :
    (call c).finish s = (.ok (), s.record c) := by
  simp only [finish, call, fails, unplanned, Option.filter_none]

theorem finish_call_of_planned {s : Session} {fault : Fault} (c : Call)
    (planned : s.fault = some fault) :
    (call c).finish s =
      (if fault.call = c ∧ s.calls.count c = fault.occurrence then
        .error (.error (.device fault.message)) else .ok (), s.record c) := by
  by_cases hit : fault.call = c ∧ s.calls.count c = fault.occurrence
  · have hits : s.fails c = some fault := by simp [fails, planned, hit]
    rw [if_pos hit, finish, call, hits]
  · have misses : s.fails c = none := by
      rw [fails, planned, Option.filter_some, ← Bool.decide_and, decide_eq_false hit]
      rfl
    rw [if_neg hit, finish, call, misses]

theorem failsFast_call (c : Call) : (call c).FailsFast where
  grows s := by
    refine ⟨#[c], ?_⟩
    unfold finish call
    cases s.fails c <;> exact Array.push_eq_append
  parallel {fault s u} twin before := by
    have same : (u.record c).calls = (s.record c).calls := congrArg (·.push c) twin.calls
    rw [finish_call_of_unplanned c twin.unplanned, finish_call_of_planned c twin.planned,
      twin.calls]
    by_cases hit : fault.call = c ∧ s.calls.count c = fault.occurrence
    · obtain ⟨rfl, here⟩ := hit
      rw [if_pos ⟨rfl, here⟩]
      refine .stopped _ ⟨s.calls, #[], ?_, here, same.trans Array.push_eq_append⟩
      rw [Array.append_empty]
      exact Array.push_eq_append
    · rw [if_neg hit]
      refine .missed _ (fun reached => hit ?_) ⟨twin.unplanned, twin.planned, same⟩
      rw [Reached] at before
      rw [Reached, count_record] at reached
      by_cases called : c = fault.call
      · rw [if_pos called] at reached
        exact ⟨called.symm, by rw [called]; omega⟩
      · rw [if_neg called] at reached
        omega

theorem finish_bind (x : Run α) (f : α → Run β) (s : Session) :
    (x >>= f).finish s =
      match x.finish s with
      | (.ok a, t) => (f a).finish t
      | (.error e, t) => (.error e, t) := by
  have unfolded : (x >>= f) s = EStateM.bind x f s := rfl
  unfold finish
  rw [unfolded, EStateM.bind]
  cases x s <;> rfl

/-- The second run starts only where the first one was not hit. -/
theorem FailsFast.bind {x : Run α} {f : α → Run β} (first : x.FailsFast)
    (second : ∀ a, (f a).FailsFast) : (x >>= f).FailsFast where
  grows s := by
    obtain ⟨more, grown⟩ := first.grows s
    rw [finish_bind]
    generalize x.finish s = e at grown
    obtain ⟨result, t⟩ := e
    cases result with
    | error e => exact ⟨more, grown⟩
    | ok a =>
      obtain ⟨others, grown'⟩ := (second a).grows t
      exact ⟨more ++ others, by rw [grown', grown, Array.append_assoc]⟩
  parallel {fault s u} twin before := by
    have parallel := first.parallel twin before
    rw [finish_bind, finish_bind]
    generalize x.finish s = free at parallel
    generalize x.finish u = hit at parallel
    cases parallel with
    | missed result before twin =>
      cases result with
      | error e => exact .missed _ before twin
      | ok a => exact (second a).parallel twin before
    | stopped result cut =>
      cases result with
      | error e => exact .stopped _ cut
      | ok a =>
        obtain ⟨more, grown⟩ := (second a).grows _
        exact .stopped _ (cut.append grown)

theorem FailsFast.map {x : Run α} (f : α → β) (h : x.FailsFast) : FailsFast (f <$> x) := by
  rw [map_eq_pure_bind]
  exact h.bind fun a => failsFast_pure (f a)

theorem failsFast_ite {p : Prop} [Decidable p] {x y : Run α} (hx : x.FailsFast)
    (hy : y.FailsFast) : FailsFast (if p then x else y) := by
  split
  · exact hx
  · exact hy

theorem FailsFast.of_same {x y : Run α} (h : x.FailsFast)
    (same : ∀ s, (y.finish s).1 = (x.finish s).1 ∧ (y.finish s).2.calls = (x.finish s).2.calls ∧
      (y.finish s).2.fault = (x.finish s).2.fault) : y.FailsFast where
  grows s := by
    rw [(same s).2.1]
    exact h.grows s
  parallel {fault s u} twin before := by
    have parallel := h.parallel twin before
    obtain ⟨result, calls, plan⟩ := same s
    obtain ⟨result', calls', plan'⟩ := same u
    generalize x.finish s = free at parallel result calls plan
    generalize x.finish u = hit at parallel result' calls' plan'
    generalize y.finish s = free' at result calls plan ⊢
    generalize y.finish u = hit' at result' calls' plan' ⊢
    obtain ⟨_, s'⟩ := free'
    obtain ⟨_, u'⟩ := hit'
    cases parallel with
    | missed _ before twin =>
      cases result
      cases result'
      refine .missed _ ?_ ⟨plan.trans twin.unplanned, plan'.trans twin.planned, ?_⟩
      · rw [Reached, calls]
        exact before
      · exact calls'.trans (twin.calls.trans calls.symm)
    | stopped _ cut =>
      cases result
      cases result'
      obtain ⟨earlier, after, split, count, last⟩ := cut
      exact .stopped _ ⟨earlier, after, calls.trans split, count, calls'.trans last⟩

end Run

/-! ## Actions -/

namespace Action

open TokenSearch.Run

def FailsFast (x : Action σ α) : Prop := ∀ s, (on s x).FailsFast

theorem on_bind (s : σ) (x : Action σ α) (f : α → Action σ β) :
    on s (x >>= f) = on s x >>= fun p => on p.2 (f p.1) := by
  funext session
  have left : (x >>= f) (session, s) = EStateM.bind x f (session, s) := rfl
  show _ = EStateM.bind (on s x) _ session
  unfold EStateM.bind on
  rw [left, EStateM.bind]
  cases x (session, s) <;> rfl

theorem on_lift (s : σ) (x : Run α) : on s (lift x) = (·, s) <$> x := by
  funext session
  show _ = EStateM.map _ x session
  unfold EStateM.map on lift
  cases ran : x session <;> simp only [ran]

theorem on_focus (s : σ) (part : σ → τ) (put : σ → τ → σ) (x : Action τ α) :
    on s (focus part put x) = (fun p => (p.1, put s p.2)) <$> on (part s) x := by
  funext session
  show _ = EStateM.map _ _ session
  unfold EStateM.map on focus
  cases ran : x (session, part s) <;> simp only [ran]

theorem FailsFast.bind {x : Action σ α} {f : α → Action σ β} (first : x.FailsFast)
    (second : ∀ a, (f a).FailsFast) : Action.FailsFast (x >>= f) := by
  intro s
  rw [on_bind]
  exact (first s).bind fun p => second p.1 p.2

theorem failsFast_pure (a : α) : Action.FailsFast (pure a : Action σ α) :=
  fun s => Run.failsFast_pure (a, s)

theorem failsFast_object : FailsFast (object : Action σ σ) := fun s => Run.failsFast_pure (s, s)

theorem failsFast_update (f : σ → σ) : (update f).FailsFast := fun s => Run.failsFast_pure ((), f s)

theorem failsFast_lift {x : Run α} (h : x.FailsFast) : FailsFast (lift x : Action σ α) := by
  intro s
  rw [on_lift]
  exact h.map _

theorem failsFast_call (c : Call) : FailsFast (call c : Action σ Unit) :=
  failsFast_lift (Run.failsFast_call c)

theorem failsFast_emit (event : Event) : FailsFast (emit event : Action σ Unit) :=
  failsFast_lift (Run.failsFast_emit event)

theorem failsFast_ofOutcome (x : Outcome α) : FailsFast (ofOutcome x : Action σ α) :=
  failsFast_lift (Run.failsFast_ofOutcome x)

theorem failsFast_require (condition : Bool) (v : Violation) :
    FailsFast (require condition v : Action σ Unit) :=
  failsFast_lift (Run.failsFast_require condition v)

theorem failsFast_ite {p : Prop} [Decidable p] {x y : Action σ α} (hx : x.FailsFast)
    (hy : y.FailsFast) : FailsFast (if p then x else y) := by
  split
  · exact hx
  · exact hy

theorem failsFast_focus (part : σ → τ) (put : σ → τ → σ) {x : Action τ α} (h : x.FailsFast) :
    (focus part put x).FailsFast := by
  intro s
  rw [on_focus]
  exact (h (part s)).map _

theorem failsFast_logged (event : σ → Event) {x : Action σ α} (h : x.FailsFast) :
    (logged x event).FailsFast := by
  refine fun s => (h s).of_same fun session => ?_
  unfold finish on logged
  rcases x (session, s) with _ | ⟨_ | _, _⟩ <;> exact ⟨rfl, rfl, rfl⟩

theorem failsFast_forM {list : List β} {f : β → Action σ Unit} (each : ∀ b, (f b).FailsFast) :
    Action.FailsFast (list.forM f) := by
  induction list with
  | nil => exact failsFast_pure ()
  | cons b rest ih => exact (each b).bind fun _ => ih

end Action

end TokenSearch
