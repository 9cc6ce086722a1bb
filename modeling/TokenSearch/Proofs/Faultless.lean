import TokenSearch.Buffer

/-!
Runs without device faults. `x.Gives a` says that `x` returns `a` from every session in which no
call is planned to fail, and `x.Takes s a t` that `x` also turns the object `s` into `t`. Such a
run has one outcome, so both are composed like the programs they speak of, one rule for every
way to put an action together.
-/

namespace TokenSearch

variable {σ τ α β : Type}

namespace Outcome

theorem bind_eq_ok {x : Outcome α} {f : α → Outcome β} {a : α} {b : β} (hx : x = .ok a)
    (hf : f a = .ok b) : x >>= f = .ok b := by
  subst hx
  exact hf

theorem require_eq_ok {condition : Bool} (v : Violation) (h : condition = true) :
    require condition v = .ok () := by
  simp [h]

theorem of_require {condition : Bool} {v : Violation} {a : Unit}
    (h : require condition v = .ok a) : condition = true := by
  cases condition with
  | true => rfl
  | false => cases h

theorem eq_of_size {n m : Nat} (h : size n = .ok m) : m = n := by
  unfold size at h
  split at h <;> cases h
  rfl

theorem lt_of_size {n m : Nat} (h : size n = .ok m) : n < 2 ^ 64 := by
  unfold size at h
  split at h
  · assumption
  · cases h

end Outcome

namespace Run

def Gives (x : Run α) (a : α) : Prop :=
  ∀ s : Session, s.fault = none → ∃ s' : Session, s'.fault = none ∧ x s = .ok a s'

theorem gives_pure (a : α) : Gives (pure a) a := fun s sound => ⟨s, sound, rfl⟩

theorem Gives.bind {x : Run α} {f : α → Run β} {a : α} {b : β} (hx : x.Gives a)
    (hf : (f a).Gives b) : Gives (x >>= f) b := by
  intro s sound
  obtain ⟨s', sound', run⟩ := hx s sound
  obtain ⟨s'', sound'', run'⟩ := hf s' sound'
  refine ⟨s'', sound'', ?_⟩
  show EStateM.bind x f s = _
  rw [EStateM.bind, run]
  exact run'

theorem Gives.map {x : Run α} {a : α} (f : α → β) (hx : x.Gives a) : Gives (f <$> x) (f a) := by
  intro s sound
  obtain ⟨s', sound', run⟩ := hx s sound
  refine ⟨s', sound', ?_⟩
  show EStateM.map f x s = _
  rw [EStateM.map, run]

theorem gives_call (c : Call) : Gives (call c) () := by
  intro s sound
  refine ⟨s.record c, sound, ?_⟩
  simp only [call, Session.fails, sound, Option.filter_none]

theorem gives_emit (e : Event) : Gives (emit e) () := fun s sound => ⟨s.log e, sound, rfl⟩

theorem gives_ofOutcome {x : Outcome α} {a : α} (h : x = .ok a) : Gives (ofOutcome x) a :=
  fun s sound => ⟨s, sound, by subst h; rfl⟩

theorem gives_require {condition : Bool} (v : Violation) (h : condition = true) :
    Gives (require condition v) () :=
  gives_ofOutcome (Outcome.require_eq_ok v h)

theorem gives_ite {p : Prop} [Decidable p] {x y : Run α} {a : α} (hx : p → x.Gives a)
    (hy : ¬p → y.Gives a) : Gives (if p then x else y) a := by
  split
  · exact hx ‹_›
  · exact hy ‹_›

theorem gives_allocScores {length : Nat} (h : length * 4 < 2 ^ 63) :
    (Buffer.allocScores length).Gives (.replicate length Binary32.zero) :=
  (gives_call _).bind (gives_ofOutcome (Buffer.filled_of_lt _ h))

theorem gives_allocTokens {length : Nat} (h : length * 4 < 2 ^ 63) :
    (Buffer.allocTokens length).Gives (.replicate length 0) :=
  (gives_call _).bind (gives_ofOutcome (Buffer.filled_of_lt _ h))

theorem gives_allocMask {length : Nat} (h : length < 2 ^ 63) :
    (Buffer.allocMask length).Gives (.replicate length false) :=
  (gives_call _).bind (gives_ofOutcome (Buffer.filled_of_lt _ (by omega)))

theorem Gives.unique {x : Run α} {a b : α} (ha : x.Gives a) (hb : x.Gives b) : a = b := by
  obtain ⟨s, -, run⟩ := ha (.start none) rfl
  obtain ⟨t, -, run'⟩ := hb (.start none) rfl
  cases run.symm.trans run'
  rfl

/-! ## Runs that never return -/

def Fails (x : Run α) : Prop := ∀ s a s', x s ≠ .ok a s'

theorem Fails.not_gives {x : Run α} {a : α} (h : x.Fails) : ¬ x.Gives a := by
  intro given
  obtain ⟨s', -, run⟩ := given (.start none) rfl
  exact h _ _ _ run

theorem fails_require {condition : Bool} (v : Violation) (h : condition = false) :
    (require condition v).Fails := by
  intro s a s' run
  subst h
  cases run

theorem Fails.bind {x : Run α} (h : x.Fails) (f : α → Run β) : (x >>= f).Fails := by
  intro s b s' run
  change EStateM.bind x f s = _ at run
  unfold EStateM.bind at run
  split at run
  case h_1 same => exact h _ _ _ same
  case h_2 => cases run

theorem fails_bind (x : Run α) {f : α → Run β} (h : ∀ a, (f a).Fails) : (x >>= f).Fails := by
  intro s b s' run
  change EStateM.bind x f s = _ at run
  unfold EStateM.bind at run
  split at run
  case h_1 => exact h _ _ _ _ run
  case h_2 => cases run

end Run

namespace Action

def Takes (x : Action σ α) (s : σ) (a : α) (t : σ) : Prop :=
  ∀ session : Session, session.fault = none →
    ∃ session' : Session, session'.fault = none ∧ x (session, s) = .ok a (session', t)

variable {s t u : σ} {a : α} {b : β}

theorem takes_pure (a : α) (s : σ) : Takes (pure a) s a s :=
  fun session sound => ⟨session, sound, rfl⟩

theorem Takes.bind {x : Action σ α} {f : α → Action σ β} (hx : x.Takes s a t)
    (hf : (f a).Takes t b u) : Takes (x >>= f) s b u := by
  intro session sound
  obtain ⟨session', sound', run⟩ := hx session sound
  obtain ⟨session'', sound'', run'⟩ := hf session' sound'
  refine ⟨session'', sound'', ?_⟩
  show EStateM.bind x f (session, s) = _
  rw [EStateM.bind, run]
  exact run'

theorem takes_object (s : σ) : Takes object s s s := fun session sound => ⟨session, sound, rfl⟩

theorem takes_update (f : σ → σ) (s : σ) : Takes (update f) s () (f s) :=
  fun session sound => ⟨session, sound, rfl⟩

theorem takes_lift {x : Run α} (h : x.Gives a) : Takes (lift x) s a s := by
  intro session sound
  obtain ⟨session', sound', run⟩ := h session sound
  exact ⟨session', sound', by simp only [lift, run]⟩

theorem takes_call (c : Call) (s : σ) : Takes (call c) s () s := takes_lift (Run.gives_call c)

theorem takes_emit (e : Event) (s : σ) : Takes (emit e) s () s := takes_lift (Run.gives_emit e)

theorem takes_ofOutcome {x : Outcome α} (h : x = .ok a) : Takes (ofOutcome x) s a s :=
  takes_lift (Run.gives_ofOutcome h)

theorem takes_require {condition : Bool} (v : Violation) (h : condition = true) :
    Takes (require condition v) s () s :=
  takes_lift (Run.gives_require v h)

theorem takes_focus {part : σ → τ} {put : σ → τ → σ} {x : Action τ α} {q : τ}
    (h : x.Takes (part s) a q) : Takes (focus part put x) s a (put s q) := by
  intro session sound
  obtain ⟨session', sound', run⟩ := h session sound
  exact ⟨session', sound', by simp only [focus, run]⟩

theorem takes_logged {x : Action σ α} (event : σ → Event) (h : x.Takes s a t) :
    Takes (logged x event) s a t := by
  intro session sound
  obtain ⟨session', sound', run⟩ := h session sound
  exact ⟨session'.log (event t), sound', by simp only [logged, run]⟩

theorem gives_on {x : Action σ α} (h : x.Takes s a t) : Run.Gives (on s x) (a, t) := by
  intro session sound
  obtain ⟨session', sound', run⟩ := h session sound
  exact ⟨session', sound', by simp only [on, run]⟩

theorem Takes.unique {x : Action σ α} {a' : α} {t' : σ} (h : x.Takes s a t)
    (h' : x.Takes s a' t') : a = a' ∧ t = t' := by
  obtain ⟨session, -, run⟩ := h (.start none) rfl
  obtain ⟨session', -, run'⟩ := h' (.start none) rfl
  cases run.symm.trans run'
  exact ⟨rfl, rfl⟩

/-! ## What an action that returns has passed -/

theorem Takes.of_object {f : σ → Action σ β} (h : (object >>= f).Takes s b t) :
    (f s).Takes s b t := h

theorem Takes.of_outcome {x : Outcome α} {f : α → Action σ β}
    (h : (ofOutcome x >>= f).Takes s b t) : ∃ a, x = .ok a ∧ (f a).Takes s b t := by
  cases x with
  | ok a => exact ⟨a, rfl, h⟩
  | error e =>
    obtain ⟨session, -, run⟩ := h (.start none) rfl
    cases run

theorem Takes.of_require {condition : Bool} {v : Violation} {f : Unit → Action σ β}
    (h : (require condition v >>= f).Takes s b t) : condition = true ∧ (f ()).Takes s b t := by
  obtain ⟨_, held, rest⟩ := Takes.of_outcome (x := Outcome.require condition v) h
  exact ⟨Outcome.of_require held, rest⟩

theorem Takes.of_focus {part : σ → τ} {put : σ → τ → σ} {x : Action τ α}
    (law : ∀ s q, part (put s q) = q) (h : (focus part put x).Takes s a t) :
    x.Takes (part s) a (part t) := by
  intro session sound
  obtain ⟨session', sound', run⟩ := h session sound
  unfold focus at run
  dsimp only at run
  split at run
  case h_1 same =>
    cases run
    exact ⟨_, sound', by rw [same, law]⟩
  case h_2 => cases run

theorem Takes.of_logged {x : Action σ α} {event : σ → Event} (h : (logged x event).Takes s a t) :
    x.Takes s a t := by
  intro session sound
  obtain ⟨session', sound', run⟩ := h session sound
  unfold logged at run
  split at run
  case h_1 inner _ same =>
    cases run
    exact ⟨inner, sound', same⟩
  case h_2 => cases run
  case h_3 => cases run

end Action

end TokenSearch
