import TokenSearch.Proofs.Faultless

/-!
Runs in any session, whatever was called in it before and whichever fault is planned. `x.Returns a`
says that some session lets `x` return `a`, and `x.Returns s a t` that it lets `x` also turn the
object `s` into `t`. `x.Attempts c s t` says that `x` makes the call `c`
only: where it fails, `x` returns its error and leaves the object `s`, and otherwise `s` becomes
`t`. `x.Keeps P` says that what `x` leaves still has the property `P`, also where `x` does not
return.
-/

namespace TokenSearch

variable {σ τ α β : Type}

/-! ## Two programs in sequence -/

section Bind

variable {ρ : Type} {x : EStateM Failure ρ α} {f : α → EStateM Failure ρ β} {s s' : ρ} {a : α}
  {b : β} {e : Failure}

theorem bind_of_ok (h : x s = .ok a s') : (x >>= f) s = f a s' := by
  show EStateM.bind x f s = _
  rw [EStateM.bind, h]

theorem bind_of_error (h : x s = .error e s') : (x >>= f) s = .error e s' := by
  show EStateM.bind x f s = _
  rw [EStateM.bind, h]

theorem of_bind_ok (h : (x >>= f) s = .ok b s') :
    ∃ a t, x s = .ok a t ∧ f a t = .ok b s' := by
  cases first : x s with
  | ok a t => exact ⟨a, t, rfl, (bind_of_ok first).symm.trans h⟩
  | error e t => cases (bind_of_error first).symm.trans h

theorem of_bind_error (h : (x >>= f) s = .error e s') :
    x s = .error e s' ∨ ∃ a t, x s = .ok a t ∧ f a t = .error e s' := by
  cases first : x s with
  | ok a t => exact .inr ⟨a, t, rfl, (bind_of_ok first).symm.trans h⟩
  | error e' t =>
    cases (bind_of_error first).symm.trans h
    exact .inl rfl

end Bind

theorem Outcome.of_bind {x : Outcome α} {f : α → Outcome β} {b : β} (h : x >>= f = .ok b) :
    ∃ a, x = .ok a ∧ f a = .ok b := by
  cases x with
  | ok a => exact ⟨a, rfl, h⟩
  | error e => cases h

namespace Run

def Returns (x : Run α) (a : α) : Prop := ∃ s s', x s = .ok a s'

theorem Returns.of_bind {x : Run α} {f : α → Run β} {b : β} (h : (x >>= f).Returns b) :
    ∃ a, x.Returns a ∧ (f a).Returns b := by
  obtain ⟨s, s'', run⟩ := h
  obtain ⟨a, s', first, rest⟩ := of_bind_ok run
  exact ⟨a, ⟨s, s', first⟩, s', s'', rest⟩

theorem Returns.of_outcome {x : Outcome α} {a : α} (h : (ofOutcome x).Returns a) : x = .ok a := by
  obtain ⟨s, s', run⟩ := h
  cases x with
  | ok a' =>
    cases run
    rfl
  | error f => cases run

theorem Returns.of_require {condition : Bool} {v : Violation} {a : Unit}
    (h : (require condition v).Returns a) : condition = true :=
  Outcome.of_require h.of_outcome

theorem Returns.of_pure {a b : α} (h : Returns (pure a) b) : a = b := by
  obtain ⟨s, s', run⟩ := h
  cases run
  rfl

theorem Returns.of_map {x : Run α} {f : α → β} {b : β} (h : (f <$> x).Returns b) :
    ∃ a, x.Returns a ∧ f a = b := by
  rw [map_eq_pure_bind] at h
  obtain ⟨a, ran, rest⟩ := h.of_bind
  exact ⟨a, ran, rest.of_pure⟩

end Run

namespace Action

theorem lift_of_ok {x : Run α} {session session' : Session} {a : α} (h : x session = .ok a session')
    (s : σ) : lift x (session, s) = .ok a (session', s) := by
  simp only [lift, h]

theorem lift_of_error {x : Run α} {session session' : Session} {f : Failure}
    (h : x session = .error f session') (s : σ) : lift x (session, s) = .error f (session', s) := by
  simp only [lift, h]

theorem ofOutcome_of_ok {x : Outcome α} {a : α} (h : x = .ok a) (s : Session × σ) :
    ofOutcome x s = .ok a s := by
  subst h
  rfl

theorem require_of_true {condition : Bool} (v : Violation) (h : condition = true)
    (s : Session × σ) : require condition v s = .ok () s :=
  ofOutcome_of_ok (Outcome.require_eq_ok v h) s

theorem focus_of_ok {part : σ → τ} {put : σ → τ → σ} {x : Action τ α} {session session' : Session}
    {s : σ} {a : α} {q : τ} (h : x (session, part s) = .ok a (session', q)) :
    focus part put x (session, s) = .ok a (session', put s q) := by
  simp only [focus, h]

theorem focus_of_error {part : σ → τ} {put : σ → τ → σ} {x : Action τ α}
    {session session' : Session} {s : σ} {f : Failure} {q : τ}
    (h : x (session, part s) = .error f (session', q)) :
    focus part put x (session, s) = .error f (session', put s q) := by
  simp only [focus, h]

theorem ofOutcome_bind (x : Outcome α) (f : α → Action σ β) (s : Session × σ) :
    (∃ e, (ofOutcome x >>= f) s = .error e s) ∨ ∃ a, x = .ok a ∧ (ofOutcome x >>= f) s = f a s := by
  cases x with
  | ok a => exact .inr ⟨a, rfl, rfl⟩
  | error e => exact .inl ⟨e, rfl⟩

theorem call_bind (c : Call) (f : Unit → Action σ β) (session : Session) (s : σ) :
    (∃ e, (call c >>= f) (session, s) = .error e (session.record c, s)) ∨
      (call c >>= f) (session, s) = f () (session.record c, s) := by
  cases planned : session.fails c with
  | none => exact .inr (bind_of_ok (lift_of_ok (by simp only [Run.call, planned]) s))
  | some fault =>
    have failed : Run.call c session =
        .error (.error (.device fault.message)) (session.record c) := by
      simp only [Run.call, planned]
    exact .inl ⟨_, bind_of_error (lift_of_error failed s)⟩

/-! ## Actions that return -/

/-- Some session lets `x` return `a` and turn `s` into `t`. -/
def Returns (x : Action σ α) (s : σ) (a : α) (t : σ) : Prop :=
  ∃ session session', x (session, s) = .ok a (session', t)

namespace Returns

variable {s t : σ} {a : α} {b : β} {f : α → Action σ β}

theorem of_bind {x : Action σ α} (h : Returns (x >>= f) s b t) :
    ∃ a u, Returns x s a u ∧ Returns (f a) u b t := by
  obtain ⟨session, session', run⟩ := h
  obtain ⟨a, ⟨middle, u⟩, first, rest⟩ := of_bind_ok run
  exact ⟨a, u, ⟨session, middle, first⟩, middle, session', rest⟩

theorem of_pure {a' : α} (h : Returns (pure a) s a' t) : a' = a ∧ t = s := by
  obtain ⟨session, session', run⟩ := h
  cases run
  exact ⟨rfl, rfl⟩

theorem of_object {f : σ → Action σ β} (h : Returns (object >>= f) s b t) :
    Returns (f s) s b t := h

theorem of_update {g : σ → σ} {f : Unit → Action σ β} (h : Returns (update g >>= f) s b t) :
    Returns (f ()) (g s) b t := h

theorem of_lift {x : Run α} (h : Returns (lift x >>= f) s b t) :
    ∃ a, x.Returns a ∧ Returns (f a) s b t := by
  obtain ⟨a, u, ⟨session, session', run⟩, rest⟩ := h.of_bind
  cases first : x session with
  | ok a' middle =>
    cases (lift_of_ok first s).symm.trans run
    exact ⟨a, ⟨_, _, first⟩, rest⟩
  | error e middle => cases (lift_of_error first s).symm.trans run

theorem of_outcome {x : Outcome α} (h : Returns (ofOutcome x >>= f) s b t) :
    ∃ a, x = .ok a ∧ Returns (f a) s b t := by
  obtain ⟨a, given, rest⟩ := h.of_lift
  exact ⟨a, given.of_outcome, rest⟩

theorem of_require {condition : Bool} {v : Violation} {f : Unit → Action σ β}
    (h : Returns (require condition v >>= f) s b t) : condition = true ∧ Returns (f ()) s b t := by
  obtain ⟨_, held, rest⟩ := of_outcome (x := Outcome.require condition v) h
  exact ⟨Outcome.of_require held, rest⟩

theorem of_emit {event : Event} {a : Unit} (h : Returns (emit event) s a t) : t = s := by
  obtain ⟨session, session', run⟩ := h
  cases run
  rfl

theorem of_focus {part : σ → τ} {put : σ → τ → σ} {x : Action τ α}
    (h : Returns (focus part put x) s a t) : ∃ q, Returns x (part s) a q ∧ t = put s q := by
  obtain ⟨session, session', run⟩ := h
  cases inner : x (session, part s) with
  | ok a' q =>
    cases (focus_of_ok inner).symm.trans run
    exact ⟨q.2, ⟨_, _, inner⟩, rfl⟩
  | error e q => cases (focus_of_error inner).symm.trans run

end Returns

theorem Takes.returns {x : Action σ α} {s t : σ} {a : α} (h : x.Takes s a t) : x.Returns s a t := by
  obtain ⟨session, -, run⟩ := h (.start none) rfl
  exact ⟨_, session, run⟩

/-! ## One call -/

def attempt (c : Call) (session : Session) (s t : σ) :
    EStateM.Result Failure (Session × σ) Unit :=
  match session.fails c with
  | some fault => .error (.error (.device fault.message)) (session.record c, s)
  | none => .ok () (session.record c, t)

def Attempts (x : Action σ Unit) (c : Call) (s t : σ) : Prop :=
  ∀ session, x (session, s) = attempt c session s t

variable {s t : σ} {c : Call}

theorem attempts_call {x : Outcome α} {a : α} (h : x = .ok a) (f : α → σ → σ) :
    Attempts (do call c; let a ← ofOutcome x; update (f a)) c s (f a s) := by
  subst h
  intro session
  show EStateM.bind (call c) _ (session, s) = _
  unfold EStateM.bind call lift Run.call attempt
  cases planned : session.fails c with
  | none =>
    simp only [planned]
    rfl
  | some fault => simp only [planned]

theorem attempts_object {f : σ → Action σ Unit} (h : (f s).Attempts c s t) :
    Attempts (object >>= f) c s t := h

theorem attempts_ofOutcome {x : Outcome α} {a : α} {f : α → Action σ Unit} (hx : x = .ok a)
    (h : (f a).Attempts c s t) : Attempts (ofOutcome x >>= f) c s t := by
  subst hx
  exact h

theorem Attempts.takes {x : Action σ Unit} (h : x.Attempts c s t) : x.Takes s () t := by
  intro session sound
  refine ⟨session.record c, sound, (h session).trans ?_⟩
  simp only [attempt, Session.fails, sound, Option.filter_none]

theorem Attempts.of_ok {x : Action σ Unit} {session session' : Session} {t' : σ}
    (h : x.Attempts c s t) (ran : x (session, s) = .ok () (session', t')) : t' = t := by
  rw [h session, attempt] at ran
  split at ran <;> cases ran
  rfl

theorem Attempts.of_error {x : Action σ Unit} {session session' : Session} {f : Failure} {t' : σ}
    (h : x.Attempts c s t) (ran : x (session, s) = .error f (session', t')) : t' = s := by
  rw [h session, attempt] at ran
  split at ran <;> cases ran
  rfl

/-! ## What is left -/

def left (x : Action σ α) (session : Session) (s : σ) : σ :=
  match x (session, s) with
  | .ok _ (_, s) => s
  | .error _ (_, s) => s

def Keeps (P : σ → Prop) (x : Action σ α) : Prop := ∀ session s, P s → P (x.left session s)

variable {P : σ → Prop}

theorem Keeps.bind {x : Action σ α} {f : α → Action σ β} (hx : x.Keeps P)
    (hf : ∀ a, (f a).Keeps P) : Keeps P (x >>= f) := by
  intro session s held
  have first := hx session s held
  have unfolded : (x >>= f) (session, s) = EStateM.bind x f (session, s) := rfl
  unfold left at first ⊢
  rw [unfolded, EStateM.bind]
  cases ran : x (session, s) with
  | ok a s' =>
    rw [ran] at first
    exact hf a s'.1 s'.2 first
  | error f s' =>
    rw [ran] at first
    exact first

theorem Keeps.of_returns {x : Action σ α} {a : α} {s t : σ} (h : x.Keeps P)
    (ran : x.Returns s a t) (held : P s) : P t := by
  obtain ⟨session, session', run⟩ := ran
  have kept := h session s held
  rwa [left, run] at kept

theorem keeps_pure (a : α) : Keeps P (pure a) := fun _ _ held => held

theorem keeps_object_bind {f : σ → Action σ α}
    (h : ∀ session s, P s → P ((f s).left session s)) : Keeps P (object >>= f) := h

@[simp] theorem left_object_bind (f : σ → Action σ α) (session : Session) (s : σ) :
    (object >>= f).left session s = (f s).left session s := rfl

@[simp] theorem left_focus {part : σ → τ} {put : σ → τ → σ} (x : Action τ α) (session : Session)
    (s : σ) : (focus part put x).left session s = put s (x.left session (part s)) := by
  unfold left focus
  cases ran : x (session, part s) <;> simp only [ran]

theorem keeps_object : Keeps P (object : Action σ σ) := fun _ _ held => held

theorem keeps_update {f : σ → σ} (h : ∀ s, P s → P (f s)) : Keeps P (update f) :=
  fun _ s held => h s held

theorem keeps_lift (x : Run α) : Keeps P (lift x) := by
  intro session s held
  unfold left lift
  cases ran : x session <;> simpa only [ran] using held

theorem keeps_emit (event : Event) : Keeps P (emit event) := keeps_lift _

theorem keeps_ofOutcome (x : Outcome α) : Keeps P (ofOutcome x) := keeps_lift _

theorem keeps_require (condition : Bool) (v : Violation) : Keeps P (require condition v) :=
  keeps_lift _

theorem keeps_ite {p : Prop} [Decidable p] {x y : Action σ α} (hx : x.Keeps P) (hy : y.Keeps P) :
    Keeps P (if p then x else y) := by
  split
  · exact hx
  · exact hy

theorem keeps_forM {list : List β} {f : β → Action σ Unit} (each : ∀ b, (f b).Keeps P) :
    Keeps P (list.forM f) := by
  induction list with
  | nil => exact keeps_pure ()
  | cons b rest ih => exact (each b).bind fun _ => ih

end Action

end TokenSearch
