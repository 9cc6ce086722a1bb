import TokenSearch.Proofs.AnySession
import TokenSearch.Ranking

/-!
What an action on an element reads, and what it offers to the pool with it. An action that offers
a list of sequences, each extended by a token, reads their slots in that order. Where every read
succeeds it does all that it should, and where one fails the ones before it have been offered and
nothing else has happened to the pool or to the status.
-/

namespace TokenSearch

open TokenSearch.Run TokenSearch.Action

structure Offer where
  slot : Nat
  token : Token
  sum : Binary32
deriving DecidableEq, Repr

namespace SequenceView

variable {view : SequenceView} {s t u : Session} {slots slots' : List Nat}

/-- Reading these slots, one after another, succeeds. Events may be logged in between. -/
inductive Reads (view : SequenceView) : Session → List Nat → Session → Prop
  | done (s : Session) : Reads view s [] s
  | log {s t : Session} {slots : List Nat} (event : Event) :
    Reads view (s.log event) slots t → Reads view s slots t
  | read {s s' t : Session} {i : Nat} {slots : List Nat} {tokens : List Token} :
    view.read i s = .ok tokens s' → Reads view s' slots t → Reads view s (i :: slots) t

theorem Reads.append (first : view.Reads s slots t) (second : view.Reads t slots' u) :
    view.Reads s (slots ++ slots') u := by
  induction first with
  | done => exact second
  | log event _ ih => exact .log event (ih second)
  | read ran _ ih => exact .read ran (ih second)

def Knows (view : SequenceView) (known : Nat → List Token) (P : Session → Prop) (i : Nat) : Prop :=
  ∀ s tokens t, P s → view.read i s = .ok tokens t → tokens = known i ∧ P t

end SequenceView

namespace Element

def take (known : Nat → List Token) (e : Element) (o : Offer) : Element :=
  e.offer (known o.slot ++ [o.token]) o.sum

theorem pool_foldl_take_congr (known : Nat → List Token) (offers : List Offer) {e e' : Element}
    (same : e.pool = e'.pool) :
    (offers.foldl (take known) e).pool = (offers.foldl (take known) e').pool := by
  induction offers generalizing e e' with
  | nil => exact same
  | cons o rest ih =>
    refine ih ?_
    simp only [take, offer, same]

structure Stopped (view : SequenceView) (known : Nat → List Token) (P : Session → Prop)
    (s : Session) (e : Element) (before : List Offer) (o : Offer) (f : Failure) (t : Session)
    (left : Element) : Prop where
  reads : ∃ s', P s' ∧ view.Reads s (before.map (·.slot)) s' ∧ view.read o.slot s' = .error f t
  status : left.status = e.status
  pool : left.pool = (before.foldl (take known) e).pool

/-- From the sessions of `P`, the action takes these offers in their order, returns `a` and turns
`e` into `e'`, or a read that it needs for one of them fails. -/
structure Offers {α : Type} (view : SequenceView) (known : Nat → List Token) (P : Session → Prop)
    (x : Action Element α) (e : Element) (offers : List Offer) (a : α) (e' : Element) : Prop where
  pool : e'.pool = (offers.foldl (take known) e).pool
  runs : ∀ s, P s →
    (∃ t, P t ∧ view.Reads s (offers.map (·.slot)) t ∧ x (s, e) = .ok a (t, e')) ∨
    ∃ before o after f t left, offers = before ++ o :: after ∧
      Stopped view known P s e before o f t left ∧ x (s, e) = .error f (t, left)

section Offers

variable {α β : Type} {view : SequenceView} {known : Nat → List Token} {P : Session → Prop}
  {e e' e'' : Element} {offers offers' : List Offer} {a : α} {b : β}

theorem offers_pure (a : α) (e : Element) : Offers view known P (pure a) e [] a e where
  pool := rfl
  runs s held := .inl ⟨s, held, .done s, rfl⟩

theorem offers_emit (logs : ∀ s event, P s → P (s.log event)) (event : Event) (e : Element) :
    Offers view known P (emit event) e [] () e where
  pool := rfl
  runs s held := .inl ⟨_, logs s event held, .log event (.done _), rfl⟩

theorem offers_object {f : Element → Action Element β}
    (rest : Offers view known P (f e) e offers b e') :
    Offers view known P (object >>= f) e offers b e' :=
  ⟨rest.pool, rest.runs⟩

theorem offers_outcome {x : Outcome α} {f : α → Action Element β} (h : x = .ok a)
    (rest : Offers view known P (f a) e offers b e') :
    Offers view known P (ofOutcome x >>= f) e offers b e' := by
  subst h
  exact rest

theorem offers_update {g : Element → Element} {f : Unit → Action Element β}
    (pool : (g e).pool = e.pool) (rest : Offers view known P (f ()) (g e) offers b e')
    (status : offers = [] ∨ (g e).status = e.status) :
    Offers view known P (update g >>= f) e offers b e' where
  pool := rest.pool.trans (pool_foldl_take_congr known offers pool)
  runs s held := by
    refine (rest.runs s held).imp_right ?_
    rintro ⟨before, o, after, f, t, left, rfl, stopped, ran⟩
    refine ⟨before, o, after, f, t, left, rfl, ⟨stopped.reads, ?_, ?_⟩, ran⟩
    · rcases status with none | same
      · simp at none
      · exact stopped.status.trans same
    · exact stopped.pool.trans (pool_foldl_take_congr known before pool)

theorem offers_read {o : Offer} {y : Action Element β} (knows : view.Knows known P o.slot)
    (rest : Offers view known P y (e.take known o) offers b e') :
    Offers view known P (do
      let tokens ← lift (view.read o.slot)
      update (·.offer (tokens ++ [o.token]) o.sum)
      y) e (o :: offers) b e' where
  pool := rest.pool
  runs s held := by
    cases read : view.read o.slot s with
    | error failure t =>
      exact .inr ⟨[], o, offers, failure, t, e, rfl, ⟨⟨s, held, .done s, read⟩, rfl, rfl⟩,
        bind_of_error (lift_of_error read e)⟩
    | ok tokens s' =>
      obtain ⟨rfl, held'⟩ := knows s tokens s' held read
      refine (rest.runs s' held').imp ?_ ?_
      · rintro ⟨t, later, reads, ran⟩
        exact ⟨t, later, .read read reads, (bind_of_ok (lift_of_ok read e)).trans ran⟩
      · rintro ⟨before, o', after, failure, t, left, rfl, stopped, ran⟩
        obtain ⟨u, there, reads, failed⟩ := stopped.reads
        exact ⟨o :: before, o', after, failure, t, left, rfl,
          ⟨⟨u, there, .read read reads, failed⟩, stopped.status, stopped.pool⟩,
          (bind_of_ok (lift_of_ok read e)).trans ran⟩

theorem Offers.bind {x : Action Element α} {f : α → Action Element β}
    (first : Offers view known P x e offers a e') (status : e'.status = e.status)
    (rest : Offers view known P (f a) e' offers' b e'') :
    Offers view known P (x >>= f) e (offers ++ offers') b e'' where
  pool := by
    rw [List.foldl_append, rest.pool]
    exact pool_foldl_take_congr known offers' first.pool
  runs s held := by
    rcases first.runs s held with ⟨t, later, reads, ran⟩ |
      ⟨before, o, after, failure, t, left, rfl, stopped, ran⟩
    case inr =>
      exact .inr ⟨before, o, after ++ offers', failure, t, left, by simp, stopped,
        bind_of_error ran⟩
    refine (rest.runs t later).imp ?_ ?_
    · rintro ⟨u, last, reads', ran'⟩
      exact ⟨u, last, by rw [List.map_append]; exact reads.append reads',
        (bind_of_ok ran).trans ran'⟩
    · rintro ⟨before, o, after, failure, u, left, rfl, stopped, ran'⟩
      obtain ⟨s', there, reads', failed⟩ := stopped.reads
      refine ⟨offers ++ before, o, after, failure, u, left, by simp,
        ⟨⟨s', there, by rw [List.map_append]; exact reads.append reads', failed⟩,
          stopped.status.trans status, ?_⟩, (bind_of_ok ran).trans ran'⟩
      rw [List.foldl_append, stopped.pool]
      exact pool_foldl_take_congr known before first.pool

theorem Offers.takes {x : Action Element α}
    (h : Offers view known (fun s => s.fault = none) x e offers a e')
    (reads : ∀ o ∈ offers, (view.read o.slot).Gives (known o.slot)) : x.Takes e a e' := by
  intro s sound
  rcases h.runs s sound with ⟨t, sound', -, ran⟩ | ⟨before, o, after, f, t, left, rfl, stopped, -⟩
  · exact ⟨t, sound', ran⟩
  · obtain ⟨s', sound', -, failed⟩ := stopped.reads
    obtain ⟨_, -, ran⟩ := reads o (by simp) s' sound'
    cases failed.symm.trans ran

theorem knows_of_gives {i : Nat} (reads : (view.read i).Gives (known i)) :
    view.Knows known (fun s => s.fault = none) i := by
  intro s tokens t sound ran
  obtain ⟨s', sound', given⟩ := reads s sound
  cases given.symm.trans ran
  exact ⟨rfl, sound'⟩

end Offers

end Element

end TokenSearch
