import Mathlib.Data.List.Basic
import TokenSearch.Proofs.Beam.Offers
import TokenSearch.Proofs.Rows

/-!
One step of a batch element as a function of its candidates. The walk over them comes to two
filters: the ones that end a sequence, among the first `numBeams`, are retired in their order,
and the first `numBeams` of the others are the next live beams. Whatever the candidates are, no
read leaves the sequences as long as their beams lie within the element.
-/

namespace TokenSearch

open TokenSearch.Run TokenSearch.Action

namespace Candidate

def slot (base : Nat) (c : Candidate) : Nat := base + Token.toIndex c.beam

def toBeam (base : Nat) (c : Candidate) : Beam := ⟨c.score, c.token, Token.ofIndex (c.slot base)⟩

def toOffer (base : Nat) (c : Candidate) : Offer := ⟨c.slot base, c.token, c.score⟩

@[simp] theorem source_toBeam (base : Nat) (c : Candidate) :
    (c.toBeam base).source = Token.ofIndex (c.slot base) := by
  simp only [toBeam]

def going (eosToken : Token) (cs : List Candidate) : List Candidate :=
  cs.filter (·.token ≠ eosToken)

def ended (eosToken : Token) (cs : List Candidate) : List Candidate :=
  cs.filter (·.token = eosToken)

section

variable {eosToken : Token} {c : Candidate} (cs : List Candidate)

theorem going_cons_of_eos (h : c.token = eosToken) :
    going eosToken (c :: cs) = going eosToken cs := by
  simp [going, h]

theorem going_cons_of_ne (h : c.token ≠ eosToken) :
    going eosToken (c :: cs) = c :: going eosToken cs := by
  simp [going, h]

theorem ended_cons_of_eos (h : c.token = eosToken) :
    ended eosToken (c :: cs) = c :: ended eosToken cs := by
  simp [ended, h]

theorem ended_cons_of_ne (h : c.token ≠ eosToken) :
    ended eosToken (c :: cs) = ended eosToken cs := by
  simp [ended, h]

theorem ended_take_cons_of_ne (h : c.token ≠ eosToken) (n rank : Nat) :
    ended eosToken ((c :: cs).take (n - rank)) = ended eosToken (cs.take (n - (rank + 1))) := by
  by_cases strong : rank < n
  · have step : n - rank = n - (rank + 1) + 1 := by omega
    rw [step, List.take_succ_cons, ended_cons_of_ne _ h]
  · have here : n - rank = 0 := by omega
    have later : n - (rank + 1) = 0 := by omega
    rw [here, later, List.take_zero, List.take_zero]

end

end Candidate

def Beam.toOffer (b : Beam) : Offer := ⟨Token.toIndex b.source, b.token, b.score⟩

namespace Element

open Candidate

def retire (read : Nat → List Token) (base : Nat) (e : Element) (c : Candidate) : Element :=
  e.offer (read (c.slot base) ++ [c.token]) c.score

def offerBeam (read : Nat → List Token) (e : Element) (b : Beam) : Element :=
  e.offer (read (Token.toIndex b.source) ++ [b.token]) b.score

def setBeams (e : Element) (i : Nat) (beams : List Beam) : Element :=
  { e with
    beams := (e.beams.toList.take i ++ beams ++ e.beams.toList.drop (i + beams.length)).toArray }

@[simp] theorem setBeams_nil (e : Element) (i : Nat) : e.setBeams i [] = e := by
  simp [setBeams]

theorem setBeams_setBeam {e : Element} {i : Nat} (b : Beam) (beams : List Beam)
    (h : i < e.beams.size) : (e.setBeam i b).setBeams (i + 1) beams = e.setBeams i (b :: beams) := by
  have before : (e.beams.toList.set i b).take (i + 1) = e.beams.toList.take i ++ [b] := by
    rw [List.take_add_one, List.take_set_of_le (Nat.le_refl i)]
    simp [h]
  have behind : (e.beams.toList.set i b).drop (i + 1 + beams.length) =
      e.beams.toList.drop (i + (b :: beams).length) := by
    rw [List.drop_set_of_lt (by omega), List.length_cons]
    congr 1
    omega
  simp only [setBeams, setBeam, Array.set!_eq_setIfInBounds, Array.toList_setIfInBounds, before,
    behind, List.append_assoc, List.singleton_append]

theorem retire_setBeam (read : Nat → List Token) (base i : Nat) (b : Beam) (e : Element)
    (c : Candidate) : (e.setBeam i b).retire read base c = (e.retire read base c).setBeam i b := rfl

theorem foldl_retire_setBeam (read : Nat → List Token) (base i : Nat) (b : Beam) (e : Element)
    (cs : List Candidate) :
    cs.foldl (retire read base) (e.setBeam i b) = (cs.foldl (retire read base) e).setBeam i b := by
  induction cs generalizing e with
  | nil => rfl
  | cons c rest ih => rw [List.foldl_cons, List.foldl_cons, retire_setBeam, ih]

@[simp] theorem beams_foldl_retire (read : Nat → List Token) (base : Nat) (e : Element)
    (cs : List Candidate) : (cs.foldl (retire read base) e).beams = e.beams := by
  induction cs generalizing e with
  | nil => rfl
  | cons c rest ih => exact ih (e.retire read base c)

@[simp] theorem status_foldl_retire (read : Nat → List Token) (base : Nat) (e : Element)
    (cs : List Candidate) : (cs.foldl (retire read base) e).status = e.status := by
  induction cs generalizing e with
  | nil => rfl
  | cons c rest ih => exact ih (e.retire read base c)

@[simp] theorem status_foldl_offerBeam (read : Nat → List Token) (e : Element) (beams : List Beam) :
    (beams.foldl (offerBeam read) e).status = e.status := by
  induction beams generalizing e with
  | nil => rfl
  | cons b rest ih => exact ih (e.offerBeam read b)

section Walk

variable {numBeams base : Nat} {eosToken : Token} {view : SequenceView} {read : Nat → List Token}
  {P : Session → Prop}

theorem offers_walk {cs : List Candidate} (small : ∀ c ∈ cs, c.slot base < 2 ^ 64)
    {rank chosen retired : Nat} {e : Element}
    (knows : ∀ c ∈ ended eosToken (cs.take (numBeams - rank)), view.Knows read P (c.slot base))
    (free : chosen < numBeams) (late : chosen ≤ rank) (size : e.beams.size = numBeams) :
    Offers view read P (walk numBeams eosToken view base rank chosen retired cs) e
      ((ended eosToken (cs.take (numBeams - rank))).map (toOffer base))
      (min numBeams (chosen + (going eosToken cs).length),
        retired + (ended eosToken (cs.take (numBeams - rank))).length)
      (((ended eosToken (cs.take (numBeams - rank))).foldl (retire read base) e).setBeams chosen
        (((going eosToken cs).take (numBeams - chosen)).map (toBeam base))) := by
  induction cs generalizing rank chosen retired e with
  | nil =>
    have none : min numBeams chosen = chosen := by omega
    simp only [going, ended, List.filter_nil, List.take_nil, List.length_nil, List.foldl_nil,
      List.map_nil, setBeams_nil, Nat.add_zero, none]
    exact offers_pure _ _
  | cons c rest ih =>
    have small' : ∀ c ∈ rest, c.slot base < 2 ^ 64 := fun c h => small c (List.mem_cons_of_mem _ h)
    unfold walk
    refine offers_outcome (Outcome.size_of_lt (small c List.mem_cons_self)) ?_
    by_cases eos : c.token = eosToken
    · rw [if_pos eos, going_cons_of_eos rest eos]
      -- No end candidate is retired from rank `numBeams` on, however few beams are filled yet.
      by_cases weak : numBeams ≤ rank
      · have last : numBeams - rank = numBeams - (rank + 1) := by omega
        have first : numBeams - (rank + 1) = 0 := by omega
        rw [last, first, List.take_zero] at knows
        rw [if_pos weak, last, first, List.take_zero]
        have late' : chosen ≤ rank + 1 := Nat.le_succ_of_le late
        simpa only [first, List.take_zero] using
          ih small' (by rwa [first, List.take_zero]) free late' size
      · have step : numBeams - rank = numBeams - (rank + 1) + 1 := by omega
        rw [step, List.take_succ_cons, ended_cons_of_eos _ eos] at knows
        rw [if_neg weak, step, List.take_succ_cons, ended_cons_of_eos _ eos, List.foldl_cons,
          List.length_cons, ← Nat.add_assoc, Nat.add_right_comm, List.map_cons]
        exact offers_read (o := c.toOffer base) (knows c List.mem_cons_self) <|
          ih small' (fun d hd => knows d (List.mem_cons_of_mem _ hd)) free
            (Nat.le_succ_of_le late) size
    · rw [ended_take_cons_of_ne rest eos] at knows
      rw [if_neg eos, going_cons_of_ne rest eos, ended_take_cons_of_ne rest eos, List.length_cons]
      refine offers_update rfl ?_ (.inr rfl)
      change Offers view read P _ (e.setBeam chosen (c.toBeam base)) _ _ _
      by_cases last : chosen + 1 = numBeams
      · have none : numBeams - (rank + 1) = 0 := by omega
        have one : numBeams - chosen = 1 := by omega
        have full : min numBeams (chosen + ((going eosToken rest).length + 1)) = chosen + 1 := by
          omega
        rw [if_pos last, none, one, full, List.take_zero, List.take_one]
        have final := setBeams_setBeam (c.toBeam base) [] (size ▸ free)
        rw [setBeams_nil] at final
        rw [final]
        exact offers_pure _ _
      · have step : numBeams - chosen = numBeams - (chosen + 1) + 1 := by omega
        rw [if_neg last, step, List.take_succ_cons, List.map_cons,
          ← setBeams_setBeam _ _ (by rw [beams_foldl_retire, size]; exact free),
          ← foldl_retire_setBeam, ← Nat.add_assoc, Nat.add_right_comm]
        exact ih small' knows (by omega) (Nat.succ_le_succ late) (by simpa [setBeam] using size)

theorem offers_offerBeams {list : List Nat} {e : Element}
    (knows : ∀ o ∈ (list.map (e.beams[·]!)).map Beam.toOffer, view.Knows read P o.slot) :
    Offers view read P (offerBeams view list) e ((list.map (e.beams[·]!)).map Beam.toOffer) ()
      ((list.map (e.beams[·]!)).foldl (offerBeam read) e) := by
  induction list generalizing e with
  | nil => exact offers_pure _ _
  | cons i rest ih =>
    exact offers_object <| offers_read (o := e.beams[i]!.toOffer) (knows _ List.mem_cons_self) <|
      ih fun o ho => knows o (List.mem_cons_of_mem _ ho)

variable {slots : Nat} (reads : ∀ i < slots, (view.read i).Gives (read i)) (small : slots < 2 ^ 64)

include reads small

theorem takes_walk {cs : List Candidate} (inside : ∀ c ∈ cs, c.slot base < slots)
    {rank chosen retired : Nat} {e : Element} (free : chosen < numBeams) (late : chosen ≤ rank)
    (size : e.beams.size = numBeams) :
    (walk numBeams eosToken view base rank chosen retired cs).Takes e
      (min numBeams (chosen + (going eosToken cs).length),
        retired + (ended eosToken (cs.take (numBeams - rank))).length)
      (((ended eosToken (cs.take (numBeams - rank))).foldl (retire read base) e).setBeams chosen
        (((going eosToken cs).take (numBeams - chosen)).map (toBeam base))) := by
  have given : ∀ c ∈ ended eosToken (cs.take (numBeams - rank)),
      (view.read (c.slot base)).Gives (read (c.slot base)) := fun c hc =>
    reads _ (inside c (List.mem_of_mem_take (List.mem_of_mem_filter hc)))
  refine (offers_walk (fun c hc => Nat.lt_trans (inside c hc) small)
    (fun c hc => knows_of_gives (given c hc)) free late size).takes ?_
  simpa [toOffer] using given

end Walk

/-! ## The whole step -/

def chosen (numBeams : Nat) (eosToken : Token) (index : Nat) (cs : List Candidate) : List Beam :=
  ((going eosToken cs).take numBeams).map (toBeam (index * numBeams))

section Chosen

variable {numBeams index : Nat} {eosToken : Token} {cs : List Candidate}

@[simp] theorem length_chosen : (chosen numBeams eosToken index cs).length =
    min numBeams (going eosToken cs).length := by
  rw [chosen, List.length_map, List.length_take]

theorem mem_chosen {b : Beam} (h : b ∈ chosen numBeams eosToken index cs) :
    ∃ d ∈ cs, d.token ≠ eosToken ∧ b = d.toBeam (index * numBeams) := by
  obtain ⟨d, hd, rfl⟩ := List.mem_map.1 h
  have kept := List.mem_filter.1 (List.mem_of_mem_take hd)
  exact ⟨d, kept.1, by simpa using kept.2, rfl⟩

end Chosen

def stepped (numBeams : Nat) (eosToken padToken : Token) (read : Nat → List Token)
    (length index : Nat) (cs : List Candidate) (e : Element) : Element :=
  let base := index * numBeams
  if e.status.isDone then e.idle padToken base
  else
    let retired := (ended eosToken (cs.take numBeams)).foldl (retire read base) e
    let beams := chosen numBeams eosToken index cs
    if numBeams ≤ (going eosToken cs).length then
      { status :=
          if retired.pool.isComplete beams[0]!.score (length + 1) then .done .completed
          else e.status
        pool := retired.pool
        beams := beams.toArray }
    else
      (beams.foldl (offerBeam read) (retired.setBeams 0 beams)).exhaust padToken base beams.length

theorem beams_setBeams_of_length {e : Element} {beams : List Beam}
    (full : e.beams.size ≤ beams.length) : (e.setBeams 0 beams).beams = beams.toArray := by
  have none : e.beams.toList.drop (0 + beams.length) = [] :=
    List.drop_eq_nil_of_le (by simpa using full)
  simp only [setBeams, none, List.take_zero, List.nil_append, List.append_nil]

theorem getElem!_setBeams {e : Element} {beams : List Beam} {i : Nat} (h : i < beams.length) :
    (e.setBeams 0 beams).beams[i]! = beams[i] := by
  have inside : i < (e.setBeams 0 beams).beams.size := by
    simp only [setBeams, List.size_toArray, List.take_zero, List.nil_append, List.length_append]
    omega
  rw [getElem!_pos _ i inside]
  simp only [setBeams, List.getElem_toArray, List.take_zero, List.nil_append]
  exact List.getElem_append_left h

theorem map_getElem!_setBeams (e : Element) (beams : List Beam) :
    (List.range beams.length).map ((e.setBeams 0 beams).beams[·]!) = beams := by
  refine List.ext_getElem (by simp) fun i hi hi' => ?_
  rw [List.getElem_map, List.getElem_range, getElem!_setBeams hi']

section Step

variable {numBeams index : Nat} {eosToken padToken : Token} {view : SequenceView}
  {read : Nat → List Token} {length : Nat} {cs : List Candidate} {e : Element}

/-- What a step offers: what ends a sequence at a rank below `numBeams`, and every beam that was
chosen if there are too few. -/
def hypotheses (numBeams : Nat) (eosToken : Token) (index : Nat) (cs : List Candidate)
    (e : Element) : List Offer :=
  if e.status.isDone then []
  else (ended eosToken (cs.take numBeams)).map (toOffer (index * numBeams)) ++
    if numBeams ≤ (going eosToken cs).length then []
    else (chosen numBeams eosToken index cs).map Beam.toOffer

variable {P : Session → Prop}

theorem slot_hypotheses_lt {slots : Nat} (small : slots ≤ 2 ^ 31)
    (inside : ∀ c ∈ cs, c.slot (index * numBeams) < slots) {o : Offer}
    (h : o ∈ e.hypotheses numBeams eosToken index cs) : o.slot < slots := by
  unfold hypotheses at h
  split at h
  · cases h
  rcases List.mem_append.1 h with h | h
  · obtain ⟨d, hd, rfl⟩ := List.mem_map.1 h
    exact inside d (List.mem_of_mem_take (List.mem_of_mem_filter hd))
  · split at h
    · cases h
    · obtain ⟨b, hb, rfl⟩ := List.mem_map.1 h
      obtain ⟨d, hd, -, rfl⟩ := mem_chosen hb
      rw [Beam.toOffer, source_toBeam,
        Token.toIndex_ofIndex (Nat.lt_of_lt_of_le (inside d hd) small)]
      exact inside d hd

theorem offers_step (logs : ∀ s event, P s → P (s.log event))
    (knows : ∀ o ∈ e.hypotheses numBeams eosToken index cs, view.Knows read P o.slot)
    (small : ∀ c ∈ cs, c.slot (index * numBeams) < 2 ^ 64)
    (some : e.status.isDone = false → 0 < numBeams) (size : e.beams.size = numBeams) :
    Offers view read P (step numBeams eosToken padToken view length index cs) e
      (e.hypotheses numBeams eosToken index cs) ()
      (e.stepped numBeams eosToken padToken read length index cs) := by
  unfold hypotheses at knows ⊢
  unfold step stepped
  refine offers_object ?_
  dsimp only
  by_cases done : e.status.isDone = true
  · rw [if_pos done, if_pos done, if_pos done]
    exact offers_update rfl (offers_pure () _) (.inl rfl)
  rw [if_neg done] at knows
  rw [if_neg done, if_neg done, if_neg done]
  replace some := some (Bool.eq_false_iff.2 done)
  have walked : Offers view read P (walk numBeams eosToken view (index * numBeams) 0 0 0 cs) e _ _ _ :=
    offers_walk small (fun c hc => knows _ (List.mem_append_left _ (List.mem_map_of_mem hc))) some
      (Nat.le_refl 0) size
  rw [Nat.sub_zero, Nat.zero_add, Nat.zero_add] at walked
  refine walked.bind (status_foldl_retire _ _ e _) ?_
  dsimp only
  generalize retired_eq : (ended eosToken (cs.take numBeams)).foldl
    (retire read (index * numBeams)) e = retired
  have walked_beams : ((going eosToken cs).take numBeams).map (toBeam (index * numBeams)) =
      chosen numBeams eosToken index cs := rfl
  rw [walked_beams]
  generalize beams_eq : chosen numBeams eosToken index cs = beams at knows
  have size' : retired.beams.size = numBeams := by simp [← retired_eq, size]
  have status : retired.status = e.status := by simp [← retired_eq]
  have count : beams.length = min numBeams (going eosToken cs).length := by
    simp [← beams_eq]
  by_cases enough : numBeams ≤ (going eosToken cs).length
  · have all : min numBeams (going eosToken cs).length = numBeams := Nat.min_eq_left enough
    have replaced : retired.setBeams 0 beams = { retired with beams := beams.toArray } := by
      rw [← beams_setBeams_of_length (e := retired) (by omega)]
      rfl
    rw [all, if_neg (Nat.lt_irrefl numBeams), if_pos enough, if_pos enough, replaced, ← status]
    refine offers_object <| offers_outcome (Outcome.require_eq_ok _ (by simp; omega)) ?_
    dsimp only
    rw [List.getElem!_toArray]
    by_cases complete : retired.pool.isComplete beams[0]!.score (length + 1) = true
    · rw [if_pos complete, if_pos complete]
      exact offers_update rfl (offers_emit logs _ _) (.inl rfl)
    · rw [if_neg complete, if_neg complete]
      split
      · exact offers_emit logs _ _
      · exact offers_pure _ _
  · have all : min numBeams (going eosToken cs).length = beams.length := count.symm
    rw [if_neg enough] at knows
    rw [all, if_pos (by omega), if_neg enough, if_neg enough]
    have all_beams := map_getElem!_setBeams retired beams
    have offered : Offers view read P (offerBeams view (List.range beams.length))
        (retired.setBeams 0 beams) _ () _ := offers_offerBeams <| all_beams.symm ▸ fun o ho =>
      knows o (List.mem_append_right _ ho)
    rw [all_beams] at offered
    rw [← List.append_nil (beams.map Beam.toOffer)]
    exact offered.bind (status_foldl_offerBeam read _ beams) <|
      offers_update rfl (offers_emit logs _ _) (.inl rfl)

theorem takes_step {slots : Nat} (reads : ∀ i < slots, (view.read i).Gives (read i))
    (small : slots ≤ 2 ^ 31) (inside : ∀ c ∈ cs, c.slot (index * numBeams) < slots) (some : 0 < numBeams)
    (size : e.beams.size = numBeams) :
    (step numBeams eosToken padToken view length index cs).Takes e ()
      (e.stepped numBeams eosToken padToken read length index cs) := by
  have given : ∀ o ∈ e.hypotheses numBeams eosToken index cs, (view.read o.slot).Gives (read o.slot) :=
    fun o ho => reads _ (slot_hypotheses_lt small inside ho)
  have fits : ∀ c ∈ cs, c.slot (index * numBeams) < 2 ^ 64 := fun c hc =>
    Nat.lt_of_lt_of_le (inside c hc) (Nat.le_trans small (by decide))
  exact (offers_step (fun _ _ sound => sound) (fun o ho => knows_of_gives (given o ho)) fits
    (fun _ => some) size).takes given

end Step

/-! ## What a step leaves -/

theorem beams_foldl_offerBeam (read : Nat → List Token) (e : Element) (beams : List Beam) :
    (beams.foldl (offerBeam read) e).beams = e.beams := by
  induction beams generalizing e with
  | nil => rfl
  | cons b rest ih => exact ih (offerBeam read e b)

section Stepped

variable {numBeams index : Nat} {eosToken padToken : Token} {read : Nat → List Token}
  {length : Nat} {cs : List Candidate} {e : Element}

theorem stepped_of_done (done : e.status.isDone = true) :
    e.stepped numBeams eosToken padToken read length index cs =
      e.idle padToken (index * numBeams) := by
  rw [stepped, if_pos done]

theorem stepped_of_enough (active : e.status.isDone = false)
    (enough : numBeams ≤ (going eosToken cs).length) :
    let retired := (ended eosToken (cs.take numBeams)).foldl (retire read (index * numBeams)) e
    let beams := chosen numBeams eosToken index cs
    e.stepped numBeams eosToken padToken read length index cs =
      { status :=
          if retired.pool.isComplete beams[0]!.score (length + 1) then .done .completed
          else e.status
        pool := retired.pool
        beams := beams.toArray } := by
  rw [stepped, if_neg (by simp [active])]
  exact if_pos enough

theorem stepped_of_few (active : e.status.isDone = false)
    (few : (going eosToken cs).length < numBeams) :
    let retired := (ended eosToken (cs.take numBeams)).foldl (retire read (index * numBeams)) e
    let beams := chosen numBeams eosToken index cs
    e.stepped numBeams eosToken padToken read length index cs =
      (beams.foldl (offerBeam read) (retired.setBeams 0 beams)).exhaust padToken
        (index * numBeams) beams.length := by
  rw [stepped, if_neg (by simp [active])]
  exact if_neg (Nat.not_le_of_lt few)

theorem getElem!_idle {base i : Nat} (h : i < e.beams.size) :
    (e.idle padToken base).beams[i]! = idleBeam padToken Binary32.zero (base + i) :=
  getElem!_mapIdx _ h

@[simp] theorem source_idleBeam (padToken : Token) (score : Binary32) (slot : Nat) :
    (idleBeam padToken score slot).source = Token.ofIndex slot := by
  simp only [idleBeam]

theorem beams_stepped (active : e.status.isDone = false) (size : e.beams.size = numBeams) {i : Nat}
    (h : i < numBeams) :
    (e.stepped numBeams eosToken padToken read length index cs).beams.size = numBeams ∧
      (e.stepped numBeams eosToken padToken read length index cs).beams[i]! =
        if i < (chosen numBeams eosToken index cs).length
        then (chosen numBeams eosToken index cs)[i]!
        else idleBeam padToken inactiveScore (index * numBeams + i) := by
  have count : (chosen numBeams eosToken index cs).length =
      min numBeams (going eosToken cs).length := by simp
  rcases Nat.lt_or_ge (going eosToken cs).length numBeams with few | enough
  case inr =>
    rw [stepped_of_enough active enough]
    generalize chosen numBeams eosToken index cs = beams at count
    have all : beams.length = numBeams := by omega
    exact ⟨all, List.getElem!_toArray.trans (if_pos (all ▸ h)).symm⟩
  case inl =>
    rw [stepped_of_few active few]
    generalize chosen numBeams eosToken index cs = beams at count
    generalize kept : (beams.foldl (offerBeam read) _ : Element) = f
    have same : f.beams = (setBeams ((ended eosToken (cs.take numBeams)).foldl
        (retire read (index * numBeams)) e) 0 beams).beams := by
      rw [← kept, beams_foldl_offerBeam]
    have size' : f.beams.size = numBeams := by
      rw [same]
      simp only [setBeams, List.take_zero, List.nil_append, List.size_toArray, List.length_append,
        List.length_drop, Array.length_toList, beams_foldl_retire, size]
      omega
    refine ⟨Array.size_mapIdx.trans size', (getElem!_mapIdx _ (size' ▸ h)).trans ?_⟩
    split
    case isTrue inside => rw [same, getElem!_setBeams inside, getElem!_pos beams i inside]
    case isFalse => rfl

theorem size_stepped (size : e.beams.size = numBeams) (some : 0 < numBeams) :
    (e.stepped numBeams eosToken padToken read length index cs).beams.size = numBeams := by
  cases done : e.status.isDone with
  | true =>
    rw [stepped_of_done done]
    exact Array.size_mapIdx.trans size
  | false => exact (beams_stepped done size some).1

theorem source_stepped (inside : ∀ d ∈ cs, Token.toIndex d.beam < numBeams)
    (size : e.beams.size = numBeams) {i : Nat} (h : i < numBeams) :
    ∃ j < numBeams,
      (e.stepped numBeams eosToken padToken read length index cs).beams[i]!.source =
        Token.ofIndex (index * numBeams + j) := by
  cases done : e.status.isDone with
  | true =>
    rw [stepped_of_done done, getElem!_idle (size ▸ h)]
    exact ⟨i, h, by simp⟩
  | false =>
    rw [(beams_stepped done size h).2]
    split
    case isTrue here =>
      rw [getElem!_pos _ i here]
      obtain ⟨d, hd, -, same⟩ := mem_chosen (List.getElem_mem here)
      rw [same]
      exact ⟨_, inside d hd, source_toBeam _ _⟩
    case isFalse => exact ⟨i, h, by simp⟩

theorem isDone_stepped (done : e.status.isDone = true) :
    (e.stepped numBeams eosToken padToken read length index cs).status = e.status := by
  rw [stepped_of_done done]
  rfl

theorem token_stepped_of_done (done : e.status.isDone = true) (size : e.beams.size = numBeams)
    {i : Nat} (h : i < numBeams) :
    (e.stepped numBeams eosToken padToken read length index cs).beams[i]!.token = padToken := by
  rw [stepped_of_done done, getElem!_idle (size ▸ h)]
  rfl

theorem token_stepped_ne (active :
      (e.stepped numBeams eosToken padToken read length index cs).status.isDone = false)
    (size : e.beams.size = numBeams) {i : Nat} (h : i < numBeams) :
    (e.stepped numBeams eosToken padToken read length index cs).beams[i]!.token ≠ eosToken := by
  cases done : e.status.isDone with
  | true =>
    rw [isDone_stepped done, done] at active
    exact absurd active (by decide)
  | false =>
    have enough : numBeams ≤ (going eosToken cs).length := by
      by_contra few
      rw [stepped_of_few done (Nat.lt_of_not_le few)] at active
      exact absurd active (by simp [exhaust, Status.isDone])
    have here : i < (chosen numBeams eosToken index cs).length := by
      simp
      omega
    rw [(beams_stepped done size h).2, if_pos here, getElem!_pos _ i here]
    obtain ⟨d, -, going, same⟩ := mem_chosen (List.getElem_mem here)
    rw [same]
    exact going

end Stepped

end Element

end TokenSearch
