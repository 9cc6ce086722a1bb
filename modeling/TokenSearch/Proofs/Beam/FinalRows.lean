import TokenSearch.Proofs.Beam.Pool
import TokenSearch.Proofs.Beam.Process

/-!
The final rows in the caller's buffers. All sequences are read before anything is written, so a
read that fails leaves the buffers alone. Then every cell is written, first as padding and then over
it, so nothing of what the buffers held remains; each row is written from one hypothesis of one
element.
-/

namespace TokenSearch

open TokenSearch.Run TokenSearch.Action

/-! ## Rows written in place -/

namespace FinalBuffers

@[simp] theorem size_copy (first : Nat) (buffer : Tokens) (tokens : List Token) :
    (copy first buffer tokens).size = buffer.size := by
  induction tokens generalizing first buffer with
  | nil => rfl
  | cons t rest ih => simp [copy, ih]

theorem getElem!_copy {first : Nat} {buffer : Tokens} {tokens : List Token}
    (room : first + tokens.length ≤ buffer.size) (i : Nat) :
    (copy first buffer tokens)[i]! =
      if first ≤ i ∧ i < first + tokens.length then tokens[i - first]! else buffer[i]! := by
  induction tokens generalizing first buffer with
  | nil =>
    rw [copy, if_neg]
    simp only [List.length_nil]
    omega
  | cons t rest ih =>
    rw [List.length_cons] at room ⊢
    rw [copy, ih (by simp; omega), getElem!_set! _ _ (by omega)]
    rcases Nat.lt_trichotomy i first with less | rfl | more
    · rw [if_neg (by omega), if_neg (Nat.ne_of_lt less), if_neg (by omega)]
    · rw [if_neg (by omega), if_pos rfl, if_pos (by omega), Nat.sub_self]
      rfl
    · obtain ⟨j, rfl⟩ := Nat.exists_eq_add_of_lt more
      have next : first + j + 1 - first = j + 1 := by omega
      have here : first + j + 1 - (first + 1) = j := by omega
      rw [next, here, if_neg (Nat.ne_of_gt more)]
      by_cases inside : j < rest.length
      · rw [if_pos (by omega), if_pos (by omega)]
        rfl
      · rw [if_neg (by omega), if_neg (by omega)]

structure Holds (width : Nat) (padToken : Token) (rows : Nat) (line : Nat → Option Hypothesis)
    (b : FinalBuffers) : Prop where
  size : b.tokens.size = rows * width
  count : b.scores.size = rows
  token : ∀ k < rows, ∀ j < width, b.tokens[k * width + j]! =
    (((line k).map (·.tokens)).getD [])[j]?.getD padToken
  score : ∀ k < rows, b.scores[k]! = ((line k).map (·.score)).getD Binary32.least

namespace Holds

variable {width rows : Nat} {padToken : Token} {line : Nat → Option Hypothesis} {b : FinalBuffers}

theorem blank (size : b.tokens.size = rows * width) (count : b.scores.size = rows) :
    Holds width padToken rows (fun _ => none) (b.blank padToken) where
  size := Array.size_map.trans size
  count := Array.size_map.trans count
  token := fun _ hk _ hj => getElem!_map _ (size ▸ row_mul_add_lt hk hj)
  score := fun _ hk => getElem!_map _ (count ▸ hk)

theorem write (holds : Holds width padToken rows line b) {row : Nat} (inside : row < rows)
    (free : line row = none) (h : Hypothesis) :
    Holds width padToken rows (Function.update line row (some h)) (b.write width row h) := by
  have short : (h.tokens.take width).length ≤ width := List.length_take_le _ _
  have stop : row * width + width ≤ rows * width := by
    rw [← Nat.succ_mul]
    exact Nat.mul_le_mul_right width inside
  constructor
  case size => simp [FinalBuffers.write, holds.size]
  case count => simp [FinalBuffers.write, holds.count]
  case token =>
    intro k hk j hj
    have old := holds.token k hk j hj
    rw [FinalBuffers.write, getElem!_copy (by rw [holds.size]; omega), List.length_take]
    by_cases here : k = row
    · subst here
      rw [free] at old
      simp only [Function.update_self, Option.map_some, Option.getD_some, Nat.add_sub_cancel_left]
      by_cases copied : j < h.tokens.length
      · rw [if_pos (by omega)]
        simp [hj, copied]
      · rw [if_neg (by omega), old]
        simp [Nat.le_of_not_lt copied]
    · have apart : ¬ (row * width ≤ k * width + j ∧
          k * width + j < row * width + min width h.tokens.length) := by
        intro ⟨low, high⟩
        have same : (k * width + j) / width = row :=
          Nat.div_eq_of_lt_le low (by rw [Nat.succ_mul]; omega)
        exact here ((row_mul_add_div k hj).symm.trans same)
      rw [if_neg apart, Function.update_of_ne here, old]
  case score =>
    intro k hk
    rw [FinalBuffers.write, getElem!_set! _ _ (holds.count ▸ inside)]
    by_cases here : k = row
    · subst here
      simp
    · rw [if_neg here, Function.update_of_ne here, holds.score k hk]

theorem writeFrom (holds : Holds width padToken rows line b) {row : Nat} {hs : List Hypothesis}
    (inside : row + hs.length ≤ rows) (free : ∀ k, row ≤ k → line k = none) :
    Holds width padToken rows (fun k => if row ≤ k then hs[k - row]? else line k)
      (b.writeFrom width row hs) := by
  induction hs generalizing row line b with
  | nil =>
    have same : (fun k => if row ≤ k then ([] : List Hypothesis)[k - row]? else line k) = line := by
      funext k
      split
      · exact (free k ‹_›).symm
      · rfl
    rwa [same]
  | cons h rest ih =>
    rw [List.length_cons] at inside
    have first := holds.write (by omega) (free row (Nat.le_refl row)) h
    have later : ∀ k, row + 1 ≤ k → Function.update line row (some h) k = none := fun k le =>
      (Function.update_of_ne (Nat.ne_of_gt le) _ _).trans (free k (Nat.le_of_succ_le le))
    have others := ih first (by omega) later
    refine cast (congrArg (Holds width padToken rows · _) (funext fun k => ?_)) others
    rcases Nat.lt_trichotomy k row with less | rfl | more
    · rw [if_neg (by omega), if_neg (by omega), Function.update_of_ne (Nat.ne_of_lt less)]
    · simp
    · obtain ⟨j, rfl⟩ := Nat.exists_eq_add_of_lt more
      have next : row + j + 1 - row = j + 1 := by omega
      have here : row + j + 1 - (row + 1) = j := by omega
      rw [if_pos (by omega), if_pos (by omega), next, here, List.getElem?_cons_succ]

theorem unique {b' : FinalBuffers} (holds : Holds width padToken rows line b)
    (holds' : Holds width padToken rows line b') : b = b' := by
  have tokens : b.tokens = b'.tokens := by
    refine Array.ext (holds.size.trans holds'.size.symm) fun i hi hi' => ?_
    have inside : i < rows * width := holds.size ▸ hi
    have row := div_lt_rows inside
    have column := mod_lt_width inside
    have same := (holds.token _ row _ column).trans (holds'.token _ row _ column).symm
    rwa [Nat.div_add_mod', getElem!_pos b.tokens i hi, getElem!_pos b'.tokens i hi'] at same
  have scores : b.scores = b'.scores := by
    refine Array.ext (holds.count.trans holds'.count.symm) fun k hk hk' => ?_
    have inside : k < rows := holds.count ▸ hk
    have same := (holds.score k inside).trans (holds'.score k inside).symm
    rwa [getElem!_pos b.scores k hk, getElem!_pos b'.scores k hk'] at same
  cases b
  cases b'
  rw [mk.injEq]
  exact ⟨tokens, scores⟩

end Holds

end FinalBuffers

namespace Ranking

section WriteBest

variable {c : Configuration} {r : Ranking} {n : Nat} {b : FinalBuffers}

/-- The hypothesis for row `k`, if the first `m` elements are done. -/
def lineBelow (r : Ranking) (n m k : Nat) : Option Hypothesis :=
  if k < m * n then r.elements[k / n]!.pool.sorted[k % n]? else none

theorem holds_writeBest (shaped : r.Shaped c)
    (size : b.tokens.size = c.batchSize * n * c.maxLength)
    (count : b.scores.size = c.batchSize * n) :
    FinalBuffers.Holds c.maxLength c.padToken (c.batchSize * n) (r.lineBelow n c.batchSize)
      (r.writeBest n b) := by
  suffices first : ∀ m ≤ c.batchSize,
      FinalBuffers.Holds c.maxLength c.padToken (c.batchSize * n) (r.lineBelow n m)
        ((List.range m).foldl (fun b e => b.writeFrom r.maxLength (e * n)
          (r.elements[e]!.pool.sorted.take n)) (b.blank r.padToken)) by
    rw [writeBest, shaped.elements]
    exact first _ (Nat.le_refl _)
  intro m le
  rw [shaped.maxLength, shaped.padToken]
  induction m with
  | zero =>
    have none : r.lineBelow n 0 = fun _ => Option.none := by
      funext k
      simp [lineBelow]
    rw [none]
    exact .blank size count
  | succ m ih =>
    have stop : m * n + n ≤ c.batchSize * n := by
      rw [← Nat.succ_mul]
      exact Nat.mul_le_mul_right n le
    have few := List.length_take_le n r.elements[m]!.pool.sorted
    have room : m * n + (r.elements[m]!.pool.sorted.take n).length ≤ c.batchSize * n := by omega
    have next := (ih (Nat.le_of_succ_le le)).writeFrom room fun k hk => if_neg (Nat.not_lt.2 hk)
    rw [List.range_succ, List.foldl_append, List.foldl_cons, List.foldl_nil]
    refine cast (congrArg (FinalBuffers.Holds _ _ _ · _) (funext fun k => ?_)) next
    unfold lineBelow
    rw [Nat.succ_mul]
    rcases Nat.lt_or_ge k (m * n) with before | after
    · rw [if_neg (by omega), if_pos before, if_pos (by omega)]
    obtain ⟨i, rfl⟩ := Nat.exists_eq_add_of_le after
    rw [if_pos after, Nat.add_sub_cancel_left, List.getElem?_take]
    by_cases inside : i < n
    · rw [if_pos inside, if_pos (by omega), row_mul_add_div m inside, row_mul_add_mod m inside]
    · rw [if_neg inside, if_neg (by omega)]

theorem getElem?_fit {width j : Nat} (padToken : Token) (tokens : List Token) (inside : j < width) :
    (fit width padToken tokens)[j]? = some (tokens[j]?.getD padToken) := by
  rw [fit, List.getElem?_append, List.length_take]
  by_cases held : j < tokens.length
  · simp [held, inside]
  · have rest : j - min width tokens.length < width - tokens.length := by omega
    simp [held, rest]

theorem holds_best (shaped : r.Shaped c) :
    FinalBuffers.Holds c.maxLength c.padToken (c.batchSize * n) (r.lineBelow n c.batchSize)
      ⟨r.bestRows n, r.bestScores n⟩ := by
  have best : (r.best n).size = c.batchSize * n := by simp [shaped.elements]
  have size : (r.bestRows n).size = c.batchSize * n * c.maxLength := by
    simp [shaped.elements, shaped.maxLength]
  refine ⟨size, by simp [shaped.elements], fun k hk j hj => ?_, fun k hk => ?_⟩ <;>
    rw [lineBelow, if_pos hk] <;>
    have element : k / n < r.elements.size := shaped.elements ▸ div_lt_rows hk
  · have row := row_bestRows r element (mod_lt_width hk) shaped.maxLength shaped.padToken
    have cell := ScoreMatrix.getElem!_row hk hj (Nat.le_of_eq size.symm)
    rw [Nat.div_add_mod'] at row
    rw [← cell, ← Array.getElem!_toList, row, rowOf, List.getElem!_eq_getElem?_getD,
      getElem?_fit _ _ hj]
    rfl
  · have entry := getElem!_bestScores r element (mod_lt_width hk)
    rwa [Nat.div_add_mod'] at entry

theorem writeBest_eq (shaped : r.Shaped c)
    (size : b.tokens.size = c.batchSize * n * c.maxLength)
    (count : b.scores.size = c.batchSize * n) :
    r.writeBest n b = ⟨r.bestRows n, r.bestScores n⟩ :=
  (holds_writeBest shaped size count).unique (holds_best shaped)

end WriteBest

end Ranking

/-! ## The sequences that are read -/

section Reads

variable {read : Nat → Run (List Token)} {slots rest : List Nat} {s t : Session}
  {sequences : List (List Token)} {e : Failure}

theorem length_of_mapM (h : slots.mapM read s = .ok sequences t) :
    sequences.length = slots.length := by
  induction slots generalizing s sequences with
  | nil =>
    cases h
    rfl
  | cons i rest ih =>
    rw [List.mapM_cons] at h
    obtain ⟨a, s₁, -, h⟩ := of_bind_ok h
    obtain ⟨others, s₂, later, h⟩ := of_bind_ok h
    cases h
    exact congrArg (· + 1) (ih later)

theorem of_mapM_append {known : Nat → List Token}
    (h : (slots ++ rest).mapM read s = .ok ((slots ++ rest).map known) t) :
    ∃ s₁, slots.mapM read s = .ok (slots.map known) s₁ ∧
      rest.mapM read s₁ = .ok (rest.map known) t := by
  rw [List.mapM_append] at h
  obtain ⟨first, s₁, ran, h⟩ := of_bind_ok h
  obtain ⟨others, s₂, later, h⟩ := of_bind_ok h
  injection h with same states
  subst states
  rw [List.map_append] at same
  obtain ⟨rfl, rfl⟩ := List.append_inj same (by rw [length_of_mapM ran, List.length_map])
  exact ⟨s₁, ran, later⟩

theorem of_mapM_append_error (h : (slots ++ rest).mapM read s = .error e t) :
    slots.mapM read s = .error e t ∨
      ∃ first s₁, slots.mapM read s = .ok first s₁ ∧ rest.mapM read s₁ = .error e t := by
  rw [List.mapM_append] at h
  refine (of_bind_error h).imp_right fun ⟨first, s₁, ran, h⟩ => ⟨first, s₁, ran, ?_⟩
  rcases of_bind_error h with failed | ⟨_, _, _, h⟩
  · exact failed
  · cases h

end Reads

namespace Element

section Close

variable {view : SequenceView} {base numBeams index : Nat} {s t : Session} {e : Element}

theorem isOpen_iff {e : Element} :
    e.isOpen = true ↔ e.status = .active ∨ e.status = .done .lengthCap := by
  obtain ⟨status, pool, beams⟩ := e
  rcases status with _ | _ | _ | _ <;> simp [isOpen]

theorem pool_closed (known : Nat → List Token) (e : Element) :
    (e.closed numBeams known index).pool = e.pool.addAll (if e.isOpen then
        (List.range numBeams).map fun i => (known (index * numBeams + i), e.beams[i]!.score)
      else []) := by
  unfold closed
  split
  case isTrue opened =>
    clear opened
    induction List.range numBeams generalizing e with
    | nil => rfl
    | cons i rest ih => exact ih (e.offer (known (index * numBeams + i)) e.beams[i]!.score)
  case isFalse => rfl

def openSlots (numBeams index : Nat) (e : Element) : List Nat :=
  if e.isOpen then (List.range numBeams).map (index * numBeams + ·) else []

theorem closeFrom_of_reads {list : List Nat} {sequences : List (List Token)}
    (h : (list.map (base + ·)).mapM view.read s = .ok sequences t) :
    ∃ e', closeFrom view base list (s, e) = .ok () (t, e') ∧
      ∀ known : Nat → List Token, sequences = (list.map (base + ·)).map known →
        e' = list.foldl (fun e i => e.offer (known (base + i)) e.beams[i]!.score) e := by
  induction list generalizing s sequences e with
  | nil =>
    cases h
    exact ⟨e, rfl, fun _ _ => rfl⟩
  | cons i rest ih =>
    rw [List.map_cons, List.mapM_cons] at h
    obtain ⟨tokens, s₁, ran, h⟩ := of_bind_ok h
    obtain ⟨others, s₂, later, h⟩ := of_bind_ok h
    cases h
    obtain ⟨e', closed, offered⟩ := ih (e := e.offer tokens e.beams[i]!.score) later
    refine ⟨e', ?_, fun known same => ?_⟩
    · exact (bind_of_ok (lift_of_ok ran e)).trans closed
    · rw [List.map_cons, List.map_cons, List.cons.injEq] at same
      rw [offered known same.2, List.foldl_cons, same.1]

theorem closeFrom_of_error {list : List Nat} {f : Failure}
    (h : (list.map (base + ·)).mapM view.read s = .error f t) :
    ∃ e', closeFrom view base list (s, e) = .error f (t, e') := by
  induction list generalizing s e with
  | nil => cases h
  | cons i rest ih =>
    rw [List.map_cons, List.mapM_cons] at h
    rcases of_bind_error h with failed | ⟨tokens, s₁, ran, h⟩
    · exact ⟨e, bind_of_error (lift_of_error failed e)⟩
    · have later : (rest.map (base + ·)).mapM view.read s₁ = .error f t := by
        rcases of_bind_error h with failed | ⟨_, _, _, h⟩
        · exact failed
        · cases h
      obtain ⟨e', stopped⟩ := ih (e := e.offer tokens e.beams[i]!.score) later
      exact ⟨e', (bind_of_ok (lift_of_ok ran e)).trans stopped⟩

theorem close_of_reads {sequences : List (List Token)}
    (h : (e.openSlots numBeams index).mapM view.read s = .ok sequences t) :
    ∃ e', close numBeams view index (s, e) = .ok () (t, e') ∧
      ∀ known : Nat → List Token, sequences = (e.openSlots numBeams index).map known →
        e' = e.closed numBeams known index := by
  have start : close numBeams view index (s, e) = (if e.isOpen then
      closeFrom view (index * numBeams) (List.range numBeams) else pure ()) (s, e) := rfl
  unfold openSlots at h ⊢
  unfold closed
  rw [start]
  split
  case isTrue opened =>
    rw [if_pos opened] at h
    exact closeFrom_of_reads h
  case isFalse other =>
    rw [if_neg other] at h
    cases h
    exact ⟨e, rfl, fun _ _ => rfl⟩

theorem close_of_error {f : Failure}
    (h : (e.openSlots numBeams index).mapM view.read s = .error f t) :
    ∃ e', close numBeams view index (s, e) = .error f (t, e') := by
  have start : close numBeams view index (s, e) = (if e.isOpen then
      closeFrom view (index * numBeams) (List.range numBeams) else pure ()) (s, e) := rfl
  unfold openSlots at h
  rw [start]
  split
  case isTrue opened =>
    rw [if_pos opened] at h
    exact closeFrom_of_error h
  case isFalse other =>
    rw [if_neg other] at h
    cases h

end Close

end Element

namespace Ranking

section Loop

variable {view : SequenceView} {r : Ranking} {s t : Session} {f : Failure}

def openSlots (r : Ranking) : List Nat :=
  (List.range r.elements.size).flatMap fun b => r.elements[b]!.openSlots r.numBeams b

def closedBelow (known : Nat → List Token) (m : Nat) (r : Ranking) : Ranking :=
  { r with
    elements := r.elements.mapIdx fun b e =>
      if b < m then r.elements[b]!.closed r.numBeams known b else e }

theorem firstElements_of_reads {known : Nat → List Token} {m : Nat} (le : m ≤ r.elements.size)
    (h : let slots := (List.range m).flatMap fun b => r.elements[b]!.openSlots r.numBeams b
      slots.mapM view.read s = .ok (slots.map known) t) :
    ((List.range m).forM fun b => onElement b (Element.close r.numBeams view b)) (s, r) =
      .ok () (t, r.closedBelow known m) := by
  induction m generalizing t with
  | zero =>
    have same : r.closedBelow known 0 = r := below_zero
    cases h
    rw [same]
    rfl
  | succ m ih =>
    rw [List.range_succ, List.flatMap_append, List.flatMap_singleton] at h
    obtain ⟨s₁, earlier, last⟩ := of_mapM_append h
    obtain ⟨e', closed, offered⟩ := Element.close_of_reads last
    have here : m < (r.closedBelow known m).elements.size := by
      simpa [closedBelow] using Nat.lt_of_succ_le le
    have untouched : (r.closedBelow known m).elements[m]! = r.elements[m]! :=
      getElem!_below_of_le (Nat.le_refl m)
    have one := onElement_of_ok here (untouched ▸ closed)
    have next : { r.closedBelow known m with
        elements := (r.closedBelow known m).elements.set! m e' } = r.closedBelow known (m + 1) := by
      rw [offered known rfl]
      exact below_succ
    rw [next] at one
    rw [forM_range_succ]
    exact (bind_of_ok (ih (Nat.le_of_succ_le le) earlier)).trans one

theorem elements_of_error {indices : List Nat} (distinct : indices.Nodup)
    (inside : ∀ b ∈ indices, b < r.elements.size)
    (h : (indices.flatMap fun b => r.elements[b]!.openSlots r.numBeams b).mapM view.read s =
      .error f t) :
    ∃ r', (indices.forM fun b => onElement b (Element.close r.numBeams view b)) (s, r) =
      .error f (t, r') := by
  induction indices generalizing s r with
  | nil => cases h
  | cons b rest ih =>
    have here := inside b List.mem_cons_self
    rcases of_mapM_append_error h with failed | ⟨sequences, s₁, ran, h⟩
    · obtain ⟨e', stopped⟩ := Element.close_of_error failed
      exact ⟨_, bind_of_error (onElement_of_error here stopped)⟩
    obtain ⟨e', closed, -⟩ := Element.close_of_reads ran
    have others : ∀ b' ∈ rest, (r.elements.set! b e')[b']! = r.elements[b']! := by
      intro b' hb'
      rw [getElem!_set! _ _ here, if_neg]
      rintro rfl
      exact (List.nodup_cons.1 distinct).1 hb'
    obtain ⟨r', stopped⟩ := ih (r := { r with elements := r.elements.set! b e' })
      (List.nodup_cons.1 distinct).2
      (fun b' hb' => by simpa using inside b' (List.mem_cons_of_mem _ hb'))
      ((congrArg (fun slots => slots.mapM view.read s₁) (List.flatMap_congr fun b' hb' => by
        rw [others b' hb'])).trans h)
    exact ⟨r', (bind_of_ok (onElement_of_ok here closed)).trans stopped⟩

end Loop

/-! ## Final rows in place -/

@[simp] theorem closedBelow_size (known : Nat → List Token) (r : Ranking) :
    r.closedBelow known r.elements.size = r.closed known := by
  have elements : (r.elements.mapIdx fun b e =>
      if b < r.elements.size then r.elements[b]!.closed r.numBeams known b else e) =
      (Array.range r.elements.size).map fun b => r.elements[b]!.closed r.numBeams known b := by
    refine Array.ext (by simp) fun b hb hb' => ?_
    have inside : b < r.elements.size := by simpa using hb
    simp [inside]
  rw [closedBelow, closed, elements]

section FinalizeInto

variable {c : Configuration} {r : Ranking} {view : SequenceView} {n : Nat} {buffers : FinalBuffers}
  {s t : Session} (shaped : r.Shaped c) (returned : 1 ≤ n ∧ n ≤ c.numBeams)
  (rows : c.batchSize * n < 2 ^ 64) (room : c.batchSize * n * c.maxLength < 2 ^ 64)

include shaped returned rows room

variable (tokens : buffers.tokens.size = c.batchSize * n * c.maxLength)
  (scores : buffers.scores.size = c.batchSize * n)

include tokens scores

theorem finalizeInto_of_reads {known : Nat → List Token}
    (h : r.openSlots.mapM view.read s = .ok (r.openSlots.map known) t) :
    finalizeInto view n (s, r, buffers) =
      .ok () (t, r.closed known, ⟨(r.closed known).bestRows n, (r.closed known).bestScores n⟩) := by
  have loop := firstElements_of_reads (Nat.le_refl _) h
  rw [closedBelow_size] at loop
  have final : finalize view n buffers.tokens.size buffers.scores.size (s, r) =
      .ok ((r.closed known).bestRows n, (r.closed known).bestScores n) (t, r.closed known) := by
    rw [tokens, scores, finalize_eq shaped returned rows room]
    exact (bind_of_ok loop).trans rfl
  refine (bind_of_ok (x := Action.object) rfl).trans ((bind_of_ok (focus_of_ok final)).trans ?_)
  rw [← writeBest_eq (shaped.closed known) tokens scores]
  rfl

theorem finalizeInto_of_error {f : Failure} (h : r.openSlots.mapM view.read s = .error f t) :
    ∃ r', finalizeInto view n (s, r, buffers) = .error f (t, r', buffers) := by
  obtain ⟨r', loop⟩ := elements_of_error List.nodup_range (fun b => List.mem_range.1) h
  have final : finalize view n buffers.tokens.size buffers.scores.size (s, r) =
      .error f (t, r') := by
    rw [tokens, scores, finalize_eq shaped returned rows room]
    exact bind_of_error loop
  exact ⟨r', (bind_of_ok (x := Action.object) rfl).trans (bind_of_error (focus_of_error final))⟩

end FinalizeInto

/-- From any state, into buffers of the right sizes with any contents. If the sequences of the open
elements' slots can be read, in their order, every row holds the hypothesis of its place among those
of its element's pool, to which the live beams of an open element were offered, and every other row
is padding. If one of them cannot be read, its failure is that of the call and the buffers are as
before. -/
theorem finalizeInto_writes_best {c : Configuration} {r : Ranking} {n : Nat}
    {buffers : FinalBuffers} (view : SequenceView) (s t : Session) (reachable : Reachable c r)
    (returned : 1 ≤ n ∧ n ≤ c.numBeams)
    (tokens : buffers.tokens.size = c.batchSize * n * c.maxLength)
    (scores : buffers.scores.size = c.batchSize * n)
    (room : c.batchSize * n * c.maxLength < 2 ^ 64) :
    (∀ known : Nat → List Token,
      r.openSlots.mapM view.read s = .ok (r.openSlots.map known) t →
      ∃ r' written, finalizeInto view n (s, r, buffers) = .ok () (t, r', written) ∧
        written.tokens.size = c.batchSize * n * c.maxLength ∧
        written.scores.size = c.batchSize * n ∧
        ∀ b < c.batchSize,
          let e := r.elements[b]!
          let live := (List.range c.numBeams).map fun i =>
            (known (b * c.numBeams + i), r.scores[b * c.numBeams + i]!)
          let offers := if e.status = .active ∨ e.status = .done .lengthCap then live else []
          let pool := e.pool.addAll offers
          ∃ hs, pool.Ranks hs ∧ pool.kept.Sublist (e.pool.kept ++ e.pool.offered offers) ∧
            ∀ i < n,
              let row := (ScoreMatrix.row written.tokens c.maxLength (b * n + i)).toList
              let score := written.scores[b * n + i]!
              (∀ h, hs[i]? = some h →
                row = h.tokens.take c.maxLength ++
                  List.replicate (c.maxLength - h.tokens.length) c.padToken ∧
                score = h.score) ∧
              (hs.length ≤ i →
                row = List.replicate c.maxLength c.padToken ∧ score = Binary32.least)) ∧
    ∀ f, r.openSlots.mapM view.read s = .error f t →
      ∃ r', finalizeInto view n (s, r, buffers) = .error f (t, r', buffers) := by
  have shaped := reachable.shaped
  have rows : c.batchSize * n < 2 ^ 64 :=
    Nat.lt_of_le_of_lt (Nat.mul_le_mul_left _ returned.2) reachable.slots_lt
  refine ⟨fun known h => ?_, fun f => finalizeInto_of_error shaped returned rows room tokens scores⟩
  have closed := shaped.closed known
  refine ⟨_, _, finalizeInto_of_reads shaped returned rows room tokens scores h, ?_,
    by simp [closed.elements], fun b hb => ?_⟩
  · simp [closed.elements, closed.maxLength]
  intro e live offers pool
  have same : (r.closed known).elements[b]!.pool = pool := by
    rw [getElem!_closed shaped hb, Element.pool_closed]
    simp only [Element.isOpen_iff]
    have scores : ∀ i ∈ List.range c.numBeams, r.elements[b]!.beams[i]!.score =
        r.scores[b * c.numBeams + i]! := fun i hi =>
      (shaped.getElem!_slot (·.score) hb (List.mem_range.1 hi)).symm
    rw [List.map_congr_left fun i hi => by rw [scores i hi]]
  have inside : b < (r.closed known).elements.size := closed.elements ▸ hb
  refine ⟨pool.sorted, pool.ranks_sorted, HypothesisPool.kept_addAll_sublist _ _, fun i hi => ?_⟩
  dsimp only
  rw [row_bestRows _ inside hi closed.maxLength closed.padToken, getElem!_bestScores _ inside hi,
    same, rowOf, scoreOf]
  refine ⟨fun h held => ?_, fun few => ?_⟩
  · rw [held]
    exact ⟨rfl, rfl⟩
  · rw [List.getElem?_eq_none few]
    simp [fit]

/-- One beam each: the first element is open and the second ran out of candidates, so that only the
first slot is read. -/
theorem finalizeInto_writes_best_of_two_elements :
    let c : Configuration :=
      { batchSize := 2, numBeams := 1, vocabSize := 8, maxLength := 4, eosToken := 0, padToken := 3 }
    let view : SequenceView := ⟨.ok 2, fun i => pure [7, (i : Int)]⟩
    let broken : SequenceView := ⟨.ok 2, fun _ => Run.fail (.other "gone")⟩
    let buffers : FinalBuffers := ⟨.replicate 8 (-7), .replicate 2 .one⟩
    let start : Session := .start none
    ∃ r, Reachable c r ∧
      (∃ r' written, finalizeInto view 1 (start, r, buffers) = .ok () (start, r', written) ∧
        (ScoreMatrix.row written.tokens 4 0).toList = [7, 0, 3, 3] ∧
        (ScoreMatrix.row written.tokens 4 1).toList = [7, 1, 0, 3]) ∧
      ∃ r', finalizeInto broken 1 (start, r, buffers) =
        .error (.error (.other "gone")) (start, r', buffers) := by
  intro c view broken buffers start
  let cs : Selection.Candidates := ⟨.replicate 4 ⟨0xbf800000⟩, #[5, 6, 0, 0], .replicate 4 0⟩
  let r := (process view cs).left start (initial c)
  have reachable : Reachable c r := .process view cs start (.new rfl)
  have slots : r.openSlots = [0] := by decide +kernel
  let known : Nat → List Token := fun i => [7, (i : Int)]
  have reads : r.openSlots.mapM view.read start = .ok (r.openSlots.map known) start := by
    rw [slots]
    rfl
  have fails : r.openSlots.mapM broken.read start = .error (.error (.other "gone")) start := by
    rw [slots]
    rfl
  have sizes : buffers.tokens.size = 2 * 1 * 4 ∧ buffers.scores.size = 2 * 1 := by decide
  obtain ⟨r', written, run, -, -, each⟩ := (finalizeInto_writes_best view start start reachable
    (by decide) sizes.1 sizes.2 (by decide)).1 known reads
  obtain ⟨r'', stopped⟩ := (finalizeInto_writes_best broken start start reachable (by decide)
    sizes.1 sizes.2 (by decide)).2 _ fails
  refine ⟨r, reachable, ⟨r', written, run, ?_, ?_⟩, r'', stopped⟩
  · obtain ⟨hs, ranks, -, rows⟩ := each 0 (by decide)
    have one : hs = [⟨⟨0xbf000000⟩, [7, 0]⟩] := List.perm_singleton.1 <| by
      refine ranks.perm.trans (.of_eq ?_)
      decide +kernel
    subst one
    exact ((rows 0 (by decide)).1 _ rfl).1
  · obtain ⟨hs, ranks, -, rows⟩ := each 1 (by decide)
    have one : hs = [⟨⟨0xbeaaaaab⟩, [7, 1, 0]⟩] := List.perm_singleton.1 <| by
      refine ranks.perm.trans (.of_eq ?_)
      decide +kernel
    subst one
    exact ((rows 0 (by decide)).1 _ rfl).1

end Ranking

end TokenSearch
