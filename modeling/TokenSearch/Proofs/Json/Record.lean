import Mathlib.Tactic.Common
import TokenSearch.Json.Record
import TokenSearch.Proofs.Json.Laws
import TokenSearch.Proofs.Json.Precision

/-!
The reader of records from JSON text keeps its laws. What an object is read as is said once, without
the order of its members: every field is given at most once, with a value that is read as the
record's, or is left to its default. All laws on objects follow from that, and those on arrays from
the like fact on the elements that are given.
-/

namespace TokenSearch.Json

variable {ι : Type} {S : Schema ι}

/-! ## Values -/

theorem digits_lt_of_writes {t : NumberText} {cs : List Char} (writes : Writes (.number t) cs) :
    ∀ d ∈ t.digits, d < 10 := by
  have digit : ∀ cs : List Char, Digits cs → ∀ d ∈ cs.map Lexeme.digit, d < 10 := by
    intro cs digits d member
    obtain ⟨c, inside, rfl⟩ := List.mem_map.1 member
    have isDigit := digits.digits c inside
    simp only [Char.isDigit, Bool.and_eq_true, decide_eq_true_eq, ge_iff_le,
      UInt32.le_iff_toNat_le] at isDigit
    have high : c.toNat ≤ 57 := isDigit.2
    show c.toNat - 48 < 10
    omega
  cases writes with
  | number writes =>
  cases writes with
  | mk _ whole _ fraction _ =>
  intro d member
  rcases List.mem_append.1 member with inside | inside
  · exact digit _ whole d inside
  · cases fraction with
    | none => cases inside
    | some digits => exact digit _ digits d inside

theorem ofText?_of_natural {t : NumberText} {n : Nat} (integer : t.IsInteger false n)
    (fits : n < 2 ^ 64) : Number.ofText? t = some (.natural n) := by
  obtain ⟨sign, fraction, exponent, rfl⟩ := integer
  have taken := (Number.accumulate_of_fits t.whole []
    (by rwa [List.append_nil])).1
  simp [Number.ofText?, taken, sign, fraction, exponent]

theorem ofText?_of_negative {t : NumberText} {n : Nat} (integer : t.IsInteger true n)
    (pos : 0 < n) (fits : n ≤ 2 ^ 63) : Number.ofText? t = some (.negative n) := by
  obtain ⟨sign, fraction, exponent, rfl⟩ := integer
  have taken := (Number.accumulate_of_fits t.whole []
    (by rw [List.append_nil]; exact Nat.lt_of_le_of_lt fits (by decide))).1
  have nonzero : Number.ofDigits t.whole ≠ 0 := Nat.ne_of_gt pos
  simpa [Number.ofText?, taken, sign, fraction, exponent] using ⟨nonzero, fits⟩

theorem readValue_of_reads {k : Kind} {symbol : Symbol} {v : k.Value} (reads : k.Reads symbol v)
    (writable : symbol.Writable) :
    ∃ v', readValue k symbol.lexeme = .ok v' ∧ k.Reads symbol v' := by
  cases k with
  | size =>
    obtain ⟨t, rfl, integer, fits⟩ := reads
    refine ⟨v, ?_, t, rfl, integer, fits⟩
    rw [Symbol.lexeme, ofText?_of_natural integer fits, readValue, readSize]
  | token =>
    obtain ⟨t, n, rfl, integer, small, rfl⟩ := reads
    refine ⟨_, ?_, t, n, rfl, integer, small, rfl⟩
    rw [Symbol.lexeme, ofText?_of_natural integer (small.trans (by decide)), readValue, readToken,
      if_pos small]
  | flag =>
    cases reads
    exact ⟨v, rfl, rfl⟩
  | number =>
    obtain ⟨t, rfl, reads⟩ := reads
    rw [Symbol.lexeme, readValue]
    cases reads with
    | natural integer fits =>
      refine ⟨_, ?_, t, rfl, .natural integer fits⟩
      rw [ofText?_of_natural integer fits, readNumber]
    | negative integer pos fits =>
      refine ⟨_, ?_, t, rfl, .negative integer pos fits⟩
      rw [ofText?_of_negative integer pos fits, readNumber]
    | decimal isDecimal finite =>
      obtain ⟨cs, writes⟩ := writable
      obtain ⟨p, read, lower, upper, exact⟩ :=
        Number.ofText?_of_decimal isDecimal (digits_lt_of_writes writes) finite
      refine ⟨_, ?_, t, rfl, .decimal isDecimal finite lower upper exact⟩
      rw [read, readNumber]

/-! ## Drafts -/

theorem bind_eq_ok_iff {ε α β : Type} {x : Except ε α} {f : α → Except ε β} {b : β} :
    (x >>= f) = .ok b ↔ ∃ a, x = .ok a ∧ f a = .ok b := by
  cases x with
  | error fault => exact ⟨fun h => (by cases h), fun ⟨_, h, _⟩ => (by cases h)⟩
  | ok a => exact ⟨fun h => ⟨a, rfl, h⟩, fun ⟨_, same, h⟩ => (by cases same; exact h)⟩

namespace Draft

variable {d d' : Draft S} {i j : ι}

@[simp] theorem set_self [DecidableEq ι] (d : Draft S) (i : ι) (v : (S.kind i).Value) :
    d.set i v i = some v :=
  dif_pos rfl

theorem set_of_ne [DecidableEq ι] (d : Draft S) (v : (S.kind i).Value) (ne : i ≠ j) :
    d.set i v j = d j :=
  dif_neg ne

theorem finish_eq_ok_iff {missing : ι → ReadFault} {r : S.Record} :
    d.finish missing = .ok r ↔ ∀ i, d.value? i = some (r i) := by
  unfold finish
  split
  · next i found =>
    have none : d.value? i = none := by simpa using List.find?_some found
    refine ⟨fun h => (by cases h), fun all => ?_⟩
    rw [all i] at none
    cases none
  · next found =>
    constructor
    · intro h i
      cases h
      exact (Option.some_get _).symm
    · intro all
      refine congrArg Except.ok (funext fun i => ?_)
      simp only [all i, Option.get_some]

end Draft

/-! ## Members -/

namespace Member

def field? (S : Schema ι) (m : Member) : Option ι := m.name?.bind (fieldOf? S)

def ReadsAs (S : Schema ι) (m : Member) (i : ι) (v : (S.kind i).Value) : Prop :=
  ∃ symbol, m.value = [symbol] ∧ readValue (S.kind i) symbol.lexeme = .ok v

theorem fieldOf?_name (S : Schema ι) (i : ι) : fieldOf? S (S.name i) = some i := by
  cases found : fieldOf? S (S.name i) with
  | none => exact absurd (decide_eq_true rfl) (List.find?_eq_none.1 found i (S.complete i))
  | some j => exact congrArg some (S.name_inj (by simpa using List.find?_some found))

theorem field?_eq_some_iff {m : Member} {i : ι} :
    m.field? S = some i ↔ m.name? = some (S.name i) := by
  constructor
  · intro h
    obtain ⟨name, named, found⟩ := Option.bind_eq_some_iff.1 h
    rw [named, show S.name i = name by simpa using List.find?_some found]
  · intro named
    rw [field?, named, Option.bind_some, fieldOf?_name]

end Member

def fieldsOf (S : Schema ι) (ms : List Member) : List ι := ms.filterMap (Member.field? S)

theorem fieldsOf_eq {fields : List ι} {ms : List Member}
    (all : List.Forall₂ (fun i m => m.name? = some (S.name i)) fields ms) :
    fieldsOf S ms = fields := by
  induction all with
  | nil => rfl
  | cons named _ ih =>
    rw [fieldsOf, List.filterMap_cons_some (Member.field?_eq_some_iff.2 named)]
    exact congrArg _ ih

theorem exists_readsAs {m : Member} (proper : m.Proper) {i : ι} {v : (S.kind i).Value}
    (gives : S.Gives i m v) : ∃ v', m.ReadsAs S i v' ∧ S.Gives i m v' := by
  obtain ⟨named, symbol, value, reads⟩ := gives
  have writable : symbol.Writable := proper.writable symbol (by simp [Member.symbols, value])
  obtain ⟨v', read, reads'⟩ := readValue_of_reads reads writable
  exact ⟨v', ⟨symbol, value, read⟩, named, symbol, value, reads'⟩

variable [DecidableEq ι]

/-- A member fills its own field, which was empty, or is no field. -/
def Draft.Takes (d : Draft S) (m : Member) (d' : Draft S) : Prop :=
  match m.field? S with
  | none => d' = d
  | some i => d i = none ∧ ∃ v, m.ReadsAs S i v ∧ d' = d.set i v

theorem readValue_open (k : Kind) {l : Lexeme} (opens : l = .openBracket ∨ l = .openBrace) :
    ∃ fault, readValue k l = .error fault := by
  rcases opens with rfl | rfl <;> cases k <;> exact ⟨_, rfl⟩

theorem WellFormed.value_cases {v : List Symbol} (wellFormed : WellFormed .value v) :
    (∃ s, v = [s]) ∨ ∃ s t tail, v = s :: t :: tail ∧ (s = .openBracket ∨ s = .openBrace) := by
  cases wellFormed with
  | null | boolean | number | text => exact .inl ⟨_, rfl⟩
  | emptyArray => exact .inr ⟨_, _, _, rfl, .inl rfl⟩
  | emptyObject => exact .inr ⟨_, _, _, rfl, .inr rfl⟩
  | @array es =>
    obtain ⟨t, tail, split⟩ : ∃ t tail, es ++ [Symbol.closeBracket] = t :: tail :=
      List.exists_cons_of_ne_nil (by simp)
    exact .inr ⟨_, t, tail, congrArg _ split, .inl rfl⟩
  | @object ms =>
    obtain ⟨t, tail, split⟩ : ∃ t tail, ms ++ [Symbol.closeBrace] = t :: tail :=
      List.exists_cons_of_ne_nil (by simp)
    exact .inr ⟨_, t, tail, congrArg _ split, .inr rfl⟩

theorem readMember_eq_ok_iff {d d' : Draft S} {m : Member} (proper : m.Proper)
    {rest rest' : List Lexeme} :
    readMember d (m.symbols.map Symbol.lexeme ++ rest) = .ok (d', rest') ↔
      rest' = rest ∧ d.Takes m d' := by
  obtain ⟨name, named⟩ := Option.isSome_iff_exists.1 proper.named
  have lexemes : m.symbols.map Symbol.lexeme ++ rest =
      .text (some name) :: .colon :: (m.value.map Symbol.lexeme ++ rest) := by
    rw [← named]
    rfl
  have field : m.field? S = fieldOf? S name := by rw [Member.field?, named, Option.bind_some]
  rw [lexemes, readMember, Draft.Takes, field]
  cases fieldOf? S name with
  | none =>
    simp only [skip?_of_wellFormed proper.wellFormed rest, Except.ok.injEq, Prod.mk.injEq]
    exact and_comm.trans (and_congr eq_comm eq_comm)
  | some i =>
    cases given : d i with
    | some v => simp [given]
    | none =>
      simp only [given, Option.isSome_none, Bool.false_eq_true, if_false, true_and]
      rcases proper.wellFormed.value_cases with ⟨symbol, value⟩ | ⟨s, t, tail, value, opens⟩
      · rw [value]
        cases read : readValue (S.kind i) symbol.lexeme with
        | error fault =>
          simp [Draft.put, read, bind, Except.bind, Member.ReadsAs, value]
        | ok v =>
          simp [Draft.put, read, bind, Except.bind, pure, Except.pure, Member.ReadsAs, value,
            and_comm, eq_comm]
      · obtain ⟨fault, read⟩ := readValue_open (S.kind i) (l := s.lexeme) (by
          rcases opens with rfl | rfl
          · exact .inl rfl
          · exact .inr rfl)
        simp [Draft.put, read, bind, Except.bind, Member.ReadsAs, value]

/-! ## Objects -/

def Draft.TakesAll : Draft S → List Member → Draft S → Prop
  | d, [], d' => d' = d
  | d, m :: ms, d' => ∃ e, d.Takes m e ∧ e.TakesAll ms d'

theorem readMembers_comma (d : Draft S) (ls : List Lexeme) :
    readMembers d (.comma :: ls) = readMember d ls >>= fun x => readMembers x.1 x.2 := by
  rw [readMembers]
  split <;> next read => simp only [read, bind, Except.bind]

theorem readMembers_eq_ok_iff {ms : List Member} (proper : ∀ m ∈ ms, m.Proper) {d d' : Draft S}
    {rest : List Lexeme} :
    readMembers d ((afterMember ms).map Symbol.lexeme) = .ok (d', rest) ↔
      rest = [] ∧ d.TakesAll ms d' := by
  induction ms generalizing d with
  | nil =>
    rw [afterMember, List.map_cons, List.map_nil, Symbol.lexeme, readMembers, Draft.TakesAll]
    simp only [Except.ok.injEq, Prod.mk.injEq]
    exact and_comm.trans (and_congr eq_comm eq_comm)
  | cons m ms ih =>
    obtain ⟨first, others⟩ := List.forall_mem_cons.1 proper
    rw [afterMember, List.map_cons, List.map_append, Symbol.lexeme, readMembers_comma,
      bind_eq_ok_iff, Draft.TakesAll]
    constructor
    · rintro ⟨⟨e, rest'⟩, read, all⟩
      obtain ⟨rfl, takes⟩ := (readMember_eq_ok_iff first).1 read
      obtain ⟨past, all⟩ := (ih others).1 all
      exact ⟨past, e, takes, all⟩
    · rintro ⟨past, e, takes, all⟩
      exact ⟨(e, _), (readMember_eq_ok_iff first).2 ⟨rfl, takes⟩, (ih others).2 ⟨past, all⟩⟩

structure Describes (S : Schema ι) (ms : List Member) (r : S.Record) : Prop where
  once : (fieldsOf S ms).Nodup
  given : ∀ m ∈ ms, ∀ i, m.field? S = some i → m.ReadsAs S i (r i)
  omitted : ∀ i, i ∉ fieldsOf S ms → S.default? i = some (r i)

/-- A draft after members whose fields are all different and were not set before. -/
structure Draft.Collects (d : Draft S) (ms : List Member) (d' : Draft S) : Prop where
  once : (fieldsOf S ms).Nodup
  unset : ∀ i ∈ fieldsOf S ms, d i = none
  given : ∀ m ∈ ms, ∀ i, m.field? S = some i → ∃ v, m.ReadsAs S i v ∧ d' i = some v
  others : ∀ i, i ∉ fieldsOf S ms → d' i = d i

omit [DecidableEq ι] in
theorem collects_nil_iff {d d' : Draft S} : d.Collects [] d' ↔ d' = d where
  mp collects := funext fun i => collects.others i List.not_mem_nil
  mpr := by
    rintro rfl
    exact ⟨List.nodup_nil, fun i h => absurd h List.not_mem_nil,
      fun m h => absurd h List.not_mem_nil, fun i _ => rfl⟩

omit [DecidableEq ι] in
theorem collects_cons_of_none {m : Member} {ms : List Member} {d d' : Draft S}
    (field : m.field? S = none) : d.Collects (m :: ms) d' ↔ d.Collects ms d' := by
  have fields : fieldsOf S (m :: ms) = fieldsOf S ms := List.filterMap_cons_none field
  constructor
  · rintro ⟨once, unset, given, others⟩
    rw [fields] at once unset others
    exact ⟨once, unset, (List.forall_mem_cons.1 given).2, others⟩
  · rintro ⟨once, unset, given, others⟩
    rw [← fields] at once unset others
    refine ⟨once, unset, List.forall_mem_cons.2 ⟨fun i h => ?_, given⟩, others⟩
    rw [field] at h
    cases h

theorem collects_cons_of_set {m : Member} {ms : List Member} {d d' : Draft S} {i : ι}
    {v : (S.kind i).Value} (field : m.field? S = some i) (empty : d i = none)
    (reads : m.ReadsAs S i v) (rest : (d.set i v).Collects ms d') : d.Collects (m :: ms) d' := by
  have fields : fieldsOf S (m :: ms) = i :: fieldsOf S ms := List.filterMap_cons_some field
  have new : i ∉ fieldsOf S ms := fun old => by
    have unset := rest.unset i old
    rw [Draft.set_self] at unset
    cases unset
  refine ⟨?_, ?_, List.forall_mem_cons.2 ⟨?_, rest.given⟩, fun j absent => ?_⟩
  · rw [fields]
    exact List.nodup_cons.2 ⟨new, rest.once⟩
  · rw [fields]
    refine List.forall_mem_cons.2 ⟨empty, fun j old => ?_⟩
    rw [← rest.unset j old, Draft.set_of_ne]
    exact fun same => new (same ▸ old)
  · intro j h
    obtain rfl : i = j := Option.some.inj (field.symm.trans h)
    exact ⟨v, reads, by rw [rest.others i new, Draft.set_self]⟩
  · rw [fields, List.mem_cons, not_or] at absent
    rw [rest.others j absent.2, Draft.set_of_ne]
    exact fun same => absent.1 same.symm

theorem Draft.Collects.set {m : Member} {ms : List Member} {d d' : Draft S} {i : ι}
    (field : m.field? S = some i) (collects : d.Collects (m :: ms) d') :
    d i = none ∧ ∃ v, m.ReadsAs S i v ∧ (d.set i v).Collects ms d' := by
  have fields : fieldsOf S (m :: ms) = i :: fieldsOf S ms := List.filterMap_cons_some field
  obtain ⟨once, unset, given, others⟩ := collects
  rw [fields] at once unset others
  obtain ⟨new, once⟩ := List.nodup_cons.1 once
  obtain ⟨empty, unset⟩ := List.forall_mem_cons.1 unset
  obtain ⟨here, given⟩ := List.forall_mem_cons.1 given
  obtain ⟨v, reads, value⟩ := here i field
  refine ⟨empty, v, reads, once, fun j old => ?_, given, fun j absent => ?_⟩
  · rw [set_of_ne, unset j old]
    exact fun same => new (same ▸ old)
  · by_cases same : i = j
    · subst same
      rw [value, set_self]
    · rw [set_of_ne _ _ same]
      exact others j (List.not_mem_cons_of_ne_of_not_mem (Ne.symm same) absent)

theorem takesAll_iff {ms : List Member} {d d' : Draft S} :
    d.TakesAll ms d' ↔ d.Collects ms d' := by
  induction ms generalizing d with
  | nil => rw [Draft.TakesAll, collects_nil_iff]
  | cons m ms ih =>
    cases field : m.field? S with
    | none =>
      have takes : ∀ e, d.Takes m e ↔ e = d := fun e => by rw [Draft.Takes, field]
      simp only [Draft.TakesAll, takes, exists_eq_left, ih, collects_cons_of_none field]
    | some i =>
      have takes : ∀ e, d.Takes m e ↔ d i = none ∧ ∃ v, m.ReadsAs S i v ∧ e = d.set i v :=
        fun e => by rw [Draft.Takes, field]
      simp only [Draft.TakesAll, takes, ih]
      constructor
      · rintro ⟨e, ⟨empty, v, reads, rfl⟩, rest⟩
        exact collects_cons_of_set field empty reads rest
      · intro collects
        obtain ⟨empty, v, reads, rest⟩ := collects.set field
        exact ⟨_, ⟨empty, v, reads, rfl⟩, rest⟩

theorem exists_takesAll_iff {ms : List Member} {r : S.Record} :
    (∃ d : Draft S, Draft.empty.TakesAll ms d ∧ ∀ i, d.value? i = some (r i)) ↔
      Describes S ms r := by
  constructor
  · rintro ⟨d, takes, values⟩
    have collects := takesAll_iff.1 takes
    refine ⟨collects.once, fun m h i field => ?_, fun i absent => ?_⟩
    · obtain ⟨v, reads, value⟩ := collects.given m h i field
      have same := values i
      rw [Draft.value?, value, Option.some_or] at same
      rwa [← Option.some.inj same]
    · have unset : d i = none := collects.others i absent
      have value := values i
      rwa [Draft.value?, unset, Option.none_or] at value
  · intro describes
    refine ⟨fun i => if i ∈ fieldsOf S ms then some (r i) else none, takesAll_iff.2 ⟨describes.once,
      fun i _ => rfl, fun m h i field => ?_, fun i absent => if_neg absent⟩, fun i => ?_⟩
    · have member : i ∈ fieldsOf S ms := List.mem_filterMap.2 ⟨m, h, field⟩
      exact ⟨r i, describes.given m h i field, if_pos member⟩
    · show (if i ∈ fieldsOf S ms then some (r i) else none).or (S.default? i) = some (r i)
      by_cases member : i ∈ fieldsOf S ms
      · rw [if_pos member, Option.some_or]
      · rw [if_neg member, Option.none_or, describes.omitted i member]

theorem readInside_eq_ok_iff {ms : List Member} (proper : ∀ m ∈ ms, m.Proper) {d : Draft S}
    {rest : List Lexeme} :
    readInside S ((insideObject ms).map Symbol.lexeme) = .ok (d, rest) ↔
      rest = [] ∧ (Draft.empty : Draft S).TakesAll ms d := by
  cases ms with
  | nil =>
    have none : readMembers .empty ((afterMember []).map Symbol.lexeme) = .ok (d, rest) ↔
        rest = [] ∧ Draft.empty.TakesAll [] d := readMembers_eq_ok_iff proper
    rwa [afterMember, List.map_cons, List.map_nil, Symbol.lexeme, readMembers] at none
  | cons m ms =>
    obtain ⟨first, others⟩ := List.forall_mem_cons.1 proper
    rw [insideObject, List.map_append, readInside, bind_eq_ok_iff, Draft.TakesAll]
    · constructor
      · rintro ⟨⟨e, rest'⟩, read, all⟩
        obtain ⟨rfl, takes⟩ := (readMember_eq_ok_iff first).1 read
        obtain ⟨past, all⟩ := (readMembers_eq_ok_iff others).1 all
        exact ⟨past, e, takes, all⟩
      · rintro ⟨past, e, takes, all⟩
        exact ⟨(e, _), (readMember_eq_ok_iff first).2 ⟨rfl, takes⟩,
          (readMembers_eq_ok_iff others).2 ⟨past, all⟩⟩
    · rintro tail ⟨⟩

theorem readObject_eq_ok_iff {ms : List Member} (proper : ∀ m ∈ ms, m.Proper) {r : S.Record}
    {rest : List Lexeme} :
    readObject S ((insideObject ms).map Symbol.lexeme) = .ok (r, rest) ↔
      rest = [] ∧ Describes S ms r := by
  rw [readObject, bind_eq_ok_iff, ← exists_takesAll_iff]
  simp only [bind_eq_ok_iff, pure, Except.pure, Except.ok.injEq, Prod.mk.injEq, Prod.exists,
    readInside_eq_ok_iff proper, Draft.finish_eq_ok_iff]
  constructor
  · rintro ⟨d, _, ⟨rfl, takes⟩, r, values, rfl, rfl⟩
    exact ⟨rfl, d, takes, values⟩
  · rintro ⟨rfl, d, takes, values⟩
    exact ⟨d, [], ⟨rfl, takes⟩, r, values, rfl, rfl⟩

theorem readRecord_object_iff {ms : List Member} (proper : ∀ m ∈ ms, m.Proper) {r : S.Record} :
    readRecord S ((object ms).map Symbol.lexeme) = .ok r ↔ Describes S ms r := by
  rw [object, List.map_cons, Symbol.lexeme, readRecord, bind_eq_ok_iff]
  simp only [Prod.exists, readObject_eq_ok_iff proper]
  constructor
  · rintro ⟨r, _, ⟨rfl, describes⟩, ⟨⟩⟩
    exact describes
  · intro describes
    exact ⟨r, [], ⟨rfl, describes⟩, rfl⟩

/-! ## Arrays -/

theorem Scalar.lexeme_ne {v : Symbol} (scalar : Scalar v) : v.lexeme ≠ .closeBracket := by
  cases v with
  | closeBracket => cases scalar.wellFormed
  | _ => rintro ⟨⟩

theorem readElements_first (d : Draft S) (i : ι) (fields : List ι) {l : Lexeme}
    (other : l ≠ .closeBracket) (ls : List Lexeme) :
    readElements d true (i :: fields) (l :: ls) =
      d.put l i >>= fun d => readElements d false fields ls := by
  rw [readElements]
  exact fun same => absurd same other

theorem readElements_next (d : Draft S) (i : ι) (fields : List ι) {l : Lexeme}
    (other : l ≠ .closeBracket) (ls : List Lexeme) :
    readElements d false (i :: fields) (.comma :: l :: ls) =
      d.put l i >>= fun d => readElements d false fields ls := by
  rw [readElements]
  exact fun same => other same

theorem put_eq_ok_iff {d d' : Draft S} {l : Lexeme} {i : ι} :
    d.put l i = .ok d' ↔ ∃ x, readValue (S.kind i) l = .ok x ∧ d' = d.set i x := by
  rw [Draft.put, bind_eq_ok_iff]
  exact exists_congr fun x => and_congr_right fun _ =>
    ⟨fun h => (Except.ok.inj h).symm, fun h => h ▸ rfl⟩

def Elements (d : Draft S) (written : List ι) (vs : List Symbol) (r : S.Record) : Prop :=
  List.Forall₂ (fun i v => readValue (S.kind i) v.lexeme = .ok (r i)) written vs ∧
    ∀ i, i ∉ written → d.value? i = some (r i)

theorem elements_cons_iff {d : Draft S} {i : ι} {written : List ι} {v : Symbol} {vs : List Symbol}
    {r : S.Record} (new : i ∉ written) :
    Elements d (i :: written) (v :: vs) r ↔
      ∃ x, readValue (S.kind i) v.lexeme = .ok x ∧ Elements (d.set i x) written vs r := by
  have other : ∀ x j, i ≠ j → (d.set i x).value? j = d.value? j := fun x j ne => by
    rw [Draft.value?, Draft.set_of_ne d x ne, Draft.value?]
  have here : ∀ x, (d.set i x).value? i = some x := fun x => by
    rw [Draft.value?, Draft.set_self, Option.some_or]
  constructor
  · rintro ⟨values, others⟩
    obtain ⟨first, values⟩ := List.forall₂_cons.1 values
    refine ⟨r i, first, values, fun j h => ?_⟩
    by_cases same : i = j
    · rw [← same, here]
    · rw [other _ j same]
      exact others j (List.not_mem_cons_of_ne_of_not_mem (Ne.symm same) h)
  · rintro ⟨x, first, values, others⟩
    have value : x = r i := Option.some.inj ((here x).symm.trans (others i new))
    refine ⟨.cons (value ▸ first) values, fun j h => ?_⟩
    rw [List.mem_cons, not_or] at h
    rw [← others j h.2, other x j fun same => h.1 same.symm]

@[simp] theorem readElements_closeBracket (d : Draft S) (first : Bool) (fields : List ι) :
    readElements d first fields [.closeBracket] = .ok (d, [.closeBracket]) := by
  cases fields with
  | nil => rw [readElements]
  | cons i fields => cases first <;> rw [readElements]

section Elements

variable {written dropped : List ι} {vs : List Symbol} {d : Draft S}

theorem readElements_rest (scalar : ∀ v ∈ vs, Scalar v) (length : vs.length = written.length)
    {d' : Draft S} {rest : List Lexeme}
    (read : readElements d false (written ++ dropped) ((afterElement vs).map Symbol.lexeme) =
      .ok (d', rest)) : rest = [.closeBracket] := by
  induction vs generalizing written d with
  | nil =>
    obtain rfl : written = [] := List.length_eq_zero_iff.1 length.symm
    cases (readElements_closeBracket d false dropped).symm.trans read
    rfl
  | cons v vs ih =>
    obtain ⟨first, others⟩ := List.forall_mem_cons.1 scalar
    obtain ⟨i, written, rfl⟩ := List.exists_cons_of_length_eq_add_one length.symm
    rw [afterElement, List.map_cons, List.map_cons, Symbol.lexeme, List.cons_append,
      readElements_next d i _ first.lexeme_ne, bind_eq_ok_iff] at read
    obtain ⟨e, -, read⟩ := read
    exact ih others (Nat.succ.inj length) read

theorem readElements_iff (dropped : List ι) (scalar : ∀ v ∈ vs, Scalar v)
    (length : vs.length = written.length) (once : written.Nodup) {r : S.Record} :
    (∃ d' rest, readElements d false (written ++ dropped) ((afterElement vs).map Symbol.lexeme) =
        .ok (d', rest) ∧ ∀ i, d'.value? i = some (r i)) ↔ Elements d written vs r := by
  induction vs generalizing written d with
  | nil =>
    obtain rfl : written = [] := List.length_eq_zero_iff.1 length.symm
    constructor
    · rintro ⟨d', rest, read, values⟩
      cases (readElements_closeBracket d false dropped).symm.trans read
      exact ⟨.nil, fun i _ => values i⟩
    · rintro ⟨-, values⟩
      exact ⟨d, _, readElements_closeBracket d false dropped, fun i => values i List.not_mem_nil⟩
  | cons v vs ih =>
    obtain ⟨first, others⟩ := List.forall_mem_cons.1 scalar
    obtain ⟨i, written, rfl⟩ := List.exists_cons_of_length_eq_add_one length.symm
    obtain ⟨new, once⟩ := List.nodup_cons.1 once
    rw [elements_cons_iff new, afterElement, List.map_cons, List.map_cons, Symbol.lexeme,
      List.cons_append, readElements_next d i _ first.lexeme_ne]
    simp only [bind_eq_ok_iff, put_eq_ok_iff, ← ih others (Nat.succ.inj length) once]
    constructor
    · rintro ⟨d', rest, ⟨e, ⟨x, read, rfl⟩, all⟩, values⟩
      exact ⟨x, read, d', rest, all, values⟩
    · rintro ⟨x, read, d', rest, all, values⟩
      exact ⟨d', rest, ⟨_, ⟨x, read, rfl⟩, all⟩, values⟩

theorem readElements_inside (scalar : ∀ v ∈ vs, Scalar v) (length : vs.length = written.length) :
    readElements d true (written ++ dropped) ((insideArray vs).map Symbol.lexeme) =
      readElements d false (written ++ dropped) ((afterElement vs).map Symbol.lexeme) := by
  cases vs with
  | nil =>
    exact (readElements_closeBracket d true _).trans (readElements_closeBracket d false _).symm
  | cons v vs =>
    obtain ⟨i, written, rfl⟩ := List.exists_cons_of_length_eq_add_one length.symm
    have other := (scalar v List.mem_cons_self).lexeme_ne
    rw [insideArray, afterElement, List.map_cons, List.map_cons, List.map_cons, Symbol.lexeme,
      List.cons_append, readElements_first d i _ other, readElements_next d i _ other]

end Elements

theorem readRecord_array_iff {written dropped : List ι} {vs : List Symbol} {r : S.Record}
    (scalar : ∀ v ∈ vs, Scalar v) (fields : S.fields = written ++ dropped)
    (length : vs.length = written.length) :
    readRecord S ((array vs).map Symbol.lexeme) = .ok r ↔
      List.Forall₂ (fun i v => readValue (S.kind i) v.lexeme = .ok (r i)) written vs ∧
        ∀ i, i ∉ written → S.default? i = some (r i) := by
  have once : written.Nodup := (List.nodup_append.1 (fields ▸ S.nodup)).1
  show _ ↔ Elements Draft.empty written vs r
  rw [array, List.map_cons, Symbol.lexeme, readRecord, bind_eq_ok_iff, readArray, fields,
    readElements_inside scalar length, ← readElements_iff dropped scalar length once]
  simp only [bind_eq_ok_iff, Draft.finish_eq_ok_iff, Prod.exists]
  constructor
  · rintro ⟨r', rest', ⟨d, rest, read, r'', values, last⟩, past⟩
    cases readElements_rest scalar length read
    cases last
    cases past
    exact ⟨d, _, read, values⟩
  · rintro ⟨d, rest, read, values⟩
    cases readElements_rest scalar length read
    exact ⟨r, [], ⟨d, _, read, r, values, rfl⟩, rfl⟩

/-! ## Lists of fields and what they are given -/

theorem exists_of_mem_right {α β : Type} {R : α → β → Prop} {as : List α} {bs : List β}
    (all : List.Forall₂ R as bs) {b : β} (member : b ∈ bs) : ∃ a ∈ as, R a b := by
  induction all with
  | nil => cases member
  | cons here _ ih =>
    rcases List.mem_cons.1 member with rfl | inside
    · exact ⟨_, List.mem_cons_self, here⟩
    · obtain ⟨a, before, there⟩ := ih inside
      exact ⟨a, List.mem_cons_of_mem _ before, there⟩

theorem forall₂_of_mem {α β : Type} {R R' : α → β → Prop} {as : List α} {bs : List β}
    (all : List.Forall₂ R as bs) (imp : ∀ b ∈ bs, ∀ a, R a b → R' a b) : List.Forall₂ R' as bs := by
  induction all with
  | nil => exact .nil
  | cons here _ ih =>
    obtain ⟨first, others⟩ := List.forall_mem_cons.1 imp
    exact .cons (first _ here) (ih others)

instance (k : Kind) : Inhabited k.Value := by
  cases k
  · exact inferInstanceAs (Inhabited Nat)
  · exact inferInstanceAs (Inhabited Int)
  · exact inferInstanceAs (Inhabited Binary32)
  · exact inferInstanceAs (Inhabited Bool)

theorem exists_record {β : Type} {p : (i : ι) → β → (S.kind i).Value → Prop} {fields : List ι}
    {bs : List β} (once : fields.Nodup) (each : List.Forall₂ (fun i b => ∃ v, p i b v) fields bs) :
    ∃ r : S.Record, List.Forall₂ (fun i b => p i b (r i)) fields bs := by
  induction each with
  | nil => exact ⟨fun _ => default, .nil⟩
  | @cons i b fields bs first _ ih =>
    obtain ⟨new, once⟩ := List.nodup_cons.1 once
    obtain ⟨r, others⟩ := ih once
    obtain ⟨v, here⟩ := first
    refine ⟨Function.update r i v, .cons (by rwa [Function.update_self]) ?_⟩
    refine (List.forall₂_and_left _ _ |>.2 ⟨fun j h => h, others⟩).imp ?_
    rintro j b ⟨member, holds⟩
    have other : j ≠ i := fun same => new (same ▸ member)
    rwa [Function.update_of_ne other]

/-! ## The laws -/

theorem writable_of_mem_object {ms : List Member} (proper : ∀ m ∈ ms, m.Proper) :
    ∀ s ∈ object ms, s.Writable := by
  have after : ∀ ms : List Member, (∀ m ∈ ms, m.Proper) → ∀ s ∈ afterMember ms, s.Writable := by
    intro ms proper
    induction ms with
    | nil => exact fun s h => List.mem_singleton.1 h ▸ ⟨_, .closeBrace⟩
    | cons m ms ih =>
      obtain ⟨first, others⟩ := List.forall_mem_cons.1 proper
      exact List.forall_mem_cons.2 ⟨⟨_, .comma⟩, List.forall_mem_append.2 ⟨first.writable, ih others⟩⟩
  refine List.forall_mem_cons.2 ⟨⟨_, .openBrace⟩, ?_⟩
  cases ms with
  | nil => exact after [] proper
  | cons m ms =>
    obtain ⟨first, others⟩ := List.forall_mem_cons.1 proper
    exact List.forall_mem_append.2 ⟨first.writable, after ms others⟩

theorem writable_of_mem_array {vs : List Symbol} (scalar : ∀ v ∈ vs, Scalar v) :
    ∀ s ∈ array vs, s.Writable := by
  have after : ∀ vs : List Symbol, (∀ v ∈ vs, Scalar v) → ∀ s ∈ afterElement vs, s.Writable := by
    intro vs scalar
    induction vs with
    | nil => exact fun s h => List.mem_singleton.1 h ▸ ⟨_, .closeBracket⟩
    | cons v vs ih =>
      obtain ⟨first, others⟩ := List.forall_mem_cons.1 scalar
      exact List.forall_mem_cons.2 ⟨⟨_, .comma⟩, List.forall_mem_cons.2 ⟨first.writable, ih others⟩⟩
  refine List.forall_mem_cons.2 ⟨⟨_, .openBracket⟩, ?_⟩
  cases vs with
  | nil => exact after [] scalar
  | cons v vs =>
    obtain ⟨first, others⟩ := List.forall_mem_cons.1 scalar
    exact List.forall_mem_cons.2 ⟨first.writable, after vs others⟩

theorem reads_iff {symbols : List Symbol} (writable : ∀ s ∈ symbols, s.Writable) {r : S.Record} :
    (∀ text : String, Spells symbols text.toList → reader.read S text = .ok r) ↔
      readRecord S (symbols.map Symbol.lexeme) = .ok r := by
  have lexemes : ∀ text : String, Spells symbols text.toList →
      reader.read S text = readRecord S (symbols.map Symbol.lexeme) := fun text spells =>
    congrArg (readRecord S) (Lexeme.all_of_spells spells)
  obtain ⟨text, spells⟩ := exists_spells writable
  exact ⟨fun h => (lexemes text spells).symm.trans (h text spells),
    fun h text spells => (lexemes text spells).trans h⟩

theorem readsObject_iff {ms : List Member} (proper : ∀ m ∈ ms, m.Proper) {r : S.Record} :
    reader.ReadsObject S ms r ↔ Describes S ms r :=
  (reads_iff (writable_of_mem_object proper)).trans (readRecord_object_iff proper)

theorem readsArray_iff {written dropped : List ι} {vs : List Symbol} {r : S.Record}
    (scalar : ∀ v ∈ vs, Scalar v) (fields : S.fields = written ++ dropped)
    (length : vs.length = written.length) :
    reader.ReadsArray S vs r ↔
      List.Forall₂ (fun i v => readValue (S.kind i) v.lexeme = .ok (r i)) written vs ∧
        ∀ i, i ∉ written → S.default? i = some (r i) :=
  (reads_iff (writable_of_mem_array scalar)).trans (readRecord_array_iff scalar fields length)

theorem reader_declared {ms : List Member} (proper : ∀ m ∈ ms, m.Proper)
    (gives : List.Forall₂ (fun i m => ∃ v, S.Gives i m v) S.fields ms) :
    ∃ r, reader.ReadsObject S ms r ∧ List.Forall₂ (fun i m => S.Gives i m (r i)) S.fields ms := by
  obtain ⟨r, all⟩ := exists_record S.nodup
    (forall₂_of_mem gives fun m h i ⟨v, gives⟩ => exists_readsAs (proper m h) gives)
  have fields : fieldsOf S ms = S.fields := fieldsOf_eq (all.imp fun i m h => h.2.named)
  refine ⟨r, (readsObject_iff proper).2 ⟨fields ▸ S.nodup, fun m h i field => ?_, fun i absent => ?_⟩,
    all.imp fun i m h => h.2⟩
  · obtain ⟨j, -, reads, gives⟩ := exists_of_mem_right all h
    obtain rfl : j = i := Option.some.inj ((Member.field?_eq_some_iff.2 gives.named).symm.trans field)
    exact reads
  · exact absurd (fields ▸ S.complete i) absent

theorem reader_reordered {ms ms' : List Member} {r : S.Record} (proper : ∀ m ∈ ms, m.Proper)
    (perm : ms.Perm ms') (reads : reader.ReadsObject S ms r) : reader.ReadsObject S ms' r := by
  have describes := (readsObject_iff proper).1 reads
  refine (readsObject_iff fun m h => proper m (perm.mem_iff.2 h)).2 ⟨?_, ?_, ?_⟩
  · exact (perm.filterMap _).nodup_iff.1 describes.once
  · exact fun m h => describes.given m (perm.mem_iff.2 h)
  · exact fun i absent => describes.omitted i fun member =>
      absent ((perm.filterMap _).mem_iff.1 member)

theorem reader_ignored {m : Member} {ms : List Member} {r : S.Record}
    (proper : ∀ m' ∈ m :: ms, m'.Proper) (other : ∀ i, m.name? ≠ some (S.name i))
    (reads : reader.ReadsObject S ms r) : reader.ReadsObject S (m :: ms) r := by
  have describes := (readsObject_iff (List.forall_mem_cons.1 proper).2).1 reads
  have field : m.field? S = none :=
    Option.eq_none_iff_forall_ne_some.2 fun i found => other i (Member.field?_eq_some_iff.1 found)
  have fields : fieldsOf S (m :: ms) = fieldsOf S ms := List.filterMap_cons_none field
  refine (readsObject_iff proper).2 ⟨fields ▸ describes.once, ?_, fields ▸ describes.omitted⟩
  refine List.forall_mem_cons.2 ⟨fun i found => ?_, describes.given⟩
  rw [field] at found
  cases found

theorem reader_defaulted {i : ι} {v : (S.kind i).Value} {m : Member} {ms : List Member}
    {r : S.Record} (proper : ∀ m' ∈ m :: ms, m'.Proper) (named : m.name? = some (S.name i))
    (default : S.default? i = some v) (reads : reader.ReadsObject S (m :: ms) r) :
    reader.ReadsObject S ms (Function.update r i v) := by
  have describes := (readsObject_iff proper).1 reads
  have fields : fieldsOf S (m :: ms) = i :: fieldsOf S ms :=
    List.filterMap_cons_some (Member.field?_eq_some_iff.2 named)
  obtain ⟨new, once⟩ := List.nodup_cons.1 (fields ▸ describes.once)
  refine (readsObject_iff (List.forall_mem_cons.1 proper).2).2 ⟨once, fun m' h j field => ?_,
    fun j absent => ?_⟩
  · have other : j ≠ i := fun same => new (same ▸ List.mem_filterMap.2 ⟨m', h, field⟩)
    rw [Function.update_of_ne other]
    exact describes.given m' (List.mem_cons_of_mem _ h) j field
  · by_cases same : j = i
    · subst same
      rw [default, Function.update_self]
    · rw [Function.update_of_ne same]
      refine describes.omitted j ?_
      rw [fields]
      exact List.not_mem_cons_of_ne_of_not_mem same absent

theorem reader_elements {vs : List Symbol} (scalar : ∀ v ∈ vs, Scalar v)
    (reads : List.Forall₂ (fun i v => ∃ x, (S.kind i).Reads v x) S.fields vs) :
    ∃ r, reader.ReadsArray S vs r ∧
      List.Forall₂ (fun i v => (S.kind i).Reads v (r i)) S.fields vs := by
  obtain ⟨r, all⟩ := exists_record S.nodup
    (forall₂_of_mem reads fun v h i ⟨x, reads⟩ => readValue_of_reads reads (scalar v h).writable)
  refine ⟨r, (readsArray_iff scalar (List.append_nil _).symm reads.length_eq.symm).2
    ⟨all.imp fun i v h => h.1, fun i absent => absurd (S.complete i) absent⟩, all.imp fun i v h => h.2⟩

theorem reader_ended {written dropped : List ι} {i : ι} {v : (S.kind i).Value} {vs : List Symbol}
    {w : Symbol} {r : S.Record} (scalar : ∀ v' ∈ vs ++ [w], Scalar v')
    (fields : S.fields = written ++ i :: dropped) (length : vs.length = written.length)
    (default : S.default? i = some v) (reads : reader.ReadsArray S (vs ++ [w]) r) :
    reader.ReadsArray S vs (Function.update r i v) := by
  have new : i ∉ written := fun old =>
    (List.nodup_append.1 (fields ▸ S.nodup)).2.2 i old i List.mem_cons_self rfl
  have longer : S.fields = (written ++ [i]) ++ dropped := by rw [fields, List.append_cons]
  obtain ⟨values, others⟩ := (readsArray_iff scalar longer (by simp [length])).1 reads
  refine (readsArray_iff (List.forall_mem_append.1 scalar).1 fields length).2
    ⟨?_, fun j absent => ?_⟩
  · have front := List.forall₂_take_append _ _ _ values
    rw [length, List.take_left] at front
    refine ((List.forall₂_and_left written vs).2 ⟨fun j h => h, front⟩).imp fun j v' h => ?_
    have other : j ≠ i := fun same => new (same ▸ h.1)
    rw [Function.update_of_ne other]
    exact h.2
  · by_cases same : j = i
    · subst same
      rw [default, Function.update_self]
    · rw [Function.update_of_ne same]
      exact others j (by simp [absent, same])

/-- The reader keeps what it documents. -/
theorem reader_documented : reader.Documented where
  declared := reader_declared
  reordered := reader_reordered
  ignored := reader_ignored
  defaulted := reader_defaulted
  elements := reader_elements
  ended := reader_ended

end TokenSearch.Json
