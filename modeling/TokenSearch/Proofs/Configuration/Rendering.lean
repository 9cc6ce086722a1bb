import TokenSearch.Configuration.Reader
import TokenSearch.Proofs.Json.Record

/-!
Configurations as JSON text. An object has the settings in any order, with members that are no
settings between them; an array has them in their declared order. Settings that hold their default
may be left out, in an array from some setting on. Every reader that keeps its laws reads such a
text back as the configuration it was written from.

The laws lead from a full object in the declared order, or a full array, to the text at hand: the
settings that are left out are first written with any value and then taken away one by one.
-/

namespace TokenSearch

open Json (NumberText Symbol Member Scalar)

/-! ## Values -/

namespace Kind

/-- Sizes are words of 64 bits, tokens signed words of 32, and numbers are finite. -/
def Fits : (k : Kind) → k.Value → Prop
  | .size, n => n < 2 ^ 64
  | .token, t => -2 ^ 31 ≤ t ∧ t < 2 ^ 31
  | .number, x => x.isFinite = true
  | .flag, _ => True

/-- One symbol writes a value. How numbers are rounded is left open; a token is in the vocabulary
and so has no sign. -/
def Writes (rounds : NumberText → Binary32 → Prop) : (k : Kind) → k.Value → Symbol → Prop
  | .size, n, symbol => ∃ t, symbol = .number t ∧ t.IsInteger false n
  | .token, t, symbol => ∃ text n, symbol = .number text ∧ text.IsInteger false n ∧ t = (n : Int)
  | .number, x, symbol => ∃ t, symbol = .number t ∧ rounds t x
  | .flag, b, symbol => symbol = .boolean b

variable {k : Kind} {v v' : k.Value} {symbol : Symbol}
  {rounds : NumberText → Binary32 → Prop}

theorem reads_of_writes (fits : k.Fits v) (writes : k.Writes NumberText.RoundsTo v symbol) :
    k.Reads symbol v := by
  cases k with
  | size =>
    obtain ⟨t, rfl, integer⟩ := writes
    exact ⟨t, rfl, integer, fits⟩
  | token =>
    obtain ⟨text, n, rfl, integer, rfl⟩ := writes
    exact ⟨text, n, rfl, integer, Int.ofNat_lt.1 fits.2, rfl⟩
  | number =>
    obtain ⟨t, rfl, rounds⟩ := writes
    exact ⟨t, rfl, rounds.readAs fits⟩
  | flag => exact writes

theorem eq_of_reads (writes : k.Writes NumberText.RoundsTo v symbol) (reads : k.Reads symbol v') :
    v' = v := by
  cases k with
  | size =>
    obtain ⟨t, rfl, integer⟩ := writes
    obtain ⟨_, ⟨⟩, integer', -⟩ := reads
    exact integer'.unique integer
  | token =>
    obtain ⟨text, n, rfl, integer, rfl⟩ := writes
    obtain ⟨_, n', ⟨⟩, integer', -, rfl⟩ := reads
    rw [integer'.unique integer]
  | number =>
    obtain ⟨t, rfl, rounds⟩ := writes
    obtain ⟨_, ⟨⟩, reads⟩ := reads
    exact rounds.unique reads
  | flag =>
    cases writes
    cases reads
    rfl

theorem wellFormed_of_writes (writes : k.Writes rounds v symbol) :
    Json.WellFormed .value [symbol] := by
  cases k with
  | size | number =>
    obtain ⟨t, rfl, -⟩ := writes
    exact .number t
  | token =>
    obtain ⟨t, n, rfl, -⟩ := writes
    exact .number t
  | flag =>
    cases writes
    exact .boolean v

end Kind

namespace Configuration

/-! ## Texts of a configuration -/

def values (c : Configuration) : schema.Record
  | .batchSize => c.batchSize
  | .numBeams => c.numBeams
  | .vocabSize => c.vocabSize
  | .maxLength => c.maxLength
  | .eosToken => c.eosToken
  | .padToken => c.padToken
  | .minLength => c.minLength
  | .repetitionPenalty => c.repetitionPenalty
  | .lengthPenalty => c.lengthPenalty
  | .earlyStopping => c.earlyStopping
  | .numReturned => c.numReturned

def plain (c : Configuration) : Configuration :=
  { batchSize := c.batchSize
    vocabSize := c.vocabSize
    maxLength := c.maxLength
    eosToken := c.eosToken
    padToken := c.padToken }

structure Omits (c : Configuration) (s : Setting) : Prop where
  optional : s ∉ [.batchSize, .vocabSize, .maxLength, .eosToken, .padToken]
  default : c.plain.values s = c.values s

structure Gives (rounds : NumberText → Binary32 → Prop) (c : Configuration) (s : Setting)
    (m : Member) : Prop where
  named : m.name? = some s.name
  writes : ∃ symbol, m.value = [symbol] ∧ s.kind.Writes rounds (c.values s) symbol

structure Unknown (m : Member) : Prop where
  named : ∃ name, m.name? = some name ∧ ∀ s : Setting, s.name ≠ name
  wellFormed : Json.WellFormed .value m.value

inductive RendersAs (rounds : NumberText → Binary32 → Prop) (c : Configuration) :
    List Symbol → Prop
  | object {written : List Setting} {given others members : List Member} : written.Nodup →
    List.Forall₂ (Gives rounds c) written given → (∀ m ∈ others, Unknown m) →
    (given ++ others).Perm members → (∀ s, s ∉ written → c.Omits s) →
    RendersAs rounds c (Json.object members)
  | array {written dropped : List Setting} {vs : List Symbol} : Setting.all = written ++ dropped →
    List.Forall₂ (fun s v => s.kind.Writes rounds (c.values s) v) written vs →
    (∀ s ∈ dropped, c.Omits s) → RendersAs rounds c (Json.array vs)

/-- A text of a configuration, with any blanks between its symbols. -/
def Renders (rounds : NumberText → Binary32 → Prop) (c : Configuration) (text : String) : Prop :=
  ∃ symbols, c.RendersAs rounds symbols ∧ Json.Spells symbols text.toList

variable {c : Configuration} {s : Setting}

@[simp] theorem ofRecord_values (c : Configuration) : ofRecord c.values = c := rfl

theorem default?_of_omits (omits : c.Omits s) : schema.default? s = some (c.values s) := by
  obtain ⟨optional, default⟩ := omits
  cases s with
  | batchSize | vocabSize | maxLength | eosToken | padToken => exact absurd (by decide) optional
  | _ => exact congrArg some default

/-! ## Numerals -/

def IsNumeral (cs : List Char) : Prop :=
  cs ≠ [] ∧ cs.all Char.isDigit = true ∧ (cs.head? = some '0' → cs.length = 1)

instance : DecidablePred IsNumeral := fun _ => inferInstanceAs (Decidable (_ ∧ _ ∧ _))

def numeral (cs : List Char) : NumberText := ⟨false, cs.map Json.Lexeme.digit, [], false, []⟩

def decimal (whole fraction : List Char) : NumberText :=
  { numeral whole with fraction := fraction.map Json.Lexeme.digit }

theorem writes_numeral {cs : List Char} (isNumeral : IsNumeral cs) :
    Json.Writes (.number (numeral cs)) cs := by
  obtain ⟨some, digits, single⟩ := isNumeral
  have writes := Json.WritesNumber.mk (.head _) ⟨some, List.all_eq_true.1 digits⟩ single .none .none
  rw [List.nil_append, List.nil_append, List.append_nil] at writes
  exact .number writes

theorem writes_decimal {whole fraction : List Char} (isNumeral : IsNumeral whole)
    (some' : fraction ≠ []) (digits' : fraction.all Char.isDigit = true) :
    Json.Writes (.number (decimal whole fraction)) (whole ++ '.' :: fraction) := by
  obtain ⟨some, digits, single⟩ := isNumeral
  have writes := Json.WritesNumber.mk (.head _) ⟨some, List.all_eq_true.1 digits⟩ single
    (.some ⟨some', List.all_eq_true.1 digits'⟩) .none
  rw [List.nil_append, List.append_nil] at writes
  exact .number writes

/-! ## What stands in for a setting that is left out -/

def standIn : Kind → Symbol
  | .flag => .boolean true
  | _ => .number (numeral ['0'])

theorem scalar_standIn (k : Kind) : Scalar (standIn k) := by
  have zero : Json.Writes (.number (numeral ['0'])) ['0'] := writes_numeral (by decide)
  cases k with
  | flag => exact ⟨.boolean true, _, .yes⟩
  | _ => exact ⟨.number _, _, zero⟩

theorem exists_reads_standIn (k : Kind) : ∃ v, k.Reads (standIn k) v := by
  have zero : (numeral ['0']).IsInteger false 0 := ⟨rfl, rfl, rfl, rfl⟩
  cases k with
  | size => exact ⟨_, _, rfl, zero, by decide⟩
  | token => exact ⟨_, _, _, rfl, zero, by decide, rfl⟩
  | number => exact ⟨_, _, rfl, .natural zero (by decide)⟩
  | flag => exact ⟨true, rfl⟩

def standInMember (s : Setting) : Member := ⟨s.name.toList.map .inr, [standIn s.kind]⟩

theorem characters?_plain (cs : List Char) :
    Json.Lexeme.characters? (cs.map .inr) = some cs := by
  induction cs with
  | nil => rfl
  | cons c cs ih =>
    rw [List.map_cons, Json.Lexeme.characters?, ih]
    rfl

@[simp] theorem name?_standInMember (s : Setting) : (standInMember s).name? = some s.name := by
  rw [Member.name?, standInMember, characters?_plain, Option.map_some, String.ofList_toList]

theorem writesString_plain {cs : List Char}
    (plain : cs.all (fun c => c ≠ '"' ∧ c ≠ '\\' ∧ 0x20 ≤ c.toNat) = true) :
    Json.WritesString (cs.map .inr) cs := by
  induction cs with
  | nil => exact .done
  | cons c cs ih =>
    rw [List.all_cons, Bool.and_eq_true, decide_eq_true_eq] at plain
    obtain ⟨⟨quote, backslash, printable⟩, others⟩ := plain
    exact .plain quote backslash printable (ih others)

theorem proper_standInMember (s : Setting) : (standInMember s).Proper where
  named := by simp
  wellFormed := (scalar_standIn s.kind).wellFormed
  writable := by
    have key : Json.WritesString (s.name.toList.map .inr) s.name.toList :=
      writesString_plain (by cases s <;> decide)
    exact List.forall_mem_cons.2 ⟨⟨_, .text key⟩, List.forall_mem_cons.2 ⟨⟨_, .colon⟩,
      List.forall_mem_singleton.2 (scalar_standIn s.kind).writable⟩⟩

theorem exists_gives_standInMember (s : Setting) :
    ∃ v, schema.Gives s (standInMember s) v := by
  obtain ⟨v, reads⟩ := exists_reads_standIn s.kind
  exact ⟨v, name?_standInMember s, _, rfl, reads⟩

/-! ## Members that are written -/

theorem exists_writes_of_mem {symbols : List Symbol} {cs : List Char}
    (spells : Json.Spells symbols cs) : ∀ s ∈ symbols, s.Writable := by
  induction spells with
  | done => exact List.forall_mem_nil _
  | blank _ _ ih => exact ih
  | symbol writes _ _ ih => exact List.forall_mem_cons.2 ⟨⟨_, writes⟩, ih⟩

theorem mem_object {m : Member} {ms : List Member} (member : m ∈ ms) {symbol : Symbol}
    (inside : symbol ∈ m.symbols) : symbol ∈ Json.object ms := by
  have after : ∀ ms : List Member, m ∈ ms → symbol ∈ Json.afterMember ms := by
    intro ms member
    induction ms with
    | nil => cases member
    | cons m' ms ih =>
      refine List.mem_cons_of_mem _ (List.mem_append.2 ?_)
      rcases List.mem_cons.1 member with rfl | later
      · exact .inl inside
      · exact .inr (ih later)
  refine List.mem_cons_of_mem _ ?_
  cases ms with
  | nil => cases member
  | cons m' ms =>
    refine List.mem_append.2 ?_
    rcases List.mem_cons.1 member with rfl | later
    · exact .inl inside
    · exact .inr (after ms later)

theorem mem_array {v : Symbol} {vs : List Symbol} (member : v ∈ vs) : v ∈ Json.array vs := by
  have after : ∀ vs : List Symbol, v ∈ vs → v ∈ Json.afterElement vs := by
    intro vs member
    induction vs with
    | nil => cases member
    | cons v' vs ih =>
      refine List.mem_cons_of_mem _ (List.mem_cons.2 ?_)
      exact (List.mem_cons.1 member).imp id ih
  refine List.mem_cons_of_mem _ ?_
  cases vs with
  | nil => cases member
  | cons v' vs => exact List.mem_cons.2 ((List.mem_cons.1 member).imp id (after vs))

section Laws

variable {R : RecordReader} (documented : R.Documented)
include documented

/-! ## Objects -/

/-- Stand-ins are taken away one by one, and each leaves its setting to the default. -/
theorem readsObject_without {missing : List Setting} {given : List Member} {r : schema.Record}
    (proper : ∀ m ∈ given, m.Proper) (omits : ∀ s ∈ missing, c.Omits s)
    (others : ∀ s, s ∉ missing → r s = c.values s)
    (reads : R.ReadsObject schema (missing.map standInMember ++ given) r) :
    R.ReadsObject schema given c.values := by
  induction missing generalizing r with
  | nil =>
    have same : r = c.values := funext fun s => others s List.not_mem_nil
    exact same ▸ reads
  | cons s missing ih =>
    obtain ⟨here, omits⟩ := List.forall_mem_cons.1 omits
    have proper' : ∀ m ∈ (s :: missing).map standInMember ++ given, m.Proper :=
      List.forall_mem_append.2 ⟨List.forall_mem_map.2 fun s _ => proper_standInMember s, proper⟩
    refine ih omits (fun t absent => ?_)
      (documented.defaulted proper' (name?_standInMember s) (default?_of_omits here) reads)
    by_cases same : t = s
    · subst same
      rw [Function.update_self]
    · rw [Function.update_of_ne same, others t (List.not_mem_cons_of_ne_of_not_mem same absent)]

theorem readsObject_with_unknown {others given : List Member} {r : schema.Record}
    (proper : ∀ m ∈ others ++ given, m.Proper) (unknown : ∀ m ∈ others, Unknown m)
    (reads : R.ReadsObject schema given r) : R.ReadsObject schema (others ++ given) r := by
  induction others with
  | nil => exact reads
  | cons m others ih =>
    obtain ⟨here, unknown⟩ := List.forall_mem_cons.1 unknown
    obtain ⟨name, named, other⟩ := here.named
    refine documented.ignored proper (fun s same => other s ?_)
      (ih (List.forall_mem_cons.1 proper).2 unknown)
    exact Option.some.inj (same.symm.trans named)

theorem exists_readsObject {written missing : List Setting} {given : List Member}
    (fits : ∀ s : Setting, s.kind.Fits (c.values s)) (proper : ∀ m ∈ given, m.Proper)
    (whole : Setting.all.Perm (missing ++ written))
    (gives : List.Forall₂ (Gives NumberText.RoundsTo c) written given) :
    ∃ r, R.ReadsObject schema (missing.map standInMember ++ given) r ∧
      ∀ s ∈ written, r s = c.values s := by
  have proper' : ∀ m ∈ missing.map standInMember ++ given, m.Proper :=
    List.forall_mem_append.2 ⟨List.forall_mem_map.2 fun s _ => proper_standInMember s, proper⟩
  have standIns : List.Forall₂ (fun s m => ∃ v, schema.Gives s m v) missing
      (missing.map standInMember) :=
    List.forall₂_map_right_iff.2 (List.forall₂_same.2 fun s _ => exists_gives_standInMember s)
  have values : List.Forall₂ (fun s m => ∃ v, schema.Gives s m v) written given :=
    gives.imp fun s m ⟨named, symbol, value, writes⟩ =>
      ⟨_, named, symbol, value, Kind.reads_of_writes (fits s) writes⟩
  obtain ⟨ordered, declared, perm⟩ := List.perm_comp_forall₂ whole (List.rel_append standIns values)
  obtain ⟨r, reads, readAs⟩ :=
    documented.declared (fun m h => proper' m (perm.mem_iff.1 h)) declared
  refine ⟨r, documented.reordered (fun m h => proper' m (perm.mem_iff.1 h)) perm reads,
    fun s member => ?_⟩
  -- Its own member is among those in order, and gives no other setting.
  obtain ⟨m, inside, named, symbol, value, writes⟩ := Json.exists_of_mem_right gives.flip member
  obtain ⟨t, -, named', symbol', value', reads'⟩ := Json.exists_of_mem_right readAs
    (perm.mem_iff.2 (List.mem_append_right _ inside))
  obtain rfl : t = s := Setting.name_inj (Option.some.inj (named'.symm.trans named))
  obtain rfl : symbol' = symbol := List.singleton_inj.1 (value'.symm.trans value)
  exact Kind.eq_of_reads writes reads'

theorem readsObject_of_renders {written : List Setting} {given others members : List Member}
    (fits : ∀ s : Setting, s.kind.Fits (c.values s)) (proper : ∀ m ∈ members, m.Proper)
    (once : written.Nodup) (gives : List.Forall₂ (Gives NumberText.RoundsTo c) written given)
    (unknown : ∀ m ∈ others, Unknown m) (perm : (given ++ others).Perm members)
    (omits : ∀ s, s ∉ written → c.Omits s) : R.ReadsObject schema members c.values := by
  let missing := Setting.all.filter fun s => s ∉ written
  have mem_missing : ∀ s, s ∈ missing ↔ s ∉ written := fun s => by
    simp [missing, Setting.mem_all]
  have whole : Setting.all.Perm (missing ++ written) := by
    have once' : (missing ++ written).Nodup :=
      List.nodup_append.2 ⟨schema.nodup.filter _, once, fun s h t h' same =>
        (mem_missing s).1 h (same ▸ h')⟩
    refine (List.perm_ext_iff_of_nodup schema.nodup once').2 fun s =>
      iff_of_true (schema.complete s) (List.mem_append.2 ?_)
    exact (Decidable.em (s ∈ written)).symm.imp (mem_missing s).2 id
  have proper' : ∀ m ∈ given ++ others, m.Proper := fun m h => proper m (perm.mem_iff.1 h)
  obtain ⟨properGiven, properOthers⟩ := List.forall_mem_append.1 proper'
  obtain ⟨r, reads, values⟩ := exists_readsObject documented fits properGiven whole gives
  have alone := readsObject_without documented properGiven
    (fun s h => omits s ((mem_missing s).1 h))
    (fun s h => values s (Decidable.not_not.1 fun absent => h ((mem_missing s).2 absent))) reads
  have swapped : ∀ m ∈ others ++ given, m.Proper := List.forall_mem_append.2 ⟨properOthers, properGiven⟩
  exact documented.reordered swapped (List.perm_append_comm.trans perm)
    (readsObject_with_unknown documented swapped unknown alone)

/-! ## Arrays -/

theorem readsArray_without {written : List Setting} {vs : List Symbol}
    (scalar : ∀ v ∈ vs, Scalar v) (length : vs.length = written.length)
    {dropped rest : List Setting} (whole : Setting.all = written ++ (dropped ++ rest))
    (omits : ∀ s ∈ dropped, c.Omits s) {r : schema.Record}
    (others : ∀ s, s ∉ dropped → r s = c.values s)
    (reads : R.ReadsArray schema (vs ++ dropped.map fun s => standIn s.kind) r) :
    R.ReadsArray schema vs c.values := by
  induction dropped using List.reverseRecOn generalizing rest r with
  | nil =>
    have same : r = c.values := funext fun s => others s List.not_mem_nil
    rw [← same]
    simpa using reads
  | append_singleton dropped s ih =>
    obtain ⟨omits, here⟩ := List.forall_mem_append.1 omits
    have scalars : ∀ v ∈ vs ++ (dropped ++ [s]).map fun s => standIn s.kind, Scalar v :=
      List.forall_mem_append.2 ⟨scalar, List.forall_mem_map.2 fun s _ => scalar_standIn s.kind⟩
    rw [List.map_append, List.map_cons, List.map_nil, ← List.append_assoc] at reads scalars
    have whole' : Setting.all = written ++ (dropped ++ (s :: rest)) := by
      rw [whole, List.append_assoc, List.singleton_append]
    have fields : schema.fields = (written ++ dropped) ++ s :: rest :=
      whole'.trans (List.append_assoc _ _ _).symm
    have shorter := documented.ended scalars fields (by simp [length])
      (default?_of_omits (here s List.mem_cons_self)) reads
    refine ih whole' omits (fun t absent => ?_) shorter
    by_cases same : t = s
    · subst same
      rw [Function.update_self]
    · rw [Function.update_of_ne same, others t (by simp [absent, same])]

theorem readsArray_of_renders {written dropped : List Setting} {vs : List Symbol}
    (fits : ∀ s : Setting, s.kind.Fits (c.values s)) (scalar : ∀ v ∈ vs, Scalar v)
    (whole : Setting.all = written ++ dropped)
    (writes : List.Forall₂ (fun s v => s.kind.Writes NumberText.RoundsTo (c.values s) v) written vs)
    (omits : ∀ s ∈ dropped, c.Omits s) : R.ReadsArray schema vs c.values := by
  have standIns : List.Forall₂ (fun s v => ∃ x, s.kind.Reads v x) dropped
      (dropped.map fun s => standIn s.kind) :=
    List.forall₂_map_right_iff.2 (List.forall₂_same.2 fun s _ => exists_reads_standIn s.kind)
  have values : List.Forall₂ (fun s v => ∃ x, s.kind.Reads v x) written vs :=
    writes.imp fun s v writes => ⟨_, Kind.reads_of_writes (fits s) writes⟩
  have all : List.Forall₂ (fun s v => ∃ x, (schema.kind s).Reads v x) schema.fields
      (vs ++ dropped.map fun s => standIn s.kind) := by
    rw [show schema.fields = written ++ dropped from whole]
    exact List.rel_append values standIns
  have scalars : ∀ v ∈ vs ++ dropped.map fun s => standIn s.kind, Scalar v :=
    List.forall_mem_append.2 ⟨scalar, List.forall_mem_map.2 fun s _ => scalar_standIn s.kind⟩
  obtain ⟨r, reads, readAs⟩ := documented.elements scalars all
  have length : vs.length = written.length := writes.length_eq.symm
  have front := List.forall₂_take_append _ _ _ readAs
  rw [show schema.fields = written ++ dropped from whole, length, List.take_left] at front
  have same : List.Forall₂ (fun s _ => r s = c.values s) written vs :=
    List.Forall₂.mp (fun s v writes reads => Kind.eq_of_reads writes reads) writes front
  have fields : Setting.all = written ++ (dropped ++ []) := by rw [List.append_nil, whole]
  refine readsArray_without documented scalar length fields omits (fun s absent => ?_) reads
  have member : s ∈ written :=
    (List.mem_append.1 (whole ▸ Setting.mem_all s)).resolve_right absent
  obtain ⟨_, -, value⟩ := Json.exists_of_mem_right same.flip member
  exact value

end Laws

theorem proper_of_gives {m : Member} {rounds : NumberText → Binary32 → Prop}
    (gives : c.Gives rounds s m) (writable : ∀ symbol ∈ m.symbols, symbol.Writable) : m.Proper := by
  obtain ⟨named, symbol, value, writes⟩ := gives
  refine ⟨by rw [named, Option.isSome_some], ?_, writable⟩
  rw [value]
  exact Kind.wellFormed_of_writes writes

theorem Unknown.proper {m : Member} (unknown : Unknown m)
    (writable : ∀ symbol ∈ m.symbols, symbol.Writable) : m.Proper := by
  obtain ⟨⟨name, named, -⟩, wellFormed⟩ := unknown
  exact ⟨by rw [named, Option.isSome_some], wellFormed, writable⟩

theorem read_of_renders {R : RecordReader} (documented : R.Documented)
    (fits : ∀ s : Setting, s.kind.Fits (c.values s)) {text : String}
    (renders : c.Renders NumberText.RoundsTo text) : R.read schema text = .ok c.values := by
  obtain ⟨symbols, rendersAs, spells⟩ := renders
  have writable := exists_writes_of_mem spells
  cases rendersAs with
  | @object written given others members once gives unknown perm omits =>
    have inside : ∀ m ∈ members, ∀ symbol ∈ m.symbols, symbol.Writable := fun m h symbol h' =>
      writable symbol (mem_object h h')
    have proper : ∀ m ∈ given ++ others, m.Proper := by
      refine fun m h => (List.mem_append.1 h).elim (fun h' => ?_) fun h' => ?_
      · obtain ⟨s, -, here⟩ := Json.exists_of_mem_right gives h'
        exact proper_of_gives here (inside m (perm.mem_iff.1 h))
      · exact (unknown m h').proper (inside m (perm.mem_iff.1 h))
    exact readsObject_of_renders documented fits (fun m h => proper m (perm.mem_iff.2 h)) once gives
      unknown perm omits text spells
  | @array written dropped vs whole writes omits =>
    have scalar : ∀ v ∈ vs, Scalar v := fun v h => by
      obtain ⟨s, -, here⟩ := Json.exists_of_mem_right writes h
      exact ⟨Kind.wellFormed_of_writes here, writable v (mem_array h)⟩
    exact readsArray_of_renders documented fits scalar whole writes omits text spells

/-! ## Renderings are inverted -/

/-- A reader that keeps its laws reads every text of a valid configuration back as that
configuration, and whatever any reader gives is valid. -/
theorem reading_inverts_renderings (R : RecordReader) (text : String) (c : Configuration) :
    (R.Documented → c.validate = .ok () → (∀ s : Setting, s.kind.Fits (c.values s)) →
      c.Renders NumberText.RoundsTo text → R.configuration text = .ok c) ∧
    (R.configuration text = .ok c → c.validate = .ok ()) := by
  constructor
  · intro documented valid fits renders
    simp only [RecordReader.configuration, read_of_renders documented fits renders,
      ofRecord_values, valid]
    rfl
  · intro read
    unfold RecordReader.configuration at read
    split at read
    · cases read
    · next r _ =>
      cases valid : (ofRecord r).validate with
      | error e =>
        rw [valid] at read
        cases read
      | ok =>
        rw [valid] at read
        cases read
        exact valid

/-! ## Small arrays -/

theorem spells_afterElement {elements : List (Symbol × List Char)}
    (writes : ∀ e ∈ elements, Json.Writes e.1 e.2) :
    Json.Spells (Json.afterElement (elements.map Prod.fst))
      (elements.flatMap (fun e => ',' :: e.2) ++ [']']) := by
  induction elements with
  | nil => exact .single .closeBracket trivial .done
  | cons e elements ih =>
    obtain ⟨first, others⟩ := List.forall_mem_cons.1 writes
    rw [List.flatMap_cons, List.append_assoc]
    refine .single .comma trivial (.symbol first ?_ (ih others))
    cases e.1 with
    | number => cases elements <;> rintro c ⟨⟩ <;> decide
    | _ => trivial

def small (lengthPenalty : Binary32) : Configuration :=
  { batchSize := 1, vocabSize := 10, maxLength := 8, eosToken := 1, padToken := 0, lengthPenalty }

theorem validate_small (x : Binary32) : (small x).validate = .ok () := by
  have one : Binary32.one.isFinite = true ∧ Binary32.zero.lt Binary32.one = true := by decide
  simp [validate_eq_ok_iff, fault?, small, isBeamSearch, inVocabulary, one]

theorem fits_small {x : Binary32} (finite : x.isFinite = true) (s : Setting) :
    s.kind.Fits ((small x).values s) := by
  have one : Binary32.one.isFinite = true := by decide
  cases s <;> simp [Setting.kind, Kind.Fits, values, small, finite, one]

def smallElements (penalty : NumberText) (cs : List Char) : List (Symbol × List Char) :=
  [['1'], ['1', '0'], ['8'], ['1'], ['0'], ['0'], ['1']].map (fun cs => (.number (numeral cs), cs)) ++
    [(.number penalty, cs)]

theorem renders_small {rounds : NumberText → Binary32 → Prop} {penalty : NumberText}
    {cs : List Char} {x : Binary32} {text : String} (writes : Json.Writes (.number penalty) cs)
    (one : rounds (numeral ['1']) Binary32.one) (rounded : rounds penalty x)
    (chars : text.toList =
      '[' :: '1' :: ((smallElements penalty cs).flatMap (fun e => ',' :: e.2) ++ [']'])) :
    (small x).Renders rounds text := by
  have values : List.Forall₂ (fun s v => s.kind.Writes rounds ((small x).values s) v)
      (Setting.all.take 9) (.number (numeral ['1']) :: (smallElements penalty cs).map Prod.fst) :=
    .cons ⟨_, rfl, rfl, rfl, rfl, rfl⟩ <| .cons ⟨_, rfl, rfl, rfl, rfl, rfl⟩ <|
    .cons ⟨_, rfl, rfl, rfl, rfl, rfl⟩ <| .cons ⟨_, rfl, rfl, rfl, rfl, rfl⟩ <|
    .cons ⟨_, _, rfl, ⟨rfl, rfl, rfl, rfl⟩, rfl⟩ <| .cons ⟨_, _, rfl, ⟨rfl, rfl, rfl, rfl⟩, rfl⟩ <|
    .cons ⟨_, rfl, rfl, rfl, rfl, rfl⟩ <| .cons ⟨_, rfl, one⟩ <| .cons ⟨_, rfl, rounded⟩ .nil
  have omits : ∀ s ∈ Setting.all.drop 9, (small x).Omits s := by
    intro s dropped
    have last : s = .earlyStopping ∨ s = .numReturned := by simpa [Setting.all] using dropped
    rcases last with rfl | rfl <;> exact ⟨by decide, rfl⟩
  have numerals : ∀ cs ∈ [['1'], ['1', '0'], ['8'], ['1'], ['0'], ['0'], ['1']], IsNumeral cs := by
    decide
  have elements : ∀ e ∈ smallElements penalty cs, Json.Writes e.1 e.2 :=
    List.forall_mem_append.2 ⟨List.forall_mem_map.2 fun cs h => writes_numeral (numerals cs h),
      List.forall_mem_singleton.2 writes⟩
  have ends : (Symbol.number (numeral ['1'])).EndsAt
      ((smallElements penalty cs).flatMap (fun e => ',' :: e.2) ++ [']']) := by
    rintro c ⟨⟩
    decide
  refine ⟨_, .array (List.take_append_drop 9 _).symm values omits, ?_⟩
  rw [chars]
  exact .single .openBracket trivial
    (.symbol (writes_numeral (by decide)) ends (spells_afterElement elements))

/-- One more than halfway between two binary32 numbers; binary64 does not tell it from halfway. -/
def pastHalfway : List Char :=
  ['9', '2', '2', '3', '3', '7', '2', '5', '8', '6', '6', '1', '0', '5', '8', '9', '6', '9', '7']

theorem writes_pastHalfway : Json.Writes (.number (numeral pastHalfway)) pastHalfway :=
  writes_numeral (by decide)

theorem renders_pastHalfway :
    (small ⟨0x5f000001⟩).Renders NumberText.RoundsTo "[1,1,10,8,1,0,0,1,9223372586610589697]" := by
  have one : (numeral ['1']).RoundsTo Binary32.one := .natural ⟨rfl, rfl, rfl, rfl⟩ (by decide)
  have above : (numeral pastHalfway).RoundsTo ⟨0x5f000001⟩ :=
    .natural ⟨rfl, rfl, rfl, rfl⟩ (by decide)
  exact renders_small writes_pastHalfway one above rfl

theorem reading_inverts_renderings_of_integer_penalty :
    (Json.reader.Documented ∧ (small ⟨0x5f000001⟩).validate = .ok () ∧
      (∀ s : Setting, s.kind.Fits ((small ⟨0x5f000001⟩).values s)) ∧
      (small ⟨0x5f000001⟩).Renders NumberText.RoundsTo
        "[1,1,10,8,1,0,0,1,9223372586610589697]") ∧
    Json.reader.configuration "[1,1,10,8,1,0,0,1,9223372586610589697]" =
      .ok (small ⟨0x5f000001⟩) := by
  have valid := validate_small ⟨0x5f000001⟩
  have fits := fits_small (show Binary32.isFinite ⟨0x5f000001⟩ = true by decide)
  exact ⟨⟨Json.reader_documented, valid, fits, renders_pastHalfway⟩,
    (reading_inverts_renderings _ _ _).1 Json.reader_documented valid fits renders_pastHalfway⟩

/-- A number whose nearest binary64 number rounds to a binary32 number. -/
def RoundsThrough (t : NumberText) (x : Binary32) : Prop :=
  Binary32.ofBinary64 t.negative t.nearest = x

instance (t : NumberText) (x : Binary32) : Decidable (RoundsThrough t x) :=
  inferInstanceAs (Decidable (_ = _))

/-- The fraction of a number whose nearest binary64 number is halfway between two binary32 numbers;
it is read as the next one. -/
def nearHalfway : List Char :=
  ['6', '7', '9', '6', '3', '8', '4', '4', '5', '3', '7', '7', '3', '4', '9', '9']

/-- Rounded through the nearest binary64 number the penalty would be the even number below; it is
read as the one above, an integer since it is rounded at once and a longer decimal since binary64 is
met by another way. -/
theorem reading_not_through_nearest :
    ((small ⟨0x5f000000⟩).validate = .ok () ∧
      (∀ s : Setting, s.kind.Fits ((small ⟨0x5f000000⟩).values s)) ∧
      (small ⟨0x5f000000⟩).Renders RoundsThrough "[1,1,10,8,1,0,0,1,9223372586610589697]" ∧
      Json.reader.configuration "[1,1,10,8,1,0,0,1,9223372586610589697]" ≠
        .ok (small ⟨0x5f000000⟩)) ∧
    (small ⟨0x3fd6fe64⟩).validate = .ok () ∧
      (∀ s : Setting, s.kind.Fits ((small ⟨0x3fd6fe64⟩).values s)) ∧
      (small ⟨0x3fd6fe64⟩).Renders RoundsThrough "[1,1,10,8,1,0,0,1,1.6796384453773499]" ∧
      Json.reader.configuration "[1,1,10,8,1,0,0,1,1.6796384453773499]" ≠
        .ok (small ⟨0x3fd6fe64⟩) := by
  have penalty_ne : ∀ {text : String} {x y : Binary32},
      ((Json.reader.configuration text).toOption.map lengthPenalty = some y) → x ≠ y →
      Json.reader.configuration text ≠ .ok (small x) := by
    intro text x y read ne same
    rw [same] at read
    exact ne (Option.some.inj read)
  have one : RoundsThrough (numeral ['1']) Binary32.one := by decide +kernel
  have below : RoundsThrough (numeral pastHalfway) ⟨0x5f000000⟩ := by decide +kernel
  have below' : RoundsThrough (decimal ['1'] nearHalfway) ⟨0x3fd6fe64⟩ := by decide +kernel
  have writes : Json.Writes (.number (decimal ['1'] nearHalfway)) ('1' :: '.' :: nearHalfway) :=
    writes_decimal (by decide) (by decide) (by decide)
  refine ⟨⟨validate_small _, fits_small (by decide), renders_small writes_pastHalfway one below rfl,
    penalty_ne (y := ⟨0x5f000001⟩) (by decide +kernel) (by decide)⟩, validate_small _,
    fits_small (by decide), renders_small writes one below' rfl,
    penalty_ne (y := ⟨0x3fd6fe65⟩) (by decide +kernel) (by decide)⟩

end Configuration

end TokenSearch
