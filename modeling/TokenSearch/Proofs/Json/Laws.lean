import Mathlib.Data.List.Forall2
import Mathlib.Logic.Function.Basic
import TokenSearch.Proofs.Json.Decimals
import TokenSearch.Proofs.Json.Values
import TokenSearch.Record

/-!
What a reader of records documents about JSON text. Each law is about one freedom of a text: an
object may have its fields in any order, members that are no fields, and no member for a field with
a default; an array has its elements in the declared order and may stop before fields with defaults.
Nothing is said about texts that are refused.

The laws relate one text to another, and only the plainest texts to their values. So what an
arbitrary rendering of a record is read as has to be derived from them.
-/

namespace TokenSearch

namespace Json

/-! ## Objects and arrays -/

def Symbol.Writable (s : Symbol) : Prop := ∃ cs, Writes s cs

structure Member where
  key : List (Nat ⊕ Char)
  value : List Symbol

namespace Member

def name? (m : Member) : Option String := (Lexeme.characters? m.key).map String.ofList

def symbols (m : Member) : List Symbol := .text m.key :: .colon :: m.value

structure Proper (m : Member) : Prop where
  named : m.name?.isSome = true
  wellFormed : WellFormed .value m.value
  writable : ∀ s ∈ m.symbols, s.Writable

end Member

def afterMember : List Member → List Symbol
  | [] => [.closeBrace]
  | m :: ms => .comma :: (m.symbols ++ afterMember ms)

def insideObject : List Member → List Symbol
  | [] => [.closeBrace]
  | m :: ms => m.symbols ++ afterMember ms

def object (ms : List Member) : List Symbol := .openBrace :: insideObject ms

def afterElement : List Symbol → List Symbol
  | [] => [.closeBracket]
  | v :: vs => .comma :: v :: afterElement vs

def insideArray : List Symbol → List Symbol
  | [] => [.closeBracket]
  | v :: vs => v :: afterElement vs

def array (vs : List Symbol) : List Symbol := .openBracket :: insideArray vs

structure Scalar (v : Symbol) : Prop where
  wellFormed : WellFormed .value [v]
  writable : v.Writable

end Json

open Json (NumberText Symbol Member Scalar)

/-- A symbol of the right kind, and a value that it may be read as. -/
def Kind.Reads : (k : Kind) → Symbol → k.Value → Prop
  | .size, symbol, n => ∃ t, symbol = .number t ∧ t.IsInteger false n ∧ n < 2 ^ 64
  | .token, symbol, t => ∃ text n, symbol = .number text ∧ text.IsInteger false n ∧ n < 2 ^ 31 ∧
    t = (n : Int)
  | .number, symbol, x => ∃ t, symbol = .number t ∧ t.ReadAs x
  | .flag, symbol, b => symbol = .boolean b

structure Schema.Gives {ι : Type} (S : Schema ι) (i : ι) (m : Member) (v : (S.kind i).Value) :
    Prop where
  named : m.name? = some (S.name i)
  reads : ∃ symbol, m.value = [symbol] ∧ (S.kind i).Reads symbol v

namespace RecordReader

/-- However an object with these members is written, it is read as this record. -/
def ReadsObject {ι : Type} [DecidableEq ι] (R : RecordReader) (S : Schema ι) (ms : List Member)
    (r : S.Record) : Prop :=
  ∀ text : String, Json.Spells (Json.object ms) text.toList → R.read S text = .ok r

def ReadsArray {ι : Type} [DecidableEq ι] (R : RecordReader) (S : Schema ι) (vs : List Symbol)
    (r : S.Record) : Prop :=
  ∀ text : String, Json.Spells (Json.array vs) text.toList → R.read S text = .ok r

structure Documented (R : RecordReader) : Prop where
  /-- An object of all fields, in their order, has the values that were written. -/
  declared {ι : Type} [DecidableEq ι] {S : Schema ι} {ms : List Member} :
    (∀ m ∈ ms, m.Proper) → List.Forall₂ (fun i m => ∃ v, S.Gives i m v) S.fields ms →
    ∃ r, R.ReadsObject S ms r ∧ List.Forall₂ (fun i m => S.Gives i m (r i)) S.fields ms
  /-- The order of members does not matter. -/
  reordered {ι : Type} [DecidableEq ι] {S : Schema ι} {ms ms' : List Member} {r : S.Record} :
    (∀ m ∈ ms, m.Proper) → ms.Perm ms' → R.ReadsObject S ms r → R.ReadsObject S ms' r
  /-- A member that is no field is ignored. -/
  ignored {ι : Type} [DecidableEq ι] {S : Schema ι} {m : Member} {ms : List Member} {r : S.Record} :
    (∀ m' ∈ m :: ms, m'.Proper) → (∀ i, m.name? ≠ some (S.name i)) → R.ReadsObject S ms r →
    R.ReadsObject S (m :: ms) r
  /-- Without its member a field holds its default. -/
  defaulted {ι : Type} [DecidableEq ι] {S : Schema ι} {i : ι} {v : (S.kind i).Value} {m : Member}
    {ms : List Member} {r : S.Record} :
    (∀ m' ∈ m :: ms, m'.Proper) → m.name? = some (S.name i) → S.default? i = some v →
    R.ReadsObject S (m :: ms) r → R.ReadsObject S ms (Function.update r i v)
  /-- The elements of an array are the values of the fields in their order. -/
  elements {ι : Type} [DecidableEq ι] {S : Schema ι} {vs : List Symbol} :
    (∀ v ∈ vs, Scalar v) → List.Forall₂ (fun i v => ∃ x, (S.kind i).Reads v x) S.fields vs →
    ∃ r, R.ReadsArray S vs r ∧ List.Forall₂ (fun i v => (S.kind i).Reads v (r i)) S.fields vs
  /-- Without its last element an array leaves the field to its default. -/
  ended {ι : Type} [DecidableEq ι] {S : Schema ι} {written dropped : List ι} {i : ι}
    {v : (S.kind i).Value} {vs : List Symbol} {w : Symbol} {r : S.Record} :
    (∀ v' ∈ vs ++ [w], Scalar v') → S.fields = written ++ i :: dropped →
    vs.length = written.length → S.default? i = some v → R.ReadsArray S (vs ++ [w]) r →
    R.ReadsArray S vs (Function.update r i v)

end RecordReader

end TokenSearch
