import TokenSearch.Binary.Decimal
import TokenSearch.Binary32.Basic
import TokenSearch.Text.Quoted
import TokenSearch.Token

/-!
Records of named fields as readers of texts know them. A schema says what the fields are called,
which kind of value each one holds and what a field holds that is not given; a reader is handed the
schema with the text, and returns the values or what is wrong with the text.
-/

namespace TokenSearch

inductive Kind where
  | size
  | token
  | number
  | flag
deriving DecidableEq, Repr

abbrev Kind.Value : Kind → Type
  | size => Nat
  | token => Token
  | number => Binary32
  | flag => Bool

/-- Records with the fields `ι`. -/
structure Schema (ι : Type) where
  title : String
  /-- In the order of their declaration. -/
  fields : List ι
  name : ι → String
  kind : ι → Kind
  /-- What a field holds that is not given; without a default it has to be given. -/
  default? : (i : ι) → Option (kind i).Value
  nodup : fields.Nodup
  complete : ∀ i, i ∈ fields
  name_inj : ∀ {i j}, name i = name j → i = j

abbrev Schema.Record {ι : Type} (S : Schema ι) : Type := (i : ι) → (S.kind i).Value

/-! ## What can be wrong with a text -/

/-- A value met in the text, as far as a message tells it. -/
inductive Found where
  | null
  | boolean (value : Bool)
  | integer (value : Int)
  | float (negative : Bool) (pattern : Nat)
  | text (value : String)
  | sequence
  | map
deriving DecidableEq, Repr

namespace Found

/-- A binary64 number keeps a point: positional from a hundred-thousandth up to sixteen
digits before the point, with an exponent elsewhere. Of two equally near texts it takes the one
with the even last digit. -/
def floatText (negative : Bool) (pattern : Nat) : List Char :=
  let sign := if negative then ['-'] else []
  if pattern = 0 then sign ++ ['0', '.', '0']
  else
    let d := BinaryFormat.binary64.shortest .even pattern
    if -5 ≤ d.order && d.order < 16 then
      sign ++ d.positional ++ (if 0 ≤ d.exponent then ['.', '0'] else [])
    else sign ++ d.scientific

def message : Found → String
  | null => "null"
  | boolean value => s!"boolean `{value}`"
  | integer value => s!"integer `{value}`"
  | float negative pattern => "floating point `" ++ String.ofList (floatText negative pattern) ++ "`"
  | text value => "string " ++ Text.quoted value
  | sequence => "sequence"
  | map => "map"

end Found

inductive Expected where
  | value (kind : Kind)
  | record (title : String)
deriving DecidableEq, Repr

namespace Expected

def message : Expected → String
  | value .size => "usize"
  | value .token => "i32"
  | value .number => "f32"
  | value .flag => "a boolean"
  | record title => title

end Expected

inductive ReadFault where
  | malformed
  | duplicate (field : String)
  | missing (field : String)
  | tooShort (length : Nat) (title : String) (fields : Nat)
  | wrongType (found : Found) (expected : Expected)
  | outOfRange (found : Int) (expected : Expected)
deriving DecidableEq, Repr

namespace ReadFault

def message : ReadFault → String
  | malformed => "malformed text"
  | duplicate field => "duplicate field `" ++ field ++ "`"
  | missing field => "missing field `" ++ field ++ "`"
  | tooShort length title fields =>
    s!"invalid length {length}, expected {title} with {fields} elements"
  | wrongType found expected =>
    "invalid type: " ++ found.message ++ ", expected " ++ expected.message
  | outOfRange found expected =>
    "invalid value: " ++ (Found.integer found).message ++ ", expected " ++ expected.message

end ReadFault

/-! ## Readers -/

structure RecordReader where
  read : {ι : Type} → [DecidableEq ι] → (S : Schema ι) → String → Except ReadFault S.Record

end TokenSearch
