import TokenSearch.Json.Skip
import TokenSearch.Record

/-!
Reading a record from JSON text, as an object with named fields or as an array of fields in their
declared order. The text is read from left to right and the first fault is reported: a field given
twice at its second name, a wrong value where it stands, a missing field at the end of the object.
Other names may carry any well-formed value.
-/

namespace TokenSearch.Json

/-! ## Values -/

def wrongType (expected : Expected) : Lexeme → ReadFault
  | .null => .wrongType .null expected
  | .boolean b => .wrongType (.boolean b) expected
  | .number (some (.natural n)) => .wrongType (.integer n) expected
  | .number (some (.negative n)) => .wrongType (.integer (-n)) expected
  | .number (some (.float negative pattern)) => .wrongType (.float negative pattern) expected
  | .text (some s) => .wrongType (.text s) expected
  | .openBracket => .wrongType .sequence expected
  | .openBrace => .wrongType .map expected
  | _ => .malformed

def readSize : Lexeme → Except ReadFault Nat
  | .number (some (.natural n)) => .ok n
  | .number (some (.negative n)) => .error (.outOfRange (-n) (.value .size))
  | l => .error (wrongType (.value .size) l)

def readToken : Lexeme → Except ReadFault Token
  | .number (some (.natural n)) =>
    if n < 2 ^ 31 then .ok n else .error (.outOfRange n (.value .token))
  | .number (some (.negative n)) =>
    if n ≤ 2 ^ 31 then .ok (-n) else .error (.outOfRange (-n) (.value .token))
  | l => .error (wrongType (.value .token) l)

/-- A number, rounded to binary32 from an integer or from a binary64 number. -/
def readNumber : Lexeme → Except ReadFault Binary32
  | .number (some (.natural n)) => .ok (Binary32.ofRatio n 1)
  | .number (some (.negative n)) => .ok (Binary32.ofRatio (-n) 1)
  | .number (some (.float negative pattern)) => .ok (Binary32.ofBinary64 negative pattern)
  | l => .error (wrongType (.value .number) l)

def readFlag : Lexeme → Except ReadFault Bool
  | .boolean b => .ok b
  | l => .error (wrongType (.value .flag) l)

def readValue : (k : Kind) → Lexeme → Except ReadFault k.Value
  | .size => readSize
  | .token => readToken
  | .number => readNumber
  | .flag => readFlag

/-! ## Drafts -/

variable {ι : Type} [DecidableEq ι] {S : Schema ι}

/-- The values that were read so far. -/
def Draft (S : Schema ι) : Type := (i : ι) → Option (S.kind i).Value

namespace Draft

def empty : Draft S := fun _ => none

def set (d : Draft S) (i : ι) (v : (S.kind i).Value) : Draft S :=
  fun j => if h : i = j then some (h ▸ v) else d j

def put (d : Draft S) (l : Lexeme) (i : ι) : Except ReadFault (Draft S) := do
  return d.set i (← readValue (S.kind i) l)

def value? (d : Draft S) (i : ι) : Option (S.kind i).Value := (d i).or (S.default? i)

/-- The record of a draft, unless a field without a default is missing. -/
def finish (d : Draft S) (missing : ι → ReadFault) : Except ReadFault S.Record :=
  match h : S.fields.find? fun i => (d.value? i).isNone with
  | some i => .error (missing i)
  | none => .ok fun i => (d.value? i).get <| by
    simpa [Option.isSome_iff_ne_none] using List.find?_eq_none.1 h i (S.complete i)

end Draft

/-! ## Objects and arrays -/

def fieldOf? (S : Schema ι) (name : String) : Option ι := S.fields.find? (S.name · = name)

/-- One member of an object, from its name on: the new draft and what follows. -/
def readMember (d : Draft S) : List Lexeme → Except ReadFault (Draft S × List Lexeme)
  | .text (some name) :: rest =>
    match fieldOf? S name with
    | some i =>
      if (d i).isSome then .error (.duplicate name)
      else
        match rest with
        | .colon :: l :: rest => do return (← d.put l i, rest)
        | _ => .error .malformed
    | none =>
      match rest with
      | .colon :: value =>
        match skip? value with
        | some rest => .ok (d, rest)
        | none => .error .malformed
      | _ => .error .malformed
  | _ => .error .malformed

theorem length_readMember_lt {d d' : Draft S} {ls rest : List Lexeme}
    (h : readMember d ls = .ok (d', rest)) : rest.length < ls.length := by
  unfold readMember at h
  split at h
  · split at h
    · split at h
      · cases h
      · split at h
        · next i _ _ _ l tail =>
          cases put : d.put l i with
          | error fault => simp [put, bind, Except.bind] at h
          | ok changed =>
            simp only [put, bind, Except.bind, pure, Except.pure, Except.ok.injEq,
              Prod.mk.injEq] at h
            obtain ⟨_, rfl⟩ := h
            simp only [List.length_cons]
            omega
        · cases h
    · split at h
      · split at h
        · next value _ skipped =>
          have := length_skip?_lt skipped
          cases h
          simp only [List.length_cons]
          omega
        · cases h
      · cases h
  · cases h

/-- The members of an object after its first one, and what follows the closing brace. -/
def readMembers (d : Draft S) : List Lexeme → Except ReadFault (Draft S × List Lexeme)
  | .closeBrace :: rest => .ok (d, rest)
  | .comma :: member =>
    match h : readMember d member with
    | .error fault => .error fault
    | .ok (d, rest) =>
      have := length_readMember_lt h
      readMembers d rest
  | _ => .error .malformed
termination_by ls => ls.length
decreasing_by exact Nat.lt_succ_of_lt this

/-- The members of an object up to its closing brace. -/
def readInside (S : Schema ι) : List Lexeme → Except ReadFault (Draft S × List Lexeme)
  | .closeBrace :: rest => .ok (.empty, rest)
  | ls => do
    let (d, rest) ← readMember .empty ls
    readMembers d rest

/-- An object after its opening brace. A field that is missing is reported at the closing
brace, before anything that follows it. -/
def readObject (S : Schema ι) (ls : List Lexeme) :
    Except ReadFault (S.Record × List Lexeme) := do
  let (d, rest) ← readInside S ls
  return (← d.finish fun i => .missing (S.name i), rest)

/-- The elements of an array from the one for the first of `fields` on. The closing bracket
may come after any of them. -/
def readElements (d : Draft S) (first : Bool) :
    List ι → List Lexeme → Except ReadFault (Draft S × List Lexeme)
  | [], ls => .ok (d, ls)
  | i :: fields, ls =>
    match first, ls with
    | _, .closeBracket :: rest => .ok (d, .closeBracket :: rest)
    | true, l :: rest => do readElements (← d.put l i) false fields rest
    | false, .comma :: .closeBracket :: _ => .error .malformed
    | false, .comma :: l :: rest => do readElements (← d.put l i) false fields rest
    | _, _ => .error .malformed

/-- An array after its opening bracket. An element that is missing is reported before anything
is said about what follows the array. -/
def readArray (S : Schema ι) (ls : List Lexeme) :
    Except ReadFault (S.Record × List Lexeme) := do
  let (d, rest) ← readElements (.empty : Draft S) true S.fields ls
  let r ← d.finish fun i => .tooShort (S.fields.idxOf i) S.title S.fields.length
  match rest with
  | .closeBracket :: rest => return (r, rest)
  | _ => throw .malformed

def readRecord (S : Schema ι) (ls : List Lexeme) : Except ReadFault S.Record := do
  let (r, rest) ←
    match ls with
    | .openBrace :: rest => readObject S rest
    | .openBracket :: rest => readArray S rest
    | l :: _ => throw (wrongType (.record S.title) l)
    | [] => throw .malformed
  if rest.isEmpty then return r else throw .malformed

def reader : RecordReader where
  read S text := readRecord S (Lexeme.ofString text)

end TokenSearch.Json
