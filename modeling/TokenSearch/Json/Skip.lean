import TokenSearch.Json.Lexeme

/-!
Passing over a JSON value that nobody reads. Only its form is checked, to any depth: strings
and numbers in it need no value.
-/

namespace TokenSearch.Json

/-- What encloses the value being passed over. -/
inductive Frame where
  | list
  | record
deriving DecidableEq, Repr

/-- What may come next. -/
inductive Awaited where
  | value
  /-- A value, or the end of a list without elements. -/
  | firstElement
  | key
  /-- A key, or the end of a record without members. -/
  | firstKey
  | colon
  /-- A comma or the end of the innermost frame. -/
  | next
deriving DecidableEq, Repr

/-- One lexeme's effect on the open frames, innermost first. -/
def Awaited.step : List Frame → Awaited → Lexeme → Option (List Frame × Awaited)
  | frames, value, lexeme => start frames lexeme
  | frames, firstElement, lexeme =>
    match frames, lexeme with
    | _ :: outer, .closeBracket => some (outer, next)
    | frames, lexeme => start frames lexeme
  | frames, key, .text _ => some (frames, colon)
  | frames, firstKey, .text _ => some (frames, colon)
  | _ :: outer, firstKey, .closeBrace => some (outer, next)
  | frames, colon, .colon => some (frames, value)
  | .list :: outer, next, .comma => some (.list :: outer, value)
  | .list :: outer, next, .closeBracket => some (outer, next)
  | .record :: outer, next, .comma => some (.record :: outer, key)
  | .record :: outer, next, .closeBrace => some (outer, next)
  | _, _, _ => none
where
  start (frames : List Frame) : Lexeme → Option (List Frame × Awaited)
    | .openBracket => some (.list :: frames, firstElement)
    | .openBrace => some (.record :: frames, firstKey)
    | .null => some (frames, next)
    | .boolean _ => some (frames, next)
    | .number _ => some (frames, next)
    | .text _ => some (frames, next)
    | _ => none

/-- What follows the value, once no frame is open. -/
def skipFrom (frames : List Frame) (awaited : Awaited) : List Lexeme → Option (List Lexeme)
  | [] => none
  | lexeme :: rest =>
    match awaited.step frames lexeme with
    | none => none
    | some ([], .next) => some rest
    | some (frames, awaited) => skipFrom frames awaited rest

def skip? (lexemes : List Lexeme) : Option (List Lexeme) := skipFrom [] .value lexemes

theorem length_skipFrom_lt {frames : List Frame} {awaited : Awaited} {ls rest : List Lexeme}
    (h : skipFrom frames awaited ls = some rest) : rest.length < ls.length := by
  induction ls generalizing frames awaited with
  | nil => simp [skipFrom] at h
  | cons l ls ih =>
    unfold skipFrom at h
    split at h
    · cases h
    · cases h
      simp
    · exact Nat.lt_succ_of_lt (ih h)

theorem length_skip?_lt {ls rest : List Lexeme} (h : skip? ls = some rest) :
    rest.length < ls.length := length_skipFrom_lt h

end TokenSearch.Json
