import TokenSearch.Json.Number

/-!
The lexemes of JSON text. A text that stops being well formed gives the lexemes before that
point and then `malformed`, so whoever reads them from the left meets the first error first.
A string or number that is well formed but has no value (a lone surrogate, a number too large)
is a lexeme without one.
-/

namespace TokenSearch.Json

inductive Lexeme where
  | openBrace
  | closeBrace
  | openBracket
  | closeBracket
  | colon
  | comma
  | null
  | boolean (value : Bool)
  | number (value : Option Number)
  | text (value : Option String)
  | malformed
deriving DecidableEq, Repr

namespace Lexeme

def isBlank (c : Char) : Bool := c = ' ' || c = '\t' || c = '\n' || c = '\r'

/-! ## Strings -/

def hexValue? (c : Char) : Option Nat :=
  if '0' ≤ c && c ≤ '9' then some (c.toNat - '0'.toNat)
  else if 'a' ≤ c && c ≤ 'f' then some (c.toNat - 'a'.toNat + 10)
  else if 'A' ≤ c && c ≤ 'F' then some (c.toNat - 'A'.toNat + 10)
  else none

def unit? (a b c d : Char) : Option Nat := do
  return (((← hexValue? a) * 16 + (← hexValue? b)) * 16 + (← hexValue? c)) * 16 + (← hexValue? d)

def escaped? : Char → Option Char
  | '"' => some '"'
  | '\\' => some '\\'
  | '/' => some '/'
  | 'b' => some '\x08'
  | 'f' => some '\x0c'
  | 'n' => some '\n'
  | 'r' => some '\r'
  | 't' => some '\t'
  | _ => none

/-- The 16-bit units and characters of a string up to its closing quote, and what follows. -/
def scanString : List Char → Option (List (Nat ⊕ Char) × List Char)
  | [] => none
  | '"' :: rest => some ([], rest)
  | '\\' :: 'u' :: a :: b :: c :: d :: rest => do
    let u ← unit? a b c d
    let (items, rest) ← scanString rest
    return (.inl u :: items, rest)
  | '\\' :: e :: rest => do
    let c ← escaped? e
    let (items, rest) ← scanString rest
    return (.inr c :: items, rest)
  | c :: rest =>
    if c.toNat < 0x20 || c = '\\' then none
    else do
      let (items, rest) ← scanString rest
      return (.inr c :: items, rest)

/-- Joins surrogate pairs; a lone one has no character. -/
def characters? : List (Nat ⊕ Char) → Option (List Char)
  | [] => some []
  | .inr c :: rest => do return c :: (← characters? rest)
  | .inl high :: .inl low :: rest =>
    if 0xD800 ≤ high && high < 0xDC00 then
      if 0xDC00 ≤ low && low < 0xE000 then do
        let c := Char.ofNat ((high - 0xD800) * 0x400 + (low - 0xDC00) + 0x10000)
        return c :: (← characters? rest)
      else none
    else if 0xDC00 ≤ high && high < 0xE000 then none
    else do return Char.ofNat high :: (← characters? (.inl low :: rest))
  | .inl u :: rest =>
    if 0xD800 ≤ u && u < 0xE000 then none
    else do return Char.ofNat u :: (← characters? rest)

/-! ## Numbers -/

def digit (c : Char) : Nat := c.toNat - '0'.toNat

/-- The leading digits and what follows. -/
def scanDigits (s : List Char) : List Nat × List Char :=
  ((s.takeWhile Char.isDigit).map digit, s.dropWhile Char.isDigit)

/-- A fraction, if a point follows: it has at least one digit. -/
def scanFraction : List Char → Option (List Nat × List Char)
  | '.' :: rest =>
    let (digits, rest) := scanDigits rest
    if digits.isEmpty then none else some (digits, rest)
  | rest => some ([], rest)

/-- The digits of an exponent, whose mark and sign are read already. -/
def scanPower (negative : Bool) (s : List Char) : Option (Bool × List Nat × List Char) :=
  let (digits, rest) := scanDigits s
  if digits.isEmpty then none else some (negative, digits, rest)

/-- An exponent, if its mark follows. -/
def scanExponent : List Char → Option (Bool × List Nat × List Char)
  | 'e' :: '+' :: rest => scanPower false rest
  | 'e' :: '-' :: rest => scanPower true rest
  | 'e' :: rest => scanPower false rest
  | 'E' :: '+' :: rest => scanPower false rest
  | 'E' :: '-' :: rest => scanPower true rest
  | 'E' :: rest => scanPower false rest
  | rest => some (false, [], rest)

/-- A number without its minus sign. Only a zero by itself begins with a zero. -/
def scanUnsigned (negative : Bool) (s : List Char) : Option (NumberText × List Char) := do
  let (whole, rest) := scanDigits s
  if whole.isEmpty then none
  else if whole.head? = some 0 && whole.length ≠ 1 then none
  else
    let (fraction, rest) ← scanFraction rest
    let (exponentNegative, exponent, rest) ← scanExponent rest
    return (⟨negative, whole, fraction, exponentNegative, exponent⟩, rest)

def scanNumber : List Char → Option (NumberText × List Char)
  | '-' :: rest => scanUnsigned true rest
  | s => scanUnsigned false s

/-! ## One lexeme -/

/-- The lexeme at the start of a text that does not begin with a blank, and what follows. -/
def scan? : List Char → Option (Lexeme × List Char)
  | '\x7b' :: rest => some (openBrace, rest)
  | '\x7d' :: rest => some (closeBrace, rest)
  | '[' :: rest => some (openBracket, rest)
  | ']' :: rest => some (closeBracket, rest)
  | ':' :: rest => some (colon, rest)
  | ',' :: rest => some (comma, rest)
  | '"' :: rest => do
    let (items, rest) ← scanString rest
    return (text ((characters? items).map String.ofList), rest)
  | 'n' :: 'u' :: 'l' :: 'l' :: rest => some (null, rest)
  | 't' :: 'r' :: 'u' :: 'e' :: rest => some (boolean true, rest)
  | 'f' :: 'a' :: 'l' :: 's' :: 'e' :: rest => some (boolean false, rest)
  | s => do
    let (t, rest) ← scanNumber s
    return (number (Number.ofText? t), rest)

/-! ## Progress

Every lexeme takes at least one character.
-/

theorem length_scanString_lt {s rest : List Char} {items : List (Nat ⊕ Char)}
    (h : scanString s = some (items, rest)) : rest.length < s.length := by
  fun_induction scanString s generalizing items with
  | case1 => cases h
  | case2 => cases h; simp
  | case3 a b c d tail ih =>
    simp only [bind, Option.bind_eq_some_iff, Prod.exists] at h
    obtain ⟨_, _, _, _, tailScanned, last⟩ := h
    cases last
    have := ih tailScanned
    simp only [List.length_cons]
    omega
  | case4 e tail _ ih =>
    simp only [bind, Option.bind_eq_some_iff, Prod.exists] at h
    obtain ⟨_, _, _, _, tailScanned, last⟩ := h
    cases last
    exact Nat.lt_succ_of_lt (Nat.lt_succ_of_lt (ih tailScanned))
  | case5 => cases h
  | case6 c tail =>
    rename_i ih
    simp only [bind, Option.bind_eq_some_iff, Prod.exists] at h
    obtain ⟨_, _, tailScanned, last⟩ := h
    cases last
    exact Nat.lt_succ_of_lt (ih tailScanned)

theorem length_scanDigits_le (s : List Char) : (scanDigits s).2.length ≤ s.length :=
  (List.dropWhile_sublist _).length_le

theorem length_scanDigits_lt {s : List Char} (h : (scanDigits s).1 ≠ []) :
    (scanDigits s).2.length < s.length := by
  have whole : (s.takeWhile Char.isDigit).length + (s.dropWhile Char.isDigit).length =
      s.length := by
    rw [← List.length_append, List.takeWhile_append_dropWhile]
  have : (s.takeWhile Char.isDigit).length ≠ 0 := by
    simpa [scanDigits] using h
  simp only [scanDigits]
  omega

theorem length_scanFraction_le {s rest : List Char} {digits : List Nat}
    (h : scanFraction s = some (digits, rest)) : rest.length ≤ s.length := by
  unfold scanFraction at h
  split at h
  · next tail =>
    have := length_scanDigits_le tail
    simp only [Option.ite_none_left_eq_some, Option.some.injEq, Prod.mk.injEq] at h
    obtain ⟨_, _, rfl⟩ := h
    exact Nat.le_succ_of_le this
  · cases h
    exact Nat.le_refl _

theorem length_scanPower_le {negative : Bool} {s rest : List Char} {b : Bool}
    {digits : List Nat} (h : scanPower negative s = some (b, digits, rest)) :
    rest.length ≤ s.length := by
  have := length_scanDigits_le s
  simp only [scanPower, Option.ite_none_left_eq_some, Option.some.injEq, Prod.mk.injEq] at h
  obtain ⟨_, _, _, rfl⟩ := h
  exact this

theorem length_scanExponent_le {s rest : List Char} {b : Bool} {digits : List Nat}
    (h : scanExponent s = some (b, digits, rest)) : rest.length ≤ s.length := by
  unfold scanExponent at h
  split at h
  · exact Nat.le_add_right_of_le (k := 2) (length_scanPower_le h)
  · exact Nat.le_add_right_of_le (k := 2) (length_scanPower_le h)
  · exact Nat.le_succ_of_le (length_scanPower_le h)
  · exact Nat.le_add_right_of_le (k := 2) (length_scanPower_le h)
  · exact Nat.le_add_right_of_le (k := 2) (length_scanPower_le h)
  · exact Nat.le_succ_of_le (length_scanPower_le h)
  · cases h
    exact Nat.le_refl _

theorem length_scanUnsigned_lt {negative : Bool} {s rest : List Char} {t : NumberText}
    (h : scanUnsigned negative s = some (t, rest)) : rest.length < s.length := by
  simp only [scanUnsigned, bind, Option.ite_none_left_eq_some, Option.bind_eq_some_iff,
    Prod.exists] at h
  obtain ⟨found, _, _, _, fraction, _, _, _, exponent, last⟩ := h
  cases last
  have := length_scanDigits_lt (s := s) (by simpa using found)
  have := length_scanFraction_le fraction
  have := length_scanExponent_le exponent
  omega

theorem length_scanNumber_lt {s rest : List Char} {t : NumberText}
    (h : scanNumber s = some (t, rest)) : rest.length < s.length := by
  unfold scanNumber at h
  split at h
  · exact Nat.lt_succ_of_lt (length_scanUnsigned_lt h)
  · exact length_scanUnsigned_lt h

theorem length_scan?_lt {s rest : List Char} {l : Lexeme} (h : scan? s = some (l, rest)) :
    rest.length < s.length := by
  unfold scan? at h
  split at h
  all_goals try (cases h; simp only [List.length_cons]; omega)
  · simp only [bind, Option.bind_eq_some_iff, Prod.exists] at h
    obtain ⟨_, _, string, last⟩ := h
    cases last
    exact Nat.lt_succ_of_lt (length_scanString_lt string)
  · simp only [bind, Option.bind_eq_some_iff, Prod.exists] at h
    obtain ⟨_, _, number, last⟩ := h
    cases last
    exact length_scanNumber_lt number

/-! ## A whole text -/

/-- The lexemes of a text. -/
def all : List Char → List Lexeme
  | [] => []
  | c :: rest =>
    if isBlank c then all rest
    else
      match h : scan? (c :: rest) with
      | none => [malformed]
      | some (lexeme, remaining) =>
        have := length_scan?_lt h
        lexeme :: all remaining
termination_by s => s.length
decreasing_by
  · exact Nat.lt_succ_self _
  · exact this

def ofString (s : String) : List Lexeme := all s.toList

end Lexeme

end TokenSearch.Json
