import TokenSearch.Json.Lexeme

/-!
JSON text as it is written. A symbol is a lexeme before it gets a value: a number is its digits, a
string its characters and 16-bit units. The ways to write a symbol are given without a scanner, and
symbols follow one another with any blanks between them. Such a text has exactly the lexemes that
its symbols stand for.
-/

namespace TokenSearch.Json

inductive Symbol where
  | openBrace
  | closeBrace
  | openBracket
  | closeBracket
  | colon
  | comma
  | null
  | boolean (value : Bool)
  | number (text : NumberText)
  | text (items : List (Nat ⊕ Char))
deriving DecidableEq, Repr

namespace Symbol

def lexeme : Symbol → Lexeme
  | openBrace => .openBrace
  | closeBrace => .closeBrace
  | openBracket => .openBracket
  | closeBracket => .closeBracket
  | colon => .colon
  | comma => .comma
  | null => .null
  | boolean b => .boolean b
  | number t => .number (Number.ofText? t)
  | text items => .text ((Lexeme.characters? items).map String.ofList)

end Symbol

/-! ## Ways to write a symbol -/

structure Digits (cs : List Char) : Prop where
  some : cs ≠ []
  digits : ∀ c ∈ cs, c.isDigit = true

inductive WritesFraction : List Nat → List Char → Prop
  | none : WritesFraction [] []
  | some {cs : List Char} : Digits cs → WritesFraction (cs.map Lexeme.digit) ('.' :: cs)

inductive WritesExponent : Bool → List Nat → List Char → Prop
  | none : WritesExponent false [] []
  | some {mark : Char} {negative : Bool} {sign cs : List Char} : mark = 'e' ∨ mark = 'E' →
    (negative, sign) ∈ [(false, []), (false, ['+']), (true, ['-'])] → Digits cs →
    WritesExponent negative (cs.map Lexeme.digit) (mark :: (sign ++ cs))

/-- A number has a whole part, which begins with a zero only if it is zero. -/
inductive WritesNumber : NumberText → List Char → Prop
  | mk {negative exponentNegative : Bool} {fraction exponent : List Nat}
    {sign whole fractionText exponentText : List Char} :
    (negative, sign) ∈ [(false, []), (true, ['-'])] →
    Digits whole → (whole.head? = some '0' → whole.length = 1) →
    WritesFraction fraction fractionText →
    WritesExponent exponentNegative exponent exponentText →
    WritesNumber ⟨negative, whole.map Lexeme.digit, fraction, exponentNegative, exponent⟩
      (sign ++ (whole ++ (fractionText ++ exponentText)))

inductive WritesString : List (Nat ⊕ Char) → List Char → Prop
  | done : WritesString [] []
  | plain {c : Char} {items : List (Nat ⊕ Char)} {cs : List Char} : c ≠ '"' → c ≠ '\\' →
    0x20 ≤ c.toNat → WritesString items cs → WritesString (.inr c :: items) (c :: cs)
  | escape {e c : Char} {items : List (Nat ⊕ Char)} {cs : List Char} :
    Lexeme.escaped? e = some c → WritesString items cs →
    WritesString (.inr c :: items) ('\\' :: e :: cs)
  | unit {a b c d : Char} {u : Nat} {items : List (Nat ⊕ Char)} {cs : List Char} :
    Lexeme.unit? a b c d = some u → WritesString items cs →
    WritesString (.inl u :: items) ('\\' :: 'u' :: a :: b :: c :: d :: cs)

inductive Writes : Symbol → List Char → Prop
  | openBrace : Writes .openBrace ['\x7b']
  | closeBrace : Writes .closeBrace ['\x7d']
  | openBracket : Writes .openBracket ['[']
  | closeBracket : Writes .closeBracket [']']
  | colon : Writes .colon [':']
  | comma : Writes .comma [',']
  | null : Writes .null ['n', 'u', 'l', 'l']
  | yes : Writes (.boolean true) ['t', 'r', 'u', 'e']
  | no : Writes (.boolean false) ['f', 'a', 'l', 's', 'e']
  | number {t : NumberText} {cs : List Char} : WritesNumber t cs → Writes (.number t) cs
  | text {items : List (Nat ⊕ Char)} {cs : List Char} : WritesString items cs →
    Writes (.text items) ('"' :: cs ++ ['"'])

/-- A number is over where no digit, point or exponent mark follows. -/
def Symbol.EndsAt : Symbol → List Char → Prop
  | number _, rest => ∀ c ∈ rest.head?, c.isDigit = false ∧ c ≠ '.' ∧ c ≠ 'e' ∧ c ≠ 'E'
  | _, _ => True

/-- A text of these symbols, with any blanks before, between and after them. -/
inductive Spells : List Symbol → List Char → Prop
  | done : Spells [] []
  | blank {c : Char} {symbols : List Symbol} {cs : List Char} : c ∈ [' ', '\t', '\n', '\r'] →
    Spells symbols cs → Spells symbols (c :: cs)
  | symbol {s : Symbol} {symbols : List Symbol} {cs rest : List Char} : Writes s cs →
    s.EndsAt rest → Spells symbols rest → Spells (s :: symbols) (cs ++ rest)

theorem Spells.single {s : Symbol} {c : Char} {symbols : List Symbol} {rest : List Char}
    (writes : Writes s [c]) (ends : s.EndsAt rest) (spells : Spells symbols rest) :
    Spells (s :: symbols) (c :: rest) :=
  Spells.symbol writes ends spells

theorem exists_spells {symbols : List Symbol} (writable : ∀ s ∈ symbols, ∃ cs, Writes s cs) :
    ∃ text : String, Spells symbols text.toList := by
  suffices h : ∃ cs, Spells symbols cs by
    obtain ⟨cs, spells⟩ := h
    exact ⟨String.ofList cs, by rwa [String.toList_ofList]⟩
  induction symbols with
  | nil => exact ⟨[], .done⟩
  | cons s symbols ih =>
    obtain ⟨rest, spells⟩ := ih fun s h => writable s (List.mem_cons_of_mem _ h)
    obtain ⟨cs, writes⟩ := writable s List.mem_cons_self
    have ends : s.EndsAt (' ' :: rest) := by
      cases s with
      | number =>
        rintro c ⟨⟩
        decide
      | _ => trivial
    exact ⟨_, .symbol writes ends (.blank (.head _) spells)⟩

/-! ## Reading what was written -/

namespace Lexeme

section Numbers

variable {cs rest : List Char}

theorem scanDigits_append (digits : ∀ c ∈ cs, c.isDigit = true)
    (stop : ∀ c ∈ rest.head?, c.isDigit = false) : scanDigits (cs ++ rest) = (cs.map digit, rest) := by
  have whole : rest.takeWhile Char.isDigit = [] ∧ rest.dropWhile Char.isDigit = rest := by
    cases rest with
    | nil => exact ⟨rfl, rfl⟩
    | cons c rest => simp [stop c rfl]
  rw [scanDigits, List.takeWhile_append_of_pos digits, List.dropWhile_append_of_pos digits, whole.1,
    whole.2, List.append_nil]

theorem scanFraction_append {fraction : List Nat} (writes : WritesFraction fraction cs)
    (stop : ∀ c ∈ rest.head?, c.isDigit = false ∧ c ≠ '.') :
    scanFraction (cs ++ rest) = some (fraction, rest) := by
  cases writes with
  | none =>
    rw [List.nil_append]
    unfold scanFraction
    split
    · exact absurd rfl (stop '.' rfl).2
    · rfl
  | some digits =>
    have read := scanDigits_append digits.digits fun c h => (stop c h).1
    rw [List.cons_append, scanFraction, read]
    simp [digits.some]

theorem scanPower_append (negative : Bool) (digits : Digits cs)
    (stop : ∀ c ∈ rest.head?, c.isDigit = false) :
    scanPower negative (cs ++ rest) = some (negative, cs.map digit, rest) := by
  rw [scanPower, scanDigits_append digits.digits stop]
  simp [digits.some]

theorem scanExponent_append {negative : Bool} {exponent : List Nat}
    (writes : WritesExponent negative exponent cs)
    (stop : ∀ c ∈ rest.head?, c.isDigit = false ∧ c ≠ 'e' ∧ c ≠ 'E') :
    scanExponent (cs ++ rest) = some (negative, exponent, rest) := by
  cases writes with
  | none =>
    rw [List.nil_append]
    unfold scanExponent
    split
    case h_7 => rfl
    all_goals simp at stop
  | some mark sign digits =>
    have read := fun negative => scanPower_append negative digits fun c h => (stop c h).1
    simp only [List.mem_cons, Prod.mk.injEq, List.not_mem_nil, or_false] at sign
    rcases sign with ⟨rfl, rfl⟩ | ⟨rfl, rfl⟩ | ⟨rfl, rfl⟩
    · obtain ⟨c, tail, rfl⟩ := List.exists_cons_of_ne_nil digits.some
      have digit := digits.digits c List.mem_cons_self
      have plus : c ≠ '+' := by
        rintro rfl
        cases digit
      have minus : c ≠ '-' := by
        rintro rfl
        cases digit
      rcases mark with rfl | rfl <;> simpa [scanExponent, plus, minus] using read false
    · rcases mark with rfl | rfl <;> exact read false
    · rcases mark with rfl | rfl <;> exact read true

theorem stop_of_ends {t : NumberText} {negative : Bool} {fraction exponent : List Nat}
    {fractionText exponentText : List Char} (writes : WritesFraction fraction fractionText)
    (writes' : WritesExponent negative exponent exponentText)
    (ends : (Symbol.number t).EndsAt rest) :
    (∀ c ∈ (fractionText ++ (exponentText ++ rest)).head?, c.isDigit = false) ∧
      ∀ c ∈ (exponentText ++ rest).head?, c.isDigit = false ∧ c ≠ '.' := by
  have last : ∀ c ∈ (exponentText ++ rest).head?, c.isDigit = false ∧ c ≠ '.' := by
    cases writes' with
    | none => exact fun c h => ⟨(ends c h).1, (ends c h).2.1⟩
    | some mark =>
      rintro c ⟨⟩
      rcases mark with rfl | rfl <;> exact ⟨rfl, by decide⟩
  refine ⟨?_, last⟩
  cases writes with
  | none => exact fun c h => (last c h).1
  | some =>
    rintro c ⟨⟩
    rfl

theorem eq_zero_of_digit {c : Char} (isDigit : c.isDigit = true) (zero : digit c = 0) : c = '0' := by
  simp only [Char.isDigit, Bool.and_eq_true, decide_eq_true_eq, ge_iff_le, UInt32.le_iff_toNat_le]
    at isDigit
  refine Char.toNat_inj.1 ?_
  have low : 48 ≤ c.toNat := isDigit.1
  have here : c.toNat - 48 = 0 := zero
  show c.toNat = 48
  omega

theorem scanUnsigned_append (negative : Bool) {whole fractionText exponentText : List Char}
    {exponentNegative : Bool} {fraction exponent : List Nat} (digits : Digits whole)
    (single : whole.head? = some '0' → whole.length = 1)
    (writes : WritesFraction fraction fractionText)
    (writes' : WritesExponent exponentNegative exponent exponentText)
    {t : NumberText} (ends : (Symbol.number t).EndsAt rest) :
    scanUnsigned negative (whole ++ (fractionText ++ (exponentText ++ rest))) =
      some (⟨negative, whole.map digit, fraction, exponentNegative, exponent⟩, rest) := by
  obtain ⟨stop, stop'⟩ := stop_of_ends writes writes' ends
  have digitsRead := scanDigits_append digits.digits stop
  have fractionRead := scanFraction_append writes stop'
  have exponentRead := scanExponent_append writes' fun c h => ⟨(ends c h).1, (ends c h).2.2⟩
  have first : ∀ c, whole.head? = some c → digit c = 0 → whole.length = 1 := fun c head zero =>
    single <| head.trans <| congrArg some <|
      eq_zero_of_digit (digits.digits c (List.mem_of_mem_head? head)) zero
  simpa [scanUnsigned, digitsRead, fractionRead, exponentRead, digits.some] using first

theorem scanNumber_append {t : NumberText} (writes : WritesNumber t cs)
    (ends : (Symbol.number t).EndsAt rest) : scanNumber (cs ++ rest) = some (t, rest) := by
  cases writes with
  | mk signed digits single fraction exponent =>
  have read := fun negative => scanUnsigned_append negative digits single fraction exponent ends
  simp only [List.mem_cons, Prod.mk.injEq, List.not_mem_nil, or_false] at signed
  simp only [List.append_assoc]
  rcases signed with ⟨rfl, rfl⟩ | ⟨rfl, rfl⟩
  · obtain ⟨c, tail, rfl⟩ := List.exists_cons_of_ne_nil digits.some
    have minus : c ≠ '-' := by
      rintro rfl
      cases digits.digits '-' List.mem_cons_self
    simpa [scanNumber, minus] using read false
  · exact read true

theorem head_number {t : NumberText} (writes : WritesNumber t cs) :
    ∃ c tail, cs = c :: tail ∧ (c = '-' ∨ c.isDigit = true) := by
  cases writes with
  | @mk _ _ _ _ _ whole _ _ signed digits =>
    obtain ⟨c, tail, rfl⟩ := List.exists_cons_of_ne_nil digits.some
    simp only [List.mem_cons, Prod.mk.injEq, List.not_mem_nil, or_false] at signed
    rcases signed with ⟨-, rfl⟩ | ⟨-, rfl⟩
    · exact ⟨c, _, rfl, .inr (digits.digits c List.mem_cons_self)⟩
    · exact ⟨'-', _, rfl, .inl rfl⟩

theorem scan?_number {c : Char} {tail : List Char} (head : c = '-' ∨ c.isDigit = true) :
    scan? (c :: tail) =
      (scanNumber (c :: tail)).map fun (t, rest) => (number (Number.ofText? t), rest) := by
  unfold scan?
  split
  case h_11 => cases scanNumber (c :: tail) <;> rfl
  all_goals
    rename_i same
    cases same
    exact absurd head (by decide)

end Numbers

section Strings

variable {cs rest : List Char} {items : List (Nat ⊕ Char)}

theorem scanString_append (writes : WritesString items cs) :
    scanString (cs ++ '"' :: rest) = some (items, rest) := by
  induction writes with
  | done => rfl
  | plain quote backslash printable _ ih =>
    rw [List.cons_append, scanString]
    · simp [ih, backslash, Nat.not_lt.2 printable]
    · exact quote
    · exact fun _ _ _ _ _ same => absurd same backslash
    · exact fun _ _ same => absurd same backslash
  | escape escaped _ ih =>
    rw [List.cons_append, List.cons_append, scanString]
    · simp [escaped, ih]
    · rintro _ _ _ _ _ rfl
      cases escaped
  | unit unit _ ih =>
    simp only [List.cons_append, scanString, unit, ih]
    rfl

end Strings

theorem isBlank_iff {c : Char} : isBlank c = true ↔ c ∈ [' ', '\t', '\n', '\r'] := by
  simp [isBlank, or_assoc]

theorem head_of_writes {s : Symbol} {cs : List Char} (writes : Writes s cs) :
    ∃ c tail, cs = c :: tail ∧ ¬ isBlank c := by
  cases writes with
  | number writes =>
    obtain ⟨c, tail, rfl, head⟩ := head_number writes
    refine ⟨c, tail, rfl, fun blank => ?_⟩
    rw [isBlank_iff] at blank
    simp only [List.mem_cons, List.not_mem_nil, or_false] at blank
    rcases blank with rfl | rfl | rfl | rfl <;> exact absurd head (by decide)
  | text writes => exact ⟨_, _, rfl, by decide⟩
  | _ => exact ⟨_, _, rfl, by decide⟩

theorem scan?_append {s : Symbol} {cs rest : List Char} (writes : Writes s cs) (ends : s.EndsAt rest) :
    scan? (cs ++ rest) = some (s.lexeme, rest) := by
  cases writes with
  | number writes =>
    obtain ⟨c, tail, rfl, head⟩ := head_number writes
    have read := scanNumber_append writes ends
    rw [List.cons_append] at read ⊢
    rw [scan?_number head, read]
    rfl
  | text writes =>
    rw [List.append_assoc, List.cons_append, List.singleton_append, scan?, scanString_append writes]
    rfl
  | _ => rfl

theorem all_of_spells {symbols : List Symbol} {cs : List Char} (spells : Spells symbols cs) :
    all cs = symbols.map Symbol.lexeme := by
  induction spells with
  | done => rw [all, List.map_nil]
  | blank blank _ ih =>
    rw [all, if_pos (isBlank_iff.2 blank), ih]
  | @symbol s symbols cs rest writes ends _ ih =>
    -- No symbol begins with a blank, so it is scanned where it stands.
    have read := scan?_append writes ends
    obtain ⟨c, tail, rfl, ink⟩ := head_of_writes writes
    rw [List.cons_append] at read ⊢
    rw [all, if_neg ink]
    split
    case h_1 none =>
      rw [read] at none
      cases none
    case h_2 found =>
      rw [read] at found
      cases found
      rw [ih, List.map_cons]

end Lexeme

end TokenSearch.Json
