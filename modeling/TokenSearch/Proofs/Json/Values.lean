import TokenSearch.Json.Skip
import TokenSearch.Proofs.Json.Spelling

/-!
Well-formed values, of any depth, as lists of symbols. Passing over such a value leaves exactly what
follows it, whatever is open around it: the induction is on the form of the value, and what carries
it is that every part of a value ends where the enclosing frame goes on.
-/

namespace TokenSearch.Json

inductive Form where
  | value
  | elements
  | members
deriving DecidableEq, Repr

/-- Well-formed JSON. Numbers may have any size, and strings need not be text. -/
inductive WellFormed : Form → List Symbol → Prop
  | null : WellFormed .value [.null]
  | boolean (b : Bool) : WellFormed .value [.boolean b]
  | number (t : NumberText) : WellFormed .value [.number t]
  | text (items : List (Nat ⊕ Char)) : WellFormed .value [.text items]
  | emptyArray : WellFormed .value [.openBracket, .closeBracket]
  | array {es : List Symbol} : WellFormed .elements es →
    WellFormed .value (.openBracket :: (es ++ [.closeBracket]))
  | emptyObject : WellFormed .value [.openBrace, .closeBrace]
  | object {ms : List Symbol} : WellFormed .members ms →
    WellFormed .value (.openBrace :: (ms ++ [.closeBrace]))
  | element {v : List Symbol} : WellFormed .value v → WellFormed .elements v
  | moreElements {v es : List Symbol} : WellFormed .value v → WellFormed .elements es →
    WellFormed .elements (v ++ .comma :: es)
  | member {key : List (Nat ⊕ Char)} {v : List Symbol} : WellFormed .value v →
    WellFormed .members (.text key :: .colon :: v)
  | moreMembers {key : List (Nat ⊕ Char)} {v ms : List Symbol} : WellFormed .value v →
    WellFormed .members ms → WellFormed .members (.text key :: .colon :: (v ++ .comma :: ms))

/-- What is left when a value is over: everything, once no frame is open. -/
def resume : List Frame → List Lexeme → Option (List Lexeme)
  | [], rest => some rest
  | frame :: frames, rest => skipFrom (frame :: frames) .next rest

section Step

variable {frames frames' : List Frame} {awaited awaited' : Awaited} {l : Lexeme} {rest : List Lexeme}

theorem skipFrom_of_next (h : awaited.step frames l = some (frames', .next)) :
    skipFrom frames awaited (l :: rest) = resume frames' rest := by
  rw [skipFrom, h]
  cases frames' <;> rfl

theorem skipFrom_of_step (h : awaited.step frames l = some (frames', awaited'))
    (more : awaited' ≠ .next) :
    skipFrom frames awaited (l :: rest) = skipFrom frames' awaited' rest := by
  rw [skipFrom, h]
  cases frames' <;> cases awaited' <;> first | rfl | exact absurd rfl more

def Awaited.IsValue (frames : List Frame) (awaited : Awaited) : Prop :=
  awaited = .value ∨ awaited = .firstElement ∧ frames ≠ []

theorem step_of_isValue (h : awaited.IsValue frames) (other : l ≠ .closeBracket) :
    awaited.step frames l = Awaited.step.start frames l := by
  rcases h with rfl | ⟨rfl, some⟩
  · rw [Awaited.step]
  · cases frames with
    | nil => exact absurd rfl some
    | cons frame frames => cases l <;> first | rfl | exact absurd rfl other

end Step

/-- Passing over symbols of a form leaves what follows the value that they are, or are part of. -/
def Form.Passes : Form → List Lexeme → Prop
  | value, v => ∀ frames rest awaited, awaited.IsValue frames →
    skipFrom frames awaited (v ++ rest) = resume frames rest
  | elements, es => ∀ frames rest awaited, awaited.IsValue (.list :: frames) →
    skipFrom (.list :: frames) awaited (es ++ .closeBracket :: rest) = resume frames rest
  | members, ms => ∀ frames rest awaited, awaited = .key ∨ awaited = .firstKey →
    skipFrom (.record :: frames) awaited (ms ++ .closeBrace :: rest) = resume frames rest

section Passes

variable {l : Lexeme} {v es ms : List Lexeme}

theorem passes_single (next : ∀ frames, Awaited.step.start frames l = some (frames, .next))
    (other : l ≠ .closeBracket) : Form.value.Passes [l] := fun _ _ _ isValue =>
  skipFrom_of_next ((step_of_isValue isValue other).trans (next _))

theorem skipFrom_openBracket {frames : List Frame} {awaited : Awaited}
    (isValue : awaited.IsValue frames) (rest : List Lexeme) :
    skipFrom frames awaited (.openBracket :: rest) =
      skipFrom (.list :: frames) .firstElement rest :=
  skipFrom_of_step (step_of_isValue isValue nofun) nofun

theorem skipFrom_openBrace {frames : List Frame} {awaited : Awaited}
    (isValue : awaited.IsValue frames) (rest : List Lexeme) :
    skipFrom frames awaited (.openBrace :: rest) = skipFrom (.record :: frames) .firstKey rest :=
  skipFrom_of_step (step_of_isValue isValue nofun) nofun

theorem passes_array (inner : Form.elements.Passes es) :
    Form.value.Passes (.openBracket :: (es ++ [.closeBracket])) := by
  intro frames rest awaited isValue
  rw [List.cons_append, skipFrom_openBracket isValue, List.append_assoc]
  exact inner frames rest .firstElement (.inr ⟨rfl, List.cons_ne_nil _ _⟩)

theorem passes_object (inner : Form.members.Passes ms) :
    Form.value.Passes (.openBrace :: (ms ++ [.closeBrace])) := by
  intro frames rest awaited isValue
  rw [List.cons_append, skipFrom_openBrace isValue, List.append_assoc]
  exact inner frames rest .firstKey (.inr rfl)

theorem passes_element (value : Form.value.Passes v) : Form.elements.Passes v := by
  intro frames rest awaited isValue
  rw [value _ _ _ isValue]
  exact skipFrom_of_next rfl

theorem passes_elements (value : Form.value.Passes v) (others : Form.elements.Passes es) :
    Form.elements.Passes (v ++ .comma :: es) := by
  intro frames rest awaited isValue
  have comma : Awaited.step (.list :: frames) .next .comma = some (.list :: frames, .value) := rfl
  rw [List.append_assoc, value _ _ _ isValue, List.cons_append]
  exact (skipFrom_of_step comma nofun).trans (others frames rest .value (.inl rfl))

theorem skipFrom_member {awaited : Awaited} (key : Option String)
    (isKey : awaited = .key ∨ awaited = .firstKey) (frames : List Frame) (rest : List Lexeme) :
    skipFrom (.record :: frames) awaited (.text key :: .colon :: rest) =
      skipFrom (.record :: frames) .value rest := by
  rcases isKey with rfl | rfl <;> rfl

theorem passes_member (key : Option String) (value : Form.value.Passes v) :
    Form.members.Passes (.text key :: .colon :: v) := by
  intro frames rest awaited isKey
  rw [List.cons_append, List.cons_append, skipFrom_member key isKey, value _ _ _ (.inl rfl)]
  exact skipFrom_of_next rfl

theorem passes_members (key : Option String) (value : Form.value.Passes v)
    (others : Form.members.Passes ms) :
    Form.members.Passes (.text key :: .colon :: (v ++ .comma :: ms)) := by
  intro frames rest awaited isKey
  have comma : Awaited.step (.record :: frames) .next .comma = some (.record :: frames, .key) := rfl
  rw [List.cons_append, List.cons_append, skipFrom_member key isKey, List.append_assoc,
    value _ _ _ (.inl rfl), List.cons_append]
  exact (skipFrom_of_step comma nofun).trans (others frames rest .key (.inl rfl))

theorem passes_of_wellFormed {form : Form} {symbols : List Symbol}
    (wellFormed : WellFormed form symbols) : form.Passes (symbols.map Symbol.lexeme) := by
  induction wellFormed with
  | null => exact passes_single (fun _ => rfl) nofun
  | boolean b => exact passes_single (fun _ => rfl) nofun
  | number t => exact passes_single (fun _ => rfl) nofun
  | text items => exact passes_single (fun _ => rfl) nofun
  | emptyArray =>
    intro frames rest awaited isValue
    exact (skipFrom_openBracket isValue _).trans (skipFrom_of_next rfl)
  | emptyObject =>
    intro frames rest awaited isValue
    exact (skipFrom_openBrace isValue _).trans (skipFrom_of_next rfl)
  | array _ ih => simpa [Symbol.lexeme] using passes_array ih
  | object _ ih => simpa [Symbol.lexeme] using passes_object ih
  | element _ ih => exact passes_element ih
  | moreElements _ _ ih ih' => simpa [Symbol.lexeme] using passes_elements ih ih'
  | member _ ih => exact passes_member _ ih
  | moreMembers _ _ ih ih' => simpa [Symbol.lexeme] using passes_members _ ih ih'

/-- A well-formed value is passed over, and nothing else. -/
theorem skip?_of_wellFormed {symbols : List Symbol} (wellFormed : WellFormed .value symbols)
    (rest : List Lexeme) : skip? (symbols.map Symbol.lexeme ++ rest) = some rest :=
  passes_of_wellFormed wellFormed [] rest .value (.inl rfl)

end Passes

end TokenSearch.Json
