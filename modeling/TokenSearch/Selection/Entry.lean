import TokenSearch.Binary32.Basic

/-!
Entries of a selection and the best `k` of a list.

An entry is a score at a place. Entries are ranked by the total order of scores, descending,
then by the lower place; a filler, which has no place, comes after every real entry of the
same score. `topK` keeps a sorted list of at most `k` entries while it walks over the input.
-/

namespace TokenSearch.Selection

structure Entry where
  score : Binary32
  /-- Row-major position of the score, or nothing for a filler. -/
  place : Option Nat
deriving DecidableEq, Repr, Inhabited

namespace Entry

/-- Takes a rank that no real entry needs. -/
def filler : Entry := ⟨Binary32.bottom, none⟩

def placeLe : Option Nat → Option Nat → Bool
  | _, none => true
  | none, some _ => false
  | some a, some b => a ≤ b

/-- Whether `a` ranks no later than `b`. -/
def before (a b : Entry) : Bool :=
  b.score.rank < a.score.rank || (a.score.rank = b.score.rank && placeLe a.place b.place)

end Entry

/-- Puts an entry behind all those that rank no later. -/
def insert (e : Entry) : List Entry → List Entry
  | [] => [e]
  | x :: xs => if x.before e then x :: insert e xs else e :: x :: xs

def topK (k : Nat) (entries : List Entry) : List Entry :=
  entries.foldl (fun best e => (insert e best).take k) []

def pad (k : Nat) (entries : List Entry) : List Entry :=
  entries ++ List.replicate (k - entries.length) Entry.filler

@[simp] theorem length_insert (e : Entry) (es : List Entry) : (insert e es).length = es.length + 1 := by
  induction es with
  | nil => rfl
  | cons x xs ih => unfold insert; split <;> simp [ih]

@[simp] theorem length_topK (k : Nat) (es : List Entry) : (topK k es).length = min k es.length := by
  suffices h : ∀ best : List Entry, best.length ≤ k →
      (es.foldl (fun best e => (insert e best).take k) best).length =
        min k (best.length + es.length) by
    simpa [topK] using h [] (Nat.zero_le k)
  induction es with
  | nil => exact fun best h => (Nat.min_eq_right h).symm
  | cons e es ih =>
    intro best h
    have taken : ((insert e best).take k).length = min k (best.length + 1) := by simp
    have bounded : ((insert e best).take k).length ≤ k := List.length_take_le _ _
    rw [List.foldl_cons, ih _ bounded, taken, List.length_cons]
    omega

theorem length_pad {k : Nat} {es : List Entry} (h : es.length ≤ k) : (pad k es).length = k := by
  simp [pad]; omega

@[simp] theorem length_pad_topK (k : Nat) (es : List Entry) : (pad k (topK k es)).length = k :=
  length_pad (length_topK k es ▸ Nat.min_le_left _ _)

end TokenSearch.Selection
