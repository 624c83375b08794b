import BoundTemplate.Text.Excerpt

/-!
# Entries of a binding list

A list is cut into entries at the commas outside of all brackets and quotes.
Brackets are counted and not matched, one that closes nothing counts for
nothing, and in quotes a backslash keeps the character behind it. The cut comes
first, as a list of pieces that joined by commas are the text again; then blanks
are trimmed and empty pieces left out.
-/

namespace BoundTemplate.Binding

/-- What is open at some place of a list. -/
structure Nesting where
  /-- How many brackets are open. -/
  depth : Nat
  /-- The quote that is open. -/
  quote : Option Char
  /-- In quotes, a backslash stands in front. -/
  escaped : Bool
  deriving DecidableEq, Repr

namespace Nesting

/-- Nothing is open. -/
def none : Nesting := ⟨0, .none, false⟩

/-- What is open behind a character. -/
def step (n : Nesting) (c : Char) : Nesting :=
  match n.quote with
  | some quote =>
    if n.escaped then { n with escaped := false }
    else if c = '\\' then { n with escaped := true }
    else if c = quote then { n with quote := .none }
    else n
  | .none =>
    if c = '"' || c = '\'' || c = '`' then { n with quote := some c }
    else if c = '(' || c = '[' || c = '{' then { n with depth := n.depth + 1 }
    else if c = ')' || c = ']' || c = '}' then { n with depth := n.depth - 1 }
    else n

/-- Whether a character separates two entries. -/
def separates (n : Nesting) (c : Char) : Bool := c == ',' && n.quote.isNone && n.depth == 0

/-- What is open behind a text. -/
def after (n : Nesting) (t : Text) : Nesting := t.foldl step n

/-- A comma opens nothing. -/
theorem step_of_separates {n : Nesting} {c : Char} (h : n.separates c = true) : n.step c = n := by
  simp only [separates, Bool.and_eq_true, beq_iff_eq, Option.isNone_iff_eq_none] at h
  obtain ⟨⟨rfl, hq⟩, _⟩ := h
  simp [step, hq]

end Nesting

/-- Puts a character in front of the first of some pieces. -/
def consFirst (c : Char) : List Text → List Text
  | [] => [[c]]
  | piece :: pieces => (c :: piece) :: pieces

/-- The pieces of a text between its separating commas. -/
def pieces (n : Nesting) : Text → List Text
  | [] => [[]]
  | c :: t => if n.separates c then [] :: pieces n t else consFirst c (pieces (n.step c) t)

/-- The pieces, each where it stands; the first starts at an offset. -/
def place (offset : Nat) : List Text → List Excerpt
  | [] => []
  | piece :: pieces => ⟨offset, piece⟩ :: place (offset + piece.size + 1) pieces

/-- The entries of a list, where they stand in it. -/
def entries (list : Excerpt) : List Excerpt :=
  ((place list.offset (pieces .none list.text)).map Excerpt.trim).filter fun e => !e.text.isEmpty

/-- There is always a piece. -/
theorem pieces_ne_nil (n : Nesting) (t : Text) : pieces n t ≠ [] := by
  cases t with
  | nil => simp [pieces]
  | cons c t =>
    simp only [pieces]
    split
    · simp
    · cases pieces (n.step c) t <;> simp [consFirst]

/-- The pieces joined by commas are the text. -/
theorem intercalate_pieces (n : Nesting) (t : Text) : [','].intercalate (pieces n t) = t := by
  induction t generalizing n with
  | nil => simp [pieces, List.intercalate]
  | cons c t ih =>
    simp only [pieces]
    split
    · next h =>
      have hc : c = ',' := by
        simp only [Nesting.separates, Bool.and_eq_true, beq_iff_eq] at h
        exact h.1.1
      have := ih n
      cases hp : pieces n t with
      | nil => exact absurd hp (pieces_ne_nil n t)
      | cons p ps =>
        rw [hp] at this
        simp only [List.intercalate, List.intersperse_cons_cons, List.flatten_cons,
          List.nil_append, List.cons_append, hc] at *
        rw [this]
    · have := ih (n.step c)
      cases hp : pieces (n.step c) t with
      | nil => exact absurd hp (pieces_ne_nil _ t)
      | cons p ps =>
        rw [hp] at this
        cases ps with
        | nil => simpa [consFirst, List.intercalate] using this
        | cons q qs =>
          simp only [consFirst, List.intercalate, List.intersperse_cons_cons,
            List.flatten_cons, List.cons_append] at *
          rw [this]

end BoundTemplate.Binding
