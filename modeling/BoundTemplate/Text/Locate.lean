import BoundTemplate.Text.LineTable

/-!
# Places in a text

The checked conversions refuse an offset outside of the text first and an
offset inside a character second; what they return are positions that a line
table gives.
-/

namespace BoundTemplate

/-- A computation that goes on behind another and succeeds goes on with a result of that one. -/
theorem exists_of_bind_eq_ok {ε α β : Type} {x : Except ε α} {f : α → Except ε β} {b : β}
    (h : x >>= f = .ok b) : ∃ a, x = .ok a ∧ f a = .ok b := by
  cases x with
  | error e => cases h
  | ok a => exact ⟨a, rfl, h⟩

namespace Text

/-- Refuses an offset outside of the text or inside a character. -/
def checkBoundary (t : Text) (offset : Nat) : Except LocationError Unit :=
  if offset > t.size then .error (.offsetOutOfBounds (signedWord offset) t.size)
  else if t.isBoundary offset then .ok ()
  else .error (.notCharBoundary offset)

/-- What is accepted as a boundary is one. -/
theorem isBoundary_of_checkBoundary {t : Text} {offset : Nat} {u : Unit}
    (h : t.checkBoundary offset = .ok u) : t.isBoundary offset = true := by
  unfold checkBoundary at h
  split at h
  · cases h
  · split at h
    · assumption
    · cases h

/-- What stands behind an offset between two characters. -/
def checkedDrop (t : Text) (offset : Nat) : Except LocationError Text :=
  (t.checkBoundary offset).map fun _ => t.dropBytes offset

theorem eq_of_checkedDrop {t rest : Text} {offset : Nat} (h : t.checkedDrop offset = .ok rest) :
    t.isBoundary offset = true ∧ rest = t.dropBytes offset := by
  unfold checkedDrop at h
  cases hc : t.checkBoundary offset with
  | error e =>
    rw [hc] at h
    cases h
  | ok u =>
    rw [hc] at h
    cases h
    exact ⟨isBoundary_of_checkBoundary hc, rfl⟩

/-- The part of a text that a span covers, if both ends of the span lie between characters. -/
def checkedSlice (t : Text) (s : Span) : Except LocationError Text := do
  t.checkBoundary s.start
  t.checkBoundary s.stop
  return t.slice s

/-- The position of an offset between two characters. -/
def positionFromOffset (t : Text) (offset : Nat) : Except LocationError Position := do
  t.checkBoundary offset
  (LineTable.ofText t).positionAt offset

/-- The position of a line and a column between two characters. -/
def positionFromLineColumn (t : Text) (line column : Nat) : Except LocationError Position := do
  let p ← (LineTable.ofText t).positionAtLineColumn line column
  t.checkBoundary p.offset
  return p

/-- The range between two offsets that both lie between characters. -/
def rangeFromOffsets (t : Text) (start stop : Nat) : Except LocationError Range := do
  t.checkBoundary start
  t.checkBoundary stop
  (LineTable.ofText t).rangeAt start stop

/-- The position `delta` bytes from a position; only the offset of the position counts. -/
def movePosition (t : Text) (p : Position) (delta : Int) : Except LocationError Position := do
  let target ← LineTable.moveOffset t.size p.offset delta
  t.positionFromOffset target

/-- A range with both ends moved by `delta` bytes. Both ends have to lie in the text before either
is refused for lying inside a character. -/
def moveRange (t : Text) (r : Range) (delta : Int) : Except LocationError Range := do
  let table := LineTable.ofText t
  let start ← table.move r.start.offset delta
  let stop ← table.move r.stop.offset delta
  t.checkBoundary start.offset
  t.checkBoundary stop.offset
  return ⟨start, stop⟩

end Text

end BoundTemplate
