import BoundTemplate.Text.Excerpt
import BoundTemplate.Text.LineTable

/-!
# Sources

A source is a text with its line table. Everything that is read from a template
is located in its source: a span gives a range, and a piece is the text of a span
with its range.
-/

namespace BoundTemplate

/-- A text and its line table. -/
structure Source where
  text : Text
  table : LineTable := LineTable.ofText text
  table_eq : table = LineTable.ofText text := by rfl

/-- A part of a template, word for word, and where it stands. -/
structure Piece where
  text : Text
  range : Range
  deriving DecidableEq, Repr

namespace Source

/-- The source of a text. -/
def ofText (t : Text) : Source := { text := t }

/-- The position of an offset; one past the end counts as the end. -/
def position (s : Source) (offset : Nat) : Position := s.table.position (min offset s.text.size)

/-- The range of a span. -/
def range (s : Source) (span : Span) : Range := ⟨s.position span.start, s.position span.stop⟩

/-- The text of a span and its range. -/
def piece (s : Source) (span : Span) : Piece := ⟨s.text.slice span, s.range span⟩

/-- The part of the text that a span covers. -/
def excerpt (s : Source) (span : Span) : Excerpt := ⟨span.start, s.text.slice span⟩

end Source

end BoundTemplate
