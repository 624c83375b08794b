import BoundTemplate.Text.Span

/-!
# Positions and ranges

A position is an offset together with the line and the column it has in one
text; a range is a pair of positions. Lines and columns count from zero, and a
column counts bytes.
-/

namespace BoundTemplate

/-- A place between two bytes of a text. -/
structure Position where
  /-- Number of lines that end in front of the place. -/
  line : Nat
  /-- Bytes between the start of the line and the place. -/
  column : Nat
  /-- Bytes between the start of the text and the place. -/
  offset : Nat
  deriving DecidableEq, Repr, Inhabited

namespace Position

/-- Positions are ordered by line, then by column, then by offset. -/
def compare (p q : Position) : Ordering :=
  ((Ord.compare p.line q.line).then (Ord.compare p.column q.column)).then
    (Ord.compare p.offset q.offset)

/-- The text of a position counts lines and columns from one. -/
def render (p : Position) : String := s!"{p.line + 1}:{p.column + 1}"

end Position

/-- A part of a text between two positions. -/
structure Range where
  /-- Position of the first byte. -/
  start : Position
  /-- Position behind the last byte. -/
  stop : Position
  deriving DecidableEq, Repr, Inhabited

namespace Range

/-- The range of no bytes at a position. -/
def empty (p : Position) : Range := ⟨p, p⟩

/-- The offsets of both ends. -/
def span (r : Range) : Span := ⟨r.start.offset, r.stop.offset⟩

/-- The number of bytes of a range. -/
def size (r : Range) : Nat := r.span.size

/-- Whether a range has no bytes. -/
def isEmpty (r : Range) : Bool := r.size == 0

/-- A range contains both of its ends. -/
def contains (r : Range) (offset : Nat) : Bool := r.span.contains offset

/-- Whether every byte of the second range belongs to the first. -/
def containsRange (r other : Range) : Bool := r.span.containsSpan other.span

/-- The text of a range, as the texts of its ends around a dash. -/
def render (r : Range) : String := r.start.render ++ "-" ++ r.stop.render

end Range

end BoundTemplate
