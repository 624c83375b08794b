import BoundTemplate.Proofs.Text.Excerpt
import BoundTemplate.Template.Node

/-!
# Slices that are there

A slice of a text is the part at a span, and nothing where there is no such part. The
reading of a part that may fail tells both apart: it gives a part exactly where one
stands.
-/

namespace BoundTemplate

namespace Text

/-- The part of a text at a span, if the ends of the span are in order and lie between characters of
the text. -/
def part? (t : Text) (s : Span) : Option Text :=
  if s.start ≤ s.stop && t.isBoundary s.start && t.isBoundary s.stop then
    some (takeBytes (s.stop - s.start) (dropBytes s.start t))
  else none

/-- A slice falls back on the empty text exactly where there is no part. -/
theorem slice_eq_getD_part? (t : Text) (s : Span) : t.slice s = (t.part? s).getD [] := by
  unfold slice part?
  split <;> rfl

/-- A part is given exactly where it stands. -/
theorem part?_eq_some_iff {t part : Text} {s : Span} :
    t.part? s = some part ↔ t.Holds s part := by
  constructor
  · intro h
    have hslice : t.slice s = part := by rw [slice_eq_getD_part?, h, Option.getD_some]
    unfold part? at h
    split at h
    · next hc =>
      simp only [Bool.and_eq_true, decide_eq_true_eq] at hc
      obtain ⟨⟨hle, hstart⟩, hstop⟩ := hc
      obtain ⟨part', hpart⟩ := exists_holds hstart hstop hle
      rw [← hslice, hpart.slice_eq]
      exact hpart
    · cases h
  · intro h
    have hc : (s.start ≤ s.stop && t.isBoundary s.start && t.isBoundary s.stop) = true := by
      rw [h.isBoundary_start, h.isBoundary_stop, decide_eq_true h.start_le_stop]
      rfl
    have hslice := h.slice_eq
    rw [slice, if_pos hc] at hslice
    rw [part?, if_pos hc, hslice]

/-- What stands at the place of an excerpt is given by its span. -/
theorem Holds.excerpt {t part : Text} {s : Span} (h : t.Holds s part) :
    t.Holds (Excerpt.span ⟨s.start, part⟩) part := by
  rw [h.span_mk]
  exact h

end Text

namespace Source

variable {source : Source} {span : Span} {part : Text}

/-- The text of a span and its range, if there is a part at the span. -/
def piece? (s : Source) (span : Span) : Option Piece := do
  return ⟨← s.text.part? span, s.range span⟩

/-- The part of the text at a span, if there is one. -/
def excerpt? (s : Source) (span : Span) : Option Excerpt := do
  return ⟨span.start, ← s.text.part? span⟩

theorem piece?_eq_some (h : source.text.Holds span part) :
    source.piece? span = some (source.piece span) := by
  rw [piece?, Text.part?_eq_some_iff.2 h, piece, h.slice_eq]
  rfl

theorem excerpt_eq (h : source.text.Holds span part) :
    source.excerpt span = ⟨span.start, part⟩ := by
  rw [excerpt, h.slice_eq]

theorem excerpt?_eq_some (h : source.text.Holds span part) :
    source.excerpt? span = some ⟨span.start, part⟩ := by
  rw [excerpt?, Text.part?_eq_some_iff.2 h]
  rfl

/-! ### Ranges -/

/-- The ends of a range have the lines and columns that the line table gives their offsets. -/
def Locates (s : Source) (r : Range) : Prop :=
  s.table.positionAt r.start.offset = .ok r.start ∧
    s.table.positionAt r.stop.offset = .ok r.stop

/-- A position of a source has the line and the column of its offset. -/
theorem positionAt_position (s : Source) (offset : Nat) :
    s.table.positionAt (s.position offset).offset = .ok (s.position offset) := by
  have hsize : s.table.size = s.text.size := by rw [s.table_eq]; rfl
  have hle : ¬ min offset s.text.size > s.table.size := by omega
  exact if_neg hle

theorem locates_range (s : Source) (span : Span) : s.Locates (s.range span) :=
  ⟨s.positionAt_position _, s.positionAt_position _⟩

theorem locates_empty (s : Source) (offset : Nat) : s.Locates (Range.empty (s.position offset)) :=
  ⟨s.positionAt_position _, s.positionAt_position _⟩

/-- The range of a span that lies in the text has its offsets. -/
theorem span_range (h : span.start ≤ span.stop) (hs : span.stop ≤ source.text.size) :
    (source.range span).span = span := by
  have hstart : min span.start source.text.size = span.start := by omega
  have hstop : min span.stop source.text.size = span.stop := by omega
  simp only [range, position, Range.span, LineTable.position, hstart, hstop]

theorem span_range_of_holds (h : source.text.Holds span part) : (source.range span).span = span :=
  span_range h.start_le_stop h.stop_le_size

/-- The range of a span that ends in the text ends where the span does. -/
theorem stop_span_range (h : span.stop ≤ source.text.size) :
    (source.range span).span.stop = span.stop :=
  Nat.min_eq_left h

/-- A piece is what stands at its range, word for word. -/
structure Has (s : Source) (p : Piece) : Prop where
  holds : s.text.Holds p.range.span p.text
  locates : s.Locates p.range

/-- The piece of a span is there if a part is. -/
theorem has_piece (h : source.text.Holds span part) : source.Has (source.piece span) := by
  refine ⟨?_, source.locates_range span⟩
  simp only [piece, span_range_of_holds h, h.slice_eq]
  exact h

/-- Nothing stands between two characters, and is there. -/
theorem has_empty {offset : Nat} (h : source.text.isBoundary offset = true) :
    source.Has ⟨[], Range.empty (source.position offset)⟩ := by
  refine ⟨?_, source.locates_empty offset⟩
  have hholds := Text.holds_empty h
  have hspan : (Range.empty (source.position offset)).span = Span.empty offset :=
    span_range_of_holds hholds
  rw [hspan]
  exact hholds

end Source

/-- What stands between the quotes of a literal. -/
def Literal.piece (l : Literal) : Piece := ⟨l.text, l.range⟩

end BoundTemplate
