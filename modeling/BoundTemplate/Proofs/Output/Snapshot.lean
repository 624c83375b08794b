import BoundTemplate.Proofs.Binding.Verbatim
import BoundTemplate.Proofs.Output.Lookup
import Mathlib.Data.List.Forall2

/-!
# Snapshots are valid

Whatever the spans and offsets of a chunk are, its snapshot has ranges and positions of
the two texts. A snapshot that asks the line tables, which may refuse an offset, is never
refused one and is the same snapshot.
-/

namespace BoundTemplate

/-- A position lies between two characters of a text and has the line and the column of its
offset. -/
structure Text.HasPosition (t : Text) (p : Position) : Prop where
  isBoundary : t.isBoundary p.offset = true
  positionAt : (LineTable.ofText t).positionAt p.offset = .ok p

/-- The ends of a range are positions of a text, in order. -/
structure Text.HasRange (t : Text) (r : Range) : Prop where
  start : t.HasPosition r.start
  stop : t.HasPosition r.stop
  start_le_stop : r.start.offset ≤ r.stop.offset
  stop_le_size : r.stop.offset ≤ t.size

namespace Source

variable {offset : Nat}

/-- A boundary has a position, which is no other than the one that the line table gives. -/
theorem positionAt_of_isBoundary (source : Source) (h : source.text.isBoundary offset = true) :
    source.table.positionAt offset = .ok (source.position offset) := by
  have hat := source.positionAt_position offset
  have hoffset : (source.position offset).offset = offset :=
    Nat.min_eq_left (Text.le_size_of_isBoundary h)
  rwa [hoffset] at hat

theorem hasPosition (source : Source) (h : source.text.isBoundary offset = true) :
    source.text.HasPosition (source.position offset) := by
  have hoffset : (source.position offset).offset = offset :=
    Nat.min_eq_left (Text.le_size_of_isBoundary h)
  refine ⟨by rwa [hoffset], ?_⟩
  have hat := source.positionAt_of_isBoundary h
  rwa [hoffset, ← source.table_eq]

/-- Both ends of a stretch lie between characters. -/
theorem isBoundary_stretch (source : Source) (span : Span) :
    source.text.isBoundary (source.stretch span).start = true ∧
      source.text.isBoundary (source.stretch span).stop = true := by
  have hstart := Text.isBoundary_floor source.text span.start
  exact ⟨hstart, Text.isBoundary_max (Text.isBoundary_floor _ _) hstart⟩

end Source

namespace Output.Snapshot

/-- The range of a span as the line table gives it, if it does not refuse an end. -/
def resolve? (source : Source) (span : Span) : Option Range :=
  let start := source.text.floor span.start
  (source.table.rangeAt start (max (source.text.floor span.stop) start)).toOption

/-- The position of an offset as the line table gives it, if it does not refuse the offset. -/
def place? (source : Source) (offset : Nat) : Option Position :=
  (source.table.positionAt (source.text.floor offset)).toOption

/-- The snapshot of a chunk as the line tables give it, if they refuse nothing. -/
def ofChunk? (c : Chunk) (text : Text) : Option Snapshot := do
  let template := Source.ofText text
  let generated := Source.ofText c.text
  let links ← c.mappings.mapM fun m => do
    let original ← resolve? template m.origin.span
    let written ← resolve? generated (m.extent.span c.size)
    return ⟨original, written, m.origin.verbatim, m.origin.name⟩
  let landmarks ← c.markers.mapM fun m => do
    return ⟨m.name, ← place? (choose template generated m.side) m.offset, m.side⟩
  return { template, generated, links, landmarks }

theorem resolve?_eq_some (source : Source) (span : Span) :
    resolve? source span = some (resolve source span) := by
  obtain ⟨hstart, hstop⟩ := source.isBoundary_stretch span
  have hle := source.start_le_stop_stretch span
  have hrange : source.table.rangeAt (source.stretch span).start (source.stretch span).stop =
      .ok (resolve source span) := by
    rw [LineTable.rangeAt, Nat.min_eq_left hle, Nat.max_eq_right hle,
      source.positionAt_of_isBoundary hstart, source.positionAt_of_isBoundary hstop]
    rfl
  exact congrArg Except.toOption hrange

theorem place?_eq_some (source : Source) (offset : Nat) :
    place? source offset = some (source.position (source.text.floor offset)) := by
  rw [place?, source.positionAt_of_isBoundary (Text.isBoundary_floor _ _)]
  rfl

/-- The line tables give every range and every position of a snapshot. -/
theorem ofChunk?_eq_some (c : Chunk) (text : Text) :
    ofChunk? c text = some (ofChunk c text) := by
  unfold ofChunk?
  dsimp only
  rw [mapM_eq_some_map fun m _ => by rw [resolve?_eq_some, resolve?_eq_some]; rfl,
    mapM_eq_some_map fun m _ => by rw [place?_eq_some]; rfl]
  rfl

theorem hasRange_resolve (source : Source) (span : Span) :
    source.text.HasRange (resolve source span) := by
  obtain ⟨hstart, hstop⟩ := source.isBoundary_stretch span
  have hspan := span_resolve source span
  have hle := source.start_le_stop_stretch span
  refine ⟨source.hasPosition hstart, source.hasPosition hstop, ?_, Nat.min_le_right _ _⟩
  rwa [← hspan] at hle

/-- A link records a mapping of a chunk: it has its name and its flag, and both of its ranges are
the whole characters that the spans of the mapping take. -/
structure Records (template : Text) (c : Chunk) (m : Mapping) (l : Link) : Prop where
  name : l.name = m.origin.name
  verbatim : l.verbatim = m.origin.verbatim
  hasTemplate : template.HasRange l.template
  hasGenerated : c.text.HasRange l.generated
  template_eq : l.template.span = (Source.ofText template).stretch m.origin.span
  generated_eq : l.generated.span = (Source.ofText c.text).stretch (m.extent.span c.size)

/-- A landmark records a marker of a chunk: it has its name and its side, and its position is the
last one of the text of that side that is not behind the marker. -/
structure Marks (template : Text) (c : Chunk) (m : Marker) (l : Landmark) : Prop where
  name : l.name = m.name
  side : l.side = m.side
  hasPosition : (choose template c.text m.side).HasPosition l.position
  offset_eq : l.position.offset = (choose template c.text m.side).floor m.offset

theorem marks_position (template : Text) (c : Chunk) (m : Marker) :
    let source := choose (Source.ofText template) (Source.ofText c.text) m.side
    Marks template c m ⟨m.name, source.position (source.text.floor m.offset), m.side⟩ := by
  obtain ⟨name, offset, side⟩ := m
  have hposition (t : Text) : t.HasPosition ((Source.ofText t).position (t.floor offset)) :=
    (Source.ofText t).hasPosition (t.isBoundary_floor offset)
  have hoffset (t : Text) : ((Source.ofText t).position (t.floor offset)).offset = t.floor offset :=
    Nat.min_eq_left (t.floor_le_size offset)
  cases side with
  | template => exact ⟨rfl, rfl, hposition template, hoffset template⟩
  | generated => exact ⟨rfl, rfl, hposition c.text, hoffset c.text⟩

/-- A snapshot is valid against both of its texts, whatever the offsets of its chunk are: its links
record the mappings and its landmarks the markers, each in their order, with ranges and positions of
the texts; and the line tables refuse none of these. -/
theorem ofChunk_valid (c : Chunk) (text : Text) :
    (ofChunk c text).template = Source.ofText text ∧
      (ofChunk c text).generated = Source.ofText c.text ∧
      List.Forall₂ (Records text c) c.mappings (ofChunk c text).links ∧
      List.Forall₂ (Marks text c) c.markers (ofChunk c text).landmarks ∧
      ofChunk? c text = some (ofChunk c text) := by
  refine ⟨rfl, rfl, ?_, ?_, ofChunk?_eq_some c text⟩
  · refine List.forall₂_map_right_iff.2 (List.forall₂_same.2 fun m _ => ?_)
    exact ⟨rfl, rfl, hasRange_resolve (.ofText text) _, hasRange_resolve (.ofText c.text) _,
      span_resolve _ _, span_resolve _ _⟩
  · exact List.forall₂_map_right_iff.2 (List.forall₂_same.2 fun m _ => marks_position text c m)

/-- A marker that an edit has left inside a character is at the start of the character in a
snapshot, and a reversed span past the end of the template is empty at its end. -/
example :
    let c : Chunk := (((({} : Chunk).openMapping ⟨⟨9, 1⟩, true, none⟩).append ['a', 'b']).mark ['m']
      |>.append ['c', 'd']).update 1 3 ['é']
    c.markerOffset? ['m'] = some 2 ∧
      (ofChunk c ['t', 'é']).landmarks = [⟨['m'], ⟨0, 1, 1⟩, .generated⟩] ∧
      (ofChunk c ['t', 'é']).links =
        [⟨⟨⟨0, 3, 3⟩, ⟨0, 3, 3⟩⟩, ⟨⟨0, 0, 0⟩, ⟨0, 4, 4⟩⟩, true, none⟩] := by
  decide +kernel

end Output.Snapshot

end BoundTemplate
