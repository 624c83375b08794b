import BoundTemplate.Output.Compose
import BoundTemplate.Template.Source

/-!
# Snapshots

A snapshot is a finished chunk beside its template. Its links are the mappings
of the chunk as ranges of both texts, which start and end between characters. An
offset of one text is looked up in the smallest link around it, of links of one
size in the first.
-/

namespace BoundTemplate.Output

/-- A part of a template and the part of the generated text that comes from it. -/
structure Link where
  template : Range
  generated : Range
  /-- Every offset of one part has a counterpart in the other. -/
  verbatim : Bool
  name : Option Text
  deriving DecidableEq, Repr

/-- The part of a link in one of the texts. -/
def Link.range (l : Link) : Side → Range
  | .template => l.template
  | .generated => l.generated

/-- A named position of one of the texts. -/
structure Landmark where
  name : Text
  position : Position
  side : Side
  deriving DecidableEq, Repr

/-- A generated text beside its template. -/
structure Snapshot where
  template : Source
  generated : Source
  links : List Link
  /-- The named positions, in the order of their names. -/
  landmarks : List Landmark

namespace Snapshot

/-- The range of a span, with both ends moved back to the last place between characters. -/
def resolve (source : Source) (span : Span) : Range :=
  let start := source.text.floor span.start
  source.range ⟨start, max (source.text.floor span.stop) start⟩

/-- One of two texts. -/
def choose {α : Type} (template generated : α) : Side → α
  | .template => template
  | .generated => generated

/-- The snapshot of a chunk beside a text; what is open ends with the chunk. -/
def ofChunk (c : Chunk) (text : Text) : Snapshot :=
  let template := Source.ofText text
  let generated := Source.ofText c.text
  { template
    generated
    links := c.mappings.map fun m =>
      ⟨resolve template m.origin.span, resolve generated (m.extent.span c.size),
        m.origin.verbatim, m.origin.name⟩
    landmarks := c.markers.map fun m =>
      let source := choose template generated m.side
      ⟨m.name, source.position (source.text.floor m.offset), m.side⟩ }

/-- The text of a side. -/
def source (s : Snapshot) (side : Side) : Source := choose s.template s.generated side

/-- The position of an offset. -/
def position? (s : Snapshot) (side : Side) (offset : Nat) : Option Position :=
  ((s.source side).table.positionAt offset).toOption

/-- The landmark of a name. -/
def landmark? (s : Snapshot) (name : Text) : Option Landmark := s.landmarks.find? (·.name == name)

/-- The smaller of two links on one side; of two of one size, the earlier. -/
def smaller (side : Side) (current? : Option Link) (link : Link) : Option Link :=
  match current? with
  | some current =>
    if (current.range side).size ≤ (link.range side).size then some current else some link
  | none => some link

/-- The smallest link that has a property. -/
def smallest? (s : Snapshot) (side : Side) (p : Link → Bool) : Option Link :=
  (s.links.filter p).foldl (smaller side) none

/-- What the smallest link around an offset links it to. -/
def blame? (s : Snapshot) (side : Side) (offset : Nat) : Option Range :=
  (s.smallest? side fun l => (l.range side).contains offset).map (·.range side.opposite)

/-- Where a link carries an offset: as far from the start of its other part, but not past the end of
that, and back to the last place between characters. -/
def carry? (s : Snapshot) (side : Side) (link : Link) (offset : Nat) : Option Position :=
  let here := (link.range side).span
  let there := (link.range side.opposite).span
  let source := s.source side.opposite
  if here.start ≤ offset then
    some (source.position
      (source.text.floor (min (there.start + (offset - here.start)) there.stop)))
  else none

/-- The counterpart of an offset in the smallest verbatim link around it. -/
def counterpart? (s : Snapshot) (side : Side) (offset : Nat) : Option Position := do
  let link ← s.smallest? side fun l => l.verbatim && (l.range side).contains offset
  s.carry? side link offset

/-- The counterpart of a span in the smallest verbatim link around it. -/
def counterpartSpan? (s : Snapshot) (side : Side) (span : Span) : Option Range := do
  let link ← s.smallest? side fun l => l.verbatim && (l.range side).span.containsSpan span
  let start ← s.carry? side link span.start
  let stop ← s.carry? side link span.stop
  return ⟨start, stop⟩

end Snapshot

end BoundTemplate.Output
