import BoundTemplate.Output.Mapping

/-!
# Chunks

A chunk is a generated text that is being written, with the mappings, the located
spans and the markers that refer to it. Every line is indented when the first
character of it is written, so lines without characters stay empty. Whatever
changes the text in front of its end is an edit, and moves all that refers to the
text with it.
-/

namespace BoundTemplate.Output

/-- How the text of a chunk is laid out. -/
structure ChunkOptions where
  /-- What is written once for each level of indentation. -/
  indentUnit : Text := [' ', ' ']
  /-- What ends a line. -/
  lineEnd : Text := ['\n']
  deriving DecidableEq, Repr, Inhabited

/-- A generated text and all that refers to it. -/
structure Chunk where
  text : Text := []
  /-- The level of indentation. -/
  indentation : Nat := 0
  /-- The text ends with a line break, and the indentation of the new line is not written. -/
  atLineStart : Bool := false
  /-- The levels owed to that line beyond the level of indentation. -/
  carried : Nat := 0
  options : ChunkOptions := {}
  mappings : List Mapping := []
  /-- The spans that were written under a name, in the order in which they were recorded. -/
  located : List (Text × Span) := []
  /-- The markers, in the order of their names. -/
  markers : List Marker := []
  deriving DecidableEq, Repr, Inhabited

namespace Chunk

/-- The number of bytes that are written. -/
def size (c : Chunk) : Nat := c.text.size

/-- The indentation of some levels. -/
def indentText (c : Chunk) (levels : Nat) : Text :=
  (List.replicate levels c.options.indentUnit).flatten

/-! ### Edits -/

/-- Whether a mapping or a located span ends at an offset with some bytes. -/
def endsAt (c : Chunk) (offset : Nat) : Bool :=
  c.mappings.any (·.extent.endsAt offset) ||
    c.located.any fun l => (Extent.closed l.2).endsAt offset

/-- The side to which spans without bytes go: they stay in a span that ends where bytes are put. -/
def emptyBias (c : Chunk) (e : Edit) : Bias :=
  if e.removed = 0 && c.endsAt e.start then .before else .after

/-- Moves a marker of the generated text with an edit. -/
def moveMarker (e : Edit) (m : Marker) : Marker :=
  match m.side with
  | .generated => { m with offset := e.move .after m.offset }
  | .template => m

/-- Moves all that refers to the text with an edit. -/
def move (e : Edit) (c : Chunk) : Chunk :=
  if e.isEmpty then c
  else
    let empty := c.emptyBias e
    { c with
      mappings := c.mappings.map fun m => { m with extent := m.extent.move e empty }
      located := c.located.map fun l => (l.1, e.moveSpan empty l.2)
      markers := c.markers.map (moveMarker e) }

/-- Replaces the bytes from one offset to another. -/
def splice (start stop : Nat) (t : Text) (c : Chunk) : Chunk :=
  { c with text := c.text.takeBytes start ++ t ++ c.text.dropBytes stop }.move
    ⟨start, stop - start, t.size⟩

/-- The last offset between two characters that is not behind an offset. -/
def clamp (c : Chunk) (offset : Nat) : Nat := c.text.floor offset

/-- Puts a text at an offset. -/
def insert (offset : Nat) (t : Text) (c : Chunk) : Chunk :=
  c.splice (c.clamp offset) (c.clamp offset) t

/-- Replaces the text between two offsets, given in either order. -/
def update (a b : Nat) (t : Text) (c : Chunk) : Chunk :=
  c.splice (min (c.clamp a) (c.clamp b)) (max (c.clamp a) (c.clamp b)) t

/-- Removes the text between two offsets. -/
def remove (a b : Nat) (c : Chunk) : Chunk := c.update a b []

/-! ### Writing -/

/-- The lines of a text; a carriage return that is part of a line break belongs to no line. -/
def linesOf : Text → List Text
  | [] => [[]]
  | c :: t =>
    if c = '\n' then [] :: linesOf t
    else if c = '\r' && t.head? = some '\n' then linesOf t
    else
      match linesOf t with
      | [] => [[c]]
      | line :: lines => (c :: line) :: lines

/-- Writes the indentation of the line on which the text ends. -/
def writeIndent (c : Chunk) : Chunk :=
  let levels := c.indentation + c.carried
  { c with atLineStart := false, carried := 0 }.splice c.size c.size (c.indentText levels)

/-- Writes a part of a line. -/
def writeLine (c : Chunk) (line : Text) : Chunk :=
  if line.isEmpty then c
  else
    let c := if c.atLineStart then c.writeIndent else c
    { c with text := c.text ++ line }

/-- Ends a line. -/
def breakLine (c : Chunk) : Chunk :=
  { c with text := c.text ++ c.options.lineEnd, atLineStart := true, carried := 0 }

/-- Writes a text; each line but the first is indented. -/
def append (t : Text) (c : Chunk) : Chunk :=
  match linesOf t with
  | [] => c
  | first :: others => others.foldl (fun c line => c.breakLine.writeLine line) (c.writeLine first)

/-- Begins a mapping at the end of the text. -/
def openMapping (origin : Origin) (c : Chunk) : Chunk :=
  { c with mappings := c.mappings ++ [⟨origin, .running c.size⟩] }

/-- Ends a mapping, given by its index, at the end of the text. -/
def closeMapping (index : Nat) (c : Chunk) : Chunk :=
  { c with mappings := c.mappings.modify index fun m => { m with extent := m.extent.close c.size } }

/-- Lets a writer write a part of the text that comes from an origin. -/
def mapped {m : Type → Type} [Monad m] (origin : Origin) (write : Chunk → m Chunk) (c : Chunk) :
    m Chunk := do
  let written ← write (c.openMapping origin)
  return written.closeMapping c.mappings.length

/-- Writes a text that comes from an origin. -/
def appendMapped (t : Text) (origin : Origin) (c : Chunk) : Chunk :=
  ((c.openMapping origin).append t).closeMapping c.mappings.length

/-- Indents what follows by more levels. -/
def indent (levels : Nat) (c : Chunk) : Chunk := { c with indentation := c.indentation + levels }

/-- Indents what follows by fewer levels. -/
def dedent (levels : Nat) (c : Chunk) : Chunk := { c with indentation := c.indentation - levels }

/-! ### Located spans and markers -/

/-- Lets a writer write a part of the text that can be found by a name. -/
def locating {m : Type → Type} [Monad m] (name : Text) (write : Chunk → m Chunk) (c : Chunk) :
    m Chunk := do
  let written ← write c
  return { written with located := written.located ++ [(name, ⟨c.size, written.size⟩)] }

/-- The spans under some names, in the order of the text. -/
def occurrences (c : Chunk) (names : List Text) : List Span :=
  (names.flatMap fun name => (c.located.filter (·.1 == name)).map (·.2)).mergeSort
    fun s t => (s.compare t).isLE

/-- Names the end of the text. -/
def mark (name : Text) (c : Chunk) : Chunk :=
  { c with markers := Marker.insert ⟨name, c.size, .generated⟩ c.markers }

/-- Names an offset of the template. -/
def markTemplate (name : Text) (offset : Nat) (c : Chunk) : Chunk :=
  { c with markers := Marker.insert ⟨name, offset, .template⟩ c.markers }

/-- The offset of a name in the text. -/
def markerOffset? (c : Chunk) (name : Text) : Option Nat :=
  ((c.markers.find? (·.name == name)).filter (·.side == .generated)).map (·.offset)

end Chunk

end BoundTemplate.Output
