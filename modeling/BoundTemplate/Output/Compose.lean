import BoundTemplate.Output.Chunk

/-!
# Composing chunks

A chunk that is added to another is copied to the end of it. Its lines are
indented to the level of the receiver where they start with a character, and all
that refers to its text goes with it. A line that it leaves without indentation is
owed both levels.
-/

namespace BoundTemplate.Output.Chunk

/-- Whether a text begins with a character and not with a line break. -/
def startsWithContent (t : Text) : Bool :=
  match t with
  | [] => false
  | '\n' :: _ => false
  | '\r' :: '\n' :: _ => false
  | _ => true

/-- The offsets behind line feeds at which a line with characters starts, in a text that starts at
an offset. -/
def contentLineStarts (offset : Nat) : Text → List Nat
  | [] => []
  | c :: t =>
    let next := offset + c.utf8Size
    let starts := contentLineStarts next t
    if c = '\n' && startsWithContent t then next :: starts else starts

/-- Ends all mappings at the end of the text. -/
def closeAll (c : Chunk) : Chunk :=
  { c with mappings := c.mappings.map fun m => { m with extent := m.extent.close c.size } }

/-- Puts an indentation in front of every line with characters but the first. -/
def indentLines (indentation : Text) (c : Chunk) : Chunk :=
  (contentLineStarts 0 c.text).foldr (fun start c => c.splice start start indentation) c

/-- A marker of a text that is put behind another. -/
def shiftMarker (delta : Nat) (m : Marker) : Marker :=
  match m.side with
  | .generated => { m with offset := m.offset + delta }
  | .template => m

/-- Puts the text of another chunk behind the text of a chunk, with all that refers to it. -/
def join (c other : Chunk) : Chunk :=
  { c with
    text := c.text ++ other.text
    mappings := c.mappings ++
      other.mappings.map fun m => { m with extent := m.extent.shift c.size }
    located := c.located ++ other.located.map fun l => (l.1, l.2.shift c.size)
    markers := other.markers.foldl (fun ms m => (shiftMarker c.size m).insert ms) c.markers }

/-- Takes over how the line on which the text ends is to be indented. -/
def inheritLine (c other : Chunk) : Chunk :=
  if other.text.isEmpty then c
  else
    { c with
      atLineStart := other.atLineStart
      carried := if other.atLineStart then other.indentation + other.carried else 0 }

/-- Adds a copy of another chunk at the end of the text. -/
def add (c other : Chunk) : Chunk :=
  let sub := other.closeAll.indentLines (c.indentText c.indentation)
  let c := if c.atLineStart && startsWithContent sub.text then c.writeIndent else c
  (c.join sub).inheritLine sub

/-- Adds copies of some chunks in order. -/
def addAll (c : Chunk) (others : List Chunk) : Chunk := others.foldl add c

end BoundTemplate.Output.Chunk
