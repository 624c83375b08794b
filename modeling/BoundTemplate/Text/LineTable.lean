import BoundTemplate.Text.LineBreak
import BoundTemplate.Text.Position

/-!
# Line tables

The table of a text lists the offsets at which its lines start. It turns an
offset into a position and a line and column back into an offset, and it says in
which way a conversion fails: each cause of failure is a constructor of
`LocationError`.
-/

namespace BoundTemplate

/-- Why a place does not exist in a text. -/
inductive LocationError where
  /-- The offset lies outside of the text; it is negative if a move went in front of it. -/
  | offsetOutOfBounds (offset : Int) (size : Nat)
  /-- The offset lies inside a character. -/
  | notCharBoundary (offset : Nat)
  /-- The text has no such line. -/
  | lineOutOfBounds (line lineCount : Nat)
  /-- The line is shorter than the column. -/
  | columnOutOfBounds (line column size : Nat)
  deriving DecidableEq, Repr

/-- The wording of a cause. -/
def LocationError.message : LocationError → String
  | .offsetOutOfBounds o n => s!"offset {o} is out of bounds for text of length {n}"
  | .notCharBoundary o => s!"offset {o} is not on a character boundary"
  | .lineOutOfBounds l n => s!"line {l} is out of bounds for text with {n} lines"
  | .columnOutOfBounds l c n => s!"column {c} is out of bounds for line {l} of length {n}"

/-- The signed value of a 64-bit word: offsets are words, and moves are signed words. -/
def signedWord (n : Int) : Int := n.bmod 0x10000000000000000

/-- Where the lines of a text start, and how long the text is. -/
structure LineTable where
  /-- The offset of each line, in order; the first is zero. -/
  starts : List Nat
  /-- The number of bytes of the text. -/
  size : Nat
  /-- The way in which the first line ends. -/
  style : Option LineBreak
  deriving DecidableEq, Repr

namespace LineTable

/-- The table of a text: a line starts at zero and behind every break. -/
def ofText (t : Text) : LineTable :=
  ⟨0 :: (LineBreak.scan 0 t.bytes).map (·.1), t.size, LineBreak.detect t⟩

/-- The number of lines. -/
def lineCount (table : LineTable) : Nat := table.starts.length

/-- The line that holds an offset: the last that starts there or in front of it. -/
def lineOf (table : LineTable) (offset : Nat) : Nat :=
  table.starts.countP (· ≤ offset) - 1

/-- The line and column of an offset, which belongs to the last line that starts in front of it; an
offset inside a break belongs to the line that the break ends. -/
def position (table : LineTable) (offset : Nat) : Position :=
  let line := table.lineOf offset
  ⟨line, offset - table.starts.getD line 0, offset⟩

/-- The position of an offset of the text. -/
def positionAt (table : LineTable) (offset : Nat) : Except LocationError Position :=
  if offset > table.size then .error (.offsetOutOfBounds (signedWord offset) table.size)
  else .ok (table.position offset)

/-- The largest column of a line that starts at `start`: the last byte of its break, or the end
of the text. -/
def maxColumn (table : LineTable) (line start : Nat) : Nat :=
  match table.starts[line + 1]? with
  | some next => next - start - 1
  | none => table.size - start

/-- The offset of a line and a column. -/
def offsetAt (table : LineTable) (line column : Nat) : Except LocationError Nat :=
  match table.starts[line]? with
  | none => .error (.lineOutOfBounds line table.lineCount)
  | some start =>
    let limit := table.maxColumn line start
    if column > limit then .error (.columnOutOfBounds line column limit)
    else .ok (start + column)

/-- The position of a line and a column. -/
def positionAtLineColumn (table : LineTable) (line column : Nat) :
    Except LocationError Position := do
  let offset ← table.offsetAt line column
  return ⟨line, column, offset⟩

/-- The range between two offsets, given in either order. -/
def rangeAt (table : LineTable) (a b : Nat) : Except LocationError Range := do
  let start ← table.positionAt (min a b)
  let stop ← table.positionAt (max a b)
  return ⟨start, stop⟩

/-- The offset that lies `delta` bytes from `offset`, if it is not negative. -/
def moveOffset (size offset : Nat) (delta : Int) : Except LocationError Nat :=
  let target := signedWord (offset + delta)
  if target < 0 then .error (.offsetOutOfBounds target size) else .ok target.toNat

/-- The position `delta` bytes from an offset. -/
def move (table : LineTable) (offset : Nat) (delta : Int) :
    Except LocationError Position := do
  let target ← moveOffset table.size offset delta
  table.positionAt target

end LineTable

end BoundTemplate
