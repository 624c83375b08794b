import BoundTemplate.Text.Bytes

/-!
# Line breaks

A line ends at a line feed, at a carriage return, or at the pair of both, which
is one break. The scan of a text lists its breaks in order, each with the offset
behind it; the first one names the style of the text.
-/

namespace BoundTemplate

/-- The ways in which a line ends. -/
inductive LineBreak where
  /-- A line feed. -/
  | lf
  /-- A carriage return and a line feed. -/
  | crlf
  /-- A carriage return alone. -/
  | cr
  deriving DecidableEq, Repr

namespace LineBreak

/-- The characters of a break. -/
def text : LineBreak → String
  | lf => "\n"
  | crlf => "\r\n"
  | cr => "\r"

/-- The number of bytes of a break. -/
def width : LineBreak → Nat
  | lf => 1
  | crlf => 2
  | cr => 1

theorem width_pos (b : LineBreak) : 0 < b.width := by
  cases b <;> decide

/-- The byte of a line feed. -/
def lineFeed : UInt8 := 10

/-- The byte of a carriage return. -/
def carriageReturn : UInt8 := 13

/-- The break at the head of some bytes. -/
def read? : List UInt8 → Option LineBreak
  | [] => none
  | b :: rest =>
    if b = lineFeed then some lf
    else if b = carriageReturn then
      if rest.head? = some lineFeed then some crlf else some cr
    else none

/-- A break that is read lies in the bytes it is read from. -/
theorem width_le_length_of_read? {bytes : List UInt8} {b : LineBreak} (h : read? bytes = some b) :
    b.width ≤ bytes.length := by
  cases bytes with
  | nil => simp [read?] at h
  | cons x rest =>
    simp only [read?] at h
    split at h
    · cases h
      simp [width]
    · split at h
      · split at h
        · next hf =>
          cases rest with
          | nil => simp at hf
          | cons y rest =>
            cases h
            simp [width]
        · cases h
          simp [width]
      · simp at h

/-- The breaks of some bytes that begin at offset `start`, each with the offset behind it. -/
def scan (start : Nat) (bytes : List UInt8) : List (Nat × LineBreak) :=
  match bytes with
  | [] => []
  | x :: rest =>
    match read? (x :: rest) with
    | some b => (start + b.width, b) :: scan (start + b.width) (rest.drop (b.width - 1))
    | none => scan (start + 1) rest
termination_by bytes.length
decreasing_by all_goals (simp only [List.length_drop, List.length_cons]; omega)

/-- Whether a byte begins a break. -/
def isBreakByte (x : UInt8) : Bool := x = lineFeed || x = carriageReturn

/-- The style of a text is the way in which its first line ends; a text of one line has none. -/
def detect (t : Text) : Option LineBreak := read? (t.bytes.dropWhile (!isBreakByte ·))

end LineBreak

end BoundTemplate
