import BoundTemplate.Text.Quote
import BoundTemplate.Text.Span

/-!
# Attributes

The attributes of a tag are read from the bytes between its name and its `>`. A
name goes up to a space, a slash or an equals sign; a value in quotes goes up to
the same quote or the end of the tag, and any other value up to a space. Spaces,
slashes and equals signs that belong to no attribute are passed over.
-/

namespace BoundTemplate.Markup

/-- An attribute of a tag. -/
structure Attribute where
  /-- From the name through the value and its quotes. -/
  range : Span
  name : Span
  /-- What stands between the quotes, if there is a value. -/
  value : Option (Span × Quote)
  deriving DecidableEq, Repr

namespace Attribute

/-- Whether a byte is ASCII white space. -/
def isSpace (b : UInt8) : Bool := b == 32 || b == 9 || b == 10 || b == 12 || b == 13

/-- The byte of a slash. -/
def slash : UInt8 := 47

/-- The byte of an equals sign. -/
def equals : UInt8 := 61

/-- Whether a byte belongs to the name of an attribute. -/
def isNameByte (b : UInt8) : Bool := !isSpace b && b != slash && b != equals

/-- Reads the value at the start of some bytes and counts the bytes that it and its quotes take. -/
def readValue (start : Nat) (bytes : List UInt8) : (Span × Quote) × Nat :=
  match bytes.head?.bind Quote.ofByte? with
  | some quote =>
    let n := (bytes.tail.takeWhile fun b => Quote.ofByte? b != some quote).length
    ((⟨start + 1, start + 1 + n⟩, quote), min (n + 2) bytes.length)
  | none =>
    let n := (bytes.takeWhile fun b => !isSpace b).length
    ((⟨start, start + n⟩, .unquoted), n)

/-- Reads the attribute whose name starts with the byte in front of some others. -/
def read (start : Nat) (others : List UInt8) : Attribute :=
  let name := ⟨start, start + 1 + (others.takeWhile isNameByte).length⟩
  let behind := others.dropWhile isNameByte
  let sign := behind.dropWhile isSpace
  if sign.head? = some equals then
    let value := sign.tail.dropWhile isSpace
    let place := start + 1 + (others.length - value.length)
    let found := readValue place value
    ⟨⟨start, place + found.2⟩, name, some found.1⟩
  else ⟨name, name, none⟩

/-- An attribute starts with its name. -/
@[simp] theorem start_range_read (start : Nat) (others : List UInt8) :
    (read start others).range.start = start := by
  unfold read
  dsimp only
  split <;> rfl

/-- An attribute has bytes. -/
theorem size_range_read_pos (start : Nat) (others : List UInt8) :
    0 < (read start others).range.size := by
  unfold read
  dsimp only
  split <;> simp only [Span.size] <;> omega

/-- The attributes in some bytes that start at an offset. -/
def scan (start : Nat) (bytes : List UInt8) : List Attribute :=
  match bytes with
  | [] => []
  | b :: others =>
    if isNameByte b then
      let a := read start others
      a :: scan a.range.stop ((b :: others).drop a.range.size)
    else scan (start + 1) others
termination_by bytes.length
decreasing_by
  · have := size_range_read_pos start others
    simp only [List.length_drop, List.length_cons]
    omega
  · simp

end Attribute

end BoundTemplate.Markup
