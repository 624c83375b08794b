import BoundTemplate.Output.Edit

/-!
# Mappings

A mapping says from which part of a template a part of the generated text
comes. While the generated text is written, the part is known by its offsets; it
is open as long as what is written belongs to it.
-/

namespace BoundTemplate.Output

/-- The two texts that a mapping is between. -/
inductive Side where
  | template
  | generated
  deriving DecidableEq, Repr

/-- The other text. -/
def Side.opposite : Side → Side
  | template => generated
  | generated => template

/-- What a part of the generated text comes from. -/
structure Origin where
  /-- The part of the template. -/
  span : Span
  /-- It is copied word for word, so every offset has a counterpart. -/
  verbatim : Bool := false
  name : Option Text := none
  deriving DecidableEq, Repr

/-- Where a part of the generated text lies. -/
inductive Extent where
  /-- From an offset through the end of what is written. -/
  | running (start : Nat)
  | closed (span : Span)
  deriving DecidableEq, Repr

namespace Extent

/-- The span of an extent in a text that ends at an offset. -/
def span (stop : Nat) : Extent → Span
  | running start => ⟨start, max stop start⟩
  | closed s => s

/-- An extent that ends at an offset, unless it has ended before. -/
def close (stop : Nat) (x : Extent) : Extent := closed (x.span stop)

/-- Where an extent goes with an edit. -/
def move (e : Edit) (empty : Bias) : Extent → Extent
  | running start => running (e.move .after start)
  | closed s => closed (e.moveSpan empty s)

/-- An extent that lies further on. -/
def shift (delta : Nat) : Extent → Extent
  | running start => running (start + delta)
  | closed s => closed (s.shift delta)

/-- Whether an extent has ended with some bytes, and where. -/
def endsAt (offset : Nat) : Extent → Bool
  | running _ => false
  | closed s => !s.isEmpty && s.stop == offset

/-- What has ended stays as it is. -/
@[simp] theorem close_closed (stop : Nat) (s : Span) : close stop (closed s) = closed s := rfl

end Extent

/-- A part of the generated text and what it comes from. -/
structure Mapping where
  origin : Origin
  extent : Extent
  deriving DecidableEq, Repr

/-- A named offset of one of the texts. -/
structure Marker where
  name : Text
  offset : Nat
  side : Side
  deriving DecidableEq, Repr

/-- Puts a marker among others, which are in the order of their names, in place of the one of its
name. -/
def Marker.insert (m : Marker) : List Marker → List Marker
  | [] => [m]
  | other :: rest =>
    if m.name = other.name then m :: rest
    else if m.name < other.name then m :: other :: rest
    else other :: insert m rest

/-- A marker is found under its name once it is inserted. -/
theorem Marker.find?_insert (m : Marker) (ms : List Marker) :
    (m.insert ms).find? (fun k => k.name == m.name) = some m := by
  induction ms with
  | nil => simp [insert]
  | cons other rest ih =>
    simp only [insert]
    split
    · simp
    · next h =>
      split
      · simp
      · have : (other.name == m.name) = false := by
          simp only [beq_eq_false_iff_ne, ne_eq]
          exact fun he => h he.symm
        simp [this, ih]

end BoundTemplate.Output
