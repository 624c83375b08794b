import BoundTemplate.Text.Span

/-!
# Edits

An edit replaces some bytes of a text by others, and moves every offset into the
text with the bytes around it. Offsets never change their order. Where bytes are
put between two others, an offset between these two may go to either side, which
is its bias.
-/

namespace BoundTemplate.Output

/-- The side of inserted bytes to which an offset goes that lies where they are put. -/
inductive Bias where
  | before
  | after
  deriving DecidableEq, Repr

/-- The replacement of `removed` bytes at an offset by `inserted` bytes. -/
structure Edit where
  start : Nat
  removed : Nat
  inserted : Nat
  deriving DecidableEq, Repr

namespace Edit

/-- The offset behind the bytes that are replaced. -/
def stop (e : Edit) : Nat := e.start + e.removed

/-- Whether an edit changes nothing. -/
def isEmpty (e : Edit) : Bool := e.removed == 0 && e.inserted == 0

/-- Where an offset goes. One inside of the replaced bytes stays inside of the bytes that replace
them. -/
def move (e : Edit) (bias : Bias) (offset : Nat) : Nat :=
  if offset < e.start then offset
  else if offset > e.stop then offset - e.removed + e.inserted
  else if e.removed = 0 then
    match bias with
    | .before => offset
    | .after => offset + e.inserted
  else if offset = e.stop then e.start + e.inserted
  else min offset (e.start + e.inserted)

/-- Where a span goes: it never grows by bytes put at one of its ends. A span without bytes goes to
one side as a whole. -/
def moveSpan (e : Edit) (empty : Bias) (s : Span) : Span :=
  if s.isEmpty then Span.empty (e.move empty s.start)
  else
    let start := e.move .after s.start
    ⟨start, max (e.move .before s.stop) start⟩

/-- An offset in front of an edit stays. -/
theorem move_of_lt {e : Edit} {offset : Nat} (bias : Bias) (h : offset < e.start) :
    e.move bias offset = offset := by
  simp [move, h]

/-- An offset behind an edit stays at its distance from the end. -/
theorem move_of_gt {e : Edit} {offset : Nat} (bias : Bias) (h : e.stop < offset) :
    e.move bias offset = offset - e.removed + e.inserted := by
  have : ¬offset < e.start := by
    simp only [stop] at h
    omega
  simp [move, this, h]

/-- An edit that changes nothing moves nothing. -/
theorem move_of_isEmpty {e : Edit} (bias : Bias) (offset : Nat) (h : e.isEmpty = true) :
    e.move bias offset = offset := by
  simp only [isEmpty, Bool.and_eq_true, beq_iff_eq] at h
  cases bias <;> simp [move, stop, h.1, h.2]

end Edit

end BoundTemplate.Output
