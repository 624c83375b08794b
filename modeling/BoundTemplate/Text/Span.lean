import BoundTemplate.Text.Bytes

/-!
# Spans

A span is a pair of byte offsets into a text. It is all that is known of a
place in a text that is still being written; `Range` adds lines and columns.
-/

namespace BoundTemplate

/-- The bytes from offset `start` up to offset `stop`. -/
structure Span where
  /-- Offset of the first byte. -/
  start : Nat
  /-- Offset behind the last byte. -/
  stop : Nat
  deriving DecidableEq, Repr, Inhabited

namespace Span

/-- The span of no bytes at an offset. -/
def empty (offset : Nat) : Span := ⟨offset, offset⟩

/-- The number of bytes of a span. -/
def size (s : Span) : Nat := s.stop - s.start

/-- Whether a span has no bytes. -/
def isEmpty (s : Span) : Bool := s.start == s.stop

/-- A span contains both of its ends. -/
def contains (s : Span) (offset : Nat) : Bool := s.start ≤ offset && offset ≤ s.stop

/-- Whether every byte of the second span belongs to the first. -/
def containsSpan (s other : Span) : Bool := s.start ≤ other.start && other.stop ≤ s.stop

/-- The span `delta` bytes further on. -/
def shift (s : Span) (delta : Nat) : Span := ⟨s.start + delta, s.stop + delta⟩

/-- Spans are ordered by their starts, and those of one start by their stops. -/
def compare (s t : Span) : Ordering :=
  (Ord.compare s.start t.start).then (Ord.compare s.stop t.stop)

/-- The text of a span, as `start..stop`. -/
def render (s : Span) : String := s!"{s.start}..{s.stop}"

@[simp] theorem start_empty (o : Nat) : (empty o).start = o := rfl

@[simp] theorem stop_empty (o : Nat) : (empty o).stop = o := rfl

@[simp] theorem start_shift (s : Span) (d : Nat) : (s.shift d).start = s.start + d := rfl

@[simp] theorem stop_shift (s : Span) (d : Nat) : (s.shift d).stop = s.stop + d := rfl

theorem contains_iff {s : Span} {offset : Nat} :
    s.contains offset = true ↔ s.start ≤ offset ∧ offset ≤ s.stop := by
  rw [contains, Bool.and_eq_true, decide_eq_true_iff, decide_eq_true_iff]

theorem containsSpan_iff {s other : Span} :
    s.containsSpan other = true ↔ s.start ≤ other.start ∧ other.stop ≤ s.stop := by
  rw [containsSpan, Bool.and_eq_true, decide_eq_true_iff, decide_eq_true_iff]

/-- A shift keeps the size. -/
@[simp] theorem size_shift (s : Span) (d : Nat) : (s.shift d).size = s.size := by
  simp only [size, start_shift, stop_shift]
  omega

end Span

namespace Text

/-- The part of a text that a span covers; a span that is reversed, out of range or ends inside
a character covers nothing. -/
def slice (t : Text) (s : Span) : Text :=
  if s.start ≤ s.stop && isBoundary t s.start && isBoundary t s.stop then
    takeBytes (s.stop - s.start) (dropBytes s.start t)
  else []

/-- A span that cuts the text in three covers the middle part. -/
theorem slice_append_append (front middle back : Text) :
    slice (front ++ middle ++ back) ⟨size front, size front + size middle⟩ = middle := by
  have h₁ : isBoundary (front ++ middle ++ back) (size front) = true :=
    isBoundary_iff.2 ⟨front, middle ++ back, by simp, rfl⟩
  have h₂ : isBoundary (front ++ middle ++ back) (size front + size middle) = true :=
    isBoundary_iff.2 ⟨front ++ middle, back, rfl, by simp⟩
  rw [slice, h₁, h₂]
  simp [List.append_assoc]

/-- A part stands in a text at a span. -/
def Holds (t : Text) (s : Span) (part : Text) : Prop :=
  ∃ front back, t = front ++ part ++ back ∧ s = ⟨front.size, front.size + part.size⟩

/-- What is cut off by a front of some size is that front. -/
theorem append_left_cancel_of_size {front front' back back' : Text}
    (h : front ++ back = front' ++ back') (hs : front.size = front'.size) :
    front = front' ∧ back = back' := by
  constructor
  · rw [← takeBytes_size_append front back, h, hs, takeBytes_size_append]
  · rw [← dropBytes_size_append front back, h, hs, dropBytes_size_append]

/-- Two parts of which the second starts where the first stops are one part. -/
theorem Holds.append {t part part' : Text} {a b c : Nat} (h : t.Holds ⟨a, b⟩ part)
    (h' : t.Holds ⟨b, c⟩ part') : t.Holds ⟨a, c⟩ (part ++ part') := by
  obtain ⟨front, back, rfl, hs⟩ := h
  obtain ⟨front', back', ht, hs'⟩ := h'
  simp only [Span.mk.injEq] at hs hs'
  have hfront : (front ++ part).size = front'.size := by
    rw [size_append]
    omega
  rw [List.append_assoc front'] at ht
  obtain ⟨rfl, rfl⟩ := append_left_cancel_of_size ht hfront
  refine ⟨front, back', by simp only [List.append_assoc], ?_⟩
  simp only [size_append, Span.mk.injEq] at *
  omega

end Text

end BoundTemplate
