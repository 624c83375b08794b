import BoundTemplate.Text.Blank
import BoundTemplate.Text.Span

/-!
# Excerpts

An excerpt is a part of a text together with the offset at which it starts, so
it can be read on its own and what is found in it still be located in the text.
-/

namespace BoundTemplate

/-- A part of a text and where it starts. -/
structure Excerpt where
  offset : Nat
  text : Text
  deriving DecidableEq, Repr

namespace Excerpt

/-- The offset behind an excerpt. -/
def stop (e : Excerpt) : Nat := e.offset + e.text.size

/-- The span of an excerpt. -/
def span (e : Excerpt) : Span := ⟨e.offset, e.stop⟩

/-- Some characters at the start of an excerpt. -/
def take (n : Nat) (e : Excerpt) : Excerpt := ⟨e.offset, e.text.take n⟩

/-- An excerpt without some characters at its start. -/
def drop (n : Nat) (e : Excerpt) : Excerpt :=
  ⟨e.offset + Text.size (e.text.take n), e.text.drop n⟩

/-- An excerpt without the blanks in front. -/
def trimStart (e : Excerpt) : Excerpt := e.drop (e.text.takeWhile isBlank).length

/-- An excerpt without the blanks at its end. -/
def trimEnd (e : Excerpt) : Excerpt := ⟨e.offset, e.text.trimEnd⟩

/-- An excerpt without the blanks at both ends. -/
def trim (e : Excerpt) : Excerpt := e.trimStart.trimEnd

/-- An excerpt of the excerpt of a text that starts at an offset is one of the text. -/
def shift (e : Excerpt) (delta : Nat) : Excerpt := ⟨e.offset + delta, e.text⟩

/-- The text that is left is the text trimmed. -/
@[simp] theorem text_trimStart (e : Excerpt) : e.trimStart.text = e.text.trimStart := by
  have h : (e.text.takeWhile isBlank ++ e.text.dropWhile isBlank).drop
      (e.text.takeWhile isBlank).length = e.text.dropWhile isBlank := List.drop_left
  rw [List.takeWhile_append_dropWhile] at h
  exact h

end Excerpt

end BoundTemplate
