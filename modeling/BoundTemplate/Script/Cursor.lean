import BoundTemplate.Script.Token
import BoundTemplate.Script.Problem

/-!
# Reading places of a script

A cursor is a place in a script together with the problems met on the way to
it: what stands in front of the place and what follows it are the script. Reading
moves a cursor forward; the problems are kept latest first, so that the one that
stopped a token is at hand.
-/

namespace BoundTemplate.Script

/-- A place in a script. -/
structure Cursor (script : Text) where
  /-- What follows the place. -/
  rest : Text
  /-- The offset of the place. -/
  offset : Nat
  /-- The problems of the tokens read so far, latest first. -/
  problems : List Diagnostic
  /-- The script is what stands in front of the place and what follows it. -/
  stands : ∃ front, script = front ++ rest ∧ Text.size front = offset
  deriving Repr

namespace Cursor

variable {script : Text}

/-- The start of a script. -/
def ofText (t : Text) : Cursor t := ⟨t, 0, [], [], rfl, rfl⟩

/-- What is skipped stands in front of what is left. -/
theorem stands_skip (n : Nat) (c : Cursor script) : ∃ front, script = front ++ c.rest.drop n ∧
    Text.size front = c.offset + Text.size (c.rest.take n) := by
  obtain ⟨front, hscript, hsize⟩ := c.stands
  refine ⟨front ++ c.rest.take n, ?_, by rw [Text.size_append, hsize]⟩
  rw [List.append_assoc, List.take_append_drop]
  exact hscript

/-- The cursor behind `n` more characters. -/
def skip (n : Nat) (c : Cursor script) : Cursor script where
  rest := c.rest.drop n
  offset := c.offset + Text.size (c.rest.take n)
  problems := c.problems
  stands := c.stands_skip n

/-- The cursor behind the characters that have a property. -/
def skipWhile (p : Char → Bool) (c : Cursor script) : Cursor script :=
  c.skip (c.rest.takeWhile p).length

/-- Whether the next character has a property. -/
def nextIs (c : Cursor script) (p : Char → Bool) : Bool := c.rest.head?.any p

/-- Whether some characters come next. -/
def looksAt (c : Cursor script) (t : String) : Bool := t.toList.isPrefixOf c.rest

/-- The cursor with one more problem. -/
def report (c : Cursor script) (problem : Problem) (offset : Nat) : Cursor script :=
  { c with problems := ⟨problem, offset⟩ :: c.problems }

/-- The cursor with the problem that its next character, or the end of the script, does not belong
to the token that is read. -/
def reportNext (c : Cursor script) : Cursor script :=
  match c.rest.head? with
  | some ch => c.report (.character ch) c.offset
  | none => c.report .endOfScript c.offset

/-- What is skipped stands where it was. -/
theorem holds_skip (n : Nat) (c : Cursor script) :
    script.Holds ⟨c.offset, (c.skip n).offset⟩ (c.rest.take n) := by
  obtain ⟨front, hscript, hsize⟩ := c.stands
  refine ⟨front, c.rest.drop n, ?_, ?_⟩
  · rw [List.append_assoc, List.take_append_drop]
    exact hscript
  · rw [hsize]
    rfl

/-- What comes next stands in front of what is left behind it. -/
theorem holds_skip_front {t : Text} {c : Cursor script} (h : t <+: c.rest) :
    script.Holds ⟨c.offset, (c.skip t.length).offset⟩ t := by
  have htake : c.rest.take t.length = t := (List.prefix_iff_eq_take.1 h).symm
  have holds := c.holds_skip t.length
  rwa [htake] at holds

end Cursor

end BoundTemplate.Script
