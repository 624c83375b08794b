import BoundTemplate.Text.Bytes

/-!
# Blanks

A blank is a character with the Unicode property White_Space. Trimming removes
blanks from the ends of a text and nothing else.
-/

namespace BoundTemplate

/-- Whether a character has a code point in one of some closed ranges. -/
def inRanges (ranges : List (Nat × Nat)) (c : Char) : Bool :=
  ranges.any fun r => r.1 ≤ c.toNat && c.toNat ≤ r.2

/-- The code points with the property White_Space. -/
def blankRanges : List (Nat × Nat) :=
  [(0x9, 0xD), (0x20, 0x20), (0x85, 0x85), (0xA0, 0xA0), (0x1680, 0x1680), (0x2000, 0x200A),
   (0x2028, 0x2029), (0x202F, 0x202F), (0x205F, 0x205F), (0x3000, 0x3000)]

/-- Whether a character is a blank. -/
def isBlank (c : Char) : Bool := inRanges blankRanges c

namespace Text

/-- A text without the blanks in front. -/
def trimStart (t : Text) : Text := t.dropWhile isBlank

/-- A text without the blanks at its end. -/
def trimEnd (t : Text) : Text := (trimStart t.reverse).reverse

/-- A text without the blanks at both ends. -/
def trim (t : Text) : Text := trimEnd (trimStart t)

/-- Only blanks are removed in front. -/
theorem takeWhile_append_trimStart (t : Text) : t.takeWhile isBlank ++ trimStart t = t :=
  List.takeWhile_append_dropWhile

/-- What is left starts with no blank. -/
theorem head?_trimStart (t : Text) (c : Char) (h : (trimStart t).head? = some c) :
    isBlank c = false := by
  have h' : (t.dropWhile isBlank).head?.all (fun c => !isBlank c) = true := by
    have := List.head?_dropWhile_not isBlank t
    revert this
    cases (t.dropWhile isBlank).head? <;> simp
  rw [show t.dropWhile isBlank = trimStart t from rfl, h] at h'
  simpa using h'

end Text

end BoundTemplate
