import BoundTemplate.Text.Bytes

/-!
# Searching a text

A search returns the part of a text in front of what it looks for, so that the
text is that part, what was found, and a rest. Case matters for ASCII letters
only where a function says so.
-/

namespace BoundTemplate.Text

/-- The part of a text in front of the first occurrence of a pattern. -/
def before? (pattern : Text) : Text → Option Text
  | [] => if pattern.isEmpty then some [] else none
  | c :: t =>
    if pattern.isPrefixOf (c :: t) then some [] else (before? pattern t).map (c :: ·)

/-- What is found lies behind what is returned. -/
theorem prefix_of_before? {pattern t front : Text} (h : before? pattern t = some front) :
    front ++ pattern <+: t := by
  induction t generalizing front with
  | nil =>
    simp only [before?] at h
    split at h
    · next hp =>
      simp only [List.isEmpty_iff] at hp
      cases h
      simp [hp]
    · simp at h
  | cons c t ih =>
    simp only [before?] at h
    split at h
    · next hp =>
      cases h
      simpa using List.isPrefixOf_iff_prefix.1 hp
    · obtain ⟨u, hu, rfl⟩ := Option.map_eq_some_iff.1 h
      simpa using ih hu

/-- The offset of the first occurrence of a pattern. -/
def find? (pattern t : Text) : Option Nat := (before? pattern t).map size

/-- A text whose ASCII letters are small. -/
def lower (t : Text) : Text := t.map Char.toLower

@[simp] theorem lower_cons (c : Char) (t : Text) : lower (c :: t) = c.toLower :: lower t := rfl

/-- Whether two texts differ in the case of ASCII letters at most. -/
def sameLetters (s t : Text) : Bool := lower s == lower t

/-- Whether a text starts with a pattern, the case of ASCII letters apart. -/
def startsLike (pattern t : Text) : Bool := (lower pattern).isPrefixOf (lower t)

end BoundTemplate.Text
