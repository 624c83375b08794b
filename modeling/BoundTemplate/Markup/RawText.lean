import BoundTemplate.Text.Locate
import BoundTemplate.Text.Search

/-!
# Raw text

The content of some elements is no markup. It ends at the first end tag with the
name of the element, and if there is none, with the text. The end tag is searched
for in a copy of the text with small letters, so the offsets that are found in the
copy count from where the content starts.
-/

namespace BoundTemplate.Markup

/-- The elements that have no content. -/
def voidNames : List Text :=
  ["area", "base", "br", "col", "embed", "hr", "img", "input", "link", "meta", "param", "source",
    "track", "wbr"].map String.toList

/-- The elements whose content is no markup. -/
def rawNames : List Text := ["script", "style", "textarea", "title"].map String.toList

/-- Whether a name is one of some names, the case of ASCII letters apart. -/
def isOneOf (names : List Text) (name : Text) : Bool := names.any fun n => n.sameLetters name

namespace RawText

/-- The characters that may follow the name in an end tag: its `>`, a slash, or ASCII space. -/
def endsName (c : Char) : Bool :=
  c == '>' || c == '/' || c == ' ' || c == '\t' || c == '\n' || c == '\x0c' || c == '\r'

/-- How an end tag of a name starts, in small letters. -/
def needle (name : Text) : Text := '<' :: '/' :: name.lower

theorem size_needle_pos (name : Text) : 0 < (needle name).size := by
  have h := Char.utf8Size_pos '<'
  simp only [needle, Text.size_cons]
  omega

/-- Behind the end of a text nothing is found. -/
theorem lt_size_of_find? {name t ahead : Text} {offset found : Nat}
    (hdrop : t.checkedDrop offset = .ok ahead)
    (hfound : Text.find? (needle name) ahead = some found) : offset < t.size := by
  refine Nat.lt_of_not_le fun hle => ?_
  rw [(Text.eq_of_checkedDrop hdrop).2, Text.dropBytes_of_size_le hle] at hfound
  cases hfound

/-- Searches a text with small letters from an offset on for an end tag of a name: where it starts,
and where it stops if it does. What starts like one and goes on with a longer name is none, and the
search goes on behind it. -/
def findEnd? (name haystack : Text) (offset : Nat) :
    Except LocationError (Option (Nat × Option Nat)) :=
  match hdrop : haystack.checkedDrop offset with
  | .error e => .error e
  | .ok ahead =>
    match hfound : Text.find? (needle name) ahead with
    | none => .ok none
    | some found =>
      let start := offset + found
      let nameStop := start + (needle name).size
      match haystack.checkedDrop nameStop with
      | .error e => .error e
      | .ok behind =>
        if behind.head?.all endsName then
          .ok (some (start, (Text.find? ['>'] behind).map (nameStop + · + 1)))
        else
          have := lt_size_of_find? hdrop hfound
          findEnd? name haystack nameStop
termination_by haystack.size - offset
decreasing_by
  have := size_needle_pos name
  omega

/-- Where the content of raw text that starts at an offset stops, and where the end tag behind it
does, if what is found is counted from that offset; both stop with a text of some size, if there is
no end tag. -/
def stops (start size : Nat) : Option (Nat × Option Nat) → Nat × Nat
  | none => (size, size)
  | some (tag, stop?) => (start + tag, (stop?.map (start + ·)).getD size)

/-- Where the content of raw text that starts at an offset stops, and where the end tag behind it
does. -/
def ends (source name : Text) (start : Nat) : Except LocationError (Nat × Nat) := do
  let rest ← source.checkedDrop start
  return stops start source.size (← findEnd? name rest.lower 0)

/-- An end tag stops behind the start of the content. -/
theorem le_of_ends {source name : Text} {start : Nat} {found : Nat × Nat}
    (h : ends source name start = .ok found) : start ≤ found.2 := by
  obtain ⟨rest, hrest, h⟩ := exists_of_bind_eq_ok h
  obtain ⟨found?, -, h⟩ := exists_of_bind_eq_ok h
  cases h
  have hle := Text.le_size_of_isBoundary (Text.eq_of_checkedDrop hrest).1
  rcases found? with _ | ⟨tag, _ | stop⟩
  · exact hle
  · exact hle
  · exact Nat.le_add_right _ _

end RawText

end BoundTemplate.Markup
