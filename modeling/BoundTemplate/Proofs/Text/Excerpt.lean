import BoundTemplate.Proofs.Text.Part
import BoundTemplate.Proofs.Text.Trim

/-!
# Parts of excerpts

An excerpt contains another if the text of the second is a part of its own and the
offsets agree. Whatever is taken, dropped or trimmed is contained, and what an excerpt
of a text contains is an excerpt of that text.
-/

namespace BoundTemplate

/-- The slice of what stands at a span is the excerpt of the span. -/
theorem Text.Holds.span_mk {t part : Text} {s : Span} (h : t.Holds s part) :
    Excerpt.span ⟨s.start, part⟩ = s := by
  obtain ⟨front, back, -, rfl⟩ := h
  rfl

namespace Excerpt

/-- One excerpt is a part of another. -/
def Contains (e e' : Excerpt) : Prop :=
  ∃ front back, e.text = front ++ e'.text ++ back ∧ e'.offset = e.offset + front.size

namespace Contains

variable {e e' e'' : Excerpt}

theorem refl (e : Excerpt) : e.Contains e := ⟨[], [], by simp, rfl⟩

theorem trans (h : e.Contains e') (h' : e'.Contains e'') : e.Contains e'' := by
  obtain ⟨front, back, htext, hoffset⟩ := h
  obtain ⟨front', back', htext', hoffset'⟩ := h'
  refine ⟨front ++ front', back' ++ back, ?_, ?_⟩
  · rw [htext, htext']
    simp only [List.append_assoc]
  · rw [hoffset', hoffset, Text.size_append, Nat.add_assoc]

/-- A part lies between the ends of the whole. -/
theorem bounds (h : e.Contains e') : e.offset ≤ e'.offset ∧ e'.stop ≤ e.stop := by
  obtain ⟨front, back, htext, hoffset⟩ := h
  constructor
  · rw [hoffset]
    exact Nat.le_add_right _ _
  · rw [stop, stop, hoffset, htext, Text.size_append, Text.size_append]
    omega

/-- The text of a part is a part of the text. -/
theorem infix_text (h : e.Contains e') : e'.text <:+: e.text := by
  obtain ⟨front, back, htext, -⟩ := h
  exact ⟨front, back, htext.symm⟩

/-- A part of an excerpt of a text is an excerpt of the text. -/
theorem holds {t : Text} (h : e.Contains e') (he : t.Holds e.span e.text) :
    t.Holds e'.span e'.text := by
  obtain ⟨front, back, htext, hoffset⟩ := h
  rw [htext, List.append_assoc] at he
  have hinner := he.split.2.split.1
  have hspan : e'.span =
      ⟨e.offset + front.size, e.offset + front.size + e'.text.size⟩ := by
    rw [span, stop, hoffset]
  rw [hspan]
  exact hinner

end Contains

variable (e : Excerpt)

theorem contains_drop (n : Nat) : e.Contains (e.drop n) :=
  ⟨e.text.take n, [], by simp [drop], rfl⟩

theorem contains_take (n : Nat) : e.Contains (e.take n) :=
  ⟨[], e.text.drop n, by simp [take], rfl⟩

theorem contains_trimStart : e.Contains e.trimStart := e.contains_drop _

/-- What stands behind the first solid character is a part. -/
theorem contains_behind_first : e.Contains (e.trimStart.drop 1) :=
  e.contains_trimStart.trans (e.trimStart.contains_drop 1)

theorem contains_trimEnd : e.Contains e.trimEnd := by
  obtain ⟨back, -, hback⟩ := Text.exists_trimEnd_append e.text
  exact ⟨[], back, hback.symm, rfl⟩

theorem contains_trim : e.Contains e.trim := e.contains_trimStart.trans (contains_trimEnd _)

end Excerpt

end BoundTemplate
