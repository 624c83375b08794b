import BoundTemplate.Proofs.Text.Trim
import BoundTemplate.Template.Delimiter

/-!
# What delimiters say

The comments that start and end virtual elements have a form, which is said here by
how a comment is written. Each form is recognized exactly where it is written.
-/

namespace BoundTemplate.Delimiter

/-- What a comment says is the start of a virtual element: blanks, a namespace, at least one blank,
an expression without blanks at its ends, and blanks. -/
def StartPattern (content : Excerpt) (start : Start) : Prop :=
  ∃ front gap expression back : Text,
    content.text = front ++ (start.space.text ++ (gap ++ (expression ++ back))) ∧
    front.Blank ∧ gap.Blank ∧ gap ≠ [] ∧ expression.StartsSolid ∧ expression.EndsSolid ∧
    back.Blank ∧ (expression = [] → back = []) ∧
    start.spaceSpan =
      ⟨content.offset + front.size, content.offset + front.size + start.space.text.size⟩ ∧
    start.expression = ⟨start.spaceSpan.stop + gap.size,
      start.spaceSpan.stop + gap.size + expression.size⟩

/-- What a comment says is the end of a virtual element of a namespace: blanks, a slash, the
namespace, and nothing or a blank and anything. -/
def EndPattern (content : Text) (space : Namespace) : Prop :=
  ∃ front rest : Text, content = front ++ '/' :: (space.text ++ rest) ∧ front.Blank ∧
    ∀ c, rest.head? = some c → isBlank c = true

/-- A namespace is written without blanks. -/
theorem startsSolid_text_append (space : Namespace) (t : Text) :
    Text.StartsSolid (space.text ++ t) := by
  intro c hc
  cases space <;> cases hc <;> decide

/-- An expression in front of blanks does not begin with a blank. -/
theorem startsSolid_append {expression back : Text} (h : expression.StartsSolid)
    (hback : expression = [] → back = []) : Text.StartsSolid (expression ++ back) := by
  cases expression with
  | nil =>
    rw [hback rfl]
    exact h
  | cons c t =>
    intro d hd
    exact h d hd

/-- The start of a virtual element is recognized where it is written. -/
theorem StartPattern.ofContent?_eq {content : Excerpt} {start : Start}
    (h : StartPattern content start) : Start.ofContent? content = some start := by
  obtain ⟨front, gap, expression, back, ht, hfront, hgap, hne, hstarts, hends, hback, hempty, hs,
    he⟩ := h
  obtain ⟨offset, text⟩ := content
  obtain ⟨space, spaceSpan, span⟩ := start
  simp only at ht hs he
  subst ht hs he
  have hword := Excerpt.trimStart_mk offset hfront
    (startsSolid_text_append space (gap ++ (expression ++ back)))
  have hread : Namespace.read? (space.text ++ (gap ++ (expression ++ back))) =
      some (space, gap ++ (expression ++ back)) := Namespace.read?_eq_some_iff.2 rfl
  have hhead : (gap ++ (expression ++ back)).head?.any isBlank = true := by
    cases gap with
    | nil => exact absurd rfl hne
    | cons c gap => exact hgap c List.mem_cons_self
  have htwo : space.text.length = 2 := by cases space <;> rfl
  have hsolid := startsSolid_append hstarts hempty
  have htake : (space.text ++ (gap ++ (expression ++ back))).take 2 = space.text := by
    rw [← htwo, List.take_left]
  have hdrop : (space.text ++ (gap ++ (expression ++ back))).drop 2 =
      gap ++ (expression ++ back) := by
    rw [← htwo, List.drop_left]
  simp only [Start.ofContent?, hword, hread, hhead, if_true, Excerpt.take, Excerpt.drop, htake,
    hdrop, Excerpt.trim, Excerpt.trimStart_mk _ hgap hsolid, Excerpt.trimEnd_mk _ hback hends]
  rfl

/-- What is recognized as the start of a virtual element is written as one. -/
theorem startPattern_of_ofContent? {content : Excerpt} {start : Start}
    (h : Start.ofContent? content = some start) : StartPattern content start := by
  have h' := h
  unfold Start.ofContent? at h'
  dsimp only at h'
  split at h'
  · next space rest hread =>
    split at h'
    · next hhead =>
      have hword := Namespace.read?_eq_some_iff.1 hread
      have hfront := Text.takeWhile_append_trimStart content.text
      rw [Excerpt.text_trimStart] at hword
      have hgap := Text.takeWhile_append_trimStart rest
      obtain ⟨back, hback, hexpression⟩ := Text.exists_trimEnd_append rest.trimStart
      have hne : rest.takeWhile isBlank ≠ [] := by
        cases rest with
        | nil => cases hhead
        | cons c rest =>
          rw [List.takeWhile_cons_of_pos (show isBlank c = true from hhead)]
          exact List.cons_ne_nil _ _
      have hempty : rest.trimStart.trimEnd = [] → back = [] := by
        intro hnil
        rw [hnil, List.nil_append] at hexpression
        refine hback.eq_nil ?_
        rw [hexpression]
        exact Text.startsSolid_trimStart rest
      let spaceStart := content.offset + Text.size (content.text.takeWhile isBlank)
      let spaceStop := spaceStart + space.text.size
      let expressionStart := spaceStop + Text.size (rest.takeWhile isBlank)
      have hpattern : StartPattern content
          ⟨space, ⟨spaceStart, spaceStop⟩,
            ⟨expressionStart, expressionStart + rest.trimStart.trimEnd.size⟩⟩ :=
        ⟨content.text.takeWhile isBlank, rest.takeWhile isBlank, rest.trimStart.trimEnd, back,
          by rw [hexpression, hgap, ← hword, hfront], Text.blank_takeWhile _,
          Text.blank_takeWhile _, hne, (Text.startsSolid_trimStart rest).trimEnd,
          Text.endsSolid_trimEnd _, hback, hempty, rfl, rfl⟩
      have heq := hpattern.ofContent?_eq
      rw [h] at heq
      exact Option.some.inj heq ▸ hpattern
    · cases h'
  · cases h'

/-- The end of a virtual element is recognized exactly where it is written. -/
theorem endOf?_eq_some_iff {content : Text} {space : Namespace} :
    endOf? content = some space ↔ EndPattern content space := by
  constructor
  · intro h
    unfold endOf? at h
    split at h
    · next t ht =>
      split at h
      · next space' rest hread =>
        split at h
        · next hhead =>
          cases h
          refine ⟨content.takeWhile isBlank, rest, ?_, Text.blank_takeWhile _, ?_⟩
          · rw [← Namespace.read?_eq_some_iff.1 hread, ← ht, Text.takeWhile_append_trimStart]
          · intro c hc
            rw [hc] at hhead
            exact hhead
        · cases h
      · cases h
    · cases h
  · rintro ⟨front, rest, rfl, hfront, hrest⟩
    have hsolid : Text.StartsSolid ('/' :: (space.text ++ rest)) := by
      rintro c ⟨⟩
      decide
    have hhead : rest.head?.all isBlank = true := by
      cases rest with
      | nil => rfl
      | cons c rest => exact hrest c rfl
    have hread : Namespace.read? (space.text ++ rest) = some (space, rest) :=
      Namespace.read?_eq_some_iff.2 rfl
    simp only [endOf?, Text.trimStart_append hfront hsolid, hread, hhead, if_true]

end BoundTemplate.Delimiter
