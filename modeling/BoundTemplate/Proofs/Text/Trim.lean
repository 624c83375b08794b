import BoundTemplate.Text.Excerpt

/-!
# What trimming removes

Trimming removes all blanks at an end of a text and nothing else. A text that begins
or ends with no blank is therefore what is left of it between any blanks.
-/

namespace BoundTemplate

namespace Text

/-- A text that has only blanks. -/
def Blank (t : Text) : Prop := ∀ c ∈ t, isBlank c = true

/-- A text that does not begin with a blank. -/
def StartsSolid (t : Text) : Prop := ∀ c, t.head? = some c → isBlank c = false

/-- A text that does not end with a blank. -/
def EndsSolid (t : Text) : Prop := ∀ c, t.getLast? = some c → isBlank c = false

/-- What is trimmed in front does not begin with a blank. -/
theorem startsSolid_trimStart (t : Text) : t.trimStart.StartsSolid := head?_trimStart t

/-- Trimming in front removes blanks. -/
theorem blank_takeWhile (t : Text) : Text.Blank (t.takeWhile isBlank) := by
  induction t with
  | nil => simp [Blank]
  | cons c t ih =>
    by_cases hc : isBlank c = true
    · intro d hd
      rw [List.takeWhile_cons_of_pos hc] at hd
      rcases List.mem_cons.1 hd with rfl | hd
      · exact hc
      · exact ih d hd
    · simp [Blank, hc]

/-- Blanks in front are trimmed. -/
theorem trimStart_append {front t : Text} (hfront : front.Blank) (ht : t.StartsSolid) :
    trimStart (front ++ t) = t := by
  induction front with
  | nil =>
    cases t with
    | nil => rfl
    | cons c t => exact List.dropWhile_cons_of_neg (by simp [ht c rfl])
  | cons c front ih =>
    have hc : isBlank c = true := hfront c List.mem_cons_self
    have hrest := ih fun d hd => hfront d (List.mem_cons_of_mem _ hd)
    exact (List.dropWhile_cons_of_pos hc).trans hrest

/-- A text reversed has only blanks if the text has. -/
theorem Blank.reverse {t : Text} (h : t.Blank) : Text.Blank t.reverse :=
  fun c hc => h c (List.mem_reverse.1 hc)

/-- Blanks at the end are trimmed. -/
theorem trimEnd_append {t back : Text} (hback : back.Blank) (ht : t.EndsSolid) :
    trimEnd (t ++ back) = t := by
  have hsolid : Text.StartsSolid t.reverse := fun c hc => ht c (by simpa using hc)
  rw [trimEnd, List.reverse_append, trimStart_append hback.reverse hsolid, List.reverse_reverse]

/-- What is trimmed at the end does not end with a blank. -/
theorem endsSolid_trimEnd (t : Text) : t.trimEnd.EndsSolid := by
  intro c hc
  refine startsSolid_trimStart t.reverse c ?_
  simpa only [trimEnd, List.getLast?_reverse] using hc

/-- Trimming at the end removes blanks. -/
theorem exists_trimEnd_append (t : Text) : ∃ back : Text, back.Blank ∧ trimEnd t ++ back = t := by
  refine ⟨(t.reverse.takeWhile isBlank).reverse, (blank_takeWhile t.reverse).reverse, ?_⟩
  rw [trimEnd, ← List.reverse_append, takeWhile_append_trimStart, List.reverse_reverse]

/-- Trimming at the end leaves the first character, unless it leaves nothing. -/
theorem StartsSolid.trimEnd {t : Text} (h : t.StartsSolid) : t.trimEnd.StartsSolid := by
  obtain ⟨back, -, hback⟩ := exists_trimEnd_append t
  intro c hc
  refine h c ?_
  rw [← hback, List.head?_append, hc, Option.some_or]

/-- A text of blanks that does not begin with one is empty. -/
theorem Blank.eq_nil {t : Text} (h : t.Blank) (hs : t.StartsSolid) : t = [] := by
  cases t with
  | nil => rfl
  | cons c t =>
    have hc := hs c rfl
    rw [h c List.mem_cons_self] at hc
    cases hc

/-- A text of which trimming leaves nothing has only blanks. -/
theorem blank_of_trim_eq_nil {t : Text} (h : t.trim = []) : t.Blank := by
  obtain ⟨back, hblank, hback⟩ := exists_trimEnd_append t.trimStart
  have hempty : t.trimStart.trimEnd = [] := h
  rw [hempty, List.nil_append] at hback
  rw [hback] at hblank
  rw [← takeWhile_append_trimStart t]
  intro c hc
  rcases List.mem_append.1 hc with hc | hc
  · exact blank_takeWhile t c hc
  · exact hblank c hc

end Text

namespace Excerpt

/-- The excerpt behind the blanks in front. -/
theorem trimStart_mk {front t : Text} (offset : Nat) (hfront : front.Blank) (ht : t.StartsSolid) :
    trimStart ⟨offset, front ++ t⟩ = ⟨offset + front.size, t⟩ := by
  have htext := Text.trimStart_append hfront ht
  have hsplit := Text.takeWhile_append_trimStart (front ++ t)
  rw [htext] at hsplit
  have hblanks : (front ++ t).takeWhile isBlank = front := List.append_cancel_right hsplit
  simp only [trimStart, drop, hblanks, List.take_left, List.drop_left]

/-- The excerpt in front of the blanks at the end. -/
theorem trimEnd_mk {t back : Text} (offset : Nat) (hback : back.Blank) (ht : t.EndsSolid) :
    trimEnd ⟨offset, t ++ back⟩ = ⟨offset, t⟩ := by
  simp only [trimEnd, Text.trimEnd_append hback ht]

end Excerpt

end BoundTemplate
