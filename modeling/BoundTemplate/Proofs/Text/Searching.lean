import BoundTemplate.Proofs.Text.Part
import BoundTemplate.Text.Search

/-!
# What a search finds

A search for a pattern finds its first occurrence: the pattern stands there, and wherever else it
stands is behind that. A copy of a text with small letters has its characters at the same offsets,
so what is found in the copy stands at that place in the text.
-/

namespace BoundTemplate.Text

/-! ### First occurrences -/

/-- A pattern that is found stands behind the first part of the text, and behind any other part
behind which it stands is no less. -/
theorem find?_eq_some {pattern t : Text} {n : Nat} (h : find? pattern t = some n) :
    (∃ front back, t = front ++ (pattern ++ back) ∧ front.size = n) ∧
      ∀ front back, t = front ++ (pattern ++ back) → n ≤ front.size := by
  obtain ⟨found, hfound, rfl⟩ := Option.map_eq_some_iff.1 h
  obtain ⟨rest, hrest⟩ := prefix_of_before? hfound
  refine ⟨⟨found, rest, by rw [← hrest, List.append_assoc], rfl⟩, fun front back ht => ?_⟩
  clear h hrest
  -- The search stops at the first character at which the pattern starts.
  induction t generalizing found front with
  | nil =>
    obtain ⟨rfl, h⟩ := List.append_eq_nil_iff.1 ht.symm
    obtain ⟨rfl, -⟩ := List.append_eq_nil_iff.1 h
    cases hfound
    exact Nat.le_refl _
  | cons c t ih =>
    rw [before?] at hfound
    split at hfound
    · cases hfound
      exact Nat.zero_le _
    · next hstart =>
      obtain ⟨found', hfound', rfl⟩ := Option.map_eq_some_iff.1 hfound
      cases front with
      | nil =>
        have hprefix : pattern <+: c :: t := ⟨back, ht.symm⟩
        exact absurd (List.isPrefixOf_iff_prefix.2 hprefix) hstart
      | cons d front =>
        obtain ⟨rfl, rfl⟩ := List.cons.inj ht
        exact Nat.add_le_add_left (ih found' hfound' front rfl) _

/-- A pattern that is not found stands nowhere. -/
theorem find?_eq_none {pattern t : Text} (hpattern : pattern ≠ []) (h : find? pattern t = none)
    (front back : Text) : t ≠ front ++ (pattern ++ back) := by
  have hnone := Option.map_eq_none_iff.1 h
  rintro rfl
  clear h
  induction front with
  | nil =>
    obtain ⟨c, others, rfl⟩ := List.exists_cons_of_ne_nil hpattern
    rw [List.nil_append, List.cons_append, before?, if_pos] at hnone
    · cases hnone
    · exact List.isPrefixOf_iff_prefix.2 ⟨back, rfl⟩
  | cons c front ih =>
    rw [List.cons_append, before?] at hnone
    split at hnone
    · cases hnone
    · exact ih (Option.map_eq_none_iff.1 hnone)

/-- The first character of a kind has none of it in front, and if there is none, the text has none
of it. -/
theorem find?_singleton (x : Char) (t : Text) :
    (∃ front back, t = front ++ x :: back ∧ x ∉ front ∧ find? [x] t = some front.size) ∨
      x ∉ t ∧ find? [x] t = none := by
  cases h : find? [x] t with
  | none =>
    refine .inr ⟨fun hmem => ?_, rfl⟩
    obtain ⟨front, back, rfl⟩ := List.append_of_mem hmem
    exact find?_eq_none (List.cons_ne_nil x []) h front back rfl
  | some n =>
    obtain ⟨⟨front, back, rfl, rfl⟩, hfirst⟩ := find?_eq_some h
    refine .inl ⟨front, back, rfl, fun hmem => ?_, rfl⟩
    obtain ⟨before, between, rfl⟩ := List.append_of_mem hmem
    have hle := hfirst before (between ++ x :: back) (by simp)
    have hpos := x.utf8Size_pos
    simp only [size_append, size_cons] at hle
    omega

/-! ### Small letters -/

/-- Only a small letter is what a letter becomes; any other character comes from itself. -/
theorem eq_of_toLower_eq {c d : Char} (h : c.toLower = d) (hd : d.isLower = false) : c = d := by
  subst h
  unfold Char.isLower at hd
  unfold Char.toLower at hd ⊢
  split
  · next hupper =>
    rw [dif_pos hupper] at hd
    simp [UInt32.le_iff_toNat_le] at hd hupper
    omega
  · rfl

/-- A letter has one byte, whatever its case. -/
theorem utf8Size_toLower (c : Char) : c.toLower.utf8Size = c.utf8Size := by
  unfold Char.toLower
  split
  · next hupper =>
    simp only [ge_iff_le, UInt32.le_iff_toNat_le] at hupper
    have hone : c.utf8Size = 1 := by
      rw [Char.utf8Size_eq_one_iff, UInt32.le_iff_toNat_le]
      exact Nat.le_trans hupper.2 (by decide)
    rw [hone, Char.utf8Size_eq_one_iff, UInt32.le_iff_toNat_le, UInt32.toNat_add]
    simp at hupper ⊢
    omega
  · rfl

theorem size_lower (t : Text) : t.lower.size = t.size := by
  induction t with
  | nil => rfl
  | cons c t ih => rw [lower_cons, size_cons, size_cons, utf8Size_toLower, ih]

/-- The parts of a copy with small letters are copies of the parts of the text. -/
theorem exists_of_lower_eq_append {t front back : Text} (h : t.lower = front ++ back) :
    ∃ front' back', t = front' ++ back' ∧ lower front' = front ∧ lower back' = back :=
  List.map_eq_append_iff.1 h

end BoundTemplate.Text
