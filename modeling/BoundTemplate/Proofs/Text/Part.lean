import BoundTemplate.Text.Locate

/-!
# Parts of a text

A part stands in a text at a span if the text is something in front of the span,
the part, and a rest. Parts that follow one another make one part, and what stands
at a span is the slice of it. Between two boundaries there always stands a part.
-/

namespace BoundTemplate.Text

/-- A character has bytes, so a text with characters has a positive size. -/
theorem size_pos {t : Text} (h : t ≠ []) : 0 < t.size :=
  Nat.pos_of_ne_zero fun h0 => h (size_eq_zero.1 h0)

namespace Holds

variable {t part : Text} {s : Span}

/-- The span of a part is as long as the part. -/
theorem stop_eq (h : t.Holds s part) : s.stop = s.start + part.size := by
  obtain ⟨front, back, -, rfl⟩ := h
  rfl

theorem start_le_stop (h : t.Holds s part) : s.start ≤ s.stop := by
  rw [h.stop_eq]
  exact Nat.le_add_right _ _

theorem start_lt_stop (h : t.Holds s part) (hp : part ≠ []) : s.start < s.stop := by
  rw [h.stop_eq]
  exact Nat.lt_add_of_pos_right (size_pos hp)

/-- A part lies in the text. -/
theorem stop_le_size (h : t.Holds s part) : s.stop ≤ t.size := by
  obtain ⟨front, back, rfl, rfl⟩ := h
  simp only [size_append]
  omega

theorem isBoundary_start (h : t.Holds s part) : t.isBoundary s.start = true := by
  obtain ⟨front, back, rfl, rfl⟩ := h
  exact isBoundary_iff.2 ⟨front, part ++ back, List.append_assoc .., rfl⟩

theorem isBoundary_stop (h : t.Holds s part) : t.isBoundary s.stop = true := by
  obtain ⟨front, back, rfl, rfl⟩ := h
  exact isBoundary_iff.2 ⟨front ++ part, back, rfl, size_append ..⟩

/-- The slice of a span is the part that stands there. -/
theorem slice_eq (h : t.Holds s part) : t.slice s = part := by
  obtain ⟨front, back, rfl, rfl⟩ := h
  exact slice_append_append front part back

/-- A part that is made of two stands where these follow one another. -/
theorem split {part' : Text} {a c : Nat} (h : t.Holds ⟨a, c⟩ (part ++ part')) :
    t.Holds ⟨a, a + part.size⟩ part ∧ t.Holds ⟨a + part.size, c⟩ part' := by
  obtain ⟨front, back, rfl, hs⟩ := h
  simp only [Span.mk.injEq, size_append] at hs
  obtain ⟨rfl, rfl⟩ := hs
  refine ⟨⟨front, part' ++ back, by simp only [List.append_assoc], rfl⟩,
    front ++ part, back, by simp only [List.append_assoc], ?_⟩
  simp only [size_append, Span.mk.injEq, true_and]
  omega

/-- A part of a part stands in the text where it stands in the part. -/
theorem trans {inner : Text} {s' : Span} (h : t.Holds s part) (h' : part.Holds s' inner) :
    t.Holds (s'.shift s.start) inner := by
  obtain ⟨front, back, rfl, rfl⟩ := h
  obtain ⟨front', back', rfl, rfl⟩ := h'
  refine ⟨front ++ front', back' ++ back, by simp only [List.append_assoc], ?_⟩
  simp only [Span.shift, size_append, Span.mk.injEq]
  omega

/-- What stands between two parts of one byte each. -/
theorem between {front back : Text} (hfront : front.size = 1) (hback : back.size = 1)
    (h : t.Holds s (front ++ (part ++ back))) : t.Holds ⟨s.start + 1, s.stop - 1⟩ part := by
  have hstop := h.stop_eq
  have hpart := h.split.2.split.1
  simp only [size_append, hfront, hback] at hstop hpart
  have hspan : (⟨s.start + 1, s.stop - 1⟩ : Span) = ⟨s.start + 1, s.start + 1 + part.size⟩ := by
    simp only [Span.mk.injEq, true_and]
    omega
  rw [hspan]
  exact hpart

end Holds

/-- The end of a text is a boundary. -/
theorem isBoundary_size (t : Text) : t.isBoundary t.size = true :=
  isBoundary_iff.2 ⟨t, [], (List.append_nil t).symm, rfl⟩

theorem isBoundary_min {t : Text} {a b : Nat} (ha : t.isBoundary a = true)
    (hb : t.isBoundary b = true) : t.isBoundary (min a b) = true := by
  rw [Nat.min_def]
  split
  · exact ha
  · exact hb

theorem isBoundary_max {t : Text} {a b : Nat} (ha : t.isBoundary a = true)
    (hb : t.isBoundary b = true) : t.isBoundary (max a b) = true := by
  rw [Nat.max_def]
  split
  · exact hb
  · exact ha

/-- Of two beginnings of a text, the one with no more bytes is a beginning of the other. -/
theorem exists_between {front rest front' rest' : Text} (h : front ++ rest = front' ++ rest')
    (hle : front.size ≤ front'.size) :
    ∃ between, front' = front ++ between ∧ rest = between ++ rest' := by
  rcases List.append_eq_append_iff.1 h with ⟨between, hfront, hrest⟩ | ⟨between, rfl, hrest⟩
  · exact ⟨between, hfront, hrest⟩
  · have hnone : Text.size between = 0 := by
      rw [size_append] at hle
      omega
    obtain rfl := size_eq_zero.1 hnone
    exact ⟨[], by rw [List.append_nil, List.append_nil], hrest.symm⟩

/-- Between two boundaries stands a part. -/
theorem exists_holds {t : Text} {a b : Nat} (ha : t.isBoundary a = true)
    (hb : t.isBoundary b = true) (hab : a ≤ b) : ∃ part, t.Holds ⟨a, b⟩ part := by
  obtain ⟨front, rest, rfl, rfl⟩ := isBoundary_iff.1 ha
  obtain ⟨front', back, h, rfl⟩ := isBoundary_iff.1 hb
  obtain ⟨part, rfl, -⟩ := exists_between h hab
  exact ⟨part, front, back, h, by simp only [size_append]⟩

/-- A slice with characters is a part that stands at its span. -/
theorem holds_slice {t : Text} {s : Span} (h : t.slice s ≠ []) : t.Holds s (t.slice s) := by
  have hb : s.start ≤ s.stop ∧ t.isBoundary s.start = true ∧ t.isBoundary s.stop = true := by
    unfold slice at h
    split at h
    · next hc =>
      simp only [Bool.and_eq_true, decide_eq_true_eq] at hc
      exact ⟨hc.1.1, hc.1.2, hc.2⟩
    · exact absurd rfl h
  obtain ⟨part, hp⟩ := exists_holds hb.2.1 hb.2.2 hb.1
  rw [hp.slice_eq]
  exact hp

/-- What stands behind a boundary goes through the end of the text. -/
theorem holds_dropBytes {t : Text} {offset : Nat} (h : t.isBoundary offset = true) :
    t.Holds ⟨offset, t.size⟩ (t.dropBytes offset) := by
  obtain ⟨front, back, rfl, rfl⟩ := isBoundary_iff.1 h
  rw [dropBytes_size_append]
  exact ⟨front, [], by simp only [List.append_nil], by simp only [size_append]⟩

/-- What stands behind its start begins with a part. -/
theorem Holds.prefix_dropBytes {t part : Text} {span : Span} (h : t.Holds span part) :
    part <+: t.dropBytes span.start := by
  obtain ⟨front, back, rfl, rfl⟩ := h
  rw [List.append_assoc, dropBytes_size_append]
  exact List.prefix_append _ _

/-! ### What is checked -/

/-- A boundary is accepted as one. -/
theorem checkBoundary_eq_ok {t : Text} {offset : Nat} (h : t.isBoundary offset = true) :
    t.checkBoundary offset = .ok () := by
  have hle := le_size_of_isBoundary h
  rw [checkBoundary, if_neg (Nat.not_lt.2 hle), if_pos h]

/-- What stands at a span is accepted as its slice. -/
theorem Holds.checkedSlice_eq_ok {t part : Text} {span : Span} (h : t.Holds span part) :
    t.checkedSlice span = .ok part := by
  rw [checkedSlice, checkBoundary_eq_ok h.isBoundary_start, checkBoundary_eq_ok h.isBoundary_stop,
    h.slice_eq]
  rfl

/-- What stands behind a boundary is given. -/
theorem checkedDrop_eq_ok {t : Text} {offset : Nat} (h : t.isBoundary offset = true) :
    t.checkedDrop offset = .ok (t.dropBytes offset) := by
  rw [checkedDrop, checkBoundary_eq_ok h]
  rfl

theorem checkedDrop_append (front back : Text) :
    checkedDrop (front ++ back) front.size = .ok back := by
  rw [checkedDrop_eq_ok (isBoundary_iff.2 ⟨front, back, rfl, rfl⟩), dropBytes_size_append]

/-! ### Boundaries inside of a text -/

/-- A beginning that fits is taken as a whole. -/
theorem takeBytes_append_of_le {front : Text} {n : Nat} (back : Text) (h : front.size ≤ n) :
    takeBytes n (front ++ back) = front ++ takeBytes (n - front.size) back := by
  induction front generalizing n with
  | nil => rfl
  | cons c front ih =>
    simp only [size_cons] at h
    have hc : c.utf8Size ≤ n := by omega
    have hrest : Text.size front ≤ n - c.utf8Size := by omega
    simp only [List.cons_append, takeBytes, hc, if_true, ih hrest, size_cons, Nat.sub_sub]

/-- The whole text is taken by its size, and nothing is left. -/
theorem takeBytes_size (t : Text) : takeBytes (size t) t = t := by
  have h := takeBytes_size_append t []
  rwa [List.append_nil] at h

theorem dropBytes_size (t : Text) : dropBytes (size t) t = [] := by
  have h := dropBytes_size_append t []
  rwa [List.append_nil] at h

/-- A beginning that ends between characters has the size asked for. -/
theorem size_takeBytes {t : Text} {n : Nat} (h : t.isBoundary n = true) :
    Text.size (t.takeBytes n) = n := by
  obtain ⟨front, back, rfl, rfl⟩ := isBoundary_iff.1 h
  rw [takeBytes_size_append]

theorem size_dropBytes {t : Text} {n : Nat} (h : t.isBoundary n = true) :
    Text.size (t.dropBytes n) = t.size - n := by
  obtain ⟨front, back, rfl, rfl⟩ := isBoundary_iff.1 h
  rw [dropBytes_size_append, size_append]
  omega

theorem floor_eq_of_isBoundary {t : Text} {n : Nat} (h : t.isBoundary n = true) : t.floor n = n :=
  beq_iff_eq.1 h

/-- Moving an offset back to a place between characters does not take it across another. -/
theorem le_floor {t : Text} {a n : Nat} (h : t.isBoundary a = true) (hle : a ≤ n) :
    a ≤ t.floor n := by
  obtain ⟨front, back, rfl, rfl⟩ := isBoundary_iff.1 h
  rw [floor, takeBytes_append_of_le back hle, size_append]
  exact Nat.le_add_right _ _

/-- A text that is put behind another keeps the places between the characters of that. -/
theorem isBoundary_append {t : Text} {n : Nat} (more : Text) (h : t.isBoundary n = true) :
    isBoundary (t ++ more) n = true := by
  obtain ⟨front, back, rfl, rfl⟩ := isBoundary_iff.1 h
  exact isBoundary_iff.2 ⟨front, back ++ more, List.append_assoc .., rfl⟩

/-- A text that is put behind another keeps what stands in that. -/
theorem Holds.extend {t part : Text} {s : Span} (more : Text) (h : t.Holds s part) :
    Holds (t ++ more) s part := by
  obtain ⟨front, back, rfl, rfl⟩ := h
  exact ⟨front, back ++ more, by simp only [List.append_assoc], rfl⟩

/-- Nothing stands between any two characters. -/
theorem holds_empty {t : Text} {n : Nat} (h : t.isBoundary n = true) :
    t.Holds (Span.empty n) [] := by
  obtain ⟨front, back, rfl, rfl⟩ := isBoundary_iff.1 h
  exact ⟨front, back, by simp only [List.append_nil], rfl⟩

/-- A boundary of a part is one of the text. -/
theorem Holds.isBoundary_add {t part : Text} {s : Span} {n : Nat} (h : t.Holds s part)
    (hn : part.isBoundary n = true) : t.isBoundary (s.start + n) = true := by
  obtain ⟨front, back, rfl, rfl⟩ := h
  obtain ⟨front', back', rfl, rfl⟩ := isBoundary_iff.1 hn
  exact isBoundary_iff.2 ⟨front ++ front', back' ++ back, by simp only [List.append_assoc],
    size_append ..⟩

/-- A boundary of a text in a part is one of the part. -/
theorem Holds.isBoundary_sub {t part : Text} {s : Span} {n : Nat} (h : t.Holds s part)
    (hn : t.isBoundary n = true) (hstart : s.start ≤ n) (hstop : n ≤ s.stop) :
    part.isBoundary (n - s.start) = true := by
  obtain ⟨front, hfront⟩ := exists_holds h.isBoundary_start hn hstart
  obtain ⟨back, hback⟩ := exists_holds hn h.isBoundary_stop hstop
  have hpart : part = front ++ back := by
    rw [← h.slice_eq, ← (hfront.append hback).slice_eq]
  have hsize := hfront.stop_eq
  simp only at hsize
  rw [hpart]
  exact isBoundary_iff.2 ⟨front, back, rfl, by omega⟩

end BoundTemplate.Text
