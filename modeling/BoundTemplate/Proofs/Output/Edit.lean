import BoundTemplate.Output.Edit

/-!
# Edits and order

Edits keep offsets in their order, whatever the sides are to which offsets go that lie
where bytes are put, unless the first of two that are equal goes behind the second. So
a span stays a span, and it lies where its ends go.
-/

namespace BoundTemplate

theorem Span.isEmpty_iff {s : Span} : s.isEmpty = true ↔ s.start = s.stop := beq_iff_eq

/-- A span that does not go back has bytes or none. -/
theorem Span.isEmpty_eq_false_iff {s : Span} (h : s.start ≤ s.stop) :
    s.isEmpty = false ↔ s.start < s.stop := by
  rw [Bool.eq_false_iff, Ne, isEmpty_iff]
  omega

namespace Output.Edit

variable {e : Edit} {p q : Nat}

/-- Where an offset goes that lies at the replaced bytes. -/
theorem move_eq_of_at (bias : Bias) (hstart : e.start ≤ p) (hstop : p ≤ e.stop) :
    e.move bias p = if e.removed = 0 then p + (if bias = .before then 0 else e.inserted)
      else if p = e.stop then e.start + e.inserted else min p (e.start + e.inserted) := by
  unfold move
  rw [if_neg (Nat.not_lt.2 hstart), if_neg (Nat.not_lt.2 hstop)]
  cases bias <;> rfl

/-- It stays at the bytes that replace them. -/
theorem move_of_at (bias : Bias) (hstart : e.start ≤ p) (hstop : p ≤ e.stop) :
    e.start ≤ e.move bias p ∧ e.move bias p ≤ e.start + e.inserted := by
  rw [move_eq_of_at bias hstart hstop]
  unfold stop at hstop
  repeat' split
  all_goals omega

/-- An offset that is not in front of an edit stays so. -/
theorem start_le_move (bias : Bias) (h : e.start ≤ p) : e.start ≤ e.move bias p := by
  rcases Nat.lt_or_ge e.stop p with hlt | hle
  · rw [move_of_gt bias hlt]
    unfold stop at hlt
    omega
  · exact (move_of_at bias h hle).1

/-- An offset that is not behind an edit stays so. -/
theorem move_le_stop (bias : Bias) (h : p ≤ e.stop) : e.move bias p ≤ e.start + e.inserted := by
  rcases Nat.lt_or_ge p e.start with hlt | hle
  · rw [move_of_lt bias hlt]
    omega
  · exact (move_of_at bias hle h).2

/-- Edits keep the order of two offsets, unless the offsets are equal and the first goes behind the
second. -/
theorem move_le_move_of_le {a b : Bias} (h : p ≤ q) (hbias : a = .before ∨ b = .after ∨ p < q) :
    e.move a p ≤ e.move b q := by
  rcases Nat.lt_or_ge p e.start with hlt | hstart
  · rw [move_of_lt a hlt]
    rcases Nat.lt_or_ge q e.start with hlt' | hstart'
    · rwa [move_of_lt b hlt']
    · exact Nat.le_trans (Nat.le_of_lt hlt) (start_le_move b hstart')
  rcases Nat.lt_or_ge e.stop q with hgt | hstop
  · rw [move_of_gt b hgt]
    rcases Nat.lt_or_ge e.stop p with hgt' | hstop'
    · rw [move_of_gt a hgt']
      omega
    · have hle := move_le_stop a hstop'
      unfold stop at hgt
      omega
  · -- Both lie at the replaced bytes.
    rw [move_eq_of_at a hstart (Nat.le_trans h hstop),
      move_eq_of_at b (Nat.le_trans hstart h) hstop]
    unfold stop at hstop ⊢
    cases a <;> cases b <;> simp only [reduceCtorEq, false_or, if_true, if_false] at hbias ⊢
    all_goals
      repeat' split
      all_goals omega

/-- Offsets that go to the same side keep their order. -/
theorem move_le_move (bias : Bias) (h : p ≤ q) : e.move bias p ≤ e.move bias q := by
  apply move_le_move_of_le h
  cases bias
  · exact .inl rfl
  · exact .inr (.inl rfl)

/-- An edit carries the offsets of a text to those of the edited text. -/
theorem move_le {size : Nat} (bias : Bias) (hstop : e.stop ≤ size) (h : p ≤ size) :
    e.move bias p ≤ size - e.removed + e.inserted := by
  rcases Nat.lt_or_ge e.stop p with hgt | hle
  · rw [move_of_gt bias hgt]
    omega
  · have hend := move_le_stop bias hle
    unfold stop at hstop
    omega

/-- Bytes that are put in move an offset to the same place on any side, unless it is where they are
put. -/
theorem move_of_ne (hremoved : e.removed = 0) (hne : p ≠ e.start) (a b : Bias) :
    e.move a p = e.move b p := by
  rcases Nat.lt_or_gt_of_ne hne with hlt | hgt
  · rw [move_of_lt a hlt, move_of_lt b hlt]
  · have hgt' : e.stop < p := by
      simp only [stop, hremoved]
      omega
    rw [move_of_gt a hgt', move_of_gt b hgt']

/-- What goes in front of bytes stays where they are put. -/
@[simp] theorem move_before_start (place n : Nat) :
    Edit.move ⟨place, 0, n⟩ .before place = place := by
  simp [move, stop]

/-- What goes behind bytes goes behind all that are put in. -/
@[simp] theorem move_after_start (place n : Nat) :
    Edit.move ⟨place, 0, n⟩ .after place = place + n := by
  simp [move, stop]

/-! ### Spans -/

variable {s : Span}

/-- A span without bytes goes to one side. -/
theorem moveSpan_of_eq (empty : Bias) (h : s.start = s.stop) :
    e.moveSpan empty s = Span.empty (e.move empty s.start) := by
  rw [moveSpan, if_pos (Span.isEmpty_iff.2 h)]

/-- A span with bytes goes where its ends go, and does not grow by bytes put at them. -/
theorem moveSpan_of_lt (empty : Bias) (h : s.start < s.stop) :
    e.moveSpan empty s = ⟨e.move .after s.start, e.move .before s.stop⟩ := by
  have hne : s.isEmpty = false := (Span.isEmpty_eq_false_iff (Nat.le_of_lt h)).2 h
  have hle : e.move .after s.start ≤ e.move .before s.stop :=
    move_le_move_of_le (Nat.le_of_lt h) (.inr (.inr h))
  simp only [moveSpan, hne, Bool.false_eq_true, if_false, Nat.max_eq_left hle]

/-- Bytes that are put at the end of a text leave the spans with bytes. -/
theorem moveSpan_of_le {size : Nat} (n : Nat) (empty : Bias) (h : s.start < s.stop)
    (hs : s.stop ≤ size) : Edit.moveSpan ⟨size, 0, n⟩ empty s = s := by
  have hstart : Edit.move ⟨size, 0, n⟩ .after s.start = s.start :=
    move_of_lt .after (Nat.lt_of_lt_of_le h hs)
  have hstop : Edit.move ⟨size, 0, n⟩ .before s.stop = s.stop := by
    rcases Nat.lt_or_eq_of_le hs with hlt | rfl
    · exact move_of_lt .before hlt
    · exact move_before_start s.stop n
  rw [moveSpan_of_lt empty h, hstart, hstop]

/-- A span that goes back is one without bytes as soon as it moves. -/
theorem isEmpty_moveSpan_of_gt (empty : Bias) (h : s.stop < s.start) :
    (e.moveSpan empty s).start = (e.moveSpan empty s).stop := by
  have hne : ¬s.isEmpty = true := fun he => Nat.ne_of_gt h (Span.isEmpty_iff.1 he)
  have hle : e.move .before s.stop ≤ e.move .after s.start :=
    move_le_move_of_le (Nat.le_of_lt h) (.inl rfl)
  rw [moveSpan, if_neg hne]
  exact (Nat.max_eq_right hle).symm

/-- A span stays one. -/
theorem start_moveSpan_le_stop (empty : Bias) (h : s.start ≤ s.stop) :
    (e.moveSpan empty s).start ≤ (e.moveSpan empty s).stop := by
  rcases Nat.lt_or_eq_of_le h with hlt | heq
  · have hle : e.move .after s.start ≤ e.move .before s.stop :=
      move_le_move_of_le h (.inr (.inr hlt))
    rw [moveSpan_of_lt empty hlt]
    exact hle
  · rw [moveSpan_of_eq empty heq]
    exact Nat.le_refl _

/-- A span of a text goes to a span of the edited text. -/
theorem stop_moveSpan_le {size : Nat} (empty : Bias) (hstop : e.stop ≤ size) (h : s.start ≤ s.stop)
    (hs : s.stop ≤ size) : (e.moveSpan empty s).stop ≤ size - e.removed + e.inserted := by
  rcases Nat.lt_or_eq_of_le h with hlt | heq
  · rw [moveSpan_of_lt empty hlt]
    exact move_le .before hstop hs
  · rw [moveSpan_of_eq empty heq]
    exact move_le empty hstop (by omega)

/-! ### All offsets and sides -/

/-- Edits keep the order of offsets, within the text that they make. Equal offsets may only part by
their sides, and others never cross, so a span stays one, and the start of one with bytes never
moves beyond where its end goes. What is in front of an edit stays, what is behind keeps its
distance from the end, and what is at the replaced bytes stays at those that replace them. -/
theorem moves_in_order (e : Edit) :
    (∀ (bias : Bias) (p q : Nat), p ≤ q → e.move bias p ≤ e.move bias q) ∧
      (∀ p : Nat, e.move .before p ≤ e.move .after p) ∧
      (∀ p q : Nat, p < q → e.move .after p ≤ e.move .before q) ∧
      (∀ (bias : Bias) (p size : Nat), e.stop ≤ size → p ≤ size →
        e.move bias p ≤ size - e.removed + e.inserted) ∧
      (∀ (empty : Bias) (s : Span), s.start ≤ s.stop →
        (e.moveSpan empty s).start ≤ (e.moveSpan empty s).stop ∧
          (s.isEmpty = false →
            max (e.move .before s.stop) (e.move .after s.start) = e.move .before s.stop ∧
              e.moveSpan empty s = ⟨e.move .after s.start, e.move .before s.stop⟩)) ∧
      ∀ (bias : Bias) (p : Nat),
        (p < e.start → e.move bias p = p) ∧
          (e.start ≤ p → p ≤ e.stop →
            e.start ≤ e.move bias p ∧ e.move bias p ≤ e.start + e.inserted) ∧
          (e.stop < p → e.move bias p + e.removed = p + e.inserted) := by
  have hcross (p q : Nat) (h : p < q) : e.move .after p ≤ e.move .before q :=
    move_le_move_of_le (Nat.le_of_lt h) (.inr (.inr h))
  refine ⟨fun bias p q h => move_le_move bias h,
    fun p => move_le_move_of_le (Nat.le_refl p) (.inl rfl), hcross,
    fun bias p size hstop h => move_le bias hstop h, ?_, ?_⟩
  · intro empty s h
    refine ⟨start_moveSpan_le_stop empty h, fun hbytes => ?_⟩
    have hlt := (Span.isEmpty_eq_false_iff h).1 hbytes
    exact ⟨Nat.max_eq_left (hcross s.start s.stop hlt), moveSpan_of_lt empty hlt⟩
  · intro bias p
    refine ⟨move_of_lt bias, move_of_at bias, fun hgt => ?_⟩
    rw [move_of_gt bias hgt]
    unfold stop at hgt
    omega

/-- Where ten bytes are put between two others, the offset there goes to either side. A span with
bytes around that place grows, and one that ends there does not. -/
theorem moves_in_order_at_insertion :
    let e : Edit := ⟨3, 0, 10⟩
    e.move .after 3 ≤ e.move .after 4 ∧ e.move .before 3 ≤ e.move .after 3 ∧
      e.move .after 3 ≤ e.move .before 4 ∧ e.move .after 8 ≤ 18 ∧
      e.moveSpan .after ⟨1, 5⟩ = ⟨1, 15⟩ ∧ e.moveSpan .after ⟨0, 3⟩ = ⟨0, 3⟩ ∧
      e.move .before 2 = 2 ∧ e.move .after 3 ≤ 13 ∧ e.move .before 4 + 0 = 4 + 10 := by
  intro e
  obtain ⟨hsame, hsides, hcross, hsize, hspan, hplace⟩ := moves_in_order e
  exact ⟨hsame .after 3 4 (by decide), hsides 3, hcross 3 4 (by decide),
    hsize .after 8 8 (by decide) (by decide), ((hspan .after ⟨1, 5⟩ (by decide)).2 rfl).2,
    ((hspan .after ⟨0, 3⟩ (by decide)).2 rfl).2, (hplace .before 2).1 (by decide),
    ((hplace .after 3).2.1 (by decide) (by decide)).2, (hplace .before 4).2.2 (by decide)⟩

end Output.Edit

end BoundTemplate
