import BoundTemplate.Proofs.Output.Run

/-!
# Gaps of one size

Gaps of one size are put into a text at some places, the last first. Each of these edits
leaves the places in front of it, so all of them together move an offset by as many gaps
as are put in front of it, and the side of an empty span depends only on what ends at its
place before any of the gaps is put there.
-/

namespace BoundTemplate.Output

namespace Extent

variable {s : Span}

theorem endsAt_of_lt (h : s.start < s.stop) (p : Nat) : (closed s).endsAt p = (s.stop == p) := by
  have hne : s.isEmpty = false := (Span.isEmpty_eq_false_iff (Nat.le_of_lt h)).2 h
  rw [endsAt, hne]
  rfl

/-- What has no bytes ends nowhere with some. -/
theorem endsAt_of_eq (h : s.start = s.stop) (p : Nat) : (closed s).endsAt p = false := by
  rw [endsAt, Span.isEmpty_iff.2 h]
  rfl

end Extent

/-! ### Gaps -/

/-- Gaps of one size, put at some places of a text. -/
structure Gaps where
  places : List Nat
  size : Nat

namespace Gaps

/-- The number of gaps in front of an offset, to a side of which an offset at a gap goes. -/
def before (g : Gaps) : Bias → Nat → Nat
  | .before, p => g.places.countP (· < p)
  | .after, p => g.places.countP (· ≤ p)

/-- Where an offset goes when the gaps are put in. -/
def move (g : Gaps) (bias : Bias) (p : Nat) : Nat := p + g.size * g.before bias p

variable {g : Gaps} {p q : Nat}

/-- Gaps behind an offset leave it. -/
theorem before_eq_zero (bias : Bias) (h : ∀ place ∈ g.places, p < place) : g.before bias p = 0 := by
  cases bias <;> refine List.countP_eq_zero.2 fun place hplace => ?_
  all_goals
    have hlt := h place hplace
    simp only [decide_eq_true_eq]
    omega

theorem move_of_lt (bias : Bias) (h : ∀ place ∈ g.places, p < place) : g.move bias p = p := by
  rw [move, before_eq_zero bias h, Nat.mul_zero, Nat.add_zero]

/-- Gaps in front of an offset are all counted. -/
theorem before_eq_length (bias : Bias) (h : ∀ place ∈ g.places, place < p) :
    g.before bias p = g.places.length := by
  cases bias <;> refine List.countP_eq_length.2 fun place hplace => ?_
  all_goals
    have hlt := h place hplace
    simp only [decide_eq_true_eq]
    omega

/-- Offsets with some text between them keep it there. -/
theorem before_le_before (h : p < q) : g.before .after p ≤ g.before .before q :=
  List.countP_mono_left fun place _ hle => by
    simp only [decide_eq_true_eq] at hle ⊢
    omega

theorem move_lt_move (h : p < q) : g.move .after p < g.move .before q := by
  have hle : g.size * g.before .after p ≤ g.size * g.before .before q :=
    Nat.mul_le_mul_left _ (before_le_before h)
  unfold move
  omega

theorem before_le_after (g : Gaps) (p : Nat) : g.before .before p ≤ g.before .after p :=
  List.countP_mono_left fun place _ hlt => by
    simp only [decide_eq_true_eq] at hlt ⊢
    omega

theorem le_move (g : Gaps) (bias : Bias) (p : Nat) : p ≤ g.move bias p := Nat.le_add_right _ _

/-- No gap moves what does not end at a place, or behind it, to a place in front of all gaps. -/
theorem move_eq_iff (bias : Bias) (h : ∀ place ∈ g.places, p < place) :
    g.move bias q = p ↔ q = p := by
  constructor
  · intro heq
    have hle := g.le_move bias q
    have hq : g.move bias q = q := move_of_lt bias fun place hplace => by
      have := h place hplace
      omega
    omega
  · rintro rfl
    exact move_of_lt bias h

/-- A further gap counts if it is in front of the offset. -/
theorem before_cons (first : Nat) (others : List Nat) (gap : Nat) (bias : Bias) (p : Nat) :
    before ⟨first :: others, gap⟩ bias p =
      before ⟨others, gap⟩ bias p + if first < p ∨ first = p ∧ bias = .after then 1 else 0 := by
  cases bias
  · simp only [before, List.countP_cons, decide_eq_true_eq, reduceCtorEq, and_false, or_false]
  · simp only [before, List.countP_cons, decide_eq_true_eq, and_true, Nat.le_iff_lt_or_eq]

/-- The first gap is put in last, as an edit of its own. -/
theorem move_cons {first : Nat} {others : List Nat} {gap : Nat} (bias : Bias) (p : Nat)
    (h : ∀ other ∈ others, first < other) :
    move ⟨first :: others, gap⟩ bias p =
      Edit.move ⟨first, 0, gap⟩ bias (move ⟨others, gap⟩ bias p) := by
  rw [move, before_cons]
  rcases Nat.lt_trichotomy p first with hlt | rfl | hgt
  · have hothers : ∀ other ∈ others, p < other := fun other ho => Nat.lt_trans hlt (h other ho)
    rw [move_of_lt (g := ⟨others, gap⟩) bias hothers,
      before_eq_zero (g := ⟨others, gap⟩) bias hothers, Edit.move_of_lt bias hlt,
      if_neg (by omega), Nat.add_zero, Nat.mul_zero, Nat.add_zero]
  · rw [move_of_lt (g := ⟨others, gap⟩) bias h, before_eq_zero (g := ⟨others, gap⟩) bias h]
    cases bias <;> simp
  · have hle := le_move ⟨others, gap⟩ bias p
    rw [if_pos (.inl hgt), Edit.move_of_gt bias (by simp only [Edit.stop]; omega), move]
    simp only [Nat.mul_add, Nat.mul_one, Nat.sub_zero, Nat.add_assoc]

/-! ### Gaps at the end of a text -/

variable {n : Nat}

/-- A further gap behind the others. -/
def concat (g : Gaps) (place : Nat) : Gaps := ⟨g.places ++ [place], g.size⟩

theorem before_concat (g : Gaps) (n : Nat) (bias : Bias) (p : Nat) :
    (g.concat n).before bias p =
      g.before bias p + if n < p ∨ n = p ∧ bias = .after then 1 else 0 := by
  cases bias
  · simp only [before, concat, List.countP_append, List.countP_singleton, decide_eq_true_eq,
      reduceCtorEq, and_false, or_false]
  · simp only [before, concat, List.countP_append, List.countP_singleton, decide_eq_true_eq,
      and_true, Nat.le_iff_lt_or_eq]

/-- A further gap leaves what is in front of it. -/
theorem move_concat_of_lt (g : Gaps) (bias : Bias) (h : p < n ∨ p = n ∧ bias = .before) :
    (g.concat n).move bias p = g.move bias p := by
  have hnot : ¬(n < p ∨ n = p ∧ bias = .after) := by
    rcases h with hlt | ⟨rfl, rfl⟩
    · omega
    · simp
  rw [move, before_concat, if_neg hnot, Nat.add_zero]
  rfl

/-- The end of a text, and what is behind it, goes behind all gaps of the text. -/
theorem move_of_le (bias : Bias) (h : ∀ place ∈ g.places, place < n) (hp : n ≤ p) :
    g.move bias p = p + g.size * g.places.length := by
  rw [move, before_eq_length bias fun place hplace => Nat.lt_of_lt_of_le (h place hplace) hp]

/-- What is behind the place of a further gap goes behind that. -/
theorem move_concat_of_gt (bias : Bias) (h : ∀ place ∈ g.places, place < n)
    (hp : n < p ∨ n = p ∧ bias = .after) :
    (g.concat n).move bias p = p + g.size * g.places.length + g.size := by
  have hall : ∀ place ∈ g.places, place < p := by
    intro place hplace
    have hlt := h place hplace
    omega
  rw [move, before_concat, if_pos hp, before_eq_length bias hall, Nat.mul_add, Nat.mul_one]
  exact (Nat.add_assoc ..).symm

/-- What is in front of the end of a text goes in front of the end of the text with the gaps. -/
theorem move_lt (bias : Bias) (h : ∀ place ∈ g.places, place < n) (hp : p < n) :
    g.move bias p < n + g.size * g.places.length := by
  have hle : g.move bias p ≤ g.move .after p := by
    cases bias
    · exact Nat.add_le_add_left (Nat.mul_le_mul_left _ (before_le_after g p)) _
    · exact Nat.le_refl _
  rw [← move_of_le .before h (Nat.le_refl n)]
  exact Nat.lt_of_le_of_lt hle (move_lt_move hp)

/-- Bytes that are put at the end of the text with the gaps make a further gap there, and put the
rest of them at the end of the text. -/
theorem move_write (bias : Bias) (delta j : Nat) (h : ∀ place ∈ g.places, place < n) (hp : p ≤ n) :
    Edit.move ⟨delta + (n + g.size * g.places.length), 0, g.size + j⟩ bias (g.move bias p + delta) =
      (g.concat n).move bias (Edit.move ⟨n, 0, j⟩ bias p) + delta := by
  rcases Nat.lt_or_eq_of_le hp with hlt | rfl
  · have hmove := move_lt bias h hlt
    rw [Edit.move_of_lt bias (by simp only; omega), Edit.move_of_lt bias hlt,
      move_concat_of_lt g bias (.inl hlt)]
  · rw [move_of_le bias h (Nat.le_refl p)]
    cases bias
    · rw [Edit.move_before_start, move_concat_of_lt g .before (.inr ⟨rfl, rfl⟩),
        move_of_le .before h (Nat.le_refl p)]
      simp [Edit.move, Edit.stop, Nat.add_comm]
    · have hgt : p < p + j ∨ p = p + j ∧ Bias.after = .after := by
        simp only [and_true]
        omega
      rw [Edit.move_after_start, move_concat_of_gt .after h hgt]
      simp only [Edit.move, Edit.stop]
      split
      · omega
      · split
        · omega
        · simp only [if_true]
          omega

/-- Away from the gaps, all sides are one. -/
theorem move_of_not_mem (h : p ∉ g.places) (a b : Bias) : g.move a p = g.move b p := by
  have heq : g.before .before p = g.before .after p := by
    refine List.countP_congr fun place hplace => ?_
    have hne : place ≠ p := fun heq => h (heq ▸ hplace)
    simp only [decide_eq_true_eq]
    omega
  have hsame : g.move .before p = g.move .after p := by rw [move, move, heq]
  cases a <;> cases b
  · rfl
  · exact hsame
  · exact hsame.symm
  · rfl

/-! ### Spans and extents -/

variable {ends : Nat → Bool} {s : Span}

/-- The side to which an empty span goes at a place. -/
def emptyBias (ends : Nat → Bool) (p : Nat) : Bias := if ends p then .before else .after

/-- Where a span goes when the gaps are put in. One without bytes stays in front of a gap where some
span ends. -/
def moveSpan (g : Gaps) (ends : Nat → Bool) (s : Span) : Span :=
  if s.isEmpty then Span.empty (g.move (emptyBias ends s.start) s.start)
  else ⟨g.move .after s.start, g.move .before s.stop⟩

theorem moveSpan_of_eq (ends : Nat → Bool) (h : s.start = s.stop) :
    g.moveSpan ends s = Span.empty (g.move (emptyBias ends s.start) s.start) := by
  rw [moveSpan, if_pos (Span.isEmpty_iff.2 h)]

theorem moveSpan_of_lt (ends : Nat → Bool) (h : s.start < s.stop) :
    g.moveSpan ends s = ⟨g.move .after s.start, g.move .before s.stop⟩ := by
  rw [moveSpan, if_neg fun he => Nat.ne_of_lt h (Span.isEmpty_iff.1 he)]

theorem start_moveSpan_le_stop (ends : Nat → Bool) (h : s.start ≤ s.stop) :
    (g.moveSpan ends s).start ≤ (g.moveSpan ends s).stop := by
  rcases Nat.lt_or_eq_of_le h with hlt | heq
  · rw [moveSpan_of_lt ends hlt]
    exact Nat.le_of_lt (move_lt_move hlt)
  · rw [moveSpan_of_eq ends heq]
    exact Nat.le_refl _

/-- Without gaps, a span stays. -/
theorem moveSpan_nil (gap : Nat) (ends : Nat → Bool) (s : Span) :
    moveSpan ⟨[], gap⟩ ends s = s := by
  have hmove : ∀ bias p, move ⟨[], gap⟩ bias p = p := fun bias p =>
    move_of_lt bias (by simp)
  obtain ⟨start, stop⟩ := s
  unfold moveSpan
  split
  · next hempty =>
    have heq : start = stop := Span.isEmpty_iff.1 hempty
    rw [hmove, heq]
    rfl
  · rw [hmove, hmove]

/-- The first gap moves a span as an edit of its own. -/
theorem moveSpan_cons {first : Nat} {others : List Nat} {gap : Nat} (ends : Nat → Bool)
    (h : ∀ other ∈ others, first < other) (hs : s.start ≤ s.stop) :
    moveSpan ⟨first :: others, gap⟩ ends s =
      Edit.moveSpan ⟨first, 0, gap⟩ (emptyBias ends first) (moveSpan ⟨others, gap⟩ ends s) := by
  rcases Nat.lt_or_eq_of_le hs with hlt | heq
  · have hinner : move ⟨others, gap⟩ .after s.start < move ⟨others, gap⟩ .before s.stop :=
      move_lt_move hlt
    rw [moveSpan_of_lt ends hlt, moveSpan_of_lt ends hlt, Edit.moveSpan_of_lt _ hinner,
      move_cons .after _ h, move_cons .before _ h]
  · rw [moveSpan_of_eq ends heq, moveSpan_of_eq ends heq, Edit.moveSpan_of_eq _ rfl,
      move_cons _ _ h, Span.start_empty]
    by_cases hfirst : s.start = first
    · rw [hfirst]
    · have hne : move ⟨others, gap⟩ (emptyBias ends s.start) s.start ≠ first := fun hmove =>
        hfirst ((move_eq_iff (g := ⟨others, gap⟩) _ h).1 hmove)
      rw [Edit.move_of_ne rfl hne]

/-- In front of all gaps, a span ends with some bytes where it did. -/
theorem endsAt_moveSpan (ends : Nat → Bool) (hs : s.start ≤ s.stop)
    (h : ∀ place ∈ g.places, p < place) :
    (Extent.closed (g.moveSpan ends s)).endsAt p = (Extent.closed s).endsAt p := by
  rcases Nat.lt_or_eq_of_le hs with hlt | heq
  · rw [moveSpan_of_lt ends hlt, Extent.endsAt_of_lt (move_lt_move hlt), Extent.endsAt_of_lt hlt]
    simp only [Bool.beq_eq_decide_eq, move_eq_iff .before h]
  · rw [moveSpan_of_eq ends heq, Extent.endsAt_of_eq rfl, Extent.endsAt_of_eq heq]

/-- Where bytes are put at the end of the text with the gaps, an empty span goes to the side to
which it goes in the text without them. -/
theorem move_write_empty {ends ends' : Nat → Bool} {n : Nat} (delta j : Nat)
    (h : ∀ place ∈ g.places, place < n) (hp : p ≤ n) (hends : ∀ p, p ≤ n → ends' p = ends p) :
    Edit.move ⟨delta + (n + g.size * g.places.length), 0, g.size + j⟩ (emptyBias ends n)
        (g.move (emptyBias ends p) p + delta) =
      (g.concat n).move (emptyBias ends' (Edit.move ⟨n, 0, j⟩ (emptyBias ends n) p))
        (Edit.move ⟨n, 0, j⟩ (emptyBias ends n) p) + delta := by
  rcases Nat.lt_or_eq_of_le hp with hlt | rfl
  · have hmove := move_lt (emptyBias ends p) h hlt
    rw [Edit.move_of_lt _ (by simp only; omega), Edit.move_of_lt _ hlt,
      move_concat_of_lt g _ (.inl hlt), emptyBias, emptyBias, hends p hp]
  · rw [move_write _ delta j h (Nat.le_refl p)]
    have hle : p ≤ Edit.move ⟨p, 0, j⟩ (emptyBias ends p) p := by
      unfold Edit.move
      cases emptyBias ends p <;> simp [Edit.stop]
    generalize Edit.move ⟨p, 0, j⟩ (emptyBias ends p) p = q at hle
    rcases Nat.lt_or_eq_of_le hle with hlt | rfl
    · rw [move_concat_of_gt _ h (.inl hlt), move_concat_of_gt _ h (.inl hlt)]
    · rw [emptyBias, emptyBias, hends p (Nat.le_refl p)]

end Gaps

/-- Where an extent goes when gaps are put into the text. -/
def Extent.spread (g : Gaps) (ends : Nat → Bool) : Extent → Extent
  | running start => running (g.move .after start)
  | closed s => closed (g.moveSpan ends s)

/-- Where a mapping goes when gaps are put into the text. -/
def Mapping.spread (g : Gaps) (ends : Nat → Bool) (m : Mapping) : Mapping :=
  { m with extent := m.extent.spread g ends }

/-- Where a marker goes when gaps are put into the text. -/
def Marker.spread (g : Gaps) (m : Marker) : Marker :=
  match m.side with
  | .generated => { m with offset := g.move .after m.offset }
  | .template => m

/-- An extent that has ended does not go back. -/
def Extent.Forward : Extent → Prop
  | running _ => True
  | closed s => s.start ≤ s.stop

namespace Extent

variable {g : Gaps} {ends : Nat → Bool} {x : Extent} {p : Nat}

theorem Within.forward {size : Nat} (h : x.Within size) : x.Forward := by
  cases x with
  | running start => trivial
  | closed s => exact h.1

theorem Forward.spread (g : Gaps) (ends : Nat → Bool) (h : x.Forward) :
    (x.spread g ends).Forward := by
  cases x with
  | running start => trivial
  | closed s => exact Gaps.start_moveSpan_le_stop ends h

theorem Forward.shift (delta : Nat) (h : x.Forward) : (x.shift delta).Forward := by
  cases x with
  | running start => trivial
  | closed s => exact Nat.add_le_add_right h delta

/-- Without gaps, an extent stays. -/
theorem spread_nil (gap : Nat) (ends : Nat → Bool) (x : Extent) :
    x.spread ⟨[], gap⟩ ends = x := by
  cases x with
  | running start => exact congrArg running (Gaps.move_of_lt .after (by simp))
  | closed s => exact congrArg closed (Gaps.moveSpan_nil gap ends s)

/-- The first gap moves an extent as an edit of its own. -/
theorem spread_cons {first : Nat} {others : List Nat} {gap : Nat} (ends : Nat → Bool)
    (h : ∀ other ∈ others, first < other) (hx : x.Forward) :
    x.spread ⟨first :: others, gap⟩ ends =
      (x.spread ⟨others, gap⟩ ends).move ⟨first, 0, gap⟩ (Gaps.emptyBias ends first) := by
  cases x with
  | running start => exact congrArg running (Gaps.move_cons .after start h)
  | closed s => exact congrArg closed (Gaps.moveSpan_cons ends h hx)

/-- In front of all gaps, an extent ends with some bytes where it did. -/
theorem endsAt_spread (ends : Nat → Bool) (hx : x.Forward) (h : ∀ place ∈ g.places, p < place) :
    (x.spread g ends).endsAt p = x.endsAt p := by
  cases x with
  | running start => rfl
  | closed s => exact Gaps.endsAt_moveSpan ends hx h

/-- An edit that changes nothing leaves an extent. -/
theorem move_of_isEmpty {e : Edit} (empty : Bias) (he : e.isEmpty = true) (hx : x.Forward) :
    x.move e empty = x := by
  cases x with
  | running start => exact congrArg running (Edit.move_of_isEmpty .after start he)
  | closed s =>
    refine congrArg closed ?_
    rcases Nat.lt_or_eq_of_le hx with hlt | heq
    · rw [Edit.moveSpan_of_lt empty hlt, Edit.move_of_isEmpty _ _ he, Edit.move_of_isEmpty _ _ he]
    · rw [Edit.moveSpan_of_eq empty heq, Edit.move_of_isEmpty _ _ he]
      obtain ⟨start, stop⟩ := s
      simp only at heq
      rw [heq]
      rfl

/-! ### Writing at the end -/

variable {n : Nat}

/-- Bytes that are put at the end of a text end nothing in it, or at its end. -/
theorem endsAt_move_of_le (j : Nat) (empty : Bias) (hx : x.Within n) (p : Nat) :
    (x.move ⟨n, 0, j⟩ empty).endsAt p = x.endsAt p := by
  cases x with
  | running start => rfl
  | closed s =>
    rcases Nat.lt_or_eq_of_le hx.1 with hlt | heq
    · rw [move, Edit.moveSpan_of_le j empty hlt hx.2]
    · rw [move, Edit.moveSpan_of_eq empty heq, endsAt_of_eq rfl, endsAt_of_eq heq]

/-- What ends at the end of a text with some bytes, ends at the end of the text with the gaps. -/
theorem endsAt_spread_end (ends : Nat → Bool) (delta : Nat)
    (h : ∀ place ∈ g.places, place < n) (hx : x.Within n) :
    ((x.spread g ends).shift delta).endsAt (delta + (n + g.size * g.places.length)) =
      x.endsAt n := by
  cases x with
  | running start => rfl
  | closed s =>
    obtain ⟨hle, hstop⟩ := hx
    rcases Nat.lt_or_eq_of_le hle with hlt | heq
    · have hmoved : g.move .after s.start + delta < g.move .before s.stop + delta :=
        Nat.add_lt_add_right (Gaps.move_lt_move hlt) delta
      have hiff : g.move .before s.stop + delta = delta + (n + g.size * g.places.length) ↔
          s.stop = n := by
        rcases Nat.lt_or_eq_of_le hstop with hlt' | rfl
        · have hmove := Gaps.move_lt .before h hlt'
          constructor <;> intro <;> omega
        · rw [Gaps.move_of_le .before h (Nat.le_refl _), Nat.add_comm]
          exact iff_of_true rfl rfl
      rw [spread, Gaps.moveSpan_of_lt ends hlt, shift, Span.shift, endsAt_of_lt hmoved,
        endsAt_of_lt hlt]
      simp only [Bool.beq_eq_decide_eq, hiff]
    · rw [spread, Gaps.moveSpan_of_eq ends heq, shift, endsAt_of_eq rfl, endsAt_of_eq heq]

/-- A text that is put at the end of the text with the gaps, and begins with a further gap, does to
an extent what the rest of it does to the extent in the text without the gaps. -/
theorem spread_write {ends ends' : Nat → Bool} (delta j : Nat)
    (h : ∀ place ∈ g.places, place < n) (hx : x.Within n) (hends : ∀ p, p ≤ n → ends' p = ends p) :
    ((x.spread g ends).shift delta).move
        ⟨delta + (n + g.size * g.places.length), 0, g.size + j⟩ (Gaps.emptyBias ends n) =
      ((x.move ⟨n, 0, j⟩ (Gaps.emptyBias ends n)).spread (g.concat n) ends').shift delta := by
  cases x with
  | running start => exact congrArg running (Gaps.move_write .after delta j h hx)
  | closed s =>
    refine congrArg closed ?_
    obtain ⟨hle, hstop⟩ := hx
    rcases Nat.lt_or_eq_of_le hle with hlt | heq
    · have hmoved : g.move .after s.start + delta < g.move .before s.stop + delta :=
        Nat.add_lt_add_right (Gaps.move_lt_move hlt) delta
      have hstart' := Gaps.move_write .after delta j h (Nat.le_trans hle hstop)
      have hstop' := Gaps.move_write .before delta j h hstop
      have hinner : Edit.move ⟨n, 0, j⟩ .after s.start < Edit.move ⟨n, 0, j⟩ .before s.stop := by
        have hsame := Edit.moveSpan_of_le j .after hlt hstop
        rw [Edit.moveSpan_of_lt _ hlt] at hsame
        have hstart : Edit.move ⟨n, 0, j⟩ .after s.start = s.start := congrArg Span.start hsame
        have hstop : Edit.move ⟨n, 0, j⟩ .before s.stop = s.stop := congrArg Span.stop hsame
        omega
      rw [Gaps.moveSpan_of_lt _ hlt, Span.shift, Edit.moveSpan_of_lt _ hmoved, hstart', hstop',
        Edit.moveSpan_of_lt _ hlt, Gaps.moveSpan_of_lt _ hinner]
      rfl
    · rw [Gaps.moveSpan_of_eq _ heq, Edit.moveSpan_of_eq _ heq, Gaps.moveSpan_of_eq _ rfl,
        Edit.moveSpan_of_eq _ rfl]
      exact congrArg Span.empty
        (Gaps.move_write_empty delta j h (heq ▸ hstop) hends)

/-- Only what ends at a gap decides where an extent goes. -/
theorem spread_congr {ends ends' : Nat → Bool} (h : ∀ place ∈ g.places, ends' place = ends place)
    (hx : x.Forward) : x.spread g ends' = x.spread g ends := by
  cases x with
  | running start => rfl
  | closed s =>
    refine congrArg closed ?_
    rcases Nat.lt_or_eq_of_le hx with hlt | heq
    · rw [Gaps.moveSpan_of_lt ends' hlt, Gaps.moveSpan_of_lt ends hlt]
    · rw [Gaps.moveSpan_of_eq ends' heq, Gaps.moveSpan_of_eq ends heq]
      refine congrArg Span.empty ?_
      by_cases hmem : s.start ∈ g.places
      · rw [Gaps.emptyBias, Gaps.emptyBias, h s.start hmem]
      · exact Gaps.move_of_not_mem hmem _ _

/-- An extent that ends at the end of a text ends at the end of the text with the gaps. -/
theorem spread_close {ends ends' : Nat → Bool} (delta : Nat) (h : ∀ place ∈ g.places, place < n)
    (hx : x.Within n) (hends : ∀ p, p < n → ends' p = ends p) :
    ((x.spread g ends).shift delta).close (delta + (n + g.size * g.places.length)) =
      ((x.close n).spread g ends').shift delta := by
  cases x with
  | running start =>
    have hend := Gaps.move_of_le .before h (Nat.le_refl n)
    rw [close, close, spread, shift, span, span, Nat.max_eq_left hx, spread, shift]
    refine congrArg closed ?_
    rcases Nat.lt_or_eq_of_le (show start ≤ n from hx) with hlt | rfl
    · have hmove := Gaps.move_lt .after h hlt
      rw [Gaps.moveSpan_of_lt (s := ⟨start, n⟩) ends' hlt, hend, Nat.max_eq_left (by omega),
        Span.shift, Nat.add_comm delta]
    · have hend' := Gaps.move_of_le .after h (Nat.le_refl start)
      have hend'' := Gaps.move_of_le (Gaps.emptyBias ends' start) h (Nat.le_refl start)
      rw [Gaps.moveSpan_of_eq (s := ⟨start, start⟩) ends' rfl, hend'', hend', Nat.add_comm delta,
        Nat.max_self]
      rfl
  | closed s =>
    rw [close_closed, spread_congr (fun place hplace => hends place (h place hplace)) hx.forward]
    rfl

/-! ### In front of an edit -/

variable {size : Nat}

/-- What lies in front of an edit stays. -/
theorem move_of_within {e : Edit} (empty : Bias) (hx : x.Within size) (h : size < e.start) :
    x.move e empty = x := by
  cases x with
  | running start =>
    exact congrArg running (Edit.move_of_lt .after (Nat.lt_of_le_of_lt hx h))
  | closed s =>
    refine congrArg closed ?_
    obtain ⟨hle, hstop⟩ := hx
    rcases Nat.lt_or_eq_of_le hle with hlt | heq
    · rw [Edit.moveSpan_of_lt empty hlt, Edit.move_of_lt .after (by omega),
        Edit.move_of_lt .before (by omega)]
    · rw [Edit.moveSpan_of_eq empty heq, Edit.move_of_lt empty (by omega)]
      obtain ⟨start, stop⟩ := s
      simp only at heq
      rw [heq]
      rfl

/-- What lies in front of a place does not end there. -/
theorem endsAt_of_within (hx : x.Within size) (h : size < p) : x.endsAt p = false := by
  cases x with
  | running start => rfl
  | closed s =>
    obtain ⟨-, hstop⟩ := hx
    have hne : (s.stop == p) = false := by
      rw [beq_eq_false_iff_ne]
      omega
    rw [endsAt, hne, Bool.and_false]

/-- What ends at the end of a text does not end in front of it. -/
theorem endsAt_close (x : Extent) (h : p < size) : (x.close size).endsAt p = x.endsAt p := by
  cases x with
  | running start =>
    have hne : (max size start == p) = false := by
      rw [beq_eq_false_iff_ne]
      omega
    rw [close, span, endsAt, endsAt, hne, Bool.and_false]
  | closed s => rfl

end Extent

/-- A mapping that lies further on. -/
def Mapping.shift (delta : Nat) (m : Mapping) : Mapping := { m with extent := m.extent.shift delta }

end BoundTemplate.Output
