import BoundTemplate.Proofs.Output.Run

/-!
# Writing at the end of a chunk

What is written goes to the end of the text, indentation included. So a mapping that has
ended in front of the end stays where it is, one that ends there still covers the same
text, and one that is open starts between characters and not in front of where it did.
-/

namespace BoundTemplate.Output

/-- What writing at the end of one text, which makes another of it, does to a mapping: what has
ended covers the same text at least `gap` bytes in front of the new end, and stays in its place if
it ended in front of the old one. -/
structure Mapping.Kept (t u : Text) (gap : Nat) (m m' : Mapping) : Prop where
  origin : m'.origin = m.origin
  closed : ∀ s part, m.extent = .closed s → t.Holds s part →
    ∃ s', m'.extent = .closed s' ∧ u.Holds s' part ∧ s.start ≤ s'.start ∧
      s'.stop + gap ≤ u.size ∧ (s.stop < t.size → s' = s)
  running : ∀ start, m.extent = .running start → t.isBoundary start = true →
    ∃ start', m'.extent = .running start' ∧ start ≤ start' ∧ u.isBoundary start' = true

namespace Mapping.Kept

variable {t u v : Text} {a b : Nat} {m m' m'' : Mapping}

theorem trans (h : Kept t u a m m') (h' : Kept u v b m' m'') (hle : t.size ≤ u.size) :
    Kept t v b m m'' := by
  refine ⟨h'.origin.trans h.origin, fun s part hs holds => ?_, fun start hs hb => ?_⟩
  · obtain ⟨s', hs', holds', hstart, -, hsame⟩ := h.closed s part hs holds
    obtain ⟨s'', hs'', holds'', hstart', hgap, hsame'⟩ := h'.closed s' part hs' holds'
    refine ⟨s'', hs'', holds'', Nat.le_trans hstart hstart', hgap, fun hlt => ?_⟩
    have heq := hsame hlt
    subst heq
    exact hsame' (Nat.lt_of_lt_of_le hlt hle)
  · obtain ⟨start', hs', hle', hb'⟩ := h.running start hs hb
    obtain ⟨start'', hs'', hle'', hb''⟩ := h'.running start' hs' hb'
    exact ⟨start'', hs'', Nat.le_trans hle' hle'', hb''⟩

/-- A gap that is there is not lost. -/
theorem trans_left (h : Kept t u a m m') (h' : Kept u v b m' m'') (ha : 0 < a)
    (htu : t.size ≤ u.size) (huv : u.size ≤ v.size) : Kept t v a m m'' := by
  obtain ⟨horigin, -, hrunning⟩ := h.trans h' htu
  refine ⟨horigin, fun s part hs holds => ?_, hrunning⟩
  obtain ⟨s', hs', holds', hstart, hgap, hsame⟩ := h.closed s part hs holds
  obtain ⟨s'', hs'', holds'', -, -, hsame'⟩ := h'.closed s' part hs' holds'
  have heq := hsame' (by omega)
  subst heq
  exact ⟨s'', hs'', holds'', hstart, Nat.le_trans hgap huv, hsame⟩

theorem mono (h : Kept t u a m m') (hle : b ≤ a) : Kept t u b m m' := by
  refine ⟨h.origin, fun s part hs holds => ?_, h.running⟩
  obtain ⟨s', hs', holds', hstart, hgap, hsame⟩ := h.closed s part hs holds
  exact ⟨s', hs', holds', hstart, by omega, hsame⟩

/-- Text that is put at the end leaves all mappings as they are. -/
theorem append (t more : Text) (m : Mapping) : Kept t (t ++ more) more.size m m := by
  refine ⟨rfl, fun s part hs holds => ?_, fun start hs hb => ?_⟩
  · have hsize := holds.stop_le_size
    refine ⟨s, hs, holds.extend more, Nat.le_refl _, ?_, fun _ => rfl⟩
    rw [Text.size_append]
    omega
  · exact ⟨start, hs, Nat.le_refl _, Text.isBoundary_append more hb⟩

/-- An edit at the end leaves a place between characters where it is, or brings it to the new end.
-/
theorem isBoundary_move (t more : Text) (bias : Bias) {n : Nat} (h : t.isBoundary n = true) :
    let e : Edit := ⟨t.size, 0, more.size⟩
    n ≤ e.move bias n ∧ Text.isBoundary (t ++ more) (e.move bias n) = true := by
  intro e
  have hsame : Text.isBoundary (t ++ more) n = true := Text.isBoundary_append more h
  rcases Nat.lt_or_eq_of_le (Text.le_size_of_isBoundary h) with hlt | rfl
  · rw [Edit.move_of_lt bias hlt]
    exact ⟨Nat.le_refl _, hsame⟩
  · cases bias with
    | before =>
      rw [Edit.move_before_start]
      exact ⟨Nat.le_refl _, hsame⟩
    | after =>
      rw [Edit.move_after_start, ← Text.size_append]
      refine ⟨?_, Text.isBoundary_size _⟩
      rw [Text.size_append]
      exact Nat.le_add_right _ _

/-- Text that is put at the end by an edit moves only what is empty or open there. -/
theorem move (t more : Text) (empty : Bias) (m : Mapping) :
    Kept t (t ++ more) 0 m (m.move ⟨t.size, 0, more.size⟩ empty) := by
  let e : Edit := ⟨t.size, 0, more.size⟩
  refine ⟨rfl, fun s part hs holds => ?_, fun start hs hb => ?_⟩
  · have hextent : (m.move e empty).extent = .closed (e.moveSpan empty s) := by
      simp only [Mapping.move, hs, Extent.move]
    rcases Nat.lt_or_eq_of_le holds.start_le_stop with hlt | heq
    · have hsame : e.moveSpan empty s = s :=
        Edit.moveSpan_of_le more.size empty hlt holds.stop_le_size
      rw [hsame] at hextent
      have hholds := holds.extend more
      exact ⟨s, hextent, hholds, Nat.le_refl _, hholds.stop_le_size, fun _ => rfl⟩
    · have hpart : part = [] := by
        have hstop := holds.stop_eq
        exact Text.size_eq_zero.1 (by omega)
      have hmoved : e.moveSpan empty s = Span.empty (e.move empty s.start) :=
        Edit.moveSpan_of_eq empty heq
      obtain ⟨hle, hb⟩ := isBoundary_move t more empty holds.isBoundary_start
      rw [hmoved] at hextent
      have hempty := Text.holds_empty hb
      rw [hpart]
      refine ⟨_, hextent, hempty, hle, hempty.stop_le_size, fun hlt => ?_⟩
      obtain ⟨start, stop⟩ := s
      simp only at heq hlt
      subst heq
      rw [Edit.move_of_lt empty hlt]
      rfl
  · obtain ⟨hle, hb'⟩ := isBoundary_move t more .after hb
    exact ⟨e.move .after start, by simp only [Mapping.move, hs, Extent.move, e], hle, hb'⟩

end Mapping.Kept

namespace Chunk

/-- One chunk is another with text written at its end, at least `gap` bytes behind all that has
ended there. -/
structure Extends (gap : Nat) (c d : Chunk) : Prop where
  text_begins : c.text <+: d.text
  mappings : ∃ f : Mapping → Mapping, (∀ m, Mapping.Kept c.text d.text gap m (f m)) ∧
    d.mappings = c.mappings.map f

namespace Extends

variable {a b : Nat} {c d e : Chunk}

theorem size_le (h : Extends a c d) : c.size ≤ d.size := by
  obtain ⟨more, hmore⟩ := h.text_begins
  rw [size, size, ← hmore, Text.size_append]
  exact Nat.le_add_right _ _

/-- Text is put at the end, and nothing moves. -/
theorem grow (more : Text) (htext : d.text = c.text ++ more) (hmappings : d.mappings = c.mappings) :
    Extends more.size c d := by
  refine ⟨⟨more, htext.symm⟩, id, fun m => ?_, by rw [hmappings, List.map_id]⟩
  rw [htext]
  exact Mapping.Kept.append c.text more m

theorem refl (c : Chunk) : Extends 0 c c := grow [] (List.append_nil _).symm rfl

theorem trans (h : Extends a c d) (h' : Extends b d e) : Extends b c e := by
  obtain ⟨f, hf, hd⟩ := h.mappings
  obtain ⟨g, hg, he⟩ := h'.mappings
  refine ⟨h.text_begins.trans h'.text_begins, g ∘ f, fun m => ?_, ?_⟩
  · exact (hf m).trans (hg (f m)) h.size_le
  · rw [he, hd, List.map_map]

/-- A gap that is there is not lost. -/
theorem trans_left (h : Extends a c d) (h' : Extends b d e) (ha : 0 < a) : Extends a c e := by
  obtain ⟨f, hf, hd⟩ := h.mappings
  obtain ⟨g, hg, he⟩ := h'.mappings
  refine ⟨h.text_begins.trans h'.text_begins, g ∘ f, fun m => ?_, ?_⟩
  · exact (hf m).trans_left (hg (f m)) ha h.size_le h'.size_le
  · rw [he, hd, List.map_map]

theorem mono (h : Extends a c d) (hle : b ≤ a) : Extends b c d := by
  obtain ⟨f, hf, hd⟩ := h.mappings
  exact ⟨h.text_begins, f, fun m => (hf m).mono hle, hd⟩

end Extends

/-! ### What writing does -/

/-- The indentation of a line is written at the end. -/
theorem extends_writeIndent (c : Chunk) : Extends 0 c c.writeIndent := by
  have htake : c.text.takeBytes c.size = c.text := Text.takeBytes_size c.text
  have hdrop : c.text.dropBytes c.size = [] := Text.dropBytes_size c.text
  let indent := c.indentText (c.indentation + c.carried)
  have htext : c.writeIndent.text = c.text ++ indent := by
    rw [writeIndent, text_splice]
    simp only [htake, hdrop, List.append_nil, indent]
  by_cases hnone : (Edit.mk c.size 0 indent.size).isEmpty = true
  · have hmappings : c.writeIndent.mappings = c.mappings := by
      rw [writeIndent, splice, Nat.sub_self, move, if_pos hnone]
    exact (Extends.grow indent htext hmappings).mono (Nat.zero_le _)
  · refine ⟨⟨indent, htext.symm⟩, ?_⟩
    have hmappings : ∃ empty, c.writeIndent.mappings =
        c.mappings.map (Mapping.move ⟨c.size, 0, indent.size⟩ empty) := by
      rw [writeIndent, splice, Nat.sub_self, move, if_neg hnone]
      exact ⟨_, rfl⟩
    obtain ⟨empty, hmappings⟩ := hmappings
    refine ⟨_, fun m => ?_, hmappings⟩
    rw [htext]
    exact Mapping.Kept.move c.text indent empty m

theorem extends_writeLine (c : Chunk) (line : Text) : Extends line.size c (c.writeLine line) := by
  unfold writeLine
  split
  · next hempty =>
    rw [List.isEmpty_iff.1 hempty]
    exact .refl c
  · dsimp only
    split
    · exact (extends_writeIndent c).trans (.grow line rfl rfl)
    · exact .grow line rfl rfl

theorem extends_breakLine (c : Chunk) : Extends 0 c c.breakLine :=
  (Extends.grow (d := c.breakLine) c.options.lineEnd rfl rfl).mono (Nat.zero_le _)

theorem extends_append (c : Chunk) (t : Text) : Extends 0 c (c.append t) :=
  append_induction t (.refl c)
    (fun d line h => h.trans ((extends_writeLine d line).mono (Nat.zero_le _)))
    fun d h => h.trans (extends_breakLine d)

/-! ### Single lines -/

theorem linesOf_of_not_mem {t : Text} (h : '\n' ∉ t) : linesOf t = [t] := by
  induction t with
  | nil => rfl
  | cons c t ih =>
    simp only [List.mem_cons, not_or] at h
    have hhead : t.head? ≠ some '\n' := fun hhead => h.2 (List.mem_of_head? hhead)
    have hline : ¬((c = '\r' && t.head? = some '\n') = true) := by
      simp [hhead]
    rw [linesOf, if_neg (Ne.symm h.1), if_neg hline, ih h.2]

/-- A text without line feeds is written as a part of a line. -/
theorem append_of_not_mem {t : Text} (c : Chunk) (h : '\n' ∉ t) : c.append t = c.writeLine t := by
  rw [append, linesOf_of_not_mem h]
  rfl

/-- Inside of a line, a part of it is put at the end. -/
theorem writeLine_of_inside {c : Chunk} (line : Text) (h : c.atLineStart = false) :
    c.writeLine line = { c with text := c.text ++ line } := by
  unfold writeLine
  split
  · next hempty => rw [List.isEmpty_iff.1 hempty, List.append_nil]
  · simp only [h, Bool.false_eq_true, if_false]

@[simp] theorem atLineStart_move (e : Edit) (c : Chunk) :
    (c.move e).atLineStart = c.atLineStart := by
  unfold move
  split <;> rfl

/-- Behind a part of a line, the text is inside of the line. -/
theorem atLineStart_writeLine {line : Text} (c : Chunk) (h : line ≠ []) :
    (c.writeLine line).atLineStart = false := by
  have hindent : c.writeIndent.atLineStart = false := atLineStart_move _ _
  unfold writeLine
  rw [if_neg (by simpa using h)]
  dsimp only
  split
  · exact hindent
  · next hline => simpa using hline

end Chunk

end BoundTemplate.Output
