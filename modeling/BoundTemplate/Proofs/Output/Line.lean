import BoundTemplate.Proofs.Output.Bookkeeping
import BoundTemplate.Proofs.Output.Indenting

/-!
# What writing a line leaves

The indentation of a line goes to the end of the text and is owed no more. It moves what
is recorded there and nothing in front of it, and writing changes neither the level nor
the options of a chunk.
-/

namespace BoundTemplate.Output

namespace Chunk

variable {c d : Chunk}

/-- The indentation of a line goes to the end of the text. -/
@[simp] theorem text_writeIndent (c : Chunk) :
    c.writeIndent.text = c.text ++ c.indentText (c.indentation + c.carried) := by
  rw [writeIndent, text_splice]
  dsimp only
  rw [size, Text.takeBytes_size, Text.dropBytes_size, List.append_nil]

/-- Nothing more is owed to a line once its indentation is written. -/
@[simp] theorem line_writeIndent (c : Chunk) :
    c.writeIndent.atLineStart = false ∧ c.writeIndent.carried = 0 := by
  rw [writeIndent, splice_eq]
  exact ⟨rfl, rfl⟩

@[simp] theorem layout_writeIndent (c : Chunk) :
    c.writeIndent.indentation = c.indentation ∧ c.writeIndent.options = c.options := by
  rw [writeIndent, splice_eq]
  exact ⟨rfl, rfl⟩

/-- Writing does not change the level. -/
@[simp] theorem indentation_writeLine (line : Text) (c : Chunk) :
    (c.writeLine line).indentation = c.indentation := by
  unfold writeLine
  split
  · rfl
  · dsimp only
    split
    · exact (layout_writeIndent c).1
    · rfl

@[simp] theorem indentation_append (t : Text) (c : Chunk) :
    (c.append t).indentation = c.indentation :=
  append_induction (p := fun d => d.indentation = c.indentation) t rfl
    (fun d line h => (indentation_writeLine line d).trans h) fun _ h => h

theorem mappings_writeIndent (hc : ∀ m ∈ c.mappings, m.extent.Forward) :
    c.writeIndent.mappings = c.mappings.map (Mapping.move
      ⟨c.size, 0, (c.indentText (c.indentation + c.carried)).size⟩
      (Gaps.emptyBias c.endsAt c.size)) :=
  mappings_splice_place (c := { c with atLineStart := false, carried := 0 }) c.size _ hc

theorem writeLine_of_atLineStart {line : Text} (hne : line ≠ []) (h : c.atLineStart = true) :
    c.writeLine line = { c.writeIndent with text := c.writeIndent.text ++ line } := by
  have hempty : ¬line.isEmpty = true := fun he => hne (List.isEmpty_iff.1 he)
  rw [writeLine, if_neg hempty]
  dsimp only
  rw [if_pos h]

/-- A marker in front of an edit stays. -/
theorem moveMarker_of_within {e : Edit} {n : Nat} {m : Marker} (h : m.Within n)
    (hlt : n < e.start) :
    moveMarker e m = m := by
  obtain ⟨name, offset, side⟩ := m
  cases side with
  | template => rfl
  | generated =>
    exact congrArg (Marker.mk name · .generated)
      (Edit.move_of_lt .after (Nat.lt_of_le_of_lt (h rfl) hlt))

theorem markers_writeIndent (c : Chunk) :
    c.writeIndent.markers = c.markers.map
      (moveMarker ⟨c.size, 0, (c.indentText (c.indentation + c.carried)).size⟩) :=
  markers_splice_place c.size _ { c with atLineStart := false, carried := 0 }

/-- A span that stops in front of the place of an edit, or has no bytes, stays one. -/
theorem stopsWithin_moveSpan {e : Edit} {n : Nat} {span : Span} (empty : Bias)
    (h : StopsWithin n span) (hlt : n < e.start) : StopsWithin n (e.moveSpan empty span) := by
  rcases Nat.lt_trichotomy span.start span.stop with hlt' | heq | hgt
  · have hstop := h.resolve_left (Nat.ne_of_lt hlt')
    rw [Edit.moveSpan_of_lt empty hlt', Edit.move_of_lt .before (by omega)]
    exact .inr hstop
  · rw [Edit.moveSpan_of_eq empty heq]
    exact .inl rfl
  · exact .inl (Edit.isEmpty_moveSpan_of_gt empty hgt)

/-- Located spans that stop in front of the end, or have no bytes, stay so. -/
theorem stopsWithin_writeIndent {n : Nat} (h : ∀ l ∈ c.located, StopsWithin n l.2)
    (hlt : n < c.size) : ∀ l ∈ c.writeIndent.located, StopsWithin n l.2 := by
  intro l hl
  rw [writeIndent, splice_eq] at hl
  dsimp only at hl
  split at hl
  · exact h l hl
  · obtain ⟨l', hl', rfl⟩ := List.mem_map.1 hl
    exact stopsWithin_moveSpan _ (h l' hl') hlt

/-- Chunks with the same options write the same indentation. -/
theorem indentText_congr (h : d.options = c.options) (levels : Nat) :
    d.indentText levels = c.indentText levels := by
  rw [indentText, h]
  rfl

/-- Indentations of some levels follow one another. -/
theorem indentText_add (c : Chunk) (a b : Nat) :
    c.indentText (a + b) = c.indentText a ++ c.indentText b := by
  rw [indentText, ← List.replicate_append_replicate, List.flatten_append]
  rfl

theorem endsLine_append (t : Text) {u : Text} (hne : u ≠ []) : endsLine (t ++ u) = endsLine u := by
  obtain ⟨last, hlast⟩ := Option.isSome_iff_exists.1 (List.getLast?_isSome.2 hne)
  rw [endsLine, endsLine, List.getLast?_append, hlast, Option.some_or]

theorem endsLine_of_not_mem {t : Text} (h : '\n' ∉ t) : endsLine t = false := by
  rw [endsLine, beq_eq_false_iff_ne]
  exact fun hlast => h (List.mem_of_getLast? hlast)

/-- The lines of a text have its characters but for line breaks. -/
theorem not_mem_of_mem_linesOf {t line : Text} (h : line ∈ linesOf t) :
    '\n' ∉ line ∧ ('\r' ∉ t → '\r' ∉ line) := by
  induction t generalizing line with
  | nil =>
    rw [linesOf, List.mem_singleton] at h
    subst h
    exact ⟨List.not_mem_nil, fun _ => List.not_mem_nil⟩
  | cons x t ih =>
    have hrest : line ∈ linesOf t → '\n' ∉ line ∧ ('\r' ∉ x :: t → '\r' ∉ line) := by
      intro hmem
      obtain ⟨hfeed, hreturn⟩ := ih hmem
      exact ⟨hfeed, fun hnot => hreturn fun hx => hnot (List.mem_cons_of_mem _ hx)⟩
    unfold linesOf at h
    split at h
    · rcases List.mem_cons.1 h with rfl | h
      · exact ⟨List.not_mem_nil, fun _ => List.not_mem_nil⟩
      · exact hrest h
    · next hx =>
      split at h
      · exact hrest h
      · split at h
        · rw [List.mem_singleton] at h
          subst h
          exact ⟨by simpa using Ne.symm hx, fun hnot hmem => hnot (by simp_all)⟩
        · next first others heq =>
          rcases List.mem_cons.1 h with rfl | h
          · obtain ⟨hfeed, hreturn⟩ := ih (heq ▸ List.mem_cons_self)
            refine ⟨?_, fun hnot hmem => ?_⟩
            · rw [List.mem_cons, not_or]
              exact ⟨Ne.symm hx, hfeed⟩
            · rcases List.mem_cons.1 hmem with rfl | hmem
              · exact hnot List.mem_cons_self
              · exact hreturn (fun hx => hnot (List.mem_cons_of_mem _ hx)) hmem
          · exact hrest (heq ▸ List.mem_cons_of_mem _ h)

end Chunk

end BoundTemplate.Output
