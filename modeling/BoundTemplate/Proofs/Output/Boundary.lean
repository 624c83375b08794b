import BoundTemplate.Proofs.Output.Bookkeeping

/-!
# Offsets between characters

An edit takes an offset between two characters of the old text to one of the new text,
unless the offset lies inside of the replaced text: then it keeps its distance in bytes from
the start of that, whatever stands there now. So all offsets that a chunk holds lie between
characters along every run whose edits put a boundary wherever they leave an offset, and
whose located texts still start at one when they are recorded.
-/

namespace BoundTemplate.Output

namespace Edit

variable {e : Edit} {offset : Nat}

/-- An offset at an end of the replaced bytes goes to an end of those that replace them. -/
theorem move_end (bias : Bias) (h : offset = e.start ∨ offset = e.stop) :
    e.move bias offset = e.start ∨ e.move bias offset = e.start + e.inserted := by
  unfold stop at h
  unfold move stop
  cases bias <;> repeat' split
  all_goals omega

/-- An offset inside of the replaced bytes keeps its distance from their start as far as there are
bytes. -/
theorem move_inside (bias : Bias) (hstart : e.start < offset) (hstop : offset < e.stop) :
    e.move bias offset = e.start + min (offset - e.start) e.inserted := by
  unfold stop at hstop
  unfold move stop
  cases bias <;> repeat' split
  all_goals omega

end Edit

/-! ### The offsets of a chunk -/

/-- The offsets at which an extent starts and, if it has ended, stops. -/
def Extent.offsets : Extent → List Nat
  | running start => [start]
  | closed s => [s.start, s.stop]

namespace Extent

variable {x : Extent} {e : Edit} {empty : Bias} {offset : Nat}

theorem forall_offsets_closed {p : Nat → Prop} {s : Span} :
    (∀ offset ∈ (closed s).offsets, p offset) ↔ p s.start ∧ p s.stop := by
  simp only [offsets, List.mem_cons, List.not_mem_nil, or_false, forall_eq_or_imp, forall_eq]

/-- The ends of an extent that moves are those of the extent, moved. -/
theorem exists_of_mem_offsets_move (h : offset ∈ (x.move e empty).offsets) :
    ∃ old ∈ x.offsets, ∃ bias, offset = e.move bias old := by
  cases x with
  | running start => exact ⟨start, List.mem_cons_self, .after, List.mem_singleton.1 h⟩
  | closed s =>
    have hstart : s.start ∈ (closed s).offsets := List.mem_cons_self
    have hstop : s.stop ∈ (closed s).offsets := List.mem_cons_of_mem _ List.mem_cons_self
    simp only [move, offsets, Edit.moveSpan, List.mem_cons, List.not_mem_nil, or_false] at h
    split at h
    · exact ⟨s.start, hstart, empty, by simpa using h⟩
    · rcases h with h | h
      · exact ⟨s.start, hstart, .after, h⟩
      · rcases Nat.le_total (e.move .before s.stop) (e.move .after s.start) with hle | hle
        · exact ⟨s.start, hstart, .after, h.trans (Nat.max_eq_right hle)⟩
        · exact ⟨s.stop, hstop, .before, h.trans (Nat.max_eq_left hle)⟩

/-- No end of an extent of a text is lost as it moves. -/
theorem exists_mem_offsets_move {size : Nat} (hx : x.Within size) (h : offset ∈ x.offsets) :
    ∃ bias, e.move bias offset ∈ (x.move e empty).offsets := by
  cases x with
  | running start =>
    cases List.mem_singleton.1 h
    exact ⟨.after, List.mem_cons_self⟩
  | closed s =>
    simp only [offsets, List.mem_cons, List.not_mem_nil, or_false] at h
    rcases Nat.lt_or_eq_of_le hx.1 with hlt | heq
    · rw [move, Edit.moveSpan_of_lt empty hlt]
      rcases h with rfl | rfl
      · exact ⟨.after, List.mem_cons_self⟩
      · exact ⟨.before, List.mem_cons_of_mem _ List.mem_cons_self⟩
    · rw [move, Edit.moveSpan_of_eq empty heq]
      have hoffset : offset = s.start := by omega
      exact ⟨empty, hoffset ▸ List.mem_cons_self⟩

/-- An extent that ends has its own ends or the place where it ends. -/
theorem mem_offsets_close {stop : Nat} (h : offset ∈ (x.close stop).offsets) :
    offset ∈ x.offsets ∨ offset = stop := by
  cases x with
  | running start =>
    simp only [close, span, offsets, List.mem_cons, List.not_mem_nil, or_false] at h ⊢
    omega
  | closed s => exact .inl h

theorem exists_of_mem_offsets_shift {delta : Nat} (h : offset ∈ (x.shift delta).offsets) :
    ∃ old ∈ x.offsets, offset = delta + old := by
  cases x with
  | running start =>
    exact ⟨start, List.mem_cons_self, (List.mem_singleton.1 h).trans (Nat.add_comm ..)⟩
  | closed s =>
    simp only [shift, offsets, Span.start_shift, Span.stop_shift, List.mem_cons, List.not_mem_nil,
      or_false] at h
    rcases h with h | h
    · exact ⟨s.start, List.mem_cons_self, h.trans (Nat.add_comm ..)⟩
    · exact ⟨s.stop, List.mem_cons_of_mem _ List.mem_cons_self, h.trans (Nat.add_comm ..)⟩

end Extent

namespace Chunk

/-- All offsets of the text that a chunk holds: the ends of its mappings and its located spans, and
the markers of the text. -/
def offsets (c : Chunk) : List Nat :=
  c.mappings.flatMap (·.extent.offsets) ++
    c.located.flatMap (fun l => (Extent.closed l.2).offsets) ++
    (c.markers.filter (·.side == .generated)).map (·.offset)

variable {c d other : Chunk} {start stop offset : Nat} {t : Text}

/-- What is said of all offsets of a chunk is said of those of each kind. -/
theorem forall_offsets {p : Nat → Prop} :
    (∀ offset ∈ c.offsets, p offset) ↔
      (∀ m ∈ c.mappings, ∀ offset ∈ m.extent.offsets, p offset) ∧
        (∀ l ∈ c.located, ∀ offset ∈ (Extent.closed l.2).offsets, p offset) ∧
        ∀ m ∈ c.markers, m.side = .generated → p m.offset := by
  simp only [offsets, List.forall_mem_append, List.mem_flatMap, List.mem_map, List.mem_filter,
    beq_iff_eq, forall_exists_index, and_imp, and_assoc]
  refine and_congr ?_ (and_congr ?_ ?_)
  · exact ⟨fun h m hm o ho => h o m hm ho, fun h o m hm ho => h m hm o ho⟩
  · exact ⟨fun h l hl o ho => h o l hl ho, fun h o l hl ho => h l hl o ho⟩
  · exact ⟨fun h m hm hside => h _ m hm hside rfl, fun h _ m hm hside ho => ho ▸ h m hm hside⟩

/-- The offsets of a chunk that moves are those of the chunk, moved. -/
theorem exists_of_mem_offsets_move {e : Edit} (h : offset ∈ (c.move e).offsets) :
    ∃ old ∈ c.offsets, ∃ bias, offset = e.move bias old := by
  revert offset
  have hold := forall_offsets.1 fun old (h : old ∈ c.offsets) => h
  obtain ⟨hmappings, hlocated, hmarkers⟩ := hold
  unfold move
  split
  · next he => exact fun offset h => ⟨offset, h, .after, (Edit.move_of_isEmpty .after _ he).symm⟩
  · refine forall_offsets.2 ⟨fun m hm n ho => ?_, fun l hl n ho => ?_, fun m hm hside => ?_⟩
    · obtain ⟨m', hm', rfl⟩ := List.mem_map.1 hm
      obtain ⟨old, hmem, hmove⟩ := Extent.exists_of_mem_offsets_move ho
      exact ⟨old, hmappings m' hm' old hmem, hmove⟩
    · obtain ⟨l', hl', rfl⟩ := List.mem_map.1 hl
      obtain ⟨old, hmem, hmove⟩ := Extent.exists_of_mem_offsets_move (x := .closed l'.2) ho
      exact ⟨old, hlocated l' hl' old hmem, hmove⟩
    · obtain ⟨⟨name, old, side⟩, hm', rfl⟩ := List.mem_map.1 hm
      cases side with
      | template => cases hside
      | generated => exact ⟨old, hmarkers _ hm' rfl, .after, rfl⟩

/-- All mappings and located spans lie in the text. -/
structure Spanned (c : Chunk) : Prop where
  mappings : c.Bounded
  located : ∀ l ∈ c.located, SpanWithin c.size l.2

/-- No offset of a chunk is lost as it moves. -/
theorem exists_mem_offsets_move {e : Edit} (hc : c.Spanned)
    (h : offset ∈ c.offsets) : ∃ bias, e.move bias offset ∈ (c.move e).offsets := by
  revert offset
  have hold := forall_offsets.1 fun moved (h : moved ∈ (c.move e).offsets) => h
  unfold move at hold ⊢
  split
  · next he =>
    exact fun offset h => ⟨.after, (Edit.move_of_isEmpty .after offset he).symm ▸ h⟩
  · next he =>
    rw [if_neg he] at hold
    obtain ⟨hmappings, hlocated, hmarkers⟩ := hold
    refine forall_offsets.2 ⟨fun m hm n ho => ?_, fun l hl n ho => ?_, fun m hm hside => ?_⟩
    · obtain ⟨bias, hmove⟩ := Extent.exists_mem_offsets_move (hc.mappings m hm) ho
      exact ⟨bias, hmappings _ (List.mem_map_of_mem hm) _ hmove⟩
    · obtain ⟨bias, hmove⟩ := Extent.exists_mem_offsets_move (x := .closed l.2) (hc.located l hl) ho
      exact ⟨bias, hlocated _ (List.mem_map_of_mem hl) _ hmove⟩
    · obtain ⟨name, old, side⟩ := m
      cases hside
      exact ⟨.after, hmarkers _ (List.mem_map_of_mem hm) rfl⟩

/-! ### Edits -/

/-- An offset between two characters stays between two under an edit exactly if it does not lie
inside of the replaced text, or there is a boundary of the text in its place where it goes. -/
theorem isBoundary_move_iff {bias : Bias} (t : Text) (hstart : c.text.isBoundary start = true)
    (hstop : c.text.isBoundary stop = true) (le : start ≤ stop)
    (h : c.text.isBoundary offset = true) :
    (c.splice start stop t).text.isBoundary
        ((Edit.mk start (stop - start) t.size).move bias offset) = true ↔
      (start < offset → offset < stop → t.isBoundary (min (offset - start) t.size) = true) := by
  let e : Edit := ⟨start, stop - start, t.size⟩
  have hestop : e.stop = stop := Nat.add_sub_of_le le
  -- The new text is what is in front, the text that is put in, and what is behind.
  have htext := text_splice start stop t c
  have hfront : Text.size (c.text.takeBytes start) = start := Text.size_takeBytes hstart
  have hput : (c.splice start stop t).text.Holds ⟨start, start + t.size⟩ t :=
    ⟨_, _, htext, by rw [hfront]⟩
  rcases Nat.lt_or_ge offset start with hlt | hge
  · rw [Edit.move_of_lt bias hlt]
    exact ⟨fun _ hin => absurd hin (Nat.lt_asymm hlt),
      fun _ => isBoundary_splice t h (Nat.le_of_lt hlt)⟩
  rcases Nat.lt_or_ge stop offset with hgt | hle
  · have hback := (Text.holds_dropBytes hstop).isBoundary_sub h (Nat.le_of_lt hgt)
      (Text.le_size_of_isBoundary h)
    have hrest : (c.splice start stop t).text.Holds
        ⟨start + t.size, start + t.size + Text.size (c.text.dropBytes stop)⟩
        (c.text.dropBytes stop) :=
      ⟨_, [], by rw [htext, List.append_nil], by rw [Text.size_append, hfront]⟩
    have hmove : e.move bias offset = start + t.size + (offset - stop) := by
      rw [Edit.move_of_gt bias (hestop.symm ▸ hgt)]
      dsimp only [e]
      omega
    rw [hmove]
    exact ⟨fun _ _ hin => absurd hin (Nat.lt_asymm hgt), fun _ => hrest.isBoundary_add hback⟩
  by_cases hend : offset = start ∨ offset = stop
  · refine ⟨fun _ hin hin' => by omega, fun _ => ?_⟩
    rcases e.move_end bias (hestop.symm ▸ hend) with hmove | hmove
    · rw [hmove]
      exact hput.isBoundary_start
    · rw [hmove]
      exact hput.isBoundary_stop
  · have hin : start < offset := by omega
    have hin' : offset < stop := by omega
    have hmove := e.move_inside bias hin (hestop.symm ▸ hin')
    rw [hmove]
    refine ⟨fun hb _ _ => ?_, fun hb => hput.isBoundary_add (hb hin hin')⟩
    have hsub := hput.isBoundary_sub hb (Nat.le_add_right _ _)
      (Nat.add_le_add_left (Nat.min_le_right _ _) _)
    rwa [Nat.add_sub_cancel_left] at hsub

/-- All offsets that a chunk holds lie between characters of its text. -/
def Aligned (c : Chunk) : Prop := ∀ offset ∈ c.offsets, c.text.isBoundary offset = true

/-- A text fits in place of another if it has a boundary wherever an offset inside of the other
goes. -/
def Fits (start stop : Nat) (t : Text) (c : Chunk) : Prop :=
  ∀ offset ∈ c.offsets, start < offset → offset < stop →
    t.isBoundary (min (offset - start) t.size) = true

instance : Decidable (c.Fits start stop t) :=
  inferInstanceAs (Decidable (∀ offset ∈ c.offsets, start < offset → offset < stop →
    t.isBoundary (min (offset - start) t.size) = true))

/-- Any text fits between two characters. -/
theorem fits_insert (c : Chunk) (place : Nat) (t : Text) : c.Fits place place t :=
  fun _ _ hin hin' => absurd hin' (Nat.lt_asymm hin)

theorem offsets_splice (c : Chunk) (start stop : Nat) (t : Text) :
    (c.splice start stop t).offsets = (c.move ⟨start, stop - start, t.size⟩).offsets := by
  unfold splice move
  split
  · rfl
  · rfl

namespace Aligned

theorem empty (options : ChunkOptions) : Aligned { options } := fun _ h => by cases h

/-- An edit with a text that fits leaves all offsets between characters. -/
theorem splice (h : c.Aligned) (hstart : c.text.isBoundary start = true)
    (hstop : c.text.isBoundary stop = true) (le : start ≤ stop) (fits : c.Fits start stop t) :
    (c.splice start stop t).Aligned := by
  intro offset ho
  rw [offsets_splice] at ho
  obtain ⟨old, hold, bias, rfl⟩ := exists_of_mem_offsets_move ho
  exact (isBoundary_move_iff t hstart hstop le (h old hold)).2 (fits old hold)

/-- If the offsets of a chunk with its spans in the text are left between characters by an edit, its
text fits. -/
theorem splice_iff (h : c.Aligned) (hc : c.Spanned) (hstart : c.text.isBoundary start = true)
    (hstop : c.text.isBoundary stop = true) (le : start ≤ stop) :
    (c.splice start stop t).Aligned ↔ c.Fits start stop t := by
  refine ⟨fun hsplice offset ho => ?_, h.splice hstart hstop le⟩
  obtain ⟨bias, hmove⟩ := exists_mem_offsets_move hc ho
  rw [← offsets_splice] at hmove
  exact (isBoundary_move_iff t hstart hstop le (h offset ho)).1 (hsplice _ hmove)

/-- A chunk with the same offsets, whose text goes on behind the text of another. -/
theorem grow (h : c.Aligned) (more : Text) (offsets_eq : d.offsets = c.offsets)
    (text_eq : d.text = c.text ++ more) : d.Aligned := by
  intro offset ho
  rw [text_eq]
  exact Text.isBoundary_append more (h offset (offsets_eq ▸ ho))

theorem writeIndent (h : c.Aligned) : c.writeIndent.Aligned := by
  have hend := Text.isBoundary_size c.text
  exact splice (c := { c with atLineStart := false, carried := 0 }) h hend hend (Nat.le_refl _)
    (fits_insert _ _ _)

theorem writeLine (h : c.Aligned) (line : Text) : (c.writeLine line).Aligned := by
  unfold Chunk.writeLine
  split
  · exact h
  · dsimp only
    split
    · exact h.writeIndent.grow line rfl rfl
    · exact h.grow line rfl rfl

theorem append (h : c.Aligned) (t : Text) : (c.append t).Aligned :=
  append_induction t h (fun _ line hd => hd.writeLine line) fun d hd =>
    hd.grow d.options.lineEnd rfl rfl

theorem insert (h : c.Aligned) (offset : Nat) (t : Text) : (c.insert offset t).Aligned :=
  h.splice (c.isBoundary_clamp offset) (c.isBoundary_clamp offset) (Nat.le_refl _)
    (fits_insert c _ t)

theorem update_iff (h : c.Aligned) (hc : c.Spanned) (a b : Nat) (t : Text) :
    (c.update a b t).Aligned ↔
      c.Fits (min (c.clamp a) (c.clamp b)) (max (c.clamp a) (c.clamp b)) t := by
  have ha := c.isBoundary_clamp a
  have hb := c.isBoundary_clamp b
  exact h.splice_iff hc (Text.isBoundary_min ha hb) (Text.isBoundary_max ha hb) (by omega)

theorem update (h : c.Aligned) {a b : Nat}
    (fits : c.Fits (min (c.clamp a) (c.clamp b)) (max (c.clamp a) (c.clamp b)) t) :
    (c.update a b t).Aligned := by
  have ha := c.isBoundary_clamp a
  have hb := c.isBoundary_clamp b
  exact h.splice (Text.isBoundary_min ha hb) (Text.isBoundary_max ha hb) (by omega) fits

/-- A mapping begins at the end of the text. -/
theorem openMapping (h : c.Aligned) (origin : Origin) : (c.openMapping origin).Aligned := by
  obtain ⟨hmappings, hlocated, hmarkers⟩ := forall_offsets.1 h
  refine forall_offsets.2 ⟨fun m hm offset ho => ?_, hlocated, hmarkers⟩
  rcases List.mem_append.1 hm with hm | hm
  · exact hmappings m hm offset ho
  · cases List.mem_singleton.1 hm
    cases List.mem_singleton.1 ho
    exact Text.isBoundary_size c.text

/-- Mappings end where they did, or at the end of the text. -/
theorem isBoundary_close (h : c.Aligned) {m : Mapping} (hm : m ∈ c.mappings)
    (ho : offset ∈ (m.extent.close c.size).offsets) : c.text.isBoundary offset = true := by
  rcases Extent.mem_offsets_close ho with ho | rfl
  · exact (forall_offsets.1 h).1 m hm offset ho
  · exact Text.isBoundary_size c.text

theorem closeMapping (h : c.Aligned) (index : Nat) : (c.closeMapping index).Aligned := by
  obtain ⟨hmappings, hlocated, hmarkers⟩ := forall_offsets.1 h
  refine forall_offsets.2 ⟨fun m hm offset ho => ?_, hlocated, hmarkers⟩
  obtain ⟨k, hk⟩ := List.mem_iff_getElem?.1 hm
  simp only [Chunk.closeMapping, List.getElem?_modify] at hk
  obtain ⟨m', hm', rfl⟩ := Option.map_eq_some_iff.1 hk
  have hmem := List.mem_iff_getElem?.2 ⟨k, hm'⟩
  split at ho
  · exact h.isBoundary_close hmem ho
  · exact hmappings m' hmem offset ho

theorem closeAll (h : c.Aligned) : c.closeAll.Aligned := by
  obtain ⟨-, hlocated, hmarkers⟩ := forall_offsets.1 h
  refine forall_offsets.2 ⟨fun m hm offset ho => ?_, hlocated, hmarkers⟩
  obtain ⟨m', hm', rfl⟩ := List.mem_map.1 hm
  exact h.isBoundary_close hm' ho

/-- A marker goes in at a boundary, or anywhere in the template. -/
theorem insertMarker (h : c.Aligned) {m : Marker}
    (hm : m.side = .generated → c.text.isBoundary m.offset = true) :
    Aligned { c with markers := m.insert c.markers } := by
  obtain ⟨hmappings, hlocated, hmarkers⟩ := forall_offsets.1 h
  refine forall_offsets.2 ⟨hmappings, hlocated, fun k hk => ?_⟩
  rcases Marker.mem_insert hk with rfl | hk
  · exact hm
  · exact hmarkers k hk

/-- The text of a chunk is put behind that of another with all of its offsets. -/
theorem join (h : c.Aligned) (hother : other.Aligned) : (c.join other).Aligned := by
  obtain ⟨hmappings, hlocated, hmarkers⟩ := forall_offsets.1 fun offset ho =>
    Text.isBoundary_append other.text (h offset ho)
  have hbehind : (c.join other).text.Holds ⟨c.size, c.size + other.size⟩ other.text :=
    ⟨c.text, [], (List.append_nil _).symm, rfl⟩
  obtain ⟨hmappings', hlocated', hmarkers'⟩ := forall_offsets.1 fun offset ho =>
    hbehind.isBoundary_add (hother offset ho)
  refine forall_offsets.2 ⟨fun m hm offset ho => ?_, fun l hl offset ho => ?_, ?_⟩
  · rcases List.mem_append.1 hm with hm | hm
    · exact hmappings m hm offset ho
    · obtain ⟨m', hm', rfl⟩ := List.mem_map.1 hm
      obtain ⟨old, hold, rfl⟩ := Extent.exists_of_mem_offsets_shift ho
      exact hmappings' m' hm' old hold
  · rcases List.mem_append.1 hl with hl | hl
    · exact hlocated l hl offset ho
    · obtain ⟨l', hl', rfl⟩ := List.mem_map.1 hl
      obtain ⟨old, hold, rfl⟩ := Extent.exists_of_mem_offsets_shift (x := .closed l'.2) ho
      exact hlocated' l' hl' old hold
  · have hshift : ∀ m ∈ other.markers, (shiftMarker c.size m).side = .generated →
        (c.join other).text.isBoundary (shiftMarker c.size m).offset = true := by
      rintro ⟨name, old, side⟩ hm hside
      cases side with
      | template => cases hside
      | generated =>
        rw [shiftMarker, Nat.add_comm]
        exact hmarkers' _ hm rfl
    exact Marker.forall_mem_foldl_insert hmarkers hshift

/-- Adding a chunk with its offsets between characters leaves those of another there. -/
theorem add (h : c.Aligned) (hother : other.Aligned) : (c.add other).Aligned := by
  have hsub := indentLines_induction (c.indentText c.indentation) hother.closeAll
    fun d place hb hd => hd.splice hb hb (Nat.le_refl _) (fits_insert d place _)
  have hinherit : ∀ d sub : Chunk, d.Aligned → (d.inheritLine sub).Aligned := by
    intro d sub hd
    unfold inheritLine
    split
    · exact hd
    · exact hd
  unfold Chunk.add
  dsimp only
  split
  · exact hinherit _ _ (h.writeIndent.join hsub)
  · exact hinherit _ _ (h.join hsub)

/-- A span that is located through the end of the text starts at a boundary exactly if all offsets
stay at boundaries. -/
theorem locate_iff (h : c.Aligned) (name : Text) (start : Nat) :
    Aligned { c with located := c.located ++ [(name, ⟨start, c.size⟩)] } ↔
      c.text.isBoundary start = true := by
  obtain ⟨hmappings, hlocated, hmarkers⟩ := forall_offsets.1 h
  refine ⟨fun hall => ?_, fun hstart => forall_offsets.2 ⟨hmappings, fun l hl => ?_, hmarkers⟩⟩
  · exact (forall_offsets.1 hall).2.1 (name, ⟨start, c.size⟩)
      (List.mem_append_right _ List.mem_cons_self) start List.mem_cons_self
  · rcases List.mem_append.1 hl with hl | hl
    · exact hlocated l hl
    · rw [List.mem_singleton.1 hl]
      exact Extent.forall_offsets_closed.2 ⟨hstart, Text.isBoundary_size c.text⟩

end Aligned

/-! ### Runs -/

/-- The chunk to which some operations take a chunk, if every text that replaces another fits in its
place, and what is written under a name still starts between two characters when it is recorded. -/
inductive FittingRun : Chunk → Chunk → Prop
  | refl (c : Chunk) : FittingRun c c
  | append {c d : Chunk} (h : FittingRun c d) (t : Text) : FittingRun c (d.append t)
  | openMapping {c d : Chunk} (h : FittingRun c d) (origin : Origin) :
      FittingRun c (d.openMapping origin)
  | closeMapping {c d : Chunk} (h : FittingRun c d) (index : Nat) :
      FittingRun c (d.closeMapping index)
  | insert {c d : Chunk} (h : FittingRun c d) (offset : Nat) (t : Text) :
      FittingRun c (d.insert offset t)
  | update {c d : Chunk} (h : FittingRun c d) (a b : Nat) (t : Text)
      (fits : d.Fits (min (d.clamp a) (d.clamp b)) (max (d.clamp a) (d.clamp b)) t) :
      FittingRun c (d.update a b t)
  | add {c d other : Chunk} {options : ChunkOptions} (h : FittingRun c d)
      (written : FittingRun { options } other) : FittingRun c (d.add other)
  | indent {c d : Chunk} (h : FittingRun c d) (levels : Nat) : FittingRun c (d.indent levels)
  | dedent {c d : Chunk} (h : FittingRun c d) (levels : Nat) : FittingRun c (d.dedent levels)
  | mark {c d : Chunk} (h : FittingRun c d) (name : Text) : FittingRun c (d.mark name)
  | markTemplate {c d : Chunk} (h : FittingRun c d) (name : Text) (offset : Nat) :
      FittingRun c (d.markTemplate name offset)
  | locating {c d : Chunk} (name : Text) (write : Chunk → Id Chunk) (h : FittingRun c d)
      (written : FittingRun d (write d)) (starts : Text.isBoundary (write d).text d.size = true) :
      FittingRun c (d.locating name write)

namespace FittingRun

variable {options : ChunkOptions}

/-- No located text of a run is shorter behind its writer than in front of it. -/
theorem keeping (h : FittingRun c d) : KeepingRun (fun c d => c.size ≤ d.size) c d := by
  induction h with
  | refl c => exact .refl c
  | append _ t ih => exact ih.operate (.append _ t)
  | openMapping _ origin ih => exact ih.operate (.openMapping _ origin)
  | closeMapping _ index ih => exact ih.operate (.closeMapping _ index)
  | insert _ offset t ih => exact ih.operate (.insert _ offset t)
  | update _ a b t _ ih => exact ih.operate (.update _ a b t)
  | add _ _ ih written => exact ih.add written
  | indent _ levels ih => exact ih.operate (.indent _ levels)
  | dedent _ levels ih => exact ih.operate (.dedent _ levels)
  | mark _ name ih => exact ih.operate (.mark _ name)
  | markTemplate _ name offset ih => exact ih.operate (.markTemplate _ name offset)
  | locating name write _ _ starts ih written =>
    exact .locating name write ih written (Text.le_size_of_isBoundary starts)

/-- A run leaves the offsets of a chunk between characters. -/
theorem aligned (h : FittingRun c d) (hc : c.Aligned) : d.Aligned := by
  induction h with
  | refl => exact hc
  | append _ t ih => exact (ih hc).append t
  | openMapping _ origin ih => exact (ih hc).openMapping origin
  | closeMapping _ index ih => exact (ih hc).closeMapping index
  | insert _ offset t ih => exact (ih hc).insert offset t
  | update _ a b t fits ih => exact (ih hc).update fits
  | add _ _ ih written => exact (ih hc).add (written (.empty _))
  | indent _ _ ih | dedent _ _ ih => exact ih hc
  | mark _ name ih => exact (ih hc).insertMarker fun _ => Text.isBoundary_size _
  | markTemplate _ name offset ih => exact (ih hc).insertMarker fun hside => by cases hside
  | locating name write _ _ starts ih written =>
    exact ((written (ih hc)).locate_iff name _).2 starts

/-- What is written from the start has its mappings and located spans in its text. -/
theorem spanned (h : FittingRun { options } c) : c.Spanned := by
  have hpromise : ∀ d e : Chunk, d.size ≤ e.size → SpanWithin e.size ⟨d.size, e.size⟩ :=
    fun d e hle => ⟨hle, Nat.le_refl _⟩
  exact ⟨h.keeping.run.changes.bounded (bounded_empty options),
    (h.keeping.tidy stable_spanWithin hpromise (.empty options)).located⟩

/-- In every state that is reached, the ends of all mappings, the located spans and the offsets of
the markers lie between characters of the text. For the next edit and the next located text the
condition is the exact one: if it does not hold, an offset is left inside a character. -/
theorem offsets_between_characters (h : FittingRun { options } c) :
    (∀ m ∈ c.mappings, ∀ offset ∈ m.extent.offsets, c.text.isBoundary offset = true) ∧
      (∀ names, ∀ s ∈ c.occurrences names,
        c.text.isBoundary s.start = true ∧ c.text.isBoundary s.stop = true) ∧
      (∀ name offset, c.markerOffset? name = some offset → c.text.isBoundary offset = true) ∧
      (∀ a b t, (c.update a b t).Aligned ↔
        c.Fits (min (c.clamp a) (c.clamp b)) (max (c.clamp a) (c.clamp b)) t) ∧
      ∀ name (write : Chunk → Id Chunk), FittingRun c (write c) →
        (Aligned (c.locating name write) ↔ Text.isBoundary (write c).text c.size = true) := by
  have hc : c.Aligned := h.aligned (.empty options)
  obtain ⟨hmappings, hlocated, hmarkers⟩ := forall_offsets.1 hc
  refine ⟨hmappings, fun names s hs => ?_, fun name offset ho => ?_, hc.update_iff h.spanned,
    fun name write written => (written.aligned hc).locate_iff name c.size⟩
  · obtain ⟨name, -, hs⟩ := List.mem_flatMap.1 ((List.mergeSort_perm _ _).mem_iff.1 hs)
    obtain ⟨l, hl, rfl⟩ := List.mem_map.1 hs
    exact Extent.forall_offsets_closed.1 (hlocated l (List.mem_filter.1 hl).1)
  · obtain ⟨m, hm, rfl⟩ := Option.map_eq_some_iff.1 ho
    obtain ⟨hfound, hside⟩ := Option.filter_eq_some_iff.1 hm
    exact hmarkers m (List.mem_of_find?_eq_some hfound) (beq_iff_eq.1 hside)

/-- A text of wide characters replaces text around a marker, which goes between two of them, and a
text is located behind it. -/
theorem offsets_between_characters_of_update :
    let c := (((({} : Chunk).append ['a', 'b']).mark ['m']).append ['c', 'd']).update 1 3 ['x', 'é']
    let located : Chunk := Id.run (c.locating ['n'] (Chunk.append ['ü']))
    located.markerOffset? ['m'] = some 2 ∧ located.text.isBoundary 2 = true ∧
      located.occurrences [['n']] = [⟨5, 7⟩] ∧ located.text.isBoundary 5 = true := by
  intro c located
  have hc : FittingRun {} c :=
    ((((FittingRun.refl _).append _).mark _).append _).update 1 3 _ (by decide)
  have hlocated : FittingRun {} located :=
    .locating ['n'] (Chunk.append ['ü']) hc ((FittingRun.refl c).append _) (by decide)
  obtain ⟨-, hoccurrences, hmarker, -⟩ := hlocated.offsets_between_characters
  have hm : located.markerOffset? ['m'] = some 2 := by decide
  have hn : located.occurrences [['n']] = [⟨5, 7⟩] := by decide +kernel
  exact ⟨hm, hmarker _ 2 hm, hn, (hoccurrences [['n']] ⟨5, 7⟩ (hn ▸ List.mem_cons_self)).1⟩

end FittingRun

/-- A replaced text that has a wide character where a marker goes leaves the marker inside of it,
and a writer that puts a text in front of what is there leaves the start of its own inside of a
character. -/
theorem KeepingRun.offset_inside_character :
    (∃ c : Chunk, KeepingRun (fun c d => c.size ≤ d.size) {} c ∧
        c.markerOffset? ['m'] = some 2 ∧ c.text.isBoundary 2 = false) ∧
      ∃ c : Chunk, KeepingRun (fun c d => c.size ≤ d.size) {} c ∧
        c.occurrences [['n']] = [⟨2, 3⟩] ∧ c.text.isBoundary 2 = false := by
  refine ⟨⟨(((({} : Chunk).append ['a', 'b']).mark ['m']).append ['c', 'd']).update 1 3 ['é'], ?_,
    by decide⟩, ⟨Id.run ((({} : Chunk).append ['é']).locating ['n'] (Chunk.insert 0 ['a'])), ?_,
    by decide +kernel⟩⟩
  · exact ((((KeepingRun.refl _).operate (.append _ _)).operate (.mark _ _)).operate
      (.append _ _)).operate (.update _ 1 3 _)
  · exact .locating ['n'] (Chunk.insert 0 ['a']) ((KeepingRun.refl _).operate (.append _ _))
      ((KeepingRun.refl _).operate (.insert _ 0 _)) (by decide)

end Chunk

end BoundTemplate.Output
