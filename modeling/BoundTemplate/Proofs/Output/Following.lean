import BoundTemplate.Proofs.Output.Line
import BoundTemplate.Proofs.Output.Writing

/-!
# Writing behind a chunk and on its own

Direct writing puts both levels of indentation in front of a line at once when its first
character is written; composition puts the level of the receiver there later, in front of
what the other chunk has written. As far as both are written, the first chunk is the
receiver with the other behind it, every mapping and marker where composition puts it.
-/

namespace BoundTemplate.Output

/-- A list whose members a test does not tell from their changes passes it with one of them changed.
-/
theorem any_modify {α : Type} {l : List α} {f : α → α} {p : α → Bool} (h : ∀ x ∈ l, p (f x) = p x)
    (index : Nat) : (l.modify index f).any p = l.any p := by
  induction l generalizing index with
  | nil => rw [List.modify_nil]
  | cons x l ih =>
    obtain ⟨hx, hl⟩ := List.forall_mem_cons.1 h
    cases index with
    | zero => rw [List.modify_zero_cons, List.any_cons, List.any_cons, hx]
    | succ index => rw [List.modify_succ_cons, List.any_cons, List.any_cons, ih hl]

/-- A member changes in front of a map as it does behind it. -/
theorem map_modify {α : Type} {l : List α} {f f' g g' : α → α} (index : Nat)
    (hf : ∀ x ∈ l, f' x = f x) (hg : ∀ x ∈ l, g' (f x) = f' (g x)) :
    (l.map f).modify index g' = (l.modify index g).map f' := by
  induction l generalizing index with
  | nil => rw [List.map_nil, List.modify_nil, List.modify_nil, List.map_nil]
  | cons x l ih =>
    obtain ⟨hx, hl⟩ := List.forall_mem_cons.1 hf
    obtain ⟨hx', hl'⟩ := List.forall_mem_cons.1 hg
    cases index with
    | zero =>
      rw [List.map_cons, List.modify_zero_cons, List.modify_zero_cons, List.map_cons, hx',
        List.map_congr_left hl]
    | succ index =>
      rw [List.map_cons, List.modify_succ_cons, List.modify_succ_cons, List.map_cons, hx,
        ih index hl hl']

namespace Chunk

variable {c s d : Chunk}

/-- The marker of a name. -/
def marker? (c : Chunk) (name : Text) : Option Marker := c.markers.find? (·.name == name)

/-- A chunk behind which passages are written. -/
structure Inside (c : Chunk) : Prop where
  bounded : c.Bounded
  tidy : c.Tidy StopsWithin
  inside : c.atLineStart = false
  lineEnd : c.options.lineEnd = ['\n']
  noFeed : '\n' ∉ c.options.indentUnit
  noReturn : '\r' ∉ c.options.indentUnit

/-- The indentation that composition puts in front of lines. -/
def outer (c : Chunk) : Text := c.indentText c.indentation

/-- The gaps that composition makes in the text of another chunk. -/
def gaps (c s : Chunk) : Gaps := lineGaps c.outer.size s.text

theorem places_gaps_lt (c s : Chunk) : ∀ place ∈ (c.gaps s).places, place < s.size :=
  places_lineGaps_lt _ s.text

/-- Where composition puts a mapping of another chunk. -/
def placed (c s : Chunk) (m : Mapping) : Mapping := (m.spread (c.gaps s) s.endsAt).shift c.size

/-- Where composition puts a marker of another chunk. -/
def placedMarker (c s : Chunk) (m : Marker) : Marker := shiftMarker c.size (m.spread (c.gaps s))

/-- One chunk is what a passage writes at the end of a chunk, and another what it writes on an empty
one, with the same mappings still open. -/
structure Follows (c s d : Chunk) : Prop where
  bounded : s.Bounded
  tidy : s.Tidy SpanWithin
  located_eq : s.located = []
  noReturn : '\r' ∉ s.text
  line : s.atLineStart = endsLine s.text
  carried_sub : s.carried = 0
  options_sub : s.options = c.options
  options_eq : d.options = c.options
  text_eq : d.text = c.text ++ indented c.outer s.text
  mappings_eq : d.mappings = c.mappings ++ s.mappings.map (c.placed s)
  marker_eq : ∀ name, d.marker? name = ((s.marker? name).map (c.placedMarker s)).or (c.marker? name)
  located : ∀ l ∈ d.located, StopsWithin c.size l.2
  atLineStart_eq : d.atLineStart = s.atLineStart
  carried_eq : d.carried = 0
  indentation_eq : d.indentation = c.indentation + s.indentation

namespace Follows

/-- A passage begins on an empty chunk. -/
theorem start (hc : c.Inside) : Follows c { options := c.options } c := by
  refine ⟨bounded_empty _, .empty _, rfl, List.not_mem_nil, rfl, rfl, rfl, rfl, ?_, ?_, ?_,
    hc.tidy.located, hc.inside, hc.tidy.carried hc.inside, rfl⟩
  · exact (List.append_nil _).symm
  · exact (List.append_nil _).symm
  · exact fun name => rfl

variable (h : Follows c s d)
include h

theorem size_eq : d.size = c.size + (s.size + (c.gaps s).size * (c.gaps s).places.length) := by
  rw [size, h.text_eq, Text.size_append, size_indented c.outer 0]
  rfl

/-- At a line start, something has been written. -/
theorem size_lt (hline : s.atLineStart = true) : c.size < d.size := by
  have hne : s.text ≠ [] := by
    intro hnil
    have hends := h.line
    rw [hline, hnil] at hends
    cases hends
  have hpos : 0 < s.size := Text.size_pos hne
  rw [h.size_eq]
  omega

/-- Behind what was there before, the same ends at the end of both chunks. -/
theorem endsAt_end (hc : c.Inside) (hlt : c.size < d.size) : d.endsAt d.size = s.endsAt s.size := by
  have hbase : c.mappings.any (·.extent.endsAt d.size) = false := by
    rw [List.any_eq_false]
    intro m hm
    rw [Extent.endsAt_of_within (hc.bounded m hm) hlt]
    exact Bool.false_ne_true
  have hlocated : (d.located.any fun l => (Extent.closed l.2).endsAt d.size) = false := by
    rw [List.any_eq_false]
    intro l hl
    rcases h.located l hl with heq | hle
    · rw [Extent.endsAt_of_eq heq]
      exact Bool.false_ne_true
    · have hne : (l.2.stop == d.size) = false := by
        rw [beq_eq_false_iff_ne]
        omega
      rw [Extent.endsAt, hne, Bool.and_false]
      exact Bool.false_ne_true
  have hsub : (s.mappings.map (c.placed s)).any (·.extent.endsAt d.size) =
      s.mappings.any (·.extent.endsAt s.size) := by
    rw [List.any_map, h.size_eq]
    exact any_eq_any fun m hm =>
      Extent.endsAt_spread_end s.endsAt c.size (places_gaps_lt c s) (h.bounded m hm)
  rw [endsAt, hlocated, h.mappings_eq, List.any_append, hbase, hsub, endsAt, h.located_eq]
  rfl

/-! ### Writing -/

/-- Both texts grow in a line, or by the end of it. -/
theorem grow (more : Text) (line : Bool) (hreturn : '\r' ∉ more)
    (hcontent : (endsLine s.text && startsWithContent more) = false)
    (hlines : ∀ offset, contentLineStarts offset more = [] ∧ indented c.outer more = more)
    (hline : endsLine (s.text ++ more) = line) :
    Follows c { s with text := s.text ++ more, atLineStart := line, carried := 0 }
      { d with text := d.text ++ more, atLineStart := line, carried := 0 } := by
  obtain ⟨hstarts, hindented⟩ := lines_append c.outer 0 more h.noReturn
  rw [hcontent, (hlines _).1, if_neg Bool.false_ne_true, List.append_nil,
    List.append_nil] at hstarts
  rw [hcontent, (hlines 0).2, if_neg Bool.false_ne_true, List.nil_append] at hindented
  have hgaps : c.gaps { s with text := s.text ++ more, atLineStart := line, carried := 0 } =
      c.gaps s := congrArg (Gaps.mk · c.outer.size) hstarts
  have hle : s.size ≤ Text.size (s.text ++ more) := by
    rw [Text.size_append]
    exact Nat.le_add_right _ _
  refine ⟨fun m hm => (h.bounded m hm).mono hle,
    h.tidy.grow stable_spanWithin hle rfl rfl fun _ => rfl,
    h.located_eq, ?_, hline.symm, rfl, h.options_sub, h.options_eq, ?_, ?_, ?_, h.located, rfl, rfl,
    h.indentation_eq⟩
  · rw [List.mem_append, not_or]
    exact ⟨h.noReturn, hreturn⟩
  · simp only [hindented, h.text_eq, List.append_assoc]
  · rw [h.mappings_eq]
    refine congrArg (c.mappings ++ ·) (List.map_congr_left fun m _ => ?_)
    rw [placed, placed, hgaps]
    rfl
  · intro name
    have hplaced :
        c.placedMarker { s with text := s.text ++ more, atLineStart := line, carried := 0 } =
        c.placedMarker s := by
      funext m
      rw [placedMarker, placedMarker, hgaps]
    rw [hplaced]
    exact h.marker_eq name

/-! ### Lines that begin -/

/-- The line that begins is indented to both levels at once. -/
theorem indentText_eq : d.indentText (d.indentation + d.carried) =
    c.outer ++ s.indentText (s.indentation + s.carried) := by
  rw [h.carried_eq, h.carried_sub, Nat.add_zero, Nat.add_zero, h.indentation_eq, indentText_add,
    indentText_congr h.options_eq, indentText_congr h.options_eq,
    ← indentText_congr h.options_sub s.indentation]
  rfl

/-- Indentations have no line breaks. -/
theorem not_mem_indentText (hc : c.Inside) (levels : Nat) :
    '\n' ∉ s.indentText levels ∧ '\r' ∉ s.indentText levels := by
  have hunit : ∀ x ∈ s.indentText levels, x ∈ c.options.indentUnit := by
    intro x hx
    obtain ⟨unit, hunit, hmem⟩ := List.mem_flatten.1 hx
    rw [List.eq_of_mem_replicate hunit, h.options_sub] at hmem
    exact hmem
  exact ⟨fun hmem => hc.noFeed (hunit _ hmem), fun hmem => hc.noReturn (hunit _ hmem)⟩

variable {new : Text} (hline : s.atLineStart = true) (hne : new ≠ []) (hfeed : '\n' ∉ new)
include hline hne hfeed

/-- A line that begins makes a further gap. -/
theorem lines_write :
    contentLineStarts 0 (s.text ++ new) = contentLineStarts 0 s.text ++ [s.size] ∧
      indented c.outer (s.text ++ new) = indented c.outer s.text ++ (c.outer ++ new) := by
  obtain ⟨hstarts, hindented⟩ := lines_append c.outer 0 new h.noReturn
  have hcontent : (endsLine s.text && startsWithContent new) = true := by
    rw [← h.line, hline, startsWithContent_of_not_mem hne hfeed]
    rfl
  obtain ⟨hnil, hsame⟩ := lines_of_not_mem c.outer (0 + s.text.size) hfeed
  rw [hcontent, if_pos rfl, hnil, List.append_nil, Nat.zero_add] at hstarts
  rw [hcontent, if_pos rfl, hsame] at hindented
  exact ⟨hstarts, hindented⟩

variable {w : Chunk} (htext : w.text = s.text ++ new)
include htext

theorem gaps_write : c.gaps w = (c.gaps s).concat s.size := by
  refine congrArg (Gaps.mk · c.outer.size) ?_
  rw [htext, (h.lines_write hline hne hfeed).1]
  rfl

/-- The indentation to both levels moves the mappings as the indentation to one does, with a gap in
front of it. -/
theorem mappings_write (hc : c.Inside) (hmappings : w.mappings = s.writeIndent.mappings)
    (hlocated : w.located = []) :
    d.writeIndent.mappings = c.mappings ++ w.mappings.map (c.placed w) := by
  let inner := s.indentText (s.indentation + s.carried)
  let both : Edit := ⟨d.size, 0, c.outer.size + inner.size⟩
  let empty := Gaps.emptyBias s.endsAt s.size
  have hlt := h.size_lt hline
  rw [mappings_writeIndent fun m hm => (h.bounded m hm).forward] at hmappings
  have hends : ∀ p, p ≤ s.size → w.endsAt p = s.endsAt p := fun p _ =>
    endsAt_congr (g := id) hmappings (by rw [hlocated, h.located_eq]; rfl)
      (fun m hm => Extent.endsAt_move_of_le _ _ (h.bounded m hm) p) (fun _ _ => rfl)
  have hforward : ∀ m ∈ d.mappings, m.extent.Forward := by
    intro m hm
    rw [h.mappings_eq] at hm
    rcases List.mem_append.1 hm with hm | hm
    · exact (hc.bounded m hm).forward
    · obtain ⟨m', hm', rfl⟩ := List.mem_map.1 hm
      exact ((h.bounded m' hm').forward.spread _ _).shift c.size
  have hempty : Gaps.emptyBias d.endsAt d.size = empty := by
    rw [Gaps.emptyBias, h.endsAt_end hc hlt]
    rfl
  have hbase : ∀ m ∈ c.mappings, m.move both empty = id m := by
    intro m hm
    rw [Mapping.move, Extent.move_of_within _ (hc.bounded m hm) hlt]
    rfl
  have hsub : ∀ m ∈ s.mappings, (Mapping.move both empty ∘ c.placed s) m =
      (c.placed w ∘ Mapping.move ⟨s.size, 0, inner.size⟩ empty) m := by
    intro m hm
    rw [Function.comp_apply, Function.comp_apply, placed, placed,
      h.gaps_write hline hne hfeed htext]
    simp only [both, h.size_eq]
    exact congrArg (Mapping.mk m.origin)
      (Extent.spread_write c.size inner.size (places_gaps_lt c s) (h.bounded m hm) hends)
  rw [mappings_writeIndent hforward, h.indentText_eq, Text.size_append, hempty, hmappings,
    h.mappings_eq, List.map_append, List.map_map, List.map_map, List.map_congr_left hbase,
    List.map_id, List.map_congr_left hsub]

/-- The indentation to both levels moves the markers as the indentation to one does, with a gap in
front of it. -/
theorem marker_write (hc : c.Inside) (hmarkers : w.markers = s.writeIndent.markers) (name : Text) :
    d.writeIndent.marker? name =
      ((w.marker? name).map (c.placedMarker w)).or (c.marker? name) := by
  let inner := s.indentText (s.indentation + s.carried)
  let both : Edit := ⟨d.size, 0, c.outer.size + inner.size⟩
  have hd : d.writeIndent.marker? name = (d.marker? name).map (moveMarker both) := by
    rw [marker?, markers_writeIndent, h.indentText_eq, Text.size_append]
    exact Marker.find?_map (name_moveMarker _)
  have hw : w.marker? name = (s.marker? name).map (moveMarker ⟨s.size, 0, inner.size⟩) := by
    rw [marker?, hmarkers, markers_writeIndent]
    exact Marker.find?_map (name_moveMarker _)
  rw [hd, hw, h.marker_eq]
  rcases hfound : s.marker? name with _ | m
  · rcases hbase : c.marker? name with _ | m
    · rfl
    · have hwithin := hc.tidy.markers m (List.mem_of_find?_eq_some hbase)
      exact congrArg some (moveMarker_of_within hwithin (h.size_lt hline))
  · have hwithin := h.tidy.markers m (List.mem_of_find?_eq_some hfound)
    refine congrArg some ?_
    obtain ⟨name, offset, side⟩ := m
    cases side with
    | template => rfl
    | generated =>
      rw [placedMarker, placedMarker, h.gaps_write hline hne hfeed htext]
      simp only [both, h.size_eq]
      exact congrArg (Marker.mk name · .generated)
        (Gaps.move_write .after c.size inner.size (places_gaps_lt c s) (hwithin rfl))

omit hne hfeed htext in
/-- The indentation and the first characters of a line are written. -/
theorem startLine (hc : c.Inside) {line : Text} (hne : line ≠ []) (hfeed : '\n' ∉ line)
    (hreturn : '\r' ∉ line) : Follows c (s.writeLine line) (d.writeLine line) := by
  let inner := s.indentText (s.indentation + s.carried)
  obtain ⟨hinnerFeed, hinnerReturn⟩ := h.not_mem_indentText hc (s.indentation + s.carried)
  have hnew : inner ++ line ≠ [] := List.append_ne_nil_of_right_ne_nil inner hne
  have hnewFeed : '\n' ∉ inner ++ line := by
    rw [List.mem_append, not_or]
    exact ⟨hinnerFeed, hfeed⟩
  have htext : s.writeIndent.text ++ line = s.text ++ (inner ++ line) := by
    rw [text_writeIndent, List.append_assoc]
  have hlocated : s.writeIndent.located = [] := by
    simp only [writeIndent, splice_eq, h.located_eq, List.map_nil, ite_self]
  have hbounded := (changes_writeLine s line).bounded h.bounded
  have htidy := h.tidy.writeLine stable_spanWithin line
  rw [writeLine_of_atLineStart hne hline] at hbounded htidy ⊢
  rw [writeLine_of_atLineStart hne (h.atLineStart_eq.trans hline)]
  refine ⟨hbounded, htidy, hlocated, ?_, ?_, (line_writeIndent s).2, ?_, ?_, ?_, ?_, ?_, ?_, ?_,
    (line_writeIndent d).2, ?_⟩
  · dsimp only
    rw [htext, List.mem_append, List.mem_append, not_or, not_or]
    exact ⟨h.noReturn, hinnerReturn, hreturn⟩
  · dsimp only
    rw [htext, endsLine_append _ hnew, endsLine_of_not_mem hnewFeed]
    exact (line_writeIndent s).1
  · exact (layout_writeIndent s).2.trans h.options_sub
  · exact (layout_writeIndent d).2.trans h.options_eq
  · dsimp only
    rw [htext, (h.lines_write hline hnew hnewFeed).2, text_writeIndent, h.indentText_eq, h.text_eq]
    simp only [List.append_assoc, inner]
  · exact h.mappings_write hline hnew hnewFeed htext hc rfl hlocated
  · exact h.marker_write hline hnew hnewFeed htext hc rfl
  · exact stopsWithin_writeIndent h.located (h.size_lt hline)
  · exact (line_writeIndent d).1.trans (line_writeIndent s).1.symm
  · exact (layout_writeIndent d).1.trans
      (h.indentation_eq.trans (congrArg (c.indentation + ·) (layout_writeIndent s).1.symm))

end Follows

namespace Follows

variable (h : Follows c s d)
include h

/-- A part of a line is written. -/
theorem writeLine (hc : c.Inside) {line : Text} (hfeed : '\n' ∉ line) (hreturn : '\r' ∉ line) :
    Follows c (s.writeLine line) (d.writeLine line) := by
  by_cases hne : line = []
  · subst hne
    exact h
  · by_cases hline : s.atLineStart = true
    · exact h.startLine hline hc hne hfeed hreturn
    · have hinside : s.atLineStart = false := Bool.eq_false_iff.2 hline
      have hinside' : d.atLineStart = false := h.atLineStart_eq.trans hinside
      have hends : endsLine s.text = false := h.line.symm.trans hinside
      have hgrow := h.grow line false hreturn (by rw [hends]; rfl)
        (fun offset => lines_of_not_mem c.outer offset hfeed)
        (by rw [endsLine_append _ hne, endsLine_of_not_mem hfeed])
      have hs : s.writeLine line =
          { s with text := s.text ++ line, atLineStart := false, carried := 0 } := by
        rw [writeLine_of_inside line hinside, ← hinside, ← h.carried_sub]
      have hd : d.writeLine line =
          { d with text := d.text ++ line, atLineStart := false, carried := 0 } := by
        rw [writeLine_of_inside line hinside', ← hinside', ← h.carried_eq]
      rw [hs, hd]
      exact hgrow

/-- A line ends. -/
theorem breakLine (hc : c.Inside) : Follows c s.breakLine d.breakLine := by
  have hgrow := h.grow ['\n'] true (by decide)
    (by rw [show startsWithContent ['\n'] = false from rfl, Bool.and_false])
    (fun offset => ⟨rfl, rfl⟩) (by rw [endsLine_append _ (by decide)]; rfl)
  have hend : s.options.lineEnd = ['\n'] := by rw [h.options_sub, hc.lineEnd]
  have hend' : d.options.lineEnd = ['\n'] := by rw [h.options_eq, hc.lineEnd]
  rw [Chunk.breakLine, Chunk.breakLine, hend, hend']
  exact hgrow

theorem append (hc : c.Inside) {t : Text} (hreturn : '\r' ∉ t) :
    Follows c (s.append t) (d.append t) := by
  unfold Chunk.append
  split
  · exact h
  · next first others heq =>
    have hlines : ∀ line ∈ first :: others, '\n' ∉ line ∧ '\r' ∉ line := by
      intro line hmem
      rw [← heq] at hmem
      obtain ⟨hfeed, hreturn'⟩ := not_mem_of_mem_linesOf hmem
      exact ⟨hfeed, hreturn' hreturn⟩
    clear heq
    obtain ⟨hfirst, hothers⟩ := List.forall_mem_cons.1 hlines
    have hstart := h.writeLine hc hfirst.1 hfirst.2
    generalize s.writeLine first = s' at hstart
    generalize d.writeLine first = d' at hstart
    induction others generalizing s' d' with
    | nil => exact hstart
    | cons line others ih =>
      obtain ⟨hline, hrest⟩ := List.forall_mem_cons.1 hothers
      exact ih (List.forall_mem_cons.2 ⟨hfirst, hrest⟩) hrest _ _
        ((hstart.breakLine hc).writeLine hc hline.1 hline.2)

/-! ### Mappings and markers -/

/-- Where mappings go does not depend on one that is begun. -/
theorem openMapping (origin : Origin) :
    Follows c (s.openMapping origin) (d.openMapping origin) := by
  have hends : (s.openMapping origin).endsAt = s.endsAt := by
    funext p
    have hnew : (Extent.running s.size).endsAt p = false := rfl
    rw [endsAt, endsAt, Chunk.openMapping, List.any_append, List.any_cons, hnew]
    simp only [List.any_nil, Bool.or_false]
  have hplaced : c.placed (s.openMapping origin) = c.placed s := by
    funext m
    rw [placed, hends]
    rfl
  have hnew : c.placed s ⟨origin, .running s.size⟩ = ⟨origin, .running d.size⟩ := by
    have hmove := Gaps.move_of_le .after (places_gaps_lt c s) (Nat.le_refl s.size)
    rw [h.size_eq, Nat.add_comm, ← hmove]
    rfl
  exact { h with
    bounded := ((Run.refl s).openMapping origin).changes.bounded h.bounded
    tidy := h.tidy.operate stable_spanWithin (.openMapping s origin)
    mappings_eq := by
      rw [hplaced, Chunk.openMapping, Chunk.openMapping, List.map_append, List.map_singleton, hnew,
        ← List.append_assoc, h.mappings_eq] }

/-- A mapping that ends, ends where composition puts it. -/
theorem closeMapping (index : Nat) :
    Follows c (s.closeMapping index) (d.closeMapping (c.mappings.length + index)) := by
  have hends : ∀ p, p < s.size → (s.closeMapping index).endsAt p = s.endsAt p := by
    intro p hp
    have hclose : ∀ m ∈ s.mappings, (m.close s.size).extent.endsAt p = m.extent.endsAt p :=
      fun m _ => Extent.endsAt_close m.extent hp
    exact congrArg (or · _) (any_modify hclose index)
  have hmappings : (s.mappings.map (c.placed s)).modify index (Mapping.close d.size) =
      (s.mappings.modify index (Mapping.close s.size)).map (c.placed (s.closeMapping index)) := by
    refine map_modify index (fun m hm => ?_) (fun m hm => ?_)
    · exact congrArg (fun x => Mapping.mk m.origin (x.shift c.size))
        (Extent.spread_congr (fun place hplace => hends place (places_gaps_lt c s place hplace))
          (h.bounded m hm).forward)
    · rw [h.size_eq]
      exact congrArg (Mapping.mk m.origin)
        (Extent.spread_close c.size (places_gaps_lt c s) (h.bounded m hm) hends)
  exact { h with
    bounded := ((Run.refl s).closeMapping index).changes.bounded h.bounded
    tidy := h.tidy.operate stable_spanWithin (.closeMapping s index)
    mappings_eq := by
      have hmodify := List.modifyTailIdx_add (List.modifyHead (Mapping.close d.size)) index
        c.mappings (s.mappings.map (c.placed s))
      rw [Chunk.closeMapping, h.mappings_eq]
      exact hmodify.trans (congrArg (c.mappings ++ ·) hmappings) }

/-- A marker goes among the others of both chunks. -/
theorem insertMarker {m m' : Marker} (hm : m.Within s.size) (hname : m'.name = m.name)
    (hplaced : c.placedMarker s m = m') :
    Follows c { s with markers := m.insert s.markers } { d with markers := m'.insert d.markers } :=
  { h with
    tidy := h.tidy.insertMarker hm
    marker_eq := by
      intro name
      have hold := h.marker_eq name
      unfold marker? at hold ⊢
      dsimp only
      by_cases heq : m.name = name
      · subst heq
        have hfound := Marker.find?_insert m' d.markers
        rw [hname] at hfound
        rw [hfound, Marker.find?_insert, ← hplaced]
        rfl
      · rw [Marker.find?_insert_of_ne (by rwa [hname]), Marker.find?_insert_of_ne heq, hold]
        rfl }

theorem mark (name : Text) : Follows c (s.mark name) (d.mark name) := by
  refine h.insertMarker (fun _ => Nat.le_refl _) rfl ?_
  have hmove := Gaps.move_of_le .after (places_gaps_lt c s) (Nat.le_refl s.size)
  rw [h.size_eq, Nat.add_comm, ← hmove]
  rfl

theorem markTemplate (name : Text) (offset : Nat) :
    Follows c (s.markTemplate name offset) (d.markTemplate name offset) :=
  h.insertMarker (fun hside => by cases hside) rfl rfl

theorem indent (levels : Nat) : Follows c (s.indent levels) (d.indent levels) :=
  { h with
    tidy := h.tidy.operate stable_spanWithin (.indent s levels)
    indentation_eq := by
      rw [Chunk.indent, h.indentation_eq, Nat.add_assoc]
      rfl }

theorem dedent {levels : Nat} (hle : levels ≤ s.indentation) :
    Follows c (s.dedent levels) (d.dedent levels) :=
  { h with
    tidy := h.tidy.operate stable_spanWithin (.dedent s levels)
    indentation_eq := by
      rw [Chunk.dedent, h.indentation_eq, Nat.add_sub_assoc hle]
      rfl }

end Follows

end Chunk

end BoundTemplate.Output
