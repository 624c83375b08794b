import BoundTemplate.Proofs.Output.Checker
import BoundTemplate.Proofs.Output.Line
import BoundTemplate.Proofs.Output.Lookup

/-!
# Copies of several lines

A text that is copied into a chunk is laid out anew: line breaks are those of the chunk, and lines
behind the first are indented. A link, though, carries offsets by their distance from its start. So
an offset of the text and one of its copy are the counterparts of each other if they lie equally
far from the starts, and all are where they should be exactly if the layout changes nothing.
-/

namespace BoundTemplate.Output

namespace Chunk

/-- A copy with one more line. A line without characters is not indented, and indentation that comes
first stands in front of the copy. -/
def copyLine (c : Chunk) (copy line : Text) : Text :=
  let broken := copy ++ c.options.lineEnd
  if line = [] ∨ broken = [] then broken ++ line
  else broken ++ c.indentText c.indentation ++ line

/-- The copy of a text in a chunk. -/
def copyOf (c : Chunk) (t : Text) : Text :=
  match linesOf t with
  | [] => []
  | first :: others => others.foldl c.copyLine first

/-! ### What is copied -/

/-- Behind what a chunk has so far, a text is being copied from an origin. -/
structure Copying (c : Chunk) (origin : Origin) (front copy : Text) (d : Chunk) : Prop where
  begins : c.text <+: front
  text_eq : d.text = front ++ copy
  mappings_eq : d.mappings = [⟨origin, .running front.size⟩]
  indentation_eq : d.indentation = c.indentation
  options_eq : d.options = c.options

namespace Copying

variable {c d : Chunk} {origin : Origin} {front copy : Text}

theorem openMapping (origin : Origin) (hc : c.mappings = []) :
    Copying c origin c.text [] (c.openMapping origin) where
  begins := List.prefix_rfl
  text_eq := (List.append_nil _).symm
  mappings_eq := by
    rw [Chunk.openMapping, hc]
    rfl
  indentation_eq := rfl
  options_eq := rfl

theorem breakLine (h : Copying c origin front copy d) :
    Copying c origin front (copy ++ c.options.lineEnd) d.breakLine where
  begins := h.begins
  text_eq := by rw [Chunk.breakLine, h.text_eq, h.options_eq, List.append_assoc]
  mappings_eq := h.mappings_eq
  indentation_eq := h.indentation_eq
  options_eq := h.options_eq

/-- The mapping of a copy whose line is indented: it starts behind the indentation if nothing of the
copy is there. -/
theorem mappings_writeIndent (h : Copying c origin front copy d) :
    d.writeIndent.mappings = [⟨origin, .running
      (if copy = [] then d.writeIndent.size else front.size)⟩] := by
  have hsize : d.size = front.size + copy.size := by
    rw [size, h.text_eq, Text.size_append]
  have hforward : ∀ m ∈ d.mappings, m.extent.Forward := by
    rw [h.mappings_eq, List.forall_mem_singleton]
    trivial
  rw [Chunk.mappings_writeIndent hforward, h.mappings_eq, List.map_singleton, Mapping.move,
    Extent.move]
  split
  · next hempty =>
    have hstart : front.size = d.size := by rw [hsize, hempty]; rfl
    have hend : d.writeIndent.size = d.size + (d.indentText (d.indentation + d.carried)).size := by
      rw [size, text_writeIndent, Text.size_append]
      rfl
    rw [hstart, hend, Edit.move_after_start]
  · next hne =>
    have hlt := Text.size_pos hne
    rw [Edit.move_of_lt .after (by simp only; omega)]

/-- The first part of a line that is copied, behind its indentation. -/
theorem writeFirst (h : Copying c origin front [] d) (line : Text) :
    ∃ front', Copying c origin front' line (d.writeLine line) := by
  by_cases hline : line = []
  · subst hline
    exact ⟨front, h⟩
  by_cases hstart : d.atLineStart = true
  · obtain ⟨hindentation, hoptions⟩ := layout_writeIndent d
    have hmappings := h.mappings_writeIndent
    rw [writeLine_of_atLineStart hline hstart]
    refine ⟨d.writeIndent.text, ⟨?_, rfl, hmappings, ?_, ?_⟩⟩
    · rw [text_writeIndent, h.text_eq, List.append_nil]
      exact h.begins.trans (List.prefix_append _ _)
    · exact hindentation.trans h.indentation_eq
    · exact hoptions.trans h.options_eq
  · rw [writeLine_of_inside line (Bool.eq_false_iff.2 hstart)]
    refine ⟨front, ⟨h.begins, ?_, h.mappings_eq, h.indentation_eq, h.options_eq⟩⟩
    rw [h.text_eq, List.append_nil]

/-- A line behind a break is copied with its indentation. -/
theorem writeNext (h : Copying c origin front copy d) (line : Text) :
    ∃ front', Copying c origin front' (c.copyLine copy line) (d.breakLine.writeLine line) := by
  have hbroken := h.breakLine
  unfold copyLine
  dsimp only
  generalize copy ++ c.options.lineEnd = broken at hbroken
  split
  · next hplain =>
    rcases hplain with rfl | rfl
    · rw [List.append_nil]
      exact ⟨front, hbroken⟩
    · exact hbroken.writeFirst line
  · next hplain =>
    rw [not_or] at hplain
    obtain ⟨hline, hne⟩ := hplain
    obtain ⟨hindentation, hoptions⟩ := layout_writeIndent d.breakLine
    have hmappings := hbroken.mappings_writeIndent
    rw [if_neg hne] at hmappings
    rw [writeLine_of_atLineStart hline rfl]
    refine ⟨front, ⟨h.begins, ?_, hmappings, ?_, ?_⟩⟩
    · have hindent : d.breakLine.indentText (d.breakLine.indentation + d.breakLine.carried) =
          c.indentText c.indentation := by
        rw [indentText_congr hbroken.options_eq, hbroken.indentation_eq]
        rfl
      rw [text_writeIndent, hbroken.text_eq, hindent]
      simp only [List.append_assoc]
    · exact hindentation.trans hbroken.indentation_eq
    · exact hoptions.trans hbroken.options_eq

/-- Lines behind breaks are copied one after the other. -/
theorem foldl (h : Copying c origin front copy d) (lines : List Text) :
    ∃ front', Copying c origin front' (lines.foldl c.copyLine copy)
      (lines.foldl (fun d line => d.breakLine.writeLine line) d) := by
  induction lines generalizing front copy d with
  | nil => exact ⟨front, h⟩
  | cons line lines ih =>
    obtain ⟨front', h'⟩ := h.writeNext line
    exact ih h'

end Copying

/-- A text that is mapped is copied to the end of a chunk, and the mapping covers the copy. -/
theorem exists_copy_of_appendMapped {c : Chunk} (hc : c.mappings = []) (t : Text)
    (origin : Origin) :
    let d := c.appendMapped t origin
    ∃ front : Text, c.text <+: front ∧ d.text = front ++ c.copyOf t ∧
      d.mappings = [⟨origin, .closed ⟨front.size, d.size⟩⟩] := by
  intro d
  have hopened := Copying.openMapping origin hc
  have happended : ∃ front : Text,
      Copying c origin front (c.copyOf t) ((c.openMapping origin).append t) := by
    rw [copyOf, append]
    rcases linesOf t with _ | ⟨first, others⟩
    · exact ⟨_, hopened⟩
    · obtain ⟨front, hfirst⟩ := hopened.writeFirst first
      exact hfirst.foldl others
  obtain ⟨front, h⟩ := happended
  have htext : d.text = front ++ c.copyOf t := h.text_eq
  have hle : front.size ≤ d.size := by
    rw [size, htext, Text.size_append]
    exact Nat.le_add_right _ _
  have hclose : d.mappings = ((c.openMapping origin).append t).mappings.modify c.mappings.length
      (Mapping.close d.size) := rfl
  refine ⟨front, h.begins, htext, ?_⟩
  rw [hclose, h.mappings_eq, hc]
  exact congrArg (fun stop => [Mapping.mk origin (.closed ⟨front.size, stop⟩)])
    (Nat.max_eq_left hle)

/-! ### Copies that are the text -/

/-- A text without line feeds is copied as it is. -/
theorem copyOf_of_not_mem (c : Chunk) {t : Text} (h : '\n' ∉ t) : c.copyOf t = t := by
  rw [copyOf, linesOf_of_not_mem h]
  rfl

/-- The lines of a text follow one another with line feeds between them, unless a carriage return
stands in front of a line feed. -/
theorem exists_linesOf_eq {t : Text} (h : ¬['\r', '\n'] <:+: t) :
    ∃ first others, linesOf t = first :: others ∧ t = first ++ others.flatMap (['\n'] ++ ·) := by
  induction t with
  | nil => exact ⟨[], [], rfl, rfl⟩
  | cons x t ih =>
    have hrest : ¬['\r', '\n'] <:+: t := fun hinfix => h (List.infix_cons hinfix)
    obtain ⟨first, others, hlines, ht⟩ := ih hrest
    by_cases hx : x = '\n'
    · subst hx
      refine ⟨[], first :: others, by rw [linesOf, if_pos rfl, hlines], ?_⟩
      rw [List.flatMap_cons, List.append_assoc, ← ht]
      rfl
    · have hreturn : ¬(x = '\r' && t.head? = some '\n') = true := by
        intro hbreak
        rw [Bool.and_eq_true, decide_eq_true_eq, decide_eq_true_eq] at hbreak
        obtain ⟨rfl, hhead⟩ := hbreak
        obtain ⟨rest, rfl⟩ := List.head?_eq_some_iff.1 hhead
        exact h (List.prefix_append ['\r', '\n'] rest).isInfix
      refine ⟨x :: first, others, by rw [linesOf, if_neg hx, if_neg hreturn, hlines], ?_⟩
      rw [List.cons_append, ← ht]

/-- A text with the line breaks of the chunk is copied as it is if no indentation is put into it. -/
theorem copyOf_of_unindented {c : Chunk} (hend : c.options.lineEnd = ['\n']) {t : Text}
    (h : ¬['\r', '\n'] <:+: t)
    (hindent : ∀ line ∈ (linesOf t).tail, line ≠ [] → c.indentText c.indentation = []) :
    c.copyOf t = t := by
  obtain ⟨first, others, hlines, ht⟩ := exists_linesOf_eq h
  have hcopy (copy : Text) (lines : List Text)
      (hindent : ∀ line ∈ lines, line ≠ [] → c.indentText c.indentation = []) :
      lines.foldl c.copyLine copy = copy ++ lines.flatMap (['\n'] ++ ·) := by
    induction lines generalizing copy with
    | nil => exact (List.append_nil copy).symm
    | cons line lines ih =>
      obtain ⟨hfirst, hrest⟩ := List.forall_mem_cons.1 hindent
      have hline : c.copyLine copy line = copy ++ (['\n'] ++ line) := by
        rw [copyLine, hend, ← List.append_assoc]
        split
        · rfl
        · next hplain => rw [hfirst fun hempty => hplain (.inl hempty), List.append_nil]
      rw [List.foldl_cons, ih _ hrest, hline, List.flatMap_cons, List.append_assoc]
  rw [hlines] at hindent
  rw [copyOf, hlines]
  dsimp only
  rw [hcopy first others hindent, ← ht]

end Chunk

namespace Snapshot

variable {s : Snapshot} {side : Side} {l : Link}

/-- The only link of a snapshot carries offsets by their distance from its start, but not past its
end. -/
theorem offset_counterpart?_of_single (hlinks : s.links = [l]) (hverbatim : l.verbatim = true)
    {n : Nat} (hn : (l.range side).span.start + n ≤ (l.range side).span.stop) :
    (s.counterpart? side ((l.range side).span.start + n)).map (·.offset) =
      some ((s.source side.opposite).text.floor (min ((l.range side.opposite).span.start + n)
        (l.range side.opposite).span.stop)) := by
  have hlink : s.verbatimLinks = [l] := by
    rw [verbatimLinks, hlinks, List.filter_cons_of_pos hverbatim]
    rfl
  have hseparate : s.Separate side := by
    rw [Separate, hlink]
    exact List.pairwise_singleton _ _
  have hc : (l.range side).contains ((l.range side).span.start + n) = true :=
    Span.contains_iff.2 ⟨Nat.le_add_right _ _, hn⟩
  have hl : l ∈ s.verbatimLinks := by
    rw [hlink]
    exact List.mem_cons_self
  rw [counterpart?, smallest?_eq hseparate hl hc]
  change (s.carry? side l _).map (·.offset) = _
  unfold carry?
  dsimp only
  rw [if_pos (Nat.le_add_right _ _), Nat.add_sub_cancel_left, Option.map_some]
  exact congrArg some (Nat.min_eq_left (Text.floor_le_size _ _))

/-- In the only link of a snapshot, places of its two parts are the counterparts of each other
exactly if they lie equally far from the starts. -/
theorem mirrors_iff_of_single (hlinks : s.links = [l]) (hverbatim : l.verbatim = true)
    {part copy : Text} (htemplate : s.template.text.Holds l.template.span part)
    (hgenerated : s.generated.text.Holds l.generated.span copy) {k g : Nat}
    (hk : part.isBoundary k = true) (hg : copy.isBoundary g = true) :
    s.Mirrors (l.template.span.start + k) (l.generated.span.start + g) ↔ g = k := by
  have hkle := Text.le_size_of_isBoundary hk
  have hgle := Text.le_size_of_isBoundary hg
  have hkstop := htemplate.stop_eq
  have hgstop := hgenerated.stop_eq
  have hkend : l.template.span.start + k ≤ l.template.span.stop := by omega
  have hgend : l.generated.span.start + g ≤ l.generated.span.stop := by omega
  have hforth : (s.counterpart? .template (l.template.span.start + k)).map (·.offset) =
      some (s.generated.text.floor (min (l.generated.span.start + k) l.generated.span.stop)) :=
    offset_counterpart?_of_single hlinks hverbatim hkend
  have hback : (s.counterpart? .generated (l.generated.span.start + g)).map (·.offset) =
      some (s.template.text.floor (min (l.template.span.start + g) l.template.span.stop)) :=
    offset_counterpart?_of_single hlinks hverbatim hgend
  rw [Mirrors, hforth, hback, Option.some.injEq, Option.some.injEq]
  constructor
  · rintro ⟨hto, hfro⟩
    have hto' := Text.floor_le s.generated.text
      (min (l.generated.span.start + k) l.generated.span.stop)
    have hfro' := Text.floor_le s.template.text
      (min (l.template.span.start + g) l.template.span.stop)
    omega
  · rintro rfl
    rw [Nat.min_eq_left hgend, Nat.min_eq_left (by omega)]
    exact ⟨Text.floor_eq_of_isBoundary (hgenerated.isBoundary_add hg),
      Text.floor_eq_of_isBoundary (htemplate.isBoundary_add hk)⟩

/-- In the snapshot of a chunk with one mapping, that of a copy, places of the text and of the copy
are the counterparts of each other exactly if they lie equally far from the starts. -/
theorem mirrors_ofChunk_iff {d : Chunk} {t part copy : Text} {origin : Origin} {span : Span}
    (hmappings : d.mappings = [⟨origin, .closed span⟩]) (hverbatim : origin.verbatim = true)
    (holds : t.Holds origin.span part) (hcopy : d.text.Holds span copy) {k g : Nat}
    (hk : part.isBoundary k = true) (hg : copy.isBoundary g = true) :
    (ofChunk d t).Mirrors (origin.span.start + k) (span.start + g) ↔ g = k := by
  let s := ofChunk d t
  let l : Link := ⟨resolve s.template origin.span, resolve s.generated span, origin.verbatim,
    origin.name⟩
  have hlinks : s.links = [l] :=
    congrArg (List.map fun m : Mapping => (⟨resolve s.template m.origin.span,
      resolve s.generated (m.extent.span d.size), m.origin.verbatim, m.origin.name⟩ : Link))
      hmappings
  have htemplate : l.template.span = origin.span :=
    (span_resolve _ _).trans (Source.stretch_eq_of_holds holds)
  have hgenerated : l.generated.span = span :=
    (span_resolve _ _).trans (Source.stretch_eq_of_holds hcopy)
  have hpart : s.template.text.Holds l.template.span part := by rwa [htemplate]
  have hplaced : s.generated.text.Holds l.generated.span copy := by rwa [hgenerated]
  have hiff := mirrors_iff_of_single hlinks hverbatim hpart hplaced hk hg
  rwa [htemplate, hgenerated] at hiff

/-- A text is copied into a chunk without mappings. An offset of the text and one of the copy are
the counterparts of each other exactly if they lie equally far from the starts. So what is behind
each offset is copied to its counterpart exactly if the copy is the text; that is so if the text
has no line feeds, or the line breaks of the chunk and no lines that are indented. -/
theorem mirrors_appendMapped {c : Chunk} (hc : c.mappings = []) {t part : Text} {a : Nat}
    (holds : t.Holds ⟨a, a + part.size⟩ part) (name : Option Text) :
    let d := c.appendMapped part ⟨⟨a, a + part.size⟩, true, name⟩
    let s := ofChunk d t
    ∃ front : Text, c.text <+: front ∧ d.text = front ++ c.copyOf part ∧
      (∀ k g, part.isBoundary k = true → (c.copyOf part).isBoundary g = true →
        (s.Mirrors (a + k) (front.size + g) ↔ g = k)) ∧
      ((∀ k, part.isBoundary k = true →
        ∃ g, d.text.Holds ⟨g, d.size⟩ (part.dropBytes k) ∧ s.Mirrors (a + k) g) ↔
          c.copyOf part = part) ∧
      ('\n' ∉ part → c.copyOf part = part) ∧
      (c.options.lineEnd = ['\n'] → ¬['\r', '\n'] <:+: part →
        (∀ line ∈ (Chunk.linesOf part).tail, line ≠ [] → c.indentText c.indentation = []) →
          c.copyOf part = part) := by
  intro d s
  obtain ⟨front, hbegins, htext, hmappings⟩ := Chunk.exists_copy_of_appendMapped hc part
    ⟨⟨a, a + part.size⟩, true, name⟩
  have hcopy : d.text.Holds ⟨front.size, d.size⟩ (c.copyOf part) := by
    refine ⟨front, [], by rw [List.append_nil]; exact htext, ?_⟩
    rw [Chunk.size, htext, Text.size_append]
  have hmirrors (k g : Nat) (hk : part.isBoundary k = true)
      (hg : (c.copyOf part).isBoundary g = true) :
      s.Mirrors (a + k) (front.size + g) ↔ g = k :=
    mirrors_ofChunk_iff hmappings rfl holds hcopy hk hg
  refine ⟨front, hbegins, htext, hmirrors, ⟨fun h => ?_, fun h k hk => ?_⟩,
    c.copyOf_of_not_mem, fun hend hbreak hindent => Chunk.copyOf_of_unindented hend hbreak hindent⟩
  · -- At the start of the text, what is behind it is all of the text, and what is behind its
    -- counterpart is all of the copy.
    have hpart : part.isBoundary 0 = true := Text.isBoundary_iff.2 ⟨[], part, rfl, rfl⟩
    have hzero : (c.copyOf part).isBoundary 0 = true := Text.isBoundary_iff.2 ⟨[], _, rfl, rfl⟩
    obtain ⟨g, hholds, hforth, -⟩ := h 0 hpart
    have hstart := ((hmirrors 0 0 hpart hzero).2 rfl).1
    have hg : g = front.size := Option.some.inj (hforth.symm.trans hstart)
    have hall : part.dropBytes 0 = part := Text.dropBytes_size_append [] part
    rw [hg, hall] at hholds
    exact hcopy.slice_eq.symm.trans hholds.slice_eq
  · have hsplit := Text.takeBytes_append_dropBytes k part
    rw [h] at hcopy hmirrors
    refine ⟨front.size + k, ?_, (hmirrors k k hk hk).2 rfl⟩
    rw [← hsplit] at hcopy
    have hback := hcopy.split.2
    rwa [Text.size_takeBytes hk] at hback

/-- Two lines with the line breaks of the chunk are copied at no level of indentation. -/
theorem mirrors_appendMapped_of_crlf :
    let c : Chunk := { text := ['('], options := { lineEnd := ['\r', '\n'] } }
    let part : Text := ['é', '\r', '\n', 'b']
    let t : Text := ['='] ++ part
    let d := c.appendMapped part ⟨⟨1, 6⟩, true, none⟩
    ∀ k, part.isBoundary k = true →
      ∃ g, d.text.Holds ⟨g, d.size⟩ (part.dropBytes k) ∧ (ofChunk d t).Mirrors (1 + k) g := by
  intro c part t d
  have holds : t.Holds ⟨1, 1 + part.size⟩ part := ⟨['='], [], rfl, rfl⟩
  obtain ⟨front, -, -, -, hlaw, -⟩ := mirrors_appendMapped (c := c) rfl holds none
  exact hlaw.2 (by decide)

/-- A line that is indented goes past its counterpart. -/
theorem not_mirrors_appendMapped_of_indented :
    let c := ({} : Chunk).indent 1
    let t : Text := ['a', '\n', 'b']
    let d := c.appendMapped t ⟨⟨0, 3⟩, true, none⟩
    c.Reachable ∧ c.mappings = [] ∧ t.Holds ⟨0, 3⟩ t ∧ t.dropBytes 2 = ['b'] ∧
      d.text = ['a', '\n', ' ', ' ', 'b'] ∧
      (ofChunk d t).Mirrors 2 2 ∧
      ¬∃ g, d.text.Holds ⟨g, d.size⟩ ['b'] ∧ (ofChunk d t).Mirrors 2 g := by
  intro c t d
  have hmirrors : (ofChunk d t).Mirrors 2 2 := ⟨by decide +kernel, by decide +kernel⟩
  refine ⟨⟨{}, (Chunk.Run.refl _).indent 1⟩, rfl, ⟨[], [], rfl, rfl⟩, by decide, by decide,
    hmirrors, ?_⟩
  rintro ⟨g, hholds, hforth, -⟩
  have hg : g = 2 := Option.some.inj (hforth.symm.trans hmirrors.1)
  have hsize : d.size = 5 := by decide
  have hstop := hholds.stop_eq
  rw [hg, hsize] at hstop
  exact absurd hstop (by decide)

end Snapshot

end BoundTemplate.Output
