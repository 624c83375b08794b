import BoundTemplate.Proofs.Markup.Building
import BoundTemplate.Proofs.Template.Reading
import BoundTemplate.Proofs.Text.Slice
import BoundTemplate.Template.Query

/-!
# Layouts of templates

The layout of a template says of the nodes of its tree what the layout of its markup
says of the nodes of that: they and the stray end tags between them follow one another
without a gap, and so do the children of each element and of each virtual element
between its tags or comments. Reading keeps the layout of the markup.
-/

namespace BoundTemplate

/-- The two comments of a virtual element and what lies between them make up its range. -/
structure VirtualElement.Tiled (v : VirtualElement) : Prop where
  start_eq : v.startComment.span.start = v.range.span.start
  inner_start : v.startComment.span.stop = v.inner.span.start
  inner_stop : v.inner.span.stop = v.endComment.span.start
  stop_eq : v.endComment.span.stop = v.range.span.stop
  start_lt : v.startComment.span.start < v.startComment.span.stop
  inner_le : v.inner.span.start ≤ v.inner.span.stop
  stop_lt : v.endComment.span.start < v.endComment.span.stop

/-- The tags of an element lie around what is in it. -/
structure Element.Framed (e : Element) : Prop where
  start_lt : e.range.span.start < e.inner.span.start
  inner_le : e.inner.span.start ≤ e.inner.span.stop
  le_stop : e.inner.span.stop ≤ e.range.span.stop

/-- What is in an element lies behind its start and not behind its end. -/
theorem Element.Framed.bounds {e : Element} (h : e.Framed) :
    e.range.span.start < e.inner.span.start ∧ e.inner.span.start ≤ e.inner.span.stop ∧
      e.inner.span.stop ≤ e.range.span.stop :=
  ⟨h.start_lt, h.inner_le, h.le_stop⟩

/-- What is in a virtual element lies behind its start and not behind its end. -/
theorem VirtualElement.Tiled.bounds {v : VirtualElement} (h : v.Tiled) :
    v.range.span.start < v.inner.span.start ∧ v.inner.span.start ≤ v.inner.span.stop ∧
      v.inner.span.stop ≤ v.range.span.stop := by
  obtain ⟨h₁, h₂, h₃, h₄, h₅, h₆, h₇⟩ := h
  omega

/-- Sibling nodes that lie between two offsets, latest first, and the stray end tags between them
and inside of them, latest first. -/
inductive Layout : Nat → List Node → List Span → Nat → Prop
  | nil (start : Nat) : Layout start [] [] start
  | text {start : Nat} {nodes : List Node} {strays : List Span} {piece : Piece}
      (elders : Layout start nodes strays piece.range.span.start)
      (lt : piece.range.span.start < piece.range.span.stop)
      (apart : ∀ last, nodes.head? = some (.text last) →
        last.range.span.stop ≠ piece.range.span.start) :
      Layout start (.text piece :: nodes) strays piece.range.span.stop
  | comment {start : Nat} {nodes : List Node} {strays : List Span} {piece : Piece}
      (elders : Layout start nodes strays piece.range.span.start)
      (lt : piece.range.span.start < piece.range.span.stop) :
      Layout start (.comment piece :: nodes) strays piece.range.span.stop
  | element {start : Nat} {nodes children : List Node} {strays inside : List Span} {e : Element}
      (elders : Layout start nodes strays e.range.span.start) (framed : e.Framed)
      (content : Layout e.inner.span.start children.reverse inside e.inner.span.stop) :
      Layout start (.element e children :: nodes) (inside ++ strays) e.range.span.stop
  | virtual {start : Nat} {nodes children : List Node} {strays inside : List Span}
      {v : VirtualElement} (elders : Layout start nodes strays v.range.span.start)
      (tiled : v.Tiled)
      (content : Layout v.inner.span.start children.reverse inside v.inner.span.stop) :
      Layout start (.virtual v children :: nodes) (inside ++ strays) v.range.span.stop
  | stray {start : Nat} {nodes : List Node} {strays : List Span} {span : Span}
      (elders : Layout start nodes strays span.start) (lt : span.start < span.stop) :
      Layout start nodes (span :: strays) span.stop

/-- The nodes outside of all open virtual elements and those in each of these make up what is read
of a list of siblings that starts at an offset. -/
def RegionLayout (start : Nat) (nodes : List Node) : List OpenVirtual → List Span → Nat → Prop
  | [], strays, offset => Layout start nodes strays offset
  | r :: regions, strays, offset =>
    ∃ inside outside, strays = inside ++ outside ∧ r.comment.start < r.comment.stop ∧
      Layout r.comment.stop r.children inside offset ∧
      RegionLayout start nodes regions outside r.comment.start

/-- The latest node of the innermost open virtual element, or outside of all. -/
def Siblings.last? (s : Siblings) : Option Node :=
  match s.regions with
  | [] => s.nodes.head?
  | r :: _ => r.children.head?

/-- What extends every layout up to an offset extends that of the innermost open virtual element. -/
theorem RegionLayout.push {start : Nat} {s : Siblings} {node : Node} {strays : List Span}
    (more : List Span) {offset offset' : Nat}
    (h : RegionLayout start s.nodes s.regions strays offset)
    (extend : ∀ start nodes strays, Layout start nodes strays offset → nodes.head? = s.last? →
      Layout start (node :: nodes) (more ++ strays) offset') :
    RegionLayout start (s.push node).nodes (s.push node).regions (more ++ strays) offset' := by
  obtain ⟨regions, nodes⟩ := s
  cases regions with
  | nil => exact extend _ _ _ h rfl
  | cons r regions =>
    obtain ⟨inside, outside, rfl, lt, content, rest⟩ := h
    exact ⟨more ++ inside, outside, (List.append_assoc ..).symm, lt, extend _ _ _ content rfl, rest⟩

/-- A stray end tag goes into the innermost open virtual element. -/
theorem RegionLayout.addStray {start : Nat} {nodes : List Node} {regions : List OpenVirtual}
    {strays : List Span} {span : Span} (h : RegionLayout start nodes regions strays span.start)
    (lt : span.start < span.stop) :
    RegionLayout start nodes regions (span :: strays) span.stop := by
  cases regions with
  | nil => exact Layout.stray h lt
  | cons r regions =>
    obtain ⟨inside, outside, rfl, lt', content, rest⟩ := h
    exact ⟨span :: inside, outside, rfl, lt', .stray content lt, rest⟩

@[simp] theorem Siblings.last?_push (node : Node) (s : Siblings) :
    (s.push node).last? = some node := by
  obtain ⟨regions, nodes⟩ := s
  cases regions <;> rfl

theorem Layout.start_le_stop {start stop : Nat} {nodes : List Node} {strays : List Span}
    (h : Layout start nodes strays stop) : start ≤ stop := by
  induction h with
  | nil start => exact Nat.le_refl start
  | text _ lt _ ih | comment _ lt ih | stray _ lt ih => omega
  | element _ around _ ih _ | virtual _ around _ ih _ =>
    have h := around.bounds
    omega

/-! ### Reading -/

namespace Setting

variable {c : Setting} {start : Nat}

/-- A text goes into the innermost open virtual element; it does not touch a text there. -/
theorem regionLayout_text {s : Siblings} {strays : List Span} {span : Span} {part : Text}
    (h : RegionLayout start s.nodes s.regions strays span.start)
    (holds : c.source.text.Holds span part) (ne : part ≠ [])
    (apart : ∀ piece, s.last? = some (.text piece) → piece.range.span.stop ≠ span.start) :
    let read := s.push (.text (c.source.piece span))
    RegionLayout start read.nodes read.regions strays span.stop := by
  have hrange : (c.source.range span).span = span := Source.span_range_of_holds holds
  refine RegionLayout.push [] h fun start nodes strays hl hlast => ?_
  have hnew : Layout start (.text (c.source.piece span) :: nodes) strays
      (c.source.range span).span.stop := by
    refine .text ?_ ?_ fun piece hpiece => ?_
    · simpa only [Source.piece, hrange] using hl
    · simpa only [Source.piece, hrange] using holds.start_lt_stop ne
    · simpa only [Source.piece, hrange] using apart piece (hlast ▸ hpiece)
  simpa only [hrange, List.nil_append] using hnew

/-- A comment goes into the innermost open virtual element. -/
theorem regionLayout_comment {s : Siblings} {strays : List Span} {span : Span} {part : Text}
    (h : RegionLayout start s.nodes s.regions strays span.start)
    (holds : c.source.text.Holds span part) (lt : span.start < span.stop) :
    let read := s.push (c.comment span)
    RegionLayout start read.nodes read.regions strays span.stop := by
  have hrange : (c.source.range span).span = span := Source.span_range_of_holds holds
  refine RegionLayout.push [] h fun start nodes strays hl _ => ?_
  have hnew : Layout start (c.comment span :: nodes) strays (c.source.range span).span.stop :=
    .comment (by simpa only [hrange] using hl) (by simpa only [hrange] using lt)
  simpa only [hrange, List.nil_append] using hnew

/-- The virtual element that a comment ends goes into the one around it. -/
theorem regionLayout_leave {s : Siblings} {region : OpenVirtual} {regions : List OpenVirtual}
    {strays : List Span} {span : Span} {part : Text} (hr : s.regions = region :: regions)
    (h : RegionLayout start s.nodes s.regions strays span.start)
    (holds : c.source.text.Holds span part) (lt : span.start < span.stop) :
    let left := ({ s with regions := regions } : Siblings).push (c.leave region span)
    RegionLayout start left.nodes left.regions strays span.stop := by
  rw [hr] at h
  obtain ⟨inside, outside, rfl, lt', content, rest⟩ := h
  have hle := content.start_le_stop
  have hsize := holds.stop_le_size
  have hrange : (c.source.range ⟨region.comment.start, span.stop⟩).span =
      ⟨region.comment.start, span.stop⟩ := Source.span_range (by simp only; omega) hsize
  have hstart : (c.source.range region.comment).span = region.comment :=
    Source.span_range (Nat.le_of_lt lt') (by omega)
  have hinner : (c.source.range ⟨region.comment.stop, span.start⟩).span =
      ⟨region.comment.stop, span.start⟩ := Source.span_range hle (by simp only; omega)
  have hstop : (c.source.range span).span = span := Source.span_range_of_holds holds
  refine RegionLayout.push inside rest fun start nodes strays hl _ => ?_
  have hv : Layout start (c.leave region span :: nodes) (inside ++ strays)
      (c.source.range ⟨region.comment.start, span.stop⟩).span.stop := by
    refine .virtual ?_ ⟨?_, ?_, ?_, ?_, ?_, ?_, ?_⟩ ?_
    · simpa only [hrange] using hl
    · simp only [hrange, hstart]
    · simp only [hstart, hinner]
    · simp only [hinner, hstop]
    · simp only [hrange, hstop]
    · simpa only [hstart] using lt'
    · simpa only [hinner] using hle
    · simpa only [hstop] using lt
    · simpa only [hinner, List.reverse_reverse] using content
  simpa only [hrange] using hv

/-- An element goes into the innermost open virtual element with what is read of its children. -/
theorem regionLayout_element {s : Siblings} {id : Nat} {range name inner : Span}
    {attributes : List Markup.Attribute} {nodes : List Node} {strays inside : List Span}
    (h : RegionLayout start s.nodes s.regions strays range.start) (lt : range.start < inner.start)
    (content : Layout inner.start nodes inside inner.stop) (le : inner.stop ≤ range.stop)
    (hsize : range.stop ≤ c.source.text.size) :
    let read := s.push (.element (c.elementOf id range name attributes inner) nodes.reverse)
    RegionLayout start read.nodes read.regions (inside ++ strays) range.stop := by
  have hle := content.start_le_stop
  have hrange : (c.source.range range).span = range := Source.span_range (by omega) hsize
  have hinner : (c.source.range inner).span = inner := Source.span_range hle (by omega)
  refine RegionLayout.push inside h fun start elders strays hl _ => ?_
  have hnew : Layout start
      (.element (c.elementOf id range name attributes inner) nodes.reverse :: elders)
      (inside ++ strays) (c.source.range range).span.stop := by
    refine .element ?_ ⟨?_, ?_, ?_⟩ ?_
    · simpa only [elementOf, hrange] using hl
    · simpa only [elementOf, hrange, hinner] using lt
    · simpa only [elementOf, hinner] using hle
    · simpa only [elementOf, hrange, hinner] using le
    · simpa only [elementOf, hinner, List.reverse_reverse] using content
  simpa only [hrange] using hnew

/-- Reading a list of siblings keeps its layout, and what is then a text was one before. -/
theorem Yields.regionLayout {raws : List Markup.Node} {strays : List Span} {stop : Nat}
    {s : Siblings} (h : c.Yields start raws strays stop s) :
    RegionLayout start s.nodes s.regions strays stop ∧
      ∀ piece, s.last? = some (.text piece) →
        ∃ span, raws.head? = some (.text span) ∧ piece.range = c.source.range span := by
  induction h with
  | nil start => exact ⟨Layout.nil start, by rintro piece ⟨⟩⟩
  | stray elders holds ih =>
    obtain ⟨layout, last⟩ := ih
    exact ⟨layout.addStray (holds.start_lt_stop (Markup.Token.lexeme_ne_nil _)), last⟩
  | @text start raws strays span part s elders holds ne apart ih =>
    obtain ⟨layout, last⟩ := ih
    refine ⟨regionLayout_text layout holds ne fun piece hpiece => ?_, fun piece hpiece => ?_⟩
    · obtain ⟨elder, hhead, hr⟩ := last piece hpiece
      have hle := elders.layout.stop_le_of_mem _ (List.mem_of_head? hhead)
      have hsize : elder.stop ≤ c.source.text.size :=
        Nat.le_trans hle (Nat.le_trans holds.start_le_stop holds.stop_le_size)
      rw [hr, Source.stop_span_range hsize]
      exact apart elder hhead
    · rw [Siblings.last?_push] at hpiece
      cases hpiece
      exact ⟨span, rfl, rfl⟩
  | leave elders holds regions_eq ih =>
    have lt := holds.start_lt_stop (Markup.Token.lexeme_ne_nil _)
    exact ⟨regionLayout_leave regions_eq ih.1 holds lt, by simp [Setting.leave, Setting.virtual]⟩
  | enter id elders holds begins ih =>
    have lt := holds.start_lt_stop (Markup.Token.lexeme_ne_nil _)
    exact ⟨⟨[], _, rfl, lt, .nil _, ih.1⟩, by rintro piece ⟨⟩⟩
  | comment elders holds ih =>
    have lt := holds.start_lt_stop (Markup.Token.lexeme_ne_nil _)
    exact ⟨regionLayout_comment ih.1 holds lt, by simp [Setting.comment]⟩
  | element id elders tag content regions_eq le ends ih ihc =>
    obtain ⟨within, -⟩ := ihc
    rw [regions_eq] at within
    refine ⟨?_, by simp⟩
    exact regionLayout_element ih.1 tag.start_lt_stop within le (Text.le_size_of_isBoundary ends)

end Setting

end BoundTemplate
