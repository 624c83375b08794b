import BoundTemplate.Proofs.Output.Gaps

/-!
# Indenting the lines of a text

An indentation is put into a text where lines with characters start. This makes gaps of
its size there for all that is recorded. What is written behind a text adds to its lines
one at its end, if that starts a line, and those of its own.
-/

namespace BoundTemplate.Output

/-! ### Chunks -/

namespace Chunk

variable {c : Chunk}

/-- Nothing that has ended in a chunk goes back. -/
structure Forward (c : Chunk) : Prop where
  mappings : ∀ m ∈ c.mappings, m.extent.Forward
  located : ∀ l ∈ c.located, (Extent.closed l.2).Forward

/-- An edit moves all that is recorded, if it changes something. -/
theorem splice_eq (start stop : Nat) (t : Text) (c : Chunk) :
    let e : Edit := ⟨start, stop - start, t.size⟩
    c.splice start stop t =
      { c with
        text := c.text.takeBytes start ++ t ++ c.text.dropBytes stop
        mappings :=
          if e.isEmpty then c.mappings else c.mappings.map (Mapping.move e (c.emptyBias e))
        located :=
          if e.isEmpty then c.located
          else c.located.map fun l => (l.1, e.moveSpan (c.emptyBias e) l.2)
        markers := if e.isEmpty then c.markers else c.markers.map (moveMarker e) } := by
  intro e
  rw [splice, move]
  by_cases he : e.isEmpty = true
  · rw [if_pos he, if_pos he, if_pos he, if_pos he]
  · rw [if_neg he, if_neg he, if_neg he, if_neg he]
    rfl

/-- A text that is put at a place sends spans without bytes to the side on which something ends. -/
theorem emptyBias_place (place : Nat) (t : Text) (c : Chunk) :
    c.emptyBias ⟨place, place - place, t.size⟩ = Gaps.emptyBias c.endsAt place := by
  simp only [emptyBias, Gaps.emptyBias, Nat.sub_self, decide_true, Bool.true_and]

/-- An edit moves the mappings, also if it changes nothing. -/
theorem mappings_splice (start stop : Nat) (t : Text) (hc : ∀ m ∈ c.mappings, m.extent.Forward) :
    let e : Edit := ⟨start, stop - start, t.size⟩
    (c.splice start stop t).mappings = c.mappings.map (Mapping.move e (c.emptyBias e)) := by
  intro e
  rw [splice_eq]
  dsimp only
  split
  · next he =>
    have hsame : ∀ m ∈ c.mappings, m.move e (c.emptyBias e) = id m := by
      intro m hm
      rw [Mapping.move, Extent.move_of_isEmpty _ he (hc m hm)]
      rfl
    rw [List.map_congr_left hsame, List.map_id]
  · rfl

/-- An edit moves the located spans, also if it changes nothing. -/
theorem located_splice (start stop : Nat) (t : Text)
    (hc : ∀ l ∈ c.located, (Extent.closed l.2).Forward) :
    let e : Edit := ⟨start, stop - start, t.size⟩
    (c.splice start stop t).located =
      c.located.map fun l => (l.1, e.moveSpan (c.emptyBias e) l.2) := by
  intro e
  rw [splice_eq]
  dsimp only
  split
  · next he =>
    have hsame : ∀ l ∈ c.located, (l.1, e.moveSpan (c.emptyBias e) l.2) = id l := by
      intro l hl
      have hspan := Extent.move_of_isEmpty (c.emptyBias e) he (hc l hl)
      rw [Extent.closed.inj hspan]
      rfl
    rw [List.map_congr_left hsame, List.map_id]
  · rfl

/-- An edit moves the markers, also if it changes nothing. -/
theorem markers_splice (start stop : Nat) (t : Text) (c : Chunk) :
    (c.splice start stop t).markers = c.markers.map (moveMarker ⟨start, stop - start, t.size⟩) := by
  rw [splice_eq]
  dsimp only
  split
  · next he =>
    have hsame : ∀ m ∈ c.markers, moveMarker ⟨start, stop - start, t.size⟩ m = id m := by
      intro m _
      unfold moveMarker
      split
      · rw [Edit.move_of_isEmpty _ _ he]
        rfl
      · rfl
    rw [List.map_congr_left hsame, List.map_id]
  · rfl

/-- A text that is put at a place moves the mappings. -/
theorem mappings_splice_place (place : Nat) (t : Text) (hc : ∀ m ∈ c.mappings, m.extent.Forward) :
    (c.splice place place t).mappings =
      c.mappings.map (Mapping.move ⟨place, 0, t.size⟩ (Gaps.emptyBias c.endsAt place)) := by
  rw [mappings_splice place place t hc, emptyBias_place, Nat.sub_self]

/-- A text that is put at a place moves the located spans. -/
theorem located_splice_place (place : Nat) (t : Text)
    (hc : ∀ l ∈ c.located, (Extent.closed l.2).Forward) :
    (c.splice place place t).located = c.located.map fun l =>
      (l.1, Edit.moveSpan ⟨place, 0, t.size⟩ (Gaps.emptyBias c.endsAt place) l.2) := by
  rw [located_splice place place t hc, emptyBias_place, Nat.sub_self]

/-- A text that is put at a place moves the markers. -/
theorem markers_splice_place (place : Nat) (t : Text) (c : Chunk) :
    (c.splice place place t).markers = c.markers.map (moveMarker ⟨place, 0, t.size⟩) := by
  rw [markers_splice, Nat.sub_self]

theorem any_eq_any {α : Type} {l : List α} {f g : α → Bool} (h : ∀ x ∈ l, f x = g x) :
    l.any f = l.any g := by
  rw [Bool.eq_iff_iff, List.any_eq_true, List.any_eq_true]
  refine exists_congr fun x => and_congr_right fun hx => ?_
  rw [h x hx]

/-- Something ends at a place with some bytes if it did where the place was before all that is
recorded moved. -/
theorem endsAt_congr {d : Chunk} {f : Mapping → Mapping} {g : Text × Span → Text × Span} {p q : Nat}
    (mappings_eq : d.mappings = c.mappings.map f) (located_eq : d.located = c.located.map g)
    (hf : ∀ m ∈ c.mappings, (f m).extent.endsAt q = m.extent.endsAt p)
    (hg : ∀ l ∈ c.located, (Extent.closed (g l).2).endsAt q = (Extent.closed l.2).endsAt p) :
    d.endsAt q = c.endsAt p := by
  rw [endsAt, endsAt, mappings_eq, located_eq, List.any_map, List.any_map]
  exact congr (congrArg or (any_eq_any hf)) (any_eq_any hg)

/-- A text that is put at some places, the last first, makes gaps of its size for all that is
recorded. -/
theorem recorded_foldr_splice (t : Text) {places : List Nat} (hsorted : places.Pairwise (· < ·))
    (hc : c.Forward) :
    let d := places.foldr (fun place d => d.splice place place t) c
    let g : Gaps := ⟨places, t.size⟩
    d.mappings = c.mappings.map (Mapping.spread g c.endsAt) ∧
      d.located = c.located.map (fun l => (l.1, g.moveSpan c.endsAt l.2)) ∧
      d.markers = c.markers.map (Marker.spread g) := by
  induction places with
  | nil =>
    have hmapping : ∀ m, Mapping.spread ⟨[], t.size⟩ c.endsAt m = m := fun m => by
      rw [Mapping.spread, Extent.spread_nil]
    have hlocated : ∀ l : Text × Span, (l.1, Gaps.moveSpan ⟨[], t.size⟩ c.endsAt l.2) = l :=
      fun l => by rw [Gaps.moveSpan_nil]
    have hmarker : ∀ m, Marker.spread ⟨[], t.size⟩ m = m := fun m => by
      unfold Marker.spread
      split
      · rw [Gaps.move_of_lt .after (by simp)]
      · rfl
    refine ⟨?_, ?_, ?_⟩
    · rw [funext hmapping, List.map_id']
      rfl
    · rw [funext hlocated, List.map_id']
      rfl
    · rw [funext hmarker, List.map_id']
      rfl
  | cons first others ih =>
    obtain ⟨hfirst, hothers⟩ := List.pairwise_cons.1 hsorted
    obtain ⟨hmappings, hlocated, hmarkers⟩ := ih hothers
    let inner := others.foldr (fun place d => d.splice place place t) c
    have hforward : inner.Forward := by
      refine ⟨fun m hm => ?_, fun l hl => ?_⟩
      · rw [hmappings] at hm
        obtain ⟨m', hm', rfl⟩ := List.mem_map.1 hm
        exact (hc.mappings m' hm').spread _ _
      · rw [hlocated] at hl
        obtain ⟨l', hl', rfl⟩ := List.mem_map.1 hl
        exact Extent.Forward.spread (x := .closed l'.2) _ _ (hc.located l' hl')
    -- What ends where the first gap is put has not moved, so it decides as it did at the beginning.
    have hends : inner.endsAt first = c.endsAt first :=
      endsAt_congr hmappings hlocated
        (fun m hm => Extent.endsAt_spread c.endsAt (hc.mappings m hm) hfirst)
        (fun l hl => Extent.endsAt_spread (x := .closed l.2) c.endsAt (hc.located l hl) hfirst)
    have hbias : Gaps.emptyBias inner.endsAt first = Gaps.emptyBias c.endsAt first := by
      rw [Gaps.emptyBias, hends, Gaps.emptyBias]
    have hmappings' := mappings_splice_place first t hforward.mappings
    have hlocated' := located_splice_place first t hforward.located
    rw [hbias] at hmappings' hlocated'
    intro d g
    refine ⟨hmappings'.trans ?_, hlocated'.trans ?_, (markers_splice_place first t inner).trans ?_⟩
    · rw [hmappings, List.map_map]
      refine List.map_congr_left fun m hm => ?_
      exact congrArg (Mapping.mk m.origin)
        (Extent.spread_cons c.endsAt hfirst (hc.mappings m hm)).symm
    · rw [hlocated, List.map_map]
      refine List.map_congr_left fun l hl => ?_
      exact congrArg (Prod.mk l.1) (Gaps.moveSpan_cons c.endsAt hfirst (hc.located l hl)).symm
    · rw [hmarkers, List.map_map]
      refine List.map_congr_left fun m _ => ?_
      obtain ⟨name, offset, side⟩ := m
      cases side with
      | template => rfl
      | generated =>
        exact congrArg (fun offset => Marker.mk name offset .generated)
          (Gaps.move_cons .after offset hfirst).symm

/-! ### Lines -/

/-- A text with an indentation in front of every line with characters but the first. -/
def indented (indentation : Text) : Text → Text
  | [] => []
  | c :: t =>
    if c = '\n' && startsWithContent t then c :: (indentation ++ indented indentation t)
    else c :: indented indentation t

/-- Lines with characters start in the order of the text, behind its start and in front of its end.
-/
theorem contentLineStarts_lt (offset : Nat) (t : Text) :
    (∀ start ∈ contentLineStarts offset t, offset < start ∧ start < offset + t.size) ∧
      (contentLineStarts offset t).Pairwise (· < ·) := by
  induction t generalizing offset with
  | nil => exact ⟨by simp [contentLineStarts], .nil⟩
  | cons c t ih =>
    obtain ⟨hstarts, hsorted⟩ := ih (offset + c.utf8Size)
    have hpos := c.utf8Size_pos
    have hrest : ∀ start ∈ contentLineStarts (offset + c.utf8Size) t,
        offset < start ∧ start < offset + Text.size (c :: t) := by
      intro start hs
      obtain ⟨hlt, hlt'⟩ := hstarts start hs
      rw [Text.size_cons]
      omega
    unfold contentLineStarts
    dsimp only
    split
    · next hcontent =>
      have hne : t ≠ [] := by
        rintro rfl
        simp [startsWithContent] at hcontent
      refine ⟨fun start hs => ?_, .cons (fun start hs => (hstarts start hs).1) hsorted⟩
      rcases List.mem_cons.1 hs with rfl | hs
      · have htpos := Text.size_pos hne
        rw [Text.size_cons]
        omega
      · exact hrest start hs
    · exact ⟨hrest, hsorted⟩

/-- Indentations that are put where lines with characters start make the indented text. -/
theorem text_foldr_splice (indentation front t : Text) (htext : c.text = front ++ t) :
    ((contentLineStarts front.size t).foldr
        (fun start d => d.splice start start indentation) c).text =
      front ++ indented indentation t := by
  induction t generalizing front with
  | nil => exact htext
  | cons x t ih =>
    have hsize : Text.size (front ++ [x]) = front.size + x.utf8Size := by
      rw [Text.size_append, Text.size_cons, Text.size_nil, Nat.add_zero]
    have hrest := ih (front ++ [x]) (by rw [htext, List.append_assoc, List.singleton_append])
    rw [hsize] at hrest
    unfold contentLineStarts indented
    dsimp only
    split
    · rw [List.foldr_cons, text_splice, hrest, ← hsize, Text.takeBytes_size_append,
        Text.dropBytes_size_append]
      simp only [List.append_assoc, List.cons_append, List.nil_append]
    · rw [hrest, List.append_assoc]
      rfl

/-- Indenting the lines of a chunk makes the indented text. -/
theorem text_indentLines (indentation : Text) (c : Chunk) :
    (c.indentLines indentation).text = indented indentation c.text :=
  text_foldr_splice indentation [] c.text rfl

/-- The gaps that an indentation of some size makes in a text. -/
def lineGaps (gap : Nat) (t : Text) : Gaps := ⟨contentLineStarts 0 t, gap⟩

/-- Indenting lines makes gaps where they start. -/
theorem recorded_indentLines (indentation : Text) (hc : c.Forward) :
    let g := lineGaps indentation.size c.text
    (c.indentLines indentation).mappings = c.mappings.map (Mapping.spread g c.endsAt) ∧
      (c.indentLines indentation).located =
        c.located.map (fun l => (l.1, g.moveSpan c.endsAt l.2)) ∧
      (c.indentLines indentation).markers = c.markers.map (Marker.spread g) :=
  recorded_foldr_splice indentation (contentLineStarts_lt 0 c.text).2 hc

/-- The gaps lie in front of the end of the text. -/
theorem places_lineGaps_lt (gap : Nat) (t : Text) :
    ∀ place ∈ (lineGaps gap t).places, place < t.size := fun place hplace => by
  have hlt := ((contentLineStarts_lt 0 t).1 place hplace).2
  omega

/-- The indented text is longer by the gaps. -/
theorem size_indented (indentation : Text) (offset : Nat) (t : Text) :
    Text.size (indented indentation t) =
      t.size + indentation.size * (contentLineStarts offset t).length := by
  induction t generalizing offset with
  | nil => rfl
  | cons x t ih =>
    unfold contentLineStarts indented
    dsimp only
    split
    · rw [Text.size_cons, Text.size_append, ih (offset + x.utf8Size), List.length_cons,
        Text.size_cons, Nat.mul_add, Nat.mul_one]
      omega
    · rw [Text.size_cons, ih (offset + x.utf8Size), Text.size_cons]
      omega

/-- The end of a text goes to the end of the indented text. -/
theorem move_size_lineGaps (indentation : Text) (bias : Bias) (t : Text) :
    (lineGaps indentation.size t).move bias t.size = Text.size (indented indentation t) := by
  rw [Gaps.move, Gaps.before_eq_length bias (places_lineGaps_lt _ t), size_indented _ 0]
  rfl

/-! #### Lines that are put behind others -/

/-- Whether a text ends with a line feed. -/
def endsLine (t : Text) : Bool := t.getLast? == some '\n'

theorem endsLine_cons {t : Text} (x : Char) (hne : t ≠ []) : endsLine (x :: t) = endsLine t := by
  obtain ⟨y, t, rfl⟩ := List.exists_cons_of_ne_nil hne
  rw [endsLine, endsLine, List.getLast?_cons_cons]

/-- What follows a text does not change how it starts, unless it ends between a carriage return and
a line feed. -/
theorem startsWithContent_append {t : Text} (u : Text) (hne : t ≠ []) (hcr : '\r' ∉ t) :
    startsWithContent (t ++ u) = startsWithContent t := by
  obtain ⟨x, t, rfl⟩ := List.exists_cons_of_ne_nil hne
  have hx : x ≠ '\r' := fun heq => hcr (heq ▸ List.mem_cons_self)
  unfold startsWithContent
  simp only [List.cons_append]
  grind

theorem contentLineStarts_cons (offset : Nat) (x : Char) (t : Text) :
    contentLineStarts offset (x :: t) =
      (if x = '\n' && startsWithContent t then [offset + x.utf8Size] else []) ++
        contentLineStarts (offset + x.utf8Size) t := by
  rw [contentLineStarts]
  split <;> rfl

theorem indented_cons (indentation : Text) (x : Char) (t : Text) :
    indented indentation (x :: t) =
      x :: ((if x = '\n' && startsWithContent t then indentation else []) ++
        indented indentation t) := by
  rw [indented]
  split <;> rfl

/-- A text that is put behind another makes a line with characters where it starts, if the other
ends a line and it starts with a character, and makes such lines of its own. -/
theorem lines_append {t : Text} (indentation : Text) (offset : Nat) (u : Text) (hcr : '\r' ∉ t) :
    contentLineStarts offset (t ++ u) =
        contentLineStarts offset t ++
          ((if endsLine t && startsWithContent u then [offset + t.size] else []) ++
            contentLineStarts (offset + t.size) u) ∧
      indented indentation (t ++ u) =
        indented indentation t ++
          ((if endsLine t && startsWithContent u then indentation else []) ++
            indented indentation u) := by
  induction t generalizing offset with
  | nil => exact ⟨rfl, rfl⟩
  | cons x t ih =>
    have hcr' : '\r' ∉ t := fun hmem => hcr (List.mem_cons_of_mem _ hmem)
    obtain ⟨hstarts, hindented⟩ := ih (offset + x.utf8Size) hcr'
    rw [Nat.add_assoc, ← Text.size_cons] at hstarts
    rw [List.cons_append, contentLineStarts_cons, contentLineStarts_cons, indented_cons,
      indented_cons, hstarts, hindented]
    rcases Decidable.em (t = []) with rfl | hne
    · have hends : endsLine [x] = decide (x = '\n') := by
        rw [endsLine, List.getLast?_singleton, Option.some_beq_some, Bool.beq_eq_decide_eq]
      have hnil : startsWithContent [] = false := rfl
      have hends' : endsLine [] = false := rfl
      simp only [hends, hends', hnil, Bool.and_false, Bool.false_and, Bool.false_eq_true, if_false,
        List.nil_append, List.cons_append, Text.size_cons, Text.size_nil, Nat.add_zero,
        contentLineStarts, indented, and_self]
    · rw [startsWithContent_append u hne hcr', endsLine_cons x hne]
      simp only [List.cons_append, List.append_assoc, and_self]

/-- A text without line feeds has one line. -/
theorem lines_of_not_mem {t : Text} (indentation : Text) (offset : Nat) (h : '\n' ∉ t) :
    contentLineStarts offset t = [] ∧ indented indentation t = t := by
  induction t generalizing offset with
  | nil => exact ⟨rfl, rfl⟩
  | cons x t ih =>
    simp only [List.mem_cons, not_or] at h
    obtain ⟨hstarts, hindented⟩ := ih (offset + x.utf8Size) h.2
    have hx : (decide (x = '\n') && startsWithContent t) = false := by
      simp [Ne.symm h.1]
    rw [contentLineStarts_cons, indented_cons, hstarts, hindented, hx]
    exact ⟨rfl, rfl⟩

/-- A text starts with a character, if it has some and no line breaks. -/
theorem startsWithContent_of_not_mem {t : Text} (hne : t ≠ []) (h : '\n' ∉ t) :
    startsWithContent t = true := by
  obtain ⟨x, t, rfl⟩ := List.exists_cons_of_ne_nil hne
  unfold startsWithContent
  grind

end Chunk

end BoundTemplate.Output
