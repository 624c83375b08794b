import BoundTemplate.Proofs.Choosing
import BoundTemplate.Proofs.Output.Snapshot

/-!
# The smallest link

A lookup in a snapshot goes through the links in the order in which they were recorded and
keeps the smallest so far. So it selects, of all links with a property, the first of those
with the fewest bytes on a side, and a link that is selected among all links around an offset
is selected among the verbatim ones as well, if it is verbatim. A link carries offsets into
its other part and never changes their order.
-/

namespace BoundTemplate

namespace Text

/-- Moving back to a place between characters keeps the order of offsets. -/
theorem floor_le_floor {t : Text} {a b : Nat} (h : a ≤ b) : t.floor a ≤ t.floor b :=
  le_floor (isBoundary_floor t a) (Nat.le_trans (floor_le t a) h)

/-- An offset has one position in a text. -/
theorem HasPosition.unique {t : Text} {p q : Position} (hp : t.HasPosition p)
    (hq : t.HasPosition q) (h : p.offset = q.offset) : p = q := by
  have heq := hp.positionAt
  rw [h, hq.positionAt] at heq
  exact (Except.ok.inj heq).symm

end Text

namespace Output

/-! ### Selection -/

/-- A link is selected at its index among others: it has a property, and of all links with that
property it comes first by its size on a side and then by its index. -/
structure Selects (links : List Link) (side : Side) (p : Link → Bool) (index : Nat) (l : Link) :
    Prop where
  found : links[index]? = some l
  holds : p l = true
  first : ∀ (j : Nat) (k : Link), links[j]? = some k → p k = true →
    (l.range side).size < (k.range side).size ∨
      (l.range side).size = (k.range side).size ∧ index ≤ j

namespace Selects

variable {links : List Link} {side : Side} {p q : Link → Bool} {i : Nat} {l : Link}

/-- A link that is selected among some is selected among fewer, if it is one of these. -/
theorem restrict (h : Selects links side p i l) (hq : q l = true)
    (himp : ∀ k, q k = true → p k = true) : Selects links side q i l :=
  ⟨h.found, hq, fun j k hk hqk => h.first j k hk (himp k hqk)⟩

end Selects

namespace Snapshot

variable {s : Snapshot} {side : Side} {p : Link → Bool} {l : Link}

/-- A lookup keeps a link unless the next one is smaller. -/
theorem picks_smaller (side : Side) :
    Picks (fun l k : Link => (l.range side).size ≤ (k.range side).size) (smaller side) where
  trans _ _ _ := Nat.le_trans
  trans_not _ _ _ h h' := by omega
  first _ := rfl
  next _ _ := rfl

/-- To be selected is to be chosen as the first of the smallest. -/
theorem chosen_iff_selects {links : List Link} {index : Nat} :
    Chosen (fun l k : Link => (l.range side).size ≤ (k.range side).size) p links index l ↔
      Selects links side p index l := by
  constructor
  · intro h
    refine ⟨h.found, h.wanted, fun j k hj hk => ?_⟩
    rcases Nat.lt_trichotomy j index with hlt | rfl | hgt
    · exact .inl (Nat.lt_of_not_le (h.front j k hlt hj hk))
    · obtain rfl := Option.some.inj (h.found.symm.trans hj)
      exact .inr ⟨rfl, Nat.le_refl j⟩
    · have := h.behind j k hgt hj hk
      omega
  · intro h
    refine ⟨h.found, h.holds, fun j k hlt hj hk => ?_, fun j k _ hj hk => ?_⟩
    · have := h.first j k hj hk
      omega
    · have := h.first j k hj hk
      omega

/-- The smallest link with a property is the one that is selected. -/
theorem smallest?_eq_some_iff :
    s.smallest? side p = some l ↔ ∃ index, Selects s.links side p index l :=
  (picks_smaller side).foldl_eq_some_iff.trans (exists_congr fun _ => chosen_iff_selects)

theorem smallest?_eq_none_iff :
    s.smallest? side p = none ↔ ∀ l ∈ s.links, p l = false :=
  (picks_smaller side).foldl_eq_none_iff

/-! ### Where a link carries offsets -/

/-- The ranges of the links of a snapshot are ranges of its texts. -/
theorem hasRange_of_mem {c : Chunk} {text : Text} (side : Side)
    (h : l ∈ (ofChunk c text).links) :
    ((ofChunk c text).source side).text.HasRange (l.range side) := by
  obtain ⟨m, -, rfl⟩ := List.mem_map.1 h
  cases side with
  | template => exact hasRange_resolve (.ofText text) _
  | generated => exact hasRange_resolve (.ofText c.text) _

/-- The offset to which a link carries one: as far from the start of its other part, but not past
the end of that, and back to a place between characters. -/
def landing (s : Snapshot) (side : Side) (l : Link) (offset : Nat) : Nat :=
  let here := l.range side
  let there := l.range side.opposite
  (s.source side.opposite).text.floor
    (min (there.start.offset + (offset - here.start.offset)) there.stop.offset)

/-- A link carries an offset behind its start to a position of the other text. -/
theorem carry?_eq_some {offset : Nat} (h : (l.range side).start.offset ≤ offset) :
    ∃ p, s.carry? side l offset = some p ∧ (s.source side.opposite).text.HasPosition p ∧
      p.offset = s.landing side l offset := by
  have hfloor := Text.isBoundary_floor (s.source side.opposite).text
    (min ((l.range side.opposite).start.offset + (offset - (l.range side).start.offset))
      (l.range side.opposite).stop.offset)
  refine ⟨_, if_pos h, (s.source side.opposite).hasPosition hfloor, ?_⟩
  exact Nat.min_eq_left (Text.floor_le_size _ _)

/-- It goes into the other part of the link. -/
theorem contains_landing (hthere : (s.source side.opposite).text.HasRange (l.range side.opposite))
    (offset : Nat) : (l.range side.opposite).contains (s.landing side l offset) = true := by
  refine Span.contains_iff.2 ⟨?_, ?_⟩
  · refine Text.le_floor hthere.start.isBoundary ?_
    exact Nat.le_min.2 ⟨Nat.le_add_right _ _, hthere.start_le_stop⟩
  · exact Nat.le_trans (Text.floor_le _ _) (Nat.min_le_right _ _)

/-- Links do not change the order of offsets. -/
theorem landing_le_landing {a b : Nat} (h : a ≤ b) :
    s.landing side l a ≤ s.landing side l b := by
  refine Text.floor_le_floor ?_
  omega

/-! ### Lookups of offsets -/

/-- Links around an offset. -/
def around (side : Side) (offset : Nat) (l : Link) : Bool := (l.range side).contains offset

/-- Verbatim links around a span. -/
def verbatimAround (side : Side) (span : Span) (l : Link) : Bool :=
  l.verbatim && (l.range side).span.containsSpan span

/-- A link around a span carries every offset behind the start of the span to a position. -/
theorem exists_carry {span : Span} {index offset : Nat}
    (h : Selects s.links side (verbatimAround side span) index l) (hle : span.start ≤ offset) :
    ∃ p, s.carry? side l offset = some p ∧ (s.source side.opposite).text.HasPosition p ∧
      p.offset = s.landing side l offset := by
  have hcontains := Span.containsSpan_iff.1 (Bool.and_eq_true_iff.1 h.holds).2
  exact carry?_eq_some (Nat.le_trans hcontains.1 hle)

/-- The counterpart of an offset is where the link that is selected among the verbatim ones around
it carries it. -/
theorem counterpart?_eq_some_iff {offset : Nat} {position : Position} :
    s.counterpart? side offset = some position ↔
      ∃ index l, Selects s.links side (verbatimAround side (Span.empty offset)) index l ∧
        (s.source side.opposite).text.HasPosition position ∧
        position.offset = s.landing side l offset := by
  constructor
  · intro h
    obtain ⟨l, hl, hposition⟩ := Option.bind_eq_some_iff.1 h
    obtain ⟨index, hselects⟩ := smallest?_eq_some_iff.1 hl
    obtain ⟨p, hp, hhas, hoffset⟩ := exists_carry hselects (Nat.le_of_eq (Span.start_empty offset))
    obtain rfl := Option.some.inj (hp.symm.trans hposition)
    exact ⟨index, l, hselects, hhas, hoffset⟩
  · rintro ⟨index, l, hselects, hhas, hoffset⟩
    obtain ⟨p, hp, hhas', hoffset'⟩ :=
      exists_carry hselects (Nat.le_of_eq (Span.start_empty offset))
    obtain rfl := hhas.unique hhas' (hoffset.trans hoffset'.symm)
    exact Option.bind_eq_some_iff.2 ⟨l, smallest?_eq_some_iff.2 ⟨index, hselects⟩, hp⟩

/-- Whatever a snapshot is made of and whatever the offset is: it is blamed on the other part of
the smallest link around it, of links of one size the first, and on none if no link is around it;
its counterpart is where the link that is selected in the same way among the verbatim ones carries
it, which lies in the other part of that link. If the link that is blamed is verbatim, the offset
has a counterpart and that lies in what is blamed. -/
theorem lookups_of_smallest (c : Chunk) (text : Text) (side : Side) (offset : Nat) :
    let s := ofChunk c text
    let verbatim := verbatimAround side (Span.empty offset)
    (s.blame? side offset = none ↔ ∀ l ∈ s.links, (l.range side).contains offset = false) ∧
      (∀ r, s.blame? side offset = some r ↔
        ∃ index l, Selects s.links side (around side offset) index l ∧
          r = l.range side.opposite) ∧
      (∀ p, s.counterpart? side offset = some p ↔
        ∃ index l, Selects s.links side verbatim index l ∧
          (s.source side.opposite).text.HasPosition p ∧ p.offset = s.landing side l offset) ∧
      (∀ index l, Selects s.links side verbatim index l →
        (l.range side.opposite).contains (s.landing side l offset) = true) ∧
      ∀ index l, Selects s.links side (around side offset) index l → l.verbatim = true →
        ∃ p, s.counterpart? side offset = some p ∧
          (l.range side.opposite).contains p.offset = true := by
  intro s verbatim
  have hinside {index : Nat} {l : Link} {p : Link → Bool} (h : Selects s.links side p index l) :
      (l.range side.opposite).contains (s.landing side l offset) = true :=
    contains_landing (hasRange_of_mem side.opposite (List.mem_of_getElem? h.found)) offset
  refine ⟨?_, fun r => ?_, fun p => counterpart?_eq_some_iff, fun index l h => hinside h,
    fun index l h hverbatim => ?_⟩
  · rw [blame?, Option.map_eq_none_iff]
    exact smallest?_eq_none_iff
  · rw [blame?, Option.map_eq_some_iff]
    constructor
    · rintro ⟨l, hl, rfl⟩
      obtain ⟨index, hselects⟩ := smallest?_eq_some_iff.1 hl
      exact ⟨index, l, hselects, rfl⟩
    · rintro ⟨index, l, hselects, rfl⟩
      exact ⟨l, smallest?_eq_some_iff.2 ⟨index, hselects⟩, rfl⟩
  · -- The verbatim links around the offset are some of the links around it.
    have hselects : Selects s.links side verbatim index l :=
      h.restrict (Bool.and_eq_true_iff.2 ⟨hverbatim, h.holds⟩)
        fun k hk => (Bool.and_eq_true_iff.1 hk).2
    obtain ⟨p, -, hhas, hoffset⟩ := carry?_eq_some (s := s) (Span.contains_iff.1 h.holds).1
    refine ⟨p, counterpart?_eq_some_iff.2 ⟨index, l, hselects, hhas, hoffset⟩, ?_⟩
    rw [hoffset]
    exact hinside h

/-- Two links of one size touch at an offset, around which a larger one lies that is not verbatim.
The first of them carries the offset into a character. -/
theorem lookups_of_smallest_touching :
    let c : Chunk := { text := "abcdef".toList, mappings :=
      [⟨⟨⟨0, 4⟩, false, none⟩, .closed ⟨0, 6⟩⟩, ⟨⟨⟨0, 3⟩, true, none⟩, .closed ⟨2, 4⟩⟩,
        ⟨⟨⟨3, 4⟩, true, none⟩, .closed ⟨4, 6⟩⟩] }
    let s := ofChunk c "xéz".toList
    let l : Link := ⟨⟨⟨0, 0, 0⟩, ⟨0, 3, 3⟩⟩, ⟨⟨0, 2, 2⟩, ⟨0, 4, 4⟩⟩, true, none⟩
    Selects s.links .generated (around .generated 4) 1 l ∧
      s.blame? .generated 4 = some l.template ∧ s.landing .generated l 4 = 1 ∧
      ∃ p, s.counterpart? .generated 4 = some p ∧ l.template.contains p.offset = true := by
  intro c s l
  obtain ⟨-, hblame, -, -, hverbatim⟩ := lookups_of_smallest c "xéz".toList .generated 4
  have hlinks : s.links = [⟨⟨⟨0, 0, 0⟩, ⟨0, 4, 4⟩⟩, ⟨⟨0, 0, 0⟩, ⟨0, 6, 6⟩⟩, false, none⟩, l,
      ⟨⟨⟨0, 3, 3⟩, ⟨0, 4, 4⟩⟩, ⟨⟨0, 4, 4⟩, ⟨0, 6, 6⟩⟩, true, none⟩] := by decide +kernel
  have hselects : Selects s.links .generated (around .generated 4) 1 l := by
    rw [hlinks]
    refine ⟨rfl, rfl, fun j k hj _ => ?_⟩
    match j, hj with
    | 0, rfl => exact .inl (by decide)
    | 1, rfl => exact .inr ⟨rfl, Nat.le_refl 1⟩
    | 2, rfl => exact .inr ⟨rfl, by decide⟩
  exact ⟨hselects, (hblame _).2 ⟨1, l, hselects, rfl⟩, by decide +kernel,
    hverbatim 1 l hselects rfl⟩

/-! ### Lookups of spans -/

/-- A selected link around a span gives it a counterpart, whose ends are where the link carries
those of the span. -/
theorem exists_counterpartSpan? {span : Span} {index : Nat} (h : span.start ≤ span.stop)
    (hselects : Selects s.links side (verbatimAround side span) index l) :
    ∃ r, s.counterpartSpan? side span = some r ∧
      (s.source side.opposite).text.HasPosition r.start ∧
      (s.source side.opposite).text.HasPosition r.stop ∧
      r.span = ⟨s.landing side l span.start, s.landing side l span.stop⟩ := by
  obtain ⟨start, hstart, hhas, hoffset⟩ := exists_carry hselects (Nat.le_refl span.start)
  obtain ⟨stop, hstop, hhas', hoffset'⟩ := exists_carry hselects h
  refine ⟨⟨start, stop⟩, ?_, hhas, hhas', ?_⟩
  · refine Option.bind_eq_some_iff.2 ⟨l, smallest?_eq_some_iff.2 ⟨index, hselects⟩, ?_⟩
    rw [hstart, hstop]
    rfl
  · rw [← hoffset, ← hoffset']
    rfl

/-- A counterpart of a span comes from a selected link. -/
theorem exists_selects_of_counterpartSpan? {span : Span} {r : Range}
    (h : s.counterpartSpan? side span = some r) :
    ∃ index l, Selects s.links side (verbatimAround side span) index l := by
  obtain ⟨l, hl, -⟩ := Option.bind_eq_some_iff.1 h
  obtain ⟨index, hselects⟩ := smallest?_eq_some_iff.1 hl
  exact ⟨index, l, hselects⟩

/-- A span has a counterpart exactly if a verbatim link is around all of it. -/
theorem isSome_counterpartSpan?_iff {span : Span} (h : span.start ≤ span.stop) :
    (s.counterpartSpan? side span).isSome = true ↔
      ∃ l ∈ s.links, l.verbatim = true ∧ (l.range side).span.containsSpan span = true := by
  constructor
  · intro hsome
    obtain ⟨r, hr⟩ := Option.isSome_iff_exists.1 hsome
    obtain ⟨index, l, hselects⟩ := exists_selects_of_counterpartSpan? hr
    exact ⟨l, List.mem_of_getElem? hselects.found, Bool.and_eq_true_iff.1 hselects.holds⟩
  · rintro ⟨l, hl, haround⟩
    have hne : s.smallest? side (verbatimAround side span) ≠ none := fun hnone =>
      Bool.eq_false_iff.1 (smallest?_eq_none_iff.1 hnone l hl) (Bool.and_eq_true_iff.2 haround)
    obtain ⟨l', hl'⟩ := Option.ne_none_iff_exists'.1 hne
    obtain ⟨index, hselects⟩ := smallest?_eq_some_iff.1 hl'
    obtain ⟨r, hr, -⟩ := exists_counterpartSpan? h hselects
    exact Option.isSome_iff_exists.2 ⟨r, hr⟩

/-- The ends of a counterpart are in order and between characters, and it lies in the other part of
the selected link. -/
theorem hasRange_of_counterpartSpan? {c : Chunk} {text : Text} {span : Span} {r : Range}
    (h : span.start ≤ span.stop) (hr : (ofChunk c text).counterpartSpan? side span = some r) :
    ((ofChunk c text).source side.opposite).text.HasRange r ∧
      ∃ index l, Selects (ofChunk c text).links side (verbatimAround side span) index l ∧
        (l.range side.opposite).containsRange r = true := by
  obtain ⟨index, l, hselects⟩ := exists_selects_of_counterpartSpan? hr
  obtain ⟨r', hr', hstart, hstop, hspan⟩ := exists_counterpartSpan? h hselects
  obtain rfl := Option.some.inj (hr.symm.trans hr')
  have hthere := hasRange_of_mem side.opposite (List.mem_of_getElem? hselects.found)
  have hle : r.span.start ≤ r.span.stop := by
    rw [hspan]
    exact landing_le_landing h
  refine ⟨⟨hstart, hstop, hle, Text.le_size_of_isBoundary hstop.isBoundary⟩, index, l, hselects,
    Span.containsSpan_iff.2 ?_⟩
  rw [hspan]
  exact ⟨(Span.contains_iff.1 (contains_landing hthere span.start)).1,
    (Span.contains_iff.1 (contains_landing hthere span.stop)).2⟩

/-- Of two spans for which one link is selected, the counterpart of the larger one is larger. -/
theorem counterpartSpan?_mono {span larger : Span} {index : Nat} (h : span.start ≤ span.stop)
    (hlarger : larger.containsSpan span = true)
    (hl : Selects s.links side (verbatimAround side span) index l)
    (hl' : Selects s.links side (verbatimAround side larger) index l) :
    ∃ r r', s.counterpartSpan? side span = some r ∧ s.counterpartSpan? side larger = some r' ∧
      r'.containsRange r = true := by
  obtain ⟨hle, hle'⟩ := Span.containsSpan_iff.1 hlarger
  obtain ⟨r, hr, -, -, hspan⟩ := exists_counterpartSpan? h hl
  obtain ⟨r', hr', -, -, hspan'⟩ := exists_counterpartSpan? (by omega) hl'
  refine ⟨r, r', hr, hr', Span.containsSpan_iff.2 ?_⟩
  rw [hspan, hspan']
  exact ⟨landing_le_landing hle, landing_le_landing hle'⟩

/-- A span without bytes goes where its offset goes. -/
theorem counterpartSpan?_empty (s : Snapshot) (side : Side) (offset : Nat) :
    s.counterpartSpan? side ⟨offset, offset⟩ =
      (s.counterpart? side offset).map Range.empty := by
  rw [counterpartSpan?, counterpart?]
  change (s.smallest? side (verbatimAround side ⟨offset, offset⟩)).bind _ =
    ((s.smallest? side (verbatimAround side ⟨offset, offset⟩)).bind _).map _
  cases s.smallest? side (verbatimAround side ⟨offset, offset⟩) with
  | none => rfl
  | some l =>
    simp only [Option.bind_some]
    cases s.carry? side l offset with
    | none => rfl
    | some p => rfl

/-- Whatever a snapshot is made of: a span has a counterpart exactly if a verbatim link is around
all of it. The counterpart is a range of the other text, in the other part of the smallest of these
links, of links of one size the first. Of two spans for which one link is selected, the counterpart
of a larger one contains that of the other, and the counterpart of a span without bytes is the
counterpart of its offset. -/
theorem span_lookups_of_smallest (c : Chunk) (text : Text) (side : Side) {span : Span}
    (h : span.start ≤ span.stop) :
    let s := ofChunk c text
    ((s.counterpartSpan? side span).isSome = true ↔
        ∃ l ∈ s.links, l.verbatim = true ∧ (l.range side).span.containsSpan span = true) ∧
      (∀ r, s.counterpartSpan? side span = some r →
        (s.source side.opposite).text.HasRange r ∧
          ∃ index l, Selects s.links side (verbatimAround side span) index l ∧
            (l.range side.opposite).containsRange r = true) ∧
      (∀ larger : Span, larger.containsSpan span = true → ∀ index l,
        Selects s.links side (verbatimAround side span) index l →
        Selects s.links side (verbatimAround side larger) index l →
        ∃ r r', s.counterpartSpan? side span = some r ∧ s.counterpartSpan? side larger = some r' ∧
          r'.containsRange r = true) ∧
      (span.start = span.stop →
        s.counterpartSpan? side span = (s.counterpart? side span.start).map Range.empty) := by
  intro s
  refine ⟨isSome_counterpartSpan?_iff h, fun r hr => hasRange_of_counterpartSpan? h hr,
    fun larger hlarger index l hl hl' => counterpartSpan?_mono h hlarger hl hl', fun hempty => ?_⟩
  obtain ⟨start, stop⟩ := span
  obtain rfl : start = stop := hempty
  exact counterpartSpan?_empty s side start

/-- A span at the end of a link is made larger by the byte in front of it; both go to the characters
in front of the one that the end of the link is carried into. -/
theorem span_lookups_of_smallest_at_end :
    let c : Chunk := { text := "abcdef".toList, mappings :=
      [⟨⟨⟨0, 4⟩, false, none⟩, .closed ⟨0, 6⟩⟩, ⟨⟨⟨0, 3⟩, true, none⟩, .closed ⟨2, 4⟩⟩] }
    let s := ofChunk c "xéz".toList
    (s.counterpartSpan? .generated ⟨3, 4⟩).isSome = true ∧
      ∃ r r', s.counterpartSpan? .generated ⟨3, 4⟩ = some r ∧
        s.counterpartSpan? .generated ⟨2, 4⟩ = some r' ∧ r'.containsRange r = true := by
  intro c s
  let l : Link := ⟨⟨⟨0, 0, 0⟩, ⟨0, 3, 3⟩⟩, ⟨⟨0, 2, 2⟩, ⟨0, 4, 4⟩⟩, true, none⟩
  have hlinks : s.links =
      [⟨⟨⟨0, 0, 0⟩, ⟨0, 4, 4⟩⟩, ⟨⟨0, 0, 0⟩, ⟨0, 6, 6⟩⟩, false, none⟩, l] := by decide +kernel
  have hselects (span : Span) (hspan : verbatimAround .generated span l = true) :
      Selects s.links .generated (verbatimAround .generated span) 1 l := by
    rw [hlinks]
    refine ⟨rfl, hspan, fun j k hj hk => ?_⟩
    match j, hj with
    | 0, rfl => cases hk
    | 1, rfl => exact .inr ⟨rfl, Nat.le_refl 1⟩
  obtain ⟨hsome, -, hlarger, -⟩ :=
    span_lookups_of_smallest c "xéz".toList .generated (show (Span.mk 3 4).start ≤ 4 by decide)
  exact ⟨hsome.2 ⟨l, by rw [hlinks]; exact .tail _ (.head _), rfl, rfl⟩,
    hlarger ⟨2, 4⟩ rfl 1 l (hselects _ rfl) (hselects _ rfl)⟩

end Snapshot

end Output

end BoundTemplate
