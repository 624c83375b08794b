import BoundTemplate.Output.Snapshot
import BoundTemplate.Proofs.Binding.Spread

/-!
# Looking up counterparts

If no two of the links of a snapshot that are copied word for word meet on a side, an
offset of a link has its counterpart in that link. Where both parts of the link are the
same text, the counterpart lies at the same place in that text.
-/

namespace BoundTemplate.Output

/-- Of things whose spans lie one behind the other, only one is around an offset. -/
theorem filter_contains_eq {α : Type} (span : α → Span) {items : List α} {x : α} {offset : Nat}
    (hsorted : items.Pairwise fun x y => (span x).stop < (span y).start) (hx : x ∈ items)
    (hc : (span x).contains offset = true) :
    items.filter (fun y => (span y).contains offset) = [x] := by
  obtain ⟨hstart, hstop⟩ := Span.contains_iff.1 hc
  induction items with
  | nil => cases hx
  | cons y items ih =>
    obtain ⟨hfirst, hrest⟩ := List.pairwise_cons.1 hsorted
    rcases List.mem_cons.1 hx with rfl | hx
    · have hnone : items.filter (fun y => (span y).contains offset) = [] := by
        refine List.filter_eq_nil_iff.2 fun z hz hcz => ?_
        have hlt := hfirst z hz
        have hz := (Span.contains_iff.1 hcz).1
        omega
      rw [List.filter_cons, if_pos hc, hnone]
    · have hnot : ¬(span y).contains offset = true := by
        intro hcy
        have hlt := hfirst x hx
        have hy := (Span.contains_iff.1 hcy).2
        omega
      rw [List.filter_cons, if_neg hnot]
      exact ih hrest hx

namespace Snapshot

variable {s : Snapshot} {side : Side} {l : Link}

/-- The stretch that a resolved span takes. -/
theorem span_resolve (source : Source) (span : Span) :
    (resolve source span).span = source.stretch span :=
  Source.span_range (source.start_le_stop_stretch span)
    (Nat.max_le.2 ⟨Text.floor_le_size _ _, Text.floor_le_size _ _⟩)

/-- The links that are copied word for word. -/
def verbatimLinks (s : Snapshot) : List Link := s.links.filter (·.verbatim)

/-- No two of the links that are copied word for word meet on a side. -/
def Separate (s : Snapshot) (side : Side) : Prop :=
  s.verbatimLinks.Pairwise fun l l' => (l.range side).span.stop < (l'.range side).span.start

/-- Two offsets, one of the template and one of the generated text, are the counterparts of each
other. -/
def Mirrors (s : Snapshot) (template generated : Nat) : Prop :=
  (s.counterpart? .template template).map (·.offset) = some generated ∧
    (s.counterpart? .generated generated).map (·.offset) = some template

/-- The only link around an offset is the smallest. -/
theorem smallest?_eq {offset : Nat} (hseparate : s.Separate side) (hl : l ∈ s.verbatimLinks)
    (hc : (l.range side).contains offset = true) :
    s.smallest? side (fun l => l.verbatim && (l.range side).contains offset) = some l := by
  have honly := filter_contains_eq (fun l : Link => (l.range side).span) hseparate hl hc
  have hfilter : s.links.filter (fun l => l.verbatim && (l.range side).contains offset) = [l] := by
    rw [← honly, verbatimLinks, List.filter_filter]
    congr 1
    funext l
    exact Bool.and_comm _ _
  rw [smallest?, hfilter]
  rfl

/-- A link carries an offset to the same place in a text that stands in its other part. -/
theorem offset_carry? {part : Text} {n : Nat}
    (holds : (s.source side.opposite).text.Holds (l.range side.opposite).span part)
    (hn : part.isBoundary n = true) :
    (s.carry? side l ((l.range side).span.start + n)).map (·.offset) =
      some ((l.range side.opposite).span.start + n) := by
  let there := (l.range side.opposite).span
  have hstop : there.stop = there.start + part.size := holds.stop_eq
  have hle := Text.le_size_of_isBoundary hn
  have hsize : there.stop ≤ (s.source side.opposite).text.size := holds.stop_le_size
  have hplace : min (there.start + n) there.stop = there.start + n := by omega
  have hfloor : (s.source side.opposite).text.floor (there.start + n) = there.start + n :=
    Text.floor_eq_of_isBoundary (holds.isBoundary_add hn)
  have hoffset : min (there.start + n) (s.source side.opposite).text.size = there.start + n := by
    omega
  unfold carry?
  dsimp only
  rw [if_pos (Nat.le_add_right _ _), Nat.add_sub_cancel_left, Option.map_some]
  change some (min ((s.source side.opposite).text.floor (min (there.start + n) there.stop))
    (s.source side.opposite).text.size) = some (there.start + n)
  rw [hplace, hfloor, hoffset]

/-- In a link between two copies of a text, the counterpart of an offset lies at the same place in
the other copy. -/
theorem offset_counterpart? {part : Text} {n : Nat} (hseparate : s.Separate side)
    (hl : l ∈ s.verbatimLinks)
    (holds : ∀ side, (s.source side).text.Holds (l.range side).span part)
    (hn : part.isBoundary n = true) :
    (s.counterpart? side ((l.range side).span.start + n)).map (·.offset) =
      some ((l.range side.opposite).span.start + n) := by
  have hstop := (holds side).stop_eq
  have hle := Text.le_size_of_isBoundary hn
  have hc : (l.range side).contains ((l.range side).span.start + n) = true := by
    refine Span.contains_iff.2 ⟨Nat.le_add_right _ _, ?_⟩
    rw [hstop]
    exact Nat.add_le_add_left hle _
  rw [counterpart?, smallest?_eq hseparate hl hc]
  exact offset_carry? (holds side.opposite) hn

/-- In a link between two copies of a text, the offsets at the same place in both copies are the
counterparts of each other. -/
theorem mirrors_of_holds {part : Text} {n : Nat} (hseparate : ∀ side, s.Separate side)
    (hl : l ∈ s.verbatimLinks)
    (holds : ∀ side, (s.source side).text.Holds (l.range side).span part)
    (hn : part.isBoundary n = true) :
    s.Mirrors (l.template.span.start + n) (l.generated.span.start + n) :=
  ⟨offset_counterpart? (hseparate .template) hl holds hn,
    offset_counterpart? (hseparate .generated) hl holds hn⟩

end Snapshot

end BoundTemplate.Output
