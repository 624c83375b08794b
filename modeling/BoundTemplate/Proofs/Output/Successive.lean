import BoundTemplate.Proofs.Output.Revision

/-!
# Edits one after the other

A text that is put in and removed again leaves nothing behind: wherever an offset goes that
lies at its place, the removal brings it back. And of two edits with some text between them
it does not matter which is made first, if the one behind the other is made where its text
then is: neither changes what ends with some bytes where the other puts text, so spans
without bytes take the same side.
-/

namespace BoundTemplate.Output

/-! ### Offsets and spans -/

namespace Edit

variable {e first second : Edit} {s : Span}

/-- An edit that is made farther behind moves offsets that are farther behind in the same way. -/
theorem move_add (start removed inserted k : Nat) (bias : Bias) (p : Nat) :
    Edit.move ⟨start + k, removed, inserted⟩ bias (p + k) =
      Edit.move ⟨start, removed, inserted⟩ bias p + k := by
  let e : Edit := ⟨start, removed, inserted⟩
  let e' : Edit := ⟨start + k, removed, inserted⟩
  have hstop : e'.stop = e.stop + k := Nat.add_right_comm start k removed
  rcases Nat.lt_or_ge p start with hlt | hstart
  · have hlt' : p + k < e'.start := Nat.add_lt_add_right hlt k
    rw [move_of_lt bias hlt', move_of_lt bias hlt]
  rcases Nat.lt_or_ge e.stop p with hgt | hle
  · have hgt' : e'.stop < p + k := hstop ▸ Nat.add_lt_add_right hgt k
    have hremoved : start + removed < p := hgt
    rw [move_of_gt bias hgt', move_of_gt bias hgt]
    dsimp only [e, e']
    omega
  · have hle' : p + k ≤ e'.stop := hstop ▸ Nat.add_le_add_right hle k
    rw [move_eq_of_at bias (Nat.add_le_add_right hstart k) hle', move_eq_of_at bias hstart hle,
      hstop]
    dsimp only [e, e']
    repeat' split
    all_goals omega

/-- Removing what was put in brings every offset back, whatever the sides are. -/
theorem move_remove_insert (place n : Nat) (a b : Bias) (p : Nat) :
    Edit.move ⟨place, n, 0⟩ b (Edit.move ⟨place, 0, n⟩ a p) = p := by
  rcases Nat.lt_trichotomy p place with hlt | rfl | hgt
  · rw [move_of_lt a hlt, move_of_lt b hlt]
  · obtain ⟨hstart, hstop⟩ := move_of_at (e := ⟨p, 0, n⟩) a (Nat.le_refl p) (Nat.le_refl p)
    obtain ⟨hback, hback'⟩ := move_of_at (e := ⟨p, n, 0⟩) b hstart hstop
    exact Nat.le_antisymm hback' hback
  · have hbehind : place + n < p - 0 + n := by omega
    rw [move_of_gt a hgt, move_of_gt b hbehind]
    dsimp only
    omega

/-- Removing what was put in brings every span back: it has had bytes all along, or none. -/
theorem moveSpan_remove_insert (place n : Nat) (a b : Bias) (h : s.start ≤ s.stop) :
    Edit.moveSpan ⟨place, n, 0⟩ b (Edit.moveSpan ⟨place, 0, n⟩ a s) = s := by
  rcases Nat.lt_or_eq_of_le h with hlt | heq
  · have hinserted : Edit.move ⟨place, 0, n⟩ .after s.start <
        Edit.move ⟨place, 0, n⟩ .before s.stop := by
      refine Nat.lt_of_le_of_ne (move_le_move_of_le h (.inr (.inr hlt))) fun hcollapse => ?_
      -- A span that had lost its bytes could not get them back.
      have hback := congrArg (Edit.move ⟨place, n, 0⟩ .after) hcollapse
      rw [move_remove_insert, move_remove_insert] at hback
      exact Nat.ne_of_lt hlt hback
    rw [moveSpan_of_lt a hlt, moveSpan_of_lt b hinserted, move_remove_insert, move_remove_insert]
  · rw [moveSpan_of_eq a heq, moveSpan_of_eq b rfl, Span.start_empty, move_remove_insert]
    exact congrArg (Span.mk s.start) heq

/-- An edit behind another one, where its text is once the other is made. -/
def behind (second first : Edit) : Edit :=
  { second with start := second.start + first.inserted - first.removed }

/-- An offset that does not lie behind an edit stays in front of an edit behind it. -/
theorem move_lt_behind (h : first.stop < second.start) (bias : Bias) {p : Nat}
    (hp : p ≤ first.stop) : first.move bias p < (second.behind first).start := by
  have hle := move_le_stop bias hp
  unfold stop at h
  dsimp only [behind]
  omega

/-- An offset behind an edit stays so under an edit that is behind as well. -/
theorem stop_lt_move (h : first.stop < second.start) (bias : Bias) {p : Nat}
    (hp : first.stop < p) : first.stop < second.move bias p := by
  rcases Nat.lt_or_ge p second.start with hlt | hle
  · rwa [move_of_lt bias hlt]
  · exact Nat.lt_of_lt_of_le h (start_le_move bias hle)

/-- Two edits with some text between them move an offset to the same place in either order. -/
theorem move_comm (h : first.stop < second.start) (a b : Bias) (p : Nat) :
    first.move a (second.move b p) = (second.behind first).move b (first.move a p) := by
  rcases Nat.lt_or_ge first.stop p with hlt | hle
  · rw [move_of_gt a (stop_lt_move h b hlt), move_of_gt a hlt]
    unfold stop at h hlt
    -- Both sides are one move, which is shifted by the bytes that the first edit puts in.
    obtain ⟨k, hk⟩ := Nat.exists_eq_add_of_le' (show first.removed ≤ second.start by omega)
    obtain ⟨q, rfl⟩ := Nat.exists_eq_add_of_le' (show first.removed ≤ p by omega)
    obtain ⟨start, removed, inserted⟩ := second
    dsimp only at hk
    have hbehind : behind ⟨start, removed, inserted⟩ first =
        ⟨k + first.inserted, removed, inserted⟩ := by
      rw [behind, hk]
      dsimp only
      congr 1
      omega
    rw [hbehind, hk, move_add, Nat.add_sub_cancel, Nat.add_sub_cancel, move_add]
  · rw [move_of_lt b (Nat.lt_of_le_of_lt hle h), move_of_lt b (move_lt_behind h a hle)]

/-- A span goes where its ends go, if it has bytes or lies where all sides are one. -/
theorem moveSpan_of_sides {empty : Bias} (h : s.start ≤ s.stop)
    (hsides : s.start = s.stop → ∀ bias, e.move bias s.start = e.move empty s.start) :
    e.moveSpan empty s = ⟨e.move .after s.start, e.move .before s.stop⟩ := by
  rcases Nat.lt_or_eq_of_le h with hlt | heq
  · exact moveSpan_of_lt empty hlt
  · rw [moveSpan_of_eq empty heq, ← heq, hsides heq .after, hsides heq .before]
    rfl

/-- A span with bytes that loses them with an edit goes to a place at or behind the edit. -/
theorem start_le_of_collapse (h : s.start < s.stop)
    (hcollapse : e.move .after s.start = e.move .before s.stop) :
    e.start ≤ e.move .after s.start := by
  rcases Nat.lt_or_ge s.stop e.start with hlt | hle
  · rw [move_of_lt .after (Nat.lt_trans h hlt), move_of_lt .before hlt] at hcollapse
    exact absurd hcollapse (Nat.ne_of_lt h)
  · rw [hcollapse]
    exact start_le_move .before hle

/-- So a span that loses its bytes was touched by the edit. -/
theorem start_le_stop_of_collapse (h : s.start < s.stop)
    (hcollapse : e.move .after s.start = e.move .before s.stop) : s.start ≤ e.stop := by
  refine Nat.le_of_not_lt fun hlt => ?_
  rw [move_of_gt .after hlt, move_of_gt .before (Nat.lt_trans hlt h)] at hcollapse
  unfold stop at hlt
  omega

/-- Two edits with some text between them move a span to the same place in either order. -/
theorem moveSpan_comm (h : first.stop < second.start) (a b : Bias) (hs : s.start ≤ s.stop) :
    first.moveSpan a (second.moveSpan b s) =
      (second.behind first).moveSpan b (first.moveSpan a s) := by
  rcases Nat.lt_or_eq_of_le hs with hlt | heq
  · -- A span that loses its bytes with one edit lies where the other has one side only.
    have hfront : first.moveSpan a (second.moveSpan b s) =
        ⟨first.move .after (second.move .after s.start),
          first.move .before (second.move .before s.stop)⟩ := by
      have hle : second.move .after s.start ≤ second.move .before s.stop :=
        move_le_move_of_le hs (.inr (.inr hlt))
      rw [moveSpan_of_lt b hlt]
      refine moveSpan_of_sides hle fun hcollapse bias => ?_
      have hgt := Nat.lt_of_lt_of_le h (start_le_of_collapse hlt hcollapse)
      dsimp only
      rw [move_of_gt bias hgt, move_of_gt a hgt]
    have hback : (second.behind first).moveSpan b (first.moveSpan a s) =
        ⟨(second.behind first).move .after (first.move .after s.start),
          (second.behind first).move .before (first.move .before s.stop)⟩ := by
      have hle : first.move .after s.start ≤ first.move .before s.stop :=
        move_le_move_of_le hs (.inr (.inr hlt))
      rw [moveSpan_of_lt a hlt]
      refine moveSpan_of_sides hle fun hcollapse bias => ?_
      have hlt' := move_lt_behind h .after (start_le_stop_of_collapse hlt hcollapse)
      dsimp only
      rw [move_of_lt bias hlt', move_of_lt b hlt']
    rw [hfront, hback, move_comm h, move_comm h]
  · rw [moveSpan_of_eq b heq, moveSpan_of_eq a heq, moveSpan_of_eq a rfl, moveSpan_of_eq b rfl,
      Span.start_empty, Span.start_empty, move_comm h]

end Edit

/-! ### What is recorded -/

namespace Extent

variable {e first second : Edit} {empty : Bias} {x : Extent} {p : Nat}

theorem Forward.move (e : Edit) (empty : Bias) (h : x.Forward) : (x.move e empty).Forward := by
  cases x with
  | running start => trivial
  | closed s => exact Edit.start_moveSpan_le_stop empty h

theorem move_remove_insert (place n : Nat) (a b : Bias) (h : x.Forward) :
    (x.move ⟨place, 0, n⟩ a).move ⟨place, n, 0⟩ b = x := by
  cases x with
  | running start => exact congrArg running (Edit.move_remove_insert place n .after .after start)
  | closed s => exact congrArg closed (Edit.moveSpan_remove_insert place n a b h)

theorem move_comm (h : first.stop < second.start) (a b : Bias) (hx : x.Forward) :
    (x.move second b).move first a = (x.move first a).move (second.behind first) b := by
  cases x with
  | running start => exact congrArg running (Edit.move_comm h .after .after start)
  | closed s => exact congrArg closed (Edit.moveSpan_comm h a b hx)

/-- What has ended with some bytes, and where. -/
theorem endsAt_closed_iff {s : Span} (h : s.start ≤ s.stop) :
    (closed s).endsAt p = true ↔ s.start < s.stop ∧ s.stop = p := by
  rcases Nat.lt_or_eq_of_le h with hlt | heq
  · rw [endsAt_of_lt hlt, beq_iff_eq]
    exact ⟨fun hstop => ⟨hlt, hstop⟩, And.right⟩
  · rw [endsAt_of_eq heq]
    exact ⟨fun hfalse => absurd hfalse Bool.false_ne_true, fun hlt => by omega⟩

/-- In front of an edit, the same ends with some bytes as before. -/
theorem endsAt_move_of_lt (hx : x.Forward) (h : p < e.start) :
    (x.move e empty).endsAt p = x.endsAt p := by
  cases x with
  | running start => rfl
  | closed s =>
    have hmoved : (e.moveSpan empty s).start ≤ (e.moveSpan empty s).stop :=
      Edit.start_moveSpan_le_stop empty hx
    rw [move, Bool.eq_iff_iff, endsAt_closed_iff hmoved, endsAt_closed_iff hx]
    rcases Nat.lt_or_eq_of_le hx with hlt | heq
    · rw [Edit.moveSpan_of_lt empty hlt]
      rcases Nat.lt_or_ge s.stop e.start with hin | hat
      · rw [Edit.move_of_lt .after (Nat.lt_trans hlt hin), Edit.move_of_lt .before hin]
      · have hstop := Edit.start_le_move .before hat
        dsimp only
        omega
    · rw [Edit.moveSpan_of_eq empty heq, Span.start_empty, Span.stop_empty]
      omega

/-- Behind an edit, the same ends with some bytes as before where it was. -/
theorem endsAt_move_of_gt (hx : x.Forward) (h : e.stop < p) :
    (x.move e empty).endsAt (p + e.inserted - e.removed) = x.endsAt p := by
  cases x with
  | running start => rfl
  | closed s =>
    have hmoved : (e.moveSpan empty s).start ≤ (e.moveSpan empty s).stop :=
      Edit.start_moveSpan_le_stop empty hx
    rw [move, Bool.eq_iff_iff, endsAt_closed_iff hmoved, endsAt_closed_iff hx]
    have hp : e.start + e.removed < p := h
    rcases Nat.lt_or_eq_of_le hx with hlt | heq
    · rw [Edit.moveSpan_of_lt empty hlt]
      rcases Nat.lt_or_ge e.stop s.stop with hbehind | hat
      · have hstop := Edit.move_of_gt .before hbehind
        have hstart : e.move .after s.start < e.move .before s.stop := by
          rcases Nat.lt_or_ge e.stop s.start with hbehind' | hat'
          · rw [Edit.move_of_gt .after hbehind', hstop]
            unfold Edit.stop at hbehind'
            omega
          · have hle := Edit.move_le_stop .after hat'
            unfold Edit.stop at hbehind
            omega
        unfold Edit.stop at hbehind
        dsimp only
        omega
      · have hstop := Edit.move_le_stop .before hat
        unfold Edit.stop at hat
        dsimp only
        omega
    · rw [Edit.moveSpan_of_eq empty heq, Span.start_empty, Span.stop_empty]
      omega

end Extent

attribute [ext] Chunk

namespace Chunk

variable {c : Chunk} {first second : Edit}

theorem moveMarker_remove_insert (place n : Nat) (m : Marker) :
    moveMarker ⟨place, n, 0⟩ (moveMarker ⟨place, 0, n⟩ m) = m := by
  obtain ⟨name, offset, side⟩ := m
  cases side with
  | template => rfl
  | generated =>
    exact congrArg (Marker.mk name · .generated)
      (Edit.move_remove_insert place n .after .after offset)

theorem moveMarker_comm (h : first.stop < second.start) (m : Marker) :
    moveMarker first (moveMarker second m) =
      moveMarker (second.behind first) (moveMarker first m) := by
  obtain ⟨name, offset, side⟩ := m
  cases side with
  | template => rfl
  | generated =>
    exact congrArg (Marker.mk name · .generated) (Edit.move_comm h .after .after offset)

/-! ### Two edits of a chunk -/

theorem Spanned.forward (h : c.Spanned) : c.Forward :=
  ⟨fun m hm => (h.mappings m hm).forward, fun l hl => (h.located l hl).1⟩

theorem Forward.splice (h : c.Forward) (start stop : Nat) (t : Text) :
    (c.splice start stop t).Forward := by
  refine ⟨fun m hm => ?_, fun l hl => ?_⟩
  · rw [mappings_splice start stop t h.mappings] at hm
    obtain ⟨m', hm', rfl⟩ := List.mem_map.1 hm
    exact (h.mappings m' hm').move _ _
  · rw [located_splice start stop t h.located] at hl
    obtain ⟨l', hl', rfl⟩ := List.mem_map.1 hl
    exact (h.located l' hl').move _ _

/-- An edit does not change how the end of the text is laid out. -/
theorem layout_splice (start stop : Nat) (t : Text) (c : Chunk) :
    (c.splice start stop t).indentation = c.indentation ∧
      (c.splice start stop t).atLineStart = c.atLineStart ∧
      (c.splice start stop t).carried = c.carried ∧
      (c.splice start stop t).options = c.options := by
  rw [splice_eq]
  exact ⟨rfl, rfl, rfl, rfl⟩

/-- Two edits move all that is recorded one after the other, each with the side that it has for
spans without bytes. -/
theorem splice_splice (h : c.Forward) (start stop : Nat) (t : Text) (start' stop' : Nat)
    (t' : Text) :
    let d := c.splice start stop t
    let e : Edit := ⟨start, stop - start, t.size⟩
    let e' : Edit := ⟨start', stop' - start', t'.size⟩
    d.splice start' stop' t' = { c with
      text := (d.splice start' stop' t').text
      mappings := c.mappings.map fun m => (m.move e (c.emptyBias e)).move e' (d.emptyBias e')
      located := c.located.map fun l =>
        (l.1, e'.moveSpan (d.emptyBias e') (e.moveSpan (c.emptyBias e) l.2))
      markers := c.markers.map fun m => moveMarker e' (moveMarker e m) } := by
  intro d e e'
  have hd : d.Forward := h.splice start stop t
  have hmappings : (d.splice start' stop' t').mappings =
      c.mappings.map fun m => (m.move e (c.emptyBias e)).move e' (d.emptyBias e') := by
    rw [mappings_splice start' stop' t' hd.mappings, mappings_splice start stop t h.mappings,
      List.map_map]
    rfl
  have hlocated : (d.splice start' stop' t').located = c.located.map fun l =>
      (l.1, e'.moveSpan (d.emptyBias e') (e.moveSpan (c.emptyBias e) l.2)) := by
    rw [located_splice start' stop' t' hd.located, located_splice start stop t h.located,
      List.map_map]
    rfl
  have hmarkers : (d.splice start' stop' t').markers =
      c.markers.map fun m => moveMarker e' (moveMarker e m) := by
    rw [markers_splice start' stop' t', markers_splice start stop t, List.map_map]
    rfl
  obtain ⟨hindentation, hline, hcarried, hoptions⟩ := layout_splice start stop t c
  obtain ⟨hindentation', hline', hcarried', hoptions'⟩ := layout_splice start' stop' t' d
  exact Chunk.ext rfl (hindentation'.trans hindentation) (hline'.trans hline)
    (hcarried'.trans hcarried) (hoptions'.trans hoptions) hmappings hlocated hmarkers

/-- Between two characters, an update is the edit from the one offset to the other. -/
theorem update_of_parts {start stop : Nat} {front middle back : Text} (t : Text)
    (htext : c.text = front ++ middle ++ back) (hstart : start = front.size)
    (hstop : stop = front.size + middle.size) :
    c.update start stop t = c.splice start stop t ∧
      (c.splice start stop t).text = front ++ t ++ back := by
  have hfront : c.text.isBoundary start = true := by
    rw [htext, List.append_assoc]
    exact Text.isBoundary_iff.2 ⟨front, middle ++ back, rfl, hstart.symm⟩
  have hback : c.text.isBoundary stop = true := by
    rw [htext]
    exact Text.isBoundary_iff.2
      ⟨front ++ middle, back, rfl, (Text.size_append front middle).trans hstop.symm⟩
  have hle : start ≤ stop := by omega
  refine ⟨?_, text_splice_of_parts t htext hstart hstop⟩
  rw [update, clamp, clamp, Text.floor_eq_of_isBoundary hfront, Text.floor_eq_of_isBoundary hback,
    Nat.min_eq_left hle, Nat.max_eq_right hle]

/-- A text that is put in and removed again leaves the chunk as it was, if no span goes back. -/
theorem remove_insert (hc : c.Forward) (offset : Nat) (t : Text) :
    (c.insert offset t).remove (c.clamp offset) (c.clamp offset + t.size) = c := by
  obtain ⟨front, back, htext, hplace⟩ := Text.isBoundary_iff.1 (c.isBoundary_clamp offset)
  have hnone : c.text = front ++ [] ++ back := by rw [htext, List.append_nil]
  have hstop : c.clamp offset + t.size = front.size + t.size := by rw [hplace]
  have hinserted : (c.insert offset t).text = front ++ t ++ back :=
    text_splice_of_parts t hnone hplace.symm hplace.symm
  obtain ⟨hremove, hremoved⟩ := update_of_parts [] hinserted hplace.symm hstop
  rw [remove, hremove]
  rw [List.append_nil, ← htext] at hremoved
  rw [insert, splice_splice hc, Nat.sub_self, Nat.add_sub_cancel_left]
  refine Chunk.ext hremoved rfl rfl rfl rfl ?_ ?_ ?_
  · refine (List.map_congr_left fun m hm => ?_).trans (List.map_id _)
    exact congrArg (Mapping.mk m.origin)
      (Extent.move_remove_insert _ _ _ _ (hc.mappings m hm))
  · refine (List.map_congr_left fun l hl => ?_).trans (List.map_id _)
    exact congrArg (Prod.mk l.1) (Edit.moveSpan_remove_insert _ _ _ _ (hc.located l hl))
  · refine (List.map_congr_left fun m _ => ?_).trans (List.map_id _)
    exact moveMarker_remove_insert _ _ m

/-- An offset inside of a character, in front of which a mapping ends and everything else begins:
an open mapping, a located text, a located text without bytes and a marker. -/
theorem remove_insert_inside_character :
    let origin : Origin := { span := ⟨0, 2⟩ }
    let mapped := ({} : Chunk).appendMapped ['x', 'y'] origin
    let begun : Chunk := Id.run (((mapped.openMapping origin).mark ['m']).locating ['e'] pure)
    let c : Chunk := Id.run (begun.locating ['n'] (Chunk.append ['é']))
    c.Reachable ∧ c.clamp 3 = 2 ∧ c.insert 3 ['a'] ≠ c ∧ (c.insert 3 ['a']).remove 2 3 = c := by
  intro origin mapped begun c
  have hmapped : FittingRun {} mapped :=
    (((FittingRun.refl _).openMapping origin).append _).closeMapping _
  have hbegun : FittingRun {} begun :=
    .locating ['e'] pure ((hmapped.openMapping origin).mark _) (.refl _) (by decide)
  have hc : FittingRun {} c :=
    .locating ['n'] (Chunk.append ['é']) hbegun ((FittingRun.refl begun).append _) (by decide)
  have hclamp : c.clamp 3 = 2 := by decide
  have hremoved := remove_insert hc.spanned.forward 3 ['a']
  rw [hclamp] at hremoved
  exact ⟨⟨{}, hc.keeping.run⟩, hclamp, by decide, hremoved⟩

/-! ### Which side spans without bytes take -/

/-- An edit behind another one does not change to which side that sends spans without bytes. -/
theorem emptyBias_splice_of_lt (hc : c.Forward) {start stop : Nat} (t : Text) {e : Edit}
    (h : e.start < start) : (c.splice start stop t).emptyBias e = c.emptyBias e := by
  have hends : (c.splice start stop t).endsAt e.start = c.endsAt e.start :=
    endsAt_congr (mappings_splice start stop t hc.mappings) (located_splice start stop t hc.located)
      (fun m hm => Extent.endsAt_move_of_lt (hc.mappings m hm) h)
      (fun l hl => Extent.endsAt_move_of_lt (x := .closed l.2) (hc.located l hl) h)
  rw [emptyBias, emptyBias, hends]

/-- Nor does an edit in front of another one. -/
theorem emptyBias_splice_of_gt (hc : c.Forward) {start stop : Nat} (t : Text) {e : Edit}
    (h : (Edit.mk start (stop - start) t.size).stop < e.start) :
    (c.splice start stop t).emptyBias (e.behind ⟨start, stop - start, t.size⟩) =
      c.emptyBias e := by
  have hends : (c.splice start stop t).endsAt (e.start + t.size - (stop - start)) =
      c.endsAt e.start :=
    endsAt_congr (mappings_splice start stop t hc.mappings) (located_splice start stop t hc.located)
      (fun m hm => Extent.endsAt_move_of_gt (hc.mappings m hm) h)
      (fun l hl => Extent.endsAt_move_of_gt (x := .closed l.2) (hc.located l hl) h)
  rw [emptyBias, emptyBias, Edit.behind]
  dsimp only
  rw [hends]

/-- What is recorded goes to the same places in either order of two edits with some text between
them, so the chunks are the same if their texts are. -/
theorem splice_comm (hc : c.Forward) {a b p q p' q' : Nat} (t u : Text)
    (hapart : a + (b - a) < p) (hstart : p' = p + t.size - (b - a)) (hremoved : q' - p' = q - p)
    (htext : ((c.splice p q u).splice a b t).text = ((c.splice a b t).splice p' q' u).text) :
    (c.splice p q u).splice a b t = (c.splice a b t).splice p' q' u := by
  let first : Edit := ⟨a, b - a, t.size⟩
  let second : Edit := ⟨p, q - p, u.size⟩
  have hbehind : first.stop < second.start := hapart
  have hwhere : (⟨p', q' - p', u.size⟩ : Edit) = second.behind first := by
    rw [hremoved, hstart]
    rfl
  have hfirstBias : (c.splice p q u).emptyBias first = c.emptyBias first :=
    emptyBias_splice_of_lt hc u (Nat.lt_of_le_of_lt (Nat.le_add_right a (b - a)) hapart)
  have hsecondBias : (c.splice a b t).emptyBias (second.behind first) = c.emptyBias second :=
    emptyBias_splice_of_gt hc t hbehind
  rw [splice_splice hc a b t p' q' u, splice_splice hc p q u a b t,
    hwhere, hfirstBias, hsecondBias]
  refine Chunk.ext htext rfl rfl rfl rfl ?_ ?_ ?_
  · refine List.map_congr_left fun m hm => ?_
    exact congrArg (Mapping.mk m.origin) (Extent.move_comm hbehind _ _ (hc.mappings m hm))
  · refine List.map_congr_left fun l hl => ?_
    exact congrArg (Prod.mk l.1) (Edit.moveSpan_comm hbehind _ _ (hc.located l hl))
  · exact List.map_congr_left fun m _ => moveMarker_comm hbehind m

/-- Two updates with some text between them leave the same chunk in either order, if no span goes
back: what is behind is updated where it is by then. -/
theorem update_comm (hc : c.Forward) {a b p q : Nat} (ha : c.text.isBoundary a = true)
    (hb : c.text.isBoundary b = true) (hp : c.text.isBoundary p = true)
    (hq : c.text.isBoundary q = true) (hab : a ≤ b) (hbp : b < p) (hpq : p ≤ q) (t u : Text) :
    (c.update p q u).update a b t =
      (c.update a b t).update (p + t.size - (b - a)) (q + t.size - (b - a)) u := by
  obtain ⟨middle, hmiddle⟩ := Text.exists_holds ha hb hab
  obtain ⟨gap, hgap⟩ := Text.exists_holds hb hp (Nat.le_of_lt hbp)
  obtain ⟨middle', hmiddle'⟩ := Text.exists_holds hp hq hpq
  obtain ⟨front, back, htext, hspan⟩ := (hmiddle.append hgap).append hmiddle'
  have hfront : a = front.size := congrArg Span.start hspan
  have hb' : b = a + middle.size := hmiddle.stop_eq
  have hp' : p = b + gap.size := hgap.stop_eq
  have hq' : q = p + middle'.size := hmiddle'.stop_eq
  -- First what is behind is updated, then what is in front.
  have hparts : c.text = front ++ middle ++ gap ++ middle' ++ back := by
    rw [htext]
    simp only [List.append_assoc]
  have hstart : p = (front ++ middle ++ gap).size := by
    rw [Text.size_append, Text.size_append]
    omega
  obtain ⟨hbehind, hbehindText⟩ := update_of_parts u hparts hstart (hstart ▸ hq')
  have hparts' : (c.splice p q u).text = front ++ middle ++ (gap ++ u ++ back) := by
    rw [hbehindText]
    simp only [List.append_assoc]
  obtain ⟨hthen, hthenText⟩ := update_of_parts t hparts' hfront (hfront ▸ hb')
  -- First what is in front is updated, then what is behind.
  have hsides : c.text = front ++ middle ++ (gap ++ middle' ++ back) := by
    rw [htext]
    simp only [List.append_assoc]
  obtain ⟨hinFront, hinFrontText⟩ := update_of_parts t hsides hfront (hfront ▸ hb')
  have hsides' : (c.splice a b t).text = front ++ t ++ gap ++ middle' ++ back := by
    rw [hinFrontText]
    simp only [List.append_assoc]
  have hstart' : p + t.size - (b - a) = (front ++ t ++ gap).size := by
    rw [Text.size_append, Text.size_append]
    omega
  have hstop' : q + t.size - (b - a) = (front ++ t ++ gap).size + middle'.size := by
    omega
  obtain ⟨hthen', hthenText'⟩ := update_of_parts u hsides' hstart' hstop'
  rw [hbehind, hthen, hinFront, hthen']
  refine splice_comm hc t u (by omega) rfl (by omega) ?_
  rw [hthenText, hthenText']
  simp only [List.append_assoc]

/-- A text is put where a mapping ends, a text without bytes is located and another one starts, of
which a character is removed. -/
theorem update_comm_insert_remove :
    let origin : Origin := { span := ⟨0, 2⟩ }
    let mapped := ({} : Chunk).appendMapped ['x', 'y'] origin
    let begun : Chunk := Id.run ((mapped.mark ['m']).locating ['e'] pure)
    let c : Chunk := Id.run (begun.locating ['n'] (Chunk.append ['é', 'z', 'w']))
    c.Reachable ∧ (c.update 4 5 []).text = ['x', 'y', 'é', 'w'] ∧
      (c.update 4 5 []).update 2 2 ['ü'] = (c.update 2 2 ['ü']).update 6 7 [] := by
  intro origin mapped begun c
  have hmapped : FittingRun {} mapped :=
    (((FittingRun.refl _).openMapping origin).append _).closeMapping _
  have hbegun : FittingRun {} begun :=
    .locating ['e'] pure (hmapped.mark _) (.refl _) (by decide)
  have hc : FittingRun {} c :=
    .locating ['n'] (Chunk.append ['é', 'z', 'w']) hbegun ((FittingRun.refl begun).append _)
      (by decide)
  exact ⟨⟨{}, hc.keeping.run⟩, by decide,
    update_comm hc.spanned.forward (a := 2) (b := 2) (p := 4) (q := 5) (by decide) (by decide)
      (by decide) (by decide) (by decide) (by decide) (by decide) ['ü'] []⟩

end Chunk

end BoundTemplate.Output
