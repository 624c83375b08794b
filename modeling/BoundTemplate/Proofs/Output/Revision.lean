import BoundTemplate.Proofs.Output.Boundary
import BoundTemplate.Proofs.Output.Indenting

/-!
# What stands in a span behind an edit

An edit parts the text into what is in front of the replaced bytes and what is behind
them, and leaves both. So a span that does not meet the replaced bytes still covers what it
covered, one that contains them covers the bytes that replace them in their place, and a
place behind them has the same text behind it.
-/

namespace BoundTemplate

/-- The bytes that a span covers, wherever its ends lie in a character. -/
def Text.bytesIn (t : Text) (s : Span) : List UInt8 := (t.bytes.take s.stop).drop s.start

/-- The bytes from an offset on. -/
def Text.bytesFrom (t : Text) (offset : Nat) : List UInt8 := t.bytes.drop offset

namespace Output

/-! ### Offsets at and around replaced bytes -/

namespace Edit

variable {e : Edit} {p : Nat}

/-- The stop of a span that ends in front of the replaced bytes stays. -/
theorem move_before_of_le (h : p ≤ e.start) : e.move .before p = p := by
  unfold move stop
  dsimp only
  repeat' split
  all_goals omega

/-- The start of a span that starts in front of the end of the replaced bytes, and not behind their
start, stays. -/
theorem move_after_of_le (h : p ≤ e.start) (hlt : p < e.stop) : e.move .after p = p := by
  unfold stop at hlt
  unfold move stop
  dsimp only
  repeat' split
  all_goals omega

/-- A start that is not in front of the end of the replaced bytes keeps its distance to the end of
the text. -/
theorem move_after_of_ge (h : e.stop ≤ p) : e.move .after p = p - e.removed + e.inserted := by
  unfold stop at h
  unfold move stop
  dsimp only
  repeat' split
  all_goals omega

/-- So does the stop of a span that has bytes behind the start of the replaced ones. -/
theorem move_before_of_ge (h : e.stop ≤ p) (hlt : e.start < p) :
    e.move .before p = p - e.removed + e.inserted := by
  unfold stop at h
  unfold move stop
  dsimp only
  repeat' split
  all_goals omega

end Edit

/-! ### Bytes in front of, around and behind replaced bytes -/

section Replaced

variable {α : Type} {front middle middle' back : List α} {p q : Nat}

/-- What is in front of a replaced part does not depend on it. -/
theorem drop_take_in_front (h : q ≤ front.length) :
    ((front ++ middle' ++ back).take q).drop p = ((front ++ middle ++ back).take q).drop p := by
  rw [List.append_assoc, List.append_assoc, List.take_append_of_le_length h,
    List.take_append_of_le_length h]

/-- What is behind a part of a list is found by its distance to the part. -/
theorem drop_behind (k : Nat) :
    (front ++ middle ++ back).drop (front.length + middle.length + k) = back.drop k := by
  rw [← List.length_append, List.drop_length_add_append]

/-- What is behind a replaced part keeps its distance to the end. -/
theorem drop_replaced_behind (h : front.length + middle.length ≤ p) :
    (front ++ middle' ++ back).drop (p - middle.length + middle'.length) =
      (front ++ middle ++ back).drop p := by
  obtain ⟨k, rfl⟩ := Nat.exists_eq_add_of_le h
  have hplace : front.length + middle.length + k - middle.length + middle'.length =
      front.length + middle'.length + k := by omega
  rw [hplace, drop_behind, drop_behind]

/-- A stretch behind a replaced part moves with it. -/
theorem drop_take_behind (h : front.length + middle.length ≤ p) (hle : p ≤ q) :
    ((front ++ middle' ++ back).take (q - middle.length + middle'.length)).drop
        (p - middle.length + middle'.length) =
      ((front ++ middle ++ back).take q).drop p := by
  rw [List.drop_take, List.drop_take, drop_replaced_behind h]
  congr 1
  omega

/-- A stretch around a replaced part has the new part in its place. -/
theorem drop_take_around (hp : p ≤ front.length) (hq : front.length + middle.length ≤ q) :
    ((front ++ middle' ++ back).take (q - middle.length + middle'.length)).drop p =
      (((front ++ middle ++ back).take q).drop p).take (front.length - p) ++ middle' ++
        (((front ++ middle ++ back).take q).drop p).drop (front.length + middle.length - p) := by
  have hnew : (front ++ middle' ++ back).take (q - middle.length + middle'.length) =
      front ++ (middle' ++ back.take (q - front.length - middle.length)) := by
    rw [List.append_assoc, List.take_append, List.take_of_length_le (by omega), List.take_append,
      List.take_of_length_le (by omega)]
    congr 3
    omega
  have hold : (front ++ middle ++ back).take q =
      front ++ (middle ++ back.take (q - front.length - middle.length)) := by
    rw [List.append_assoc, List.take_append, List.take_of_length_le (by omega), List.take_append,
      List.take_of_length_le (by omega)]
  have hfront : (front.drop p).length = front.length - p := List.length_drop
  have hmiddle : front.length + middle.length - p = (front.drop p ++ middle).length := by
    rw [List.length_append, hfront]
    omega
  rw [hnew, hold, List.drop_append_of_le_length hp, List.drop_append_of_le_length hp,
    List.take_left' hfront, hmiddle, ← List.append_assoc (front.drop p) middle,
    List.drop_left, List.append_assoc]

end Replaced

namespace Chunk

/-! ### What recorded spans and places have behind an edit -/

/-- How a span with bytes goes on when the bytes of one span are replaced by a text: it keeps its
bytes if it does not meet the replaced ones, and has the text in their place if it contains them. -/
structure KeepsBytes (c d : Chunk) (replaced : Span) (t : Text) (s s' : Span) : Prop where
  within : SpanWithin d.size s'
  apart : replaced.stop ≤ s.start ∨ s.stop ≤ replaced.start →
    d.text.bytesIn s' = c.text.bytesIn s
  around : s.start ≤ replaced.start → replaced.stop ≤ s.stop →
    ¬(replaced.stop ≤ s.start ∨ s.stop ≤ replaced.start) →
    d.text.bytesIn s' = (c.text.bytesIn s).take (replaced.start - s.start) ++ t.bytes ++
      (c.text.bytesIn s).drop (replaced.stop - s.start)

/-- How a place in the text goes on when the bytes of a span are replaced. -/
structure KeepsPlace (c d : Chunk) (replaced : Span) (place place' : Nat) : Prop where
  behind : replaced.stop ≤ place → d.text.bytesFrom place' = c.text.bytesFrom place
  inFront : place < replaced.start → place' = place

variable {c : Chunk} {start stop : Nat}

/-- An edit puts its text between what is in front of the replaced part and what is behind it. -/
theorem text_splice_of_parts {front middle back : Text} (t : Text)
    (htext : c.text = front ++ middle ++ back) (hstart : start = front.size)
    (hstop : stop = front.size + middle.size) :
    (c.splice start stop t).text = front ++ t ++ back := by
  have hfront : c.text.takeBytes start = front := by
    rw [hstart, htext, List.append_assoc, Text.takeBytes_size_append]
  have hback : c.text.dropBytes stop = back := by
    rw [hstop, htext, ← Text.size_append, Text.dropBytes_size_append]
  rw [text_splice, hfront, hback]

/-- An edit leaves the bytes in front of the replaced ones and those behind them. -/
theorem exists_bytes_splice (t : Text) (hstart : c.text.isBoundary start = true)
    (hstop : c.text.isBoundary stop = true) (le : start ≤ stop) :
    ∃ front middle back : List UInt8, c.text.bytes = front ++ middle ++ back ∧
      start = front.length ∧ stop = front.length + middle.length ∧
      (c.splice start stop t).text.bytes = front ++ t.bytes ++ back := by
  obtain ⟨part, front, back, htext, hspan⟩ := Text.exists_holds hstart hstop le
  obtain ⟨rfl, rfl⟩ := Span.mk.inj hspan
  refine ⟨front.bytes, part.bytes, back.bytes, ?_, (Text.length_bytes front).symm, ?_, ?_⟩
  · rw [htext, Text.bytes_append, Text.bytes_append]
  · rw [Text.length_bytes, Text.length_bytes]
  · rw [text_splice_of_parts t htext rfl rfl, Text.bytes_append, Text.bytes_append]

/-- A span with bytes goes on with the bytes around it. -/
theorem keepsBytes_moveSpan {s : Span} (t : Text) (empty : Bias)
    (hstart : c.text.isBoundary start = true) (hstop : c.text.isBoundary stop = true)
    (le : start ≤ stop) (hlt : s.start < s.stop) (hs : s.stop ≤ c.size) :
    KeepsBytes c (c.splice start stop t) ⟨start, stop⟩ t s
      (Edit.moveSpan ⟨start, stop - start, t.size⟩ empty s) := by
  let e : Edit := ⟨start, stop - start, t.size⟩
  have hestop : e.stop = stop := Nat.add_sub_of_le le
  have hbound : e.stop ≤ c.size := hestop ▸ Text.le_size_of_isBoundary hstop
  have hsize := size_splice t hstart hstop le
  obtain ⟨front, middle, back, hold, hfront, hmiddle, hnew⟩ := exists_bytes_splice t hstart hstop le
  have hremoved : stop - start = middle.length := by omega
  have hput : t.size = t.bytes.length := (Text.length_bytes t).symm
  refine ⟨?_, fun hapart => ?_, fun hle hle' hmeet => ?_⟩
  · rw [hsize]
    exact ⟨Edit.start_moveSpan_le_stop empty (Nat.le_of_lt hlt),
      Edit.stop_moveSpan_le empty hbound (Nat.le_of_lt hlt) hs⟩
  · rw [Edit.moveSpan_of_lt empty hlt, Text.bytesIn, Text.bytesIn, hnew, hold]
    rcases hapart with hbehind | hinFront
    · have hlt' : start < s.stop := Nat.lt_of_le_of_lt (Nat.le_trans le hbehind) hlt
      have hbehind' : e.stop ≤ s.stop := hestop ▸ Nat.le_trans hbehind (Nat.le_of_lt hlt)
      have hmove : e.move .after s.start = s.start - middle.length + t.bytes.length := by
        rw [Edit.move_after_of_ge (hestop.symm ▸ hbehind), ← hremoved, ← hput]
      have hmove' : e.move .before s.stop = s.stop - middle.length + t.bytes.length := by
        rw [Edit.move_before_of_ge hbehind' hlt', ← hremoved, ← hput]
      rw [hmove, hmove']
      exact drop_take_behind (hmiddle ▸ hbehind) (Nat.le_of_lt hlt)
    · rw [Edit.move_of_lt .after (Nat.lt_of_lt_of_le hlt hinFront),
        Edit.move_before_of_le hinFront]
      exact drop_take_in_front (hfront ▸ hinFront)
  · rw [not_or, Nat.not_le, Nat.not_le] at hmeet
    have hmove : e.move .after s.start = s.start :=
      Edit.move_after_of_le hle (hestop.symm ▸ hmeet.1)
    have hmove' : e.move .before s.stop = s.stop - middle.length + t.bytes.length := by
      rw [Edit.move_before_of_ge (hestop.symm ▸ hle') hmeet.2, ← hremoved, ← hput]
    rw [Edit.moveSpan_of_lt empty hlt, hmove, hmove', Text.bytesIn, Text.bytesIn, hnew, hold]
    dsimp only
    rw [hmiddle, hfront]
    exact drop_take_around (hfront ▸ hle) (hmiddle ▸ hle')

/-- A place goes on with the bytes behind it. -/
theorem keepsPlace_move (t : Text) (place : Nat) (hstart : c.text.isBoundary start = true)
    (hstop : c.text.isBoundary stop = true) (le : start ≤ stop) :
    KeepsPlace c (c.splice start stop t) ⟨start, stop⟩ place
      (Edit.move ⟨start, stop - start, t.size⟩ .after place) := by
  obtain ⟨front, middle, back, hold, hfront, hmiddle, hnew⟩ := exists_bytes_splice t hstart hstop le
  refine ⟨fun hbehind => ?_, fun hlt => Edit.move_of_lt .after hlt⟩
  have hremoved : stop - start = middle.length := by omega
  have hput : t.size = t.bytes.length := (Text.length_bytes t).symm
  have hestop : (Edit.mk start (stop - start) t.size).stop = stop := Nat.add_sub_of_le le
  rw [Edit.move_after_of_ge (hestop.symm ▸ hbehind), hremoved, hput, Text.bytesFrom, Text.bytesFrom,
    hnew, hold]
  exact drop_replaced_behind (hmiddle ▸ hbehind)

/-! ### Where an edit records what it moves -/

variable {index : Nat} (t : Text)

theorem getElem?_mappings_splice {m : Mapping} (hm : c.mappings[index]? = some m)
    (hforward : m.extent.Forward) :
    ∃ empty, (c.splice start stop t).mappings[index]? =
      some (m.move ⟨start, stop - start, t.size⟩ empty) := by
  refine ⟨c.emptyBias ⟨start, stop - start, t.size⟩, ?_⟩
  rw [splice_eq]
  dsimp only
  split
  · next he => rw [hm, Mapping.move, Extent.move_of_isEmpty _ he hforward]
  · rw [List.getElem?_map, hm]
    rfl

theorem getElem?_located_splice {name : Text} {s : Span} (hs : c.located[index]? = some (name, s))
    (hforward : s.start ≤ s.stop) :
    ∃ empty, (c.splice start stop t).located[index]? =
      some (name, Edit.moveSpan ⟨start, stop - start, t.size⟩ empty s) := by
  refine ⟨c.emptyBias ⟨start, stop - start, t.size⟩, ?_⟩
  rw [splice_eq]
  dsimp only
  split
  · next he =>
    have hsame := Extent.move_of_isEmpty (x := .closed s)
      (c.emptyBias ⟨start, stop - start, t.size⟩) he hforward
    rw [hs, Extent.closed.inj hsame]
  · rw [List.getElem?_map, hs]
    rfl

theorem getElem?_markers_splice {name : Text} {offset : Nat}
    (hm : c.markers[index]? = some ⟨name, offset, .generated⟩) :
    (c.splice start stop t).markers[index]? =
      some ⟨name, Edit.move ⟨start, stop - start, t.size⟩ .after offset, .generated⟩ := by
  rw [splice_eq]
  dsimp only
  split
  · next he => rw [hm, Edit.move_of_isEmpty _ _ he]
  · rw [List.getElem?_map, hm]
    rfl

end Chunk

/-! ### Revisions -/

/-- An edit of a text that has been written, given by any offsets. -/
inductive Revision where
  | insert (offset : Nat) (t : Text)
  | update (a b : Nat) (t : Text)
  | remove (a b : Nat)

namespace Revision

/-- Revises a chunk. -/
def apply (c : Chunk) : Revision → Chunk
  | insert offset t => c.insert offset t
  | update a b t => c.update a b t
  | remove a b => c.remove a b

/-- What is put into the text. -/
def text : Revision → Text
  | insert _ t | update _ _ t => t
  | remove _ _ => []

/-- What is replaced: from the first of the two offsets to the other, both moved back to a place
between two characters. -/
def replaced (c : Chunk) : Revision → Span
  | insert offset _ => Span.empty (c.clamp offset)
  | update a b _ | remove a b => ⟨min (c.clamp a) (c.clamp b), max (c.clamp a) (c.clamp b)⟩

variable {c : Chunk}

theorem apply_eq_splice (r : Revision) :
    r.apply c = c.splice (r.replaced c).start (r.replaced c).stop r.text := by
  cases r <;> rfl

/-- What is replaced are whole characters of the text. -/
theorem replaced_spec (r : Revision) :
    c.text.isBoundary (r.replaced c).start = true ∧ c.text.isBoundary (r.replaced c).stop = true ∧
      (r.replaced c).start ≤ (r.replaced c).stop := by
  have hends (a b : Nat) : c.text.isBoundary (min (c.clamp a) (c.clamp b)) = true ∧
      c.text.isBoundary (max (c.clamp a) (c.clamp b)) = true ∧
      min (c.clamp a) (c.clamp b) ≤ max (c.clamp a) (c.clamp b) :=
    ⟨Text.isBoundary_min (c.isBoundary_clamp a) (c.isBoundary_clamp b),
      Text.isBoundary_max (c.isBoundary_clamp a) (c.isBoundary_clamp b), by omega⟩
  cases r with
  | insert offset t => exact ⟨c.isBoundary_clamp offset, c.isBoundary_clamp offset, Nat.le_refl _⟩
  | update a b t => exact hends a b
  | remove a b => exact hends a b

/-- Whatever is revised, every mapping that has ended and every located span goes on with its own
text, and every marker and every start of an open mapping with the text behind it. -/
theorem keeps_recorded_text (hc : c.Spanned) (r : Revision) :
    (∀ (index : Nat) (origin : Origin) (s : Span),
        c.mappings[index]? = some ⟨origin, .closed s⟩ → s.isEmpty = false →
        ∃ s', (r.apply c).mappings[index]? = some ⟨origin, .closed s'⟩ ∧
          c.KeepsBytes (r.apply c) (r.replaced c) r.text s s') ∧
      (∀ (index : Nat) (name : Text) (s : Span),
        c.located[index]? = some (name, s) → s.isEmpty = false →
        ∃ s', (r.apply c).located[index]? = some (name, s') ∧
          c.KeepsBytes (r.apply c) (r.replaced c) r.text s s') ∧
      (∀ (index : Nat) (origin : Origin) (start : Nat),
        c.mappings[index]? = some ⟨origin, .running start⟩ →
        ∃ start', (r.apply c).mappings[index]? = some ⟨origin, .running start'⟩ ∧
          c.KeepsPlace (r.apply c) (r.replaced c) start start') ∧
      ∀ (index : Nat) (name : Text) (offset : Nat),
        c.markers[index]? = some ⟨name, offset, .generated⟩ →
        ∃ offset', (r.apply c).markers[index]? = some ⟨name, offset', .generated⟩ ∧
          c.KeepsPlace (r.apply c) (r.replaced c) offset offset' := by
  obtain ⟨hstart, hstop, le⟩ := r.replaced_spec (c := c)
  rw [r.apply_eq_splice]
  refine ⟨fun index origin s hm hne => ?_, fun index name s hs hne => ?_,
    fun index origin start hm => ?_, fun index name offset hm => ?_⟩
  · obtain ⟨hle, hsize⟩ := hc.mappings _ (List.mem_of_getElem? hm)
    obtain ⟨empty, hmoved⟩ := c.getElem?_mappings_splice r.text hm hle
    exact ⟨_, hmoved, Chunk.keepsBytes_moveSpan r.text empty hstart hstop le
      ((Span.isEmpty_eq_false_iff hle).1 hne) hsize⟩
  · obtain ⟨hle, hsize⟩ := hc.located _ (List.mem_of_getElem? hs)
    obtain ⟨empty, hmoved⟩ := c.getElem?_located_splice r.text hs hle
    exact ⟨_, hmoved, Chunk.keepsBytes_moveSpan r.text empty hstart hstop le
      ((Span.isEmpty_eq_false_iff hle).1 hne) hsize⟩
  · obtain ⟨empty, hmoved⟩ := c.getElem?_mappings_splice r.text hm trivial
    exact ⟨_, hmoved, Chunk.keepsPlace_move r.text start hstart hstop le⟩
  · exact ⟨_, c.getElem?_markers_splice r.text hm,
      Chunk.keepsPlace_move r.text offset hstart hstop le⟩

/-- The end of a mapped text is replaced, from an offset in front of it through one inside of the
character behind it, where a located text starts. -/
theorem keeps_recorded_text_of_update :
    let origin : Origin := { span := ⟨0, 2⟩ }
    let mapped := ({} : Chunk).appendMapped ['x', 'y'] origin
    let c : Chunk := (Id.run (mapped.locating ['n'] (Chunk.append ['é', 'z']))).mark ['m']
    let d := (Revision.update 1 3 ['ü', 'w']).apply c
    c.Reachable ∧ c.Spanned ∧
      (∃ s', d.mappings[0]? = some ⟨origin, .closed s'⟩ ∧
        d.text.bytesIn s' = Text.bytes ['x', 'ü', 'w']) ∧
      (∃ s', d.located[0]? = some (['n'], s') ∧ d.text.bytesIn s' = Text.bytes ['é', 'z']) ∧
      ∃ offset', d.markers[0]? = some ⟨['m'], offset', .generated⟩ ∧
        d.text.bytesFrom offset' = [] := by
  intro origin mapped c d
  have hmapped : Chunk.FittingRun {} mapped :=
    (((Chunk.FittingRun.refl _).openMapping origin).append _).closeMapping _
  have hrun : Chunk.FittingRun {} c :=
    (Chunk.FittingRun.locating ['n'] (Chunk.append ['é', 'z']) hmapped
      ((Chunk.FittingRun.refl mapped).append _) (by decide)).mark _
  obtain ⟨hmappings, hlocated, -, hmarkers⟩ :=
    keeps_recorded_text hrun.spanned (.update 1 3 ['ü', 'w'])
  obtain ⟨s, hs, hkept⟩ := hmappings 0 origin ⟨0, 2⟩ (by decide) rfl
  obtain ⟨s', hs', hkept'⟩ := hlocated 0 ['n'] ⟨2, 5⟩ (by decide) rfl
  obtain ⟨offset', ho, hplace⟩ := hmarkers 0 ['m'] 5 (by decide)
  refine ⟨⟨{}, hrun.keeping.run⟩, hrun.spanned, ⟨s, hs, ?_⟩, ⟨s', hs', ?_⟩, offset', ho, ?_⟩
  · rw [hkept.around (by decide) (by decide) (by decide)]
    decide
  · rw [hkept'.apart (.inl (by decide))]
    decide
  · rw [hplace.behind (by decide)]
    decide

end Revision

end Output

end BoundTemplate
