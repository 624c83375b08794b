import BoundTemplate.Proofs.Output.Line
import BoundTemplate.Proofs.Output.Passage

/-!
# Located and mapped text

A located text is recorded by the sizes of the text in front of it and behind it, a mapped
one by a mapping that is open while it is written. The texts are the same, and both spans
stop at the end. But the open mapping moves with the edits of its body and starts behind an
indentation that is written in front of it, and the saved size does not: the spans start at
the same place only if nothing is put there or in front of it.
-/

namespace BoundTemplate.Output

/-! ### What a body refers to and changes -/

/-- An operation ends no mapping of the chunk from an index on, other than those of its passage. -/
def Step.RefersBelow (n : Nat) : Step → Prop
  | closeMapping (.earlier index) => index < n
  | _ => True

/-- A passage ends no mapping of the chunk from an index on, other than its own. -/
def Passage.RefersBelow (n : Nat) : Passage → Prop
  | done => True
  | step op rest => op.RefersBelow n ∧ rest.RefersBelow n
  | mapped _ body rest | locating _ body rest => body.RefersBelow n ∧ rest.RefersBelow n

/-- An operation puts text only at the end. -/
def Step.Appends : Step → Prop
  | insert _ _ | update _ _ _ => False
  | _ => True

/-- A passage puts text only at the end. -/
def Passage.Appends : Passage → Prop
  | done => True
  | step op rest => op.Appends ∧ rest.Appends
  | mapped _ body rest | locating _ body rest => body.Appends ∧ rest.Appends

namespace Chunk

variable {n start : Nat} {origin : Origin} {c d w : Chunk}

/-! ### One more open mapping -/

/-- One chunk is another with one more mapping at an index, which is open. -/
def Around (n : Nat) (origin : Origin) (start : Nat) (d w : Chunk) : Prop :=
  ∃ front back : List Mapping, d.mappings = front ++ back ∧ front.length = n ∧
    w = { d with mappings := front ++ ⟨origin, .running start⟩ :: back }

theorem modify_append_left {α : Type} {l : List α} (r : List α) (f : α → α) {index : Nat}
    (h : index < l.length) : (l ++ r).modify index f = l.modify index f ++ r := by
  induction l generalizing index with
  | nil => exact absurd h (Nat.not_lt_zero index)
  | cons x l ih =>
    cases index with
    | zero => rfl
    | succ index =>
      rw [List.cons_append, List.modify_succ_cons, List.modify_succ_cons,
        ih (Nat.lt_of_succ_lt_succ h)]
      rfl

namespace Around

variable (h : Around n origin start d w)
include h

theorem text_eq : w.text = d.text := by
  obtain ⟨front, back, -, -, rfl⟩ := h
  rfl

theorem atLineStart_eq : w.atLineStart = d.atLineStart := by
  obtain ⟨front, back, -, -, rfl⟩ := h
  rfl

theorem options_eq : w.options = d.options := by
  obtain ⟨front, back, -, -, rfl⟩ := h
  rfl

theorem length_eq : w.mappings.length = d.mappings.length + 1 := by
  obtain ⟨front, back, hd, -, rfl⟩ := h
  rw [hd, List.length_append, List.length_append, List.length_cons]
  omega

theorem le_length : n ≤ d.mappings.length := by
  obtain ⟨front, back, hd, rfl, -⟩ := h
  rw [hd, List.length_append]
  exact Nat.le_add_right _ _

/-- What is open ends nowhere, so both chunks move what is recorded in the same way. -/
theorem emptyBias_eq (e : Edit) : w.emptyBias e = d.emptyBias e := by
  obtain ⟨front, back, hd, -, rfl⟩ := h
  have hrunning : (Extent.running start).endsAt e.start = false := rfl
  rw [emptyBias, emptyBias, endsAt, endsAt, hd]
  simp only [List.any_append, List.any_cons, hrunning, Bool.false_or]

/-- What neither reads nor changes the mappings does the same to both chunks. -/
theorem apply (f : Chunk → Chunk) (hf : ∀ c ms, f { c with mappings := ms } =
    { f c with mappings := ms }) (hmappings : ∀ c, (f c).mappings = c.mappings) :
    Around n origin start (f d) (f w) := by
  obtain ⟨front, back, hd, hn, rfl⟩ := h
  exact ⟨front, back, (hmappings d).trans hd, hn, hf d _⟩

/-- An edit moves the open mapping with the others. -/
theorem splice (a b : Nat) (t : Text) :
    Around n origin (Edit.move ⟨a, b - a, t.size⟩ .after start) (d.splice a b t)
      (w.splice a b t) := by
  let e : Edit := ⟨a, b - a, t.size⟩
  have hbias := h.emptyBias_eq e
  obtain ⟨front, back, hd, hn, rfl⟩ := h
  rw [splice_eq, splice_eq, hbias]
  by_cases he : e.isEmpty = true
  · rw [Edit.move_of_isEmpty .after start he]
    refine ⟨front, back, ?_, hn, ?_⟩
    · dsimp only
      rw [if_pos he, hd]
    · dsimp only
      rw [if_pos he, if_pos he]
  · have hmap : (front ++ ⟨origin, .running start⟩ :: back).map (Mapping.move e (d.emptyBias e)) =
        front.map (Mapping.move e (d.emptyBias e)) ++ ⟨origin, .running (e.move .after start)⟩ ::
          back.map (Mapping.move e (d.emptyBias e)) := by
      rw [List.map_append, List.map_cons]
      rfl
    refine ⟨front.map (Mapping.move e (d.emptyBias e)), back.map (Mapping.move e (d.emptyBias e)),
      ?_, (List.length_map _).trans hn, ?_⟩
    · dsimp only
      rw [if_neg he, hd, List.map_append]
    · dsimp only
      rw [if_neg he, if_neg he, if_neg he, ← hmap]

theorem openMapping (other : Origin) :
    Around n origin start (d.openMapping other) (w.openMapping other) := by
  obtain ⟨front, back, hd, hn, rfl⟩ := h
  refine ⟨front, back ++ [⟨other, .running d.size⟩], ?_, hn, ?_⟩
  · rw [Chunk.openMapping, hd, List.append_assoc]
  · rw [Chunk.openMapping, List.append_assoc]
    rfl

/-- Ending another mapping leaves the one that is open. -/
theorem closeMapping {handle : Handle} (hbelow : (Step.closeMapping handle).RefersBelow n) :
    Around n origin start (d.closeMapping (handle.index n))
      (w.closeMapping (handle.index (n + 1))) := by
  obtain ⟨front, back, hd, rfl, rfl⟩ := h
  cases handle with
  | earlier index =>
    have hlt : index < front.length := hbelow
    refine ⟨front.modify index (Mapping.close d.size), back, ?_, List.length_modify .., ?_⟩
    · rw [Chunk.closeMapping, hd]
      exact modify_append_left back _ hlt
    · rw [Chunk.closeMapping]
      exact congrArg (fun ms => { d with mappings := ms }) (modify_append_left _ _ hlt)
  | own order =>
    refine ⟨front, back.modify order (Mapping.close d.size), ?_, rfl, ?_⟩
    · rw [Chunk.closeMapping, hd]
      exact List.modifyTailIdx_add (List.modifyHead (Mapping.close d.size)) order front back
    · have hmodify := List.modifyTailIdx_add (List.modifyHead (Mapping.close d.size)) order
        (front ++ [⟨origin, .running start⟩]) back
      rw [List.length_append, List.length_singleton, List.append_assoc,
        List.append_assoc] at hmodify
      exact congrArg (fun ms => { d with mappings := ms }) hmodify

/-- The open mapping ends at the end of the text. -/
theorem getElem?_closeMapping :
    (w.closeMapping n).mappings[n]? = some ⟨origin, .closed ⟨start, max d.size start⟩⟩ := by
  obtain ⟨front, back, -, rfl, rfl⟩ := h
  have hfound : (front ++ ⟨origin, .running start⟩ :: back)[front.length]? =
      some ⟨origin, .running start⟩ := by
    rw [List.getElem?_append_right (Nat.le_refl _), Nat.sub_self, List.getElem?_cons_zero]
  rw [Chunk.closeMapping]
  dsimp only
  rw [List.getElem?_modify, hfound]
  simp only [Option.map_eq_map, Option.map_some, if_true]
  rfl

/-- Whatever the mappings are, all else is put behind them in the same way. -/
theorem join (other : Chunk) : Around n origin start (d.join other) (w.join other) := by
  obtain ⟨front, back, hd, hn, rfl⟩ := h
  refine ⟨front, back ++ other.mappings.map (Mapping.shift d.size), ?_, hn, ?_⟩
  · rw [Chunk.join, hd, List.append_assoc]
    rfl
  · rw [Chunk.join, List.append_assoc]
    rfl

theorem inheritLine (other : Chunk) :
    Around n origin start (d.inheritLine other) (w.inheritLine other) := by
  refine h.apply (Chunk.inheritLine · other) (fun c ms => ?_) (fun c => ?_)
  all_goals
    unfold Chunk.inheritLine
    split <;> rfl

theorem writeIndent :
    Around n origin
      (Edit.move ⟨d.size, 0, (d.indentText (d.indentation + d.carried)).size⟩ .after start)
      d.writeIndent w.writeIndent := by
  have hflags : Around n origin start { d with atLineStart := false, carried := 0 }
      { w with atLineStart := false, carried := 0 } :=
    h.apply (fun c => { c with atLineStart := false, carried := 0 }) (fun _ _ => rfl) fun _ => rfl
  have hsplice := hflags.splice d.size d.size (d.indentText (d.indentation + d.carried))
  rw [Nat.sub_self] at hsplice
  obtain ⟨front, back, -, -, rfl⟩ := h
  exact hsplice

end Around

/-! ### Where the open mapping starts -/

/-- A mapping that was begun at the end of a chunk starts there, or behind an indentation that was
written there first. -/
structure Leads (c : Chunk) (start : Nat) (d : Chunk) : Prop where
  options_eq : d.options = c.options
  exists_levels : ∃ levels, c.text ++ c.indentText levels <+: d.text ∧
    start = c.size + (c.indentText levels).size ∧ (c.atLineStart = false → levels = 0)
  /-- Nothing is written yet, or no indentation can come between the start and what is written. -/
  settled : d.text = c.text ∧ d.atLineStart = c.atLineStart ∨
    (d.atLineStart = true → start < d.size)

namespace Leads

theorem refl (c : Chunk) : Leads c c.size c := by
  refine ⟨rfl, ⟨0, ?_, rfl, fun _ => rfl⟩, .inl ⟨rfl, rfl⟩⟩
  have hnone : c.text ++ c.indentText 0 = c.text := List.append_nil _
  exact ⟨[], by rw [hnone, List.append_nil]⟩

theorem start_le (h : Leads c start d) : start ≤ d.size := by
  obtain ⟨levels, ⟨more, htext⟩, rfl, -⟩ := h.exists_levels
  rw [size, size, ← htext, Text.size_append, Text.size_append]
  omega

/-- The start stays as the text grows behind it, and at a new line it is left behind. -/
theorem grow (h : Leads c start d) {e : Chunk} (more : Text) (htext : e.text = d.text ++ more)
    (hoptions : e.options = d.options) (hline : e.atLineStart = true → more ≠ []) :
    Leads c start e := by
  have hle := h.start_le
  refine ⟨hoptions.trans h.options_eq, ?_, .inr fun he => ?_⟩
  · obtain ⟨levels, hprefix, hstart, hlevels⟩ := h.exists_levels
    refine ⟨levels, hprefix.trans ?_, hstart, hlevels⟩
    rw [htext]
    exact List.prefix_append ..
  · have hpos := Text.size_pos (hline he)
    rw [size, htext, Text.size_append]
    rw [size] at hle
    omega

/-- The start depends only on what is written. -/
theorem congr (h : Leads c start d) {e : Chunk} (htext : e.text = d.text)
    (hline : e.atLineStart = d.atLineStart) (hoptions : e.options = d.options) :
    Leads c start e := by
  obtain ⟨levels, hprefix, hstart, hlevels⟩ := h.exists_levels
  refine ⟨hoptions.trans h.options_eq, ⟨levels, ?_, hstart, hlevels⟩, ?_⟩
  · rwa [htext]
  · have hsettled := h.settled
    rwa [← htext, ← hline, size, ← htext] at hsettled

/-- Another text is put behind what is written. -/
theorem join (h : Leads c start d) (sub : Chunk) :
    Leads c start ((d.join sub).inheritLine sub) := by
  unfold Chunk.inheritLine
  split
  · next hempty =>
    refine h.congr ?_ rfl rfl
    rw [Chunk.join, List.isEmpty_iff.1 hempty, List.append_nil]
  · next hne => exact h.grow sub.text rfl rfl fun _ hnil => hne (List.isEmpty_iff.2 hnil)

/-- The start goes behind the indentation that is written in front of all else. -/
theorem writeIndent (h : Leads c start d) (hline : d.atLineStart = true) :
    Leads c (Edit.move ⟨d.size, 0, (d.indentText (d.indentation + d.carried)).size⟩ .after start)
      d.writeIndent := by
  have hinside := (line_writeIndent d).1
  have hoptions := (layout_writeIndent d).2
  have hsettled : d.writeIndent.atLineStart = true → start < d.writeIndent.size := by
    rw [hinside]
    exact fun hfalse => absurd hfalse Bool.false_ne_true
  obtain ⟨levels, hprefix, hstart, hlevels⟩ := h.exists_levels
  by_cases hlt : start < d.size
  · rw [Edit.move_of_lt .after hlt]
    refine ⟨hoptions.trans h.options_eq, ⟨levels, ?_, hstart, hlevels⟩, .inr hsettled⟩
    rw [text_writeIndent]
    exact hprefix.trans (List.prefix_append ..)
  · obtain ⟨htext, hsame⟩ := h.settled.resolve_right fun hlt' => hlt (hlt' hline)
    have hend : start = d.size := Nat.le_antisymm h.start_le (Nat.le_of_not_lt hlt)
    have hmove : Edit.move ⟨d.size, 0, (d.indentText (d.indentation + d.carried)).size⟩ .after
        start = d.size + (d.indentText (d.indentation + d.carried)).size := by
      rw [hend, Edit.move_after_start]
    have hindent : d.indentText (d.indentation + d.carried) =
        c.indentText (d.indentation + d.carried) := indentText_congr h.options_eq _
    rw [hmove]
    refine ⟨hoptions.trans h.options_eq, ⟨d.indentation + d.carried, ?_, ?_, ?_⟩,
      .inr fun he => absurd (hinside.symm.trans he) Bool.false_ne_true⟩
    · exact ⟨[], by rw [text_writeIndent, htext, hindent, List.append_nil]⟩
    · rw [size, htext, hindent]
      rfl
    · intro hfalse
      rw [← hsame, hline] at hfalse
      cases hfalse

end Leads

namespace Around

/-- A part of a line is written. -/
theorem writeLine (h : Around n origin start d w) (line : Text) :
    ∃ start', Around n origin start' (d.writeLine line) (w.writeLine line) ∧
      (Leads c start d → Leads c start' (d.writeLine line)) := by
  have hline := h.atLineStart_eq
  have hgrow : ∀ {start : Nat} {d w : Chunk}, Around n origin start d w →
      Around n origin start { d with text := d.text ++ line } { w with text := w.text ++ line } :=
    fun h => h.apply (fun c => { c with text := c.text ++ line }) (fun _ _ => rfl) fun _ => rfl
  unfold Chunk.writeLine
  by_cases hempty : line.isEmpty = true
  · rw [if_pos hempty, if_pos hempty]
    exact ⟨start, h, id⟩
  · rw [if_neg hempty, if_neg hempty]
    dsimp only
    by_cases hstart : d.atLineStart = true
    · rw [if_pos hstart, if_pos (hline.trans hstart)]
      refine ⟨_, hgrow h.writeIndent, fun hleads => ?_⟩
      refine (hleads.writeIndent hstart).grow line rfl rfl fun he => ?_
      exact absurd ((line_writeIndent d).1.symm.trans he) Bool.false_ne_true
    · rw [if_neg hstart, if_neg fun hw => hstart (hline.symm.trans hw)]
      exact ⟨start, hgrow h, fun hleads => hleads.grow line rfl rfl fun he => absurd he hstart⟩

/-- A text is written. -/
theorem append (h : Around n origin start d w) (hend : c.options.lineEnd ≠ []) (t : Text) :
    ∃ start', Around n origin start' (d.append t) (w.append t) ∧
      (Leads c start d → Leads c start' (d.append t)) := by
  unfold Chunk.append
  split
  · exact ⟨start, h, id⟩
  · next first others heq =>
    clear heq
    obtain ⟨start', hfirst, hleads⟩ := h.writeLine first (c := c)
    generalize d.writeLine first = d' at hfirst hleads
    generalize w.writeLine first = w' at hfirst
    induction others generalizing d' w' start' with
    | nil => exact ⟨start', hfirst, hleads⟩
    | cons line others ih =>
      have hbreak : Around n origin start' d'.breakLine w'.breakLine :=
        hfirst.apply Chunk.breakLine (fun _ _ => rfl) fun _ => rfl
      obtain ⟨start'', hline, hleads'⟩ := hbreak.writeLine line (c := c)
      refine ih start'' _ (fun hold => hleads' ?_) _ hline
      have hnew := hleads hold
      exact hnew.grow d'.options.lineEnd rfl rfl fun _ => hnew.options_eq ▸ hend

/-- Another chunk is added. -/
theorem add (h : Around n origin start d w) (other : Chunk) :
    ∃ start', Around n origin start' (d.add other) (w.add other) ∧
      (Leads c start d → Leads c start' (d.add other)) := by
  have hline := h.atLineStart_eq
  have hindent : w.indentText w.indentation = d.indentText d.indentation := by
    obtain ⟨front, back, -, -, rfl⟩ := h
    rfl
  unfold Chunk.add
  rw [hline, hindent]
  dsimp only
  generalize other.closeAll.indentLines (d.indentText d.indentation) = sub
  split
  · next hstart =>
    rw [Bool.and_eq_true] at hstart
    exact ⟨_, (h.writeIndent.join sub).inheritLine sub, fun hleads =>
      (hleads.writeIndent hstart.1).join sub⟩
  · exact ⟨start, (h.join sub).inheritLine sub, fun hleads => hleads.join sub⟩

/-- A mapping that is begun later ends at the same index among the others. -/
theorem closeLast (h : Around n origin start d w) {d' w' : Chunk} {start' : Nat}
    (h' : Around n origin start' d' w') :
    Around n origin start' (d'.closeMapping d.mappings.length)
      (w'.closeMapping w.mappings.length) := by
  have hclose := h'.closeMapping
    (show (Step.closeMapping (.own (d.mappings.length - n))).RefersBelow n from trivial)
  have hle := h.le_length
  have hd : Handle.index n (.own (d.mappings.length - n)) = d.mappings.length := by
    rw [Handle.index]
    omega
  have hw : Handle.index (n + 1) (.own (d.mappings.length - n)) = w.mappings.length := by
    rw [Handle.index, h.length_eq]
    omega
  rwa [hd, hw] at hclose

/-- An operation of a passage does the same to both chunks, but for the mapping that is open. -/
theorem step (h : Around n origin start d w) (hend : c.options.lineEnd ≠ []) {op : Step}
    (hop : op.RefersBelow n) :
    ∃ start', Around n origin start' (op.run n d) (op.run (n + 1) w) ∧
      (op.Appends → Leads c start d → Leads c start' (op.run n d)) := by
  cases op with
  | append t =>
    obtain ⟨start', happend, hleads⟩ := h.append hend t
    exact ⟨start', happend, fun _ => hleads⟩
  | appendMapped t other =>
    obtain ⟨start', happend, hleads⟩ := (h.openMapping other).append hend t
    refine ⟨start', h.closeLast happend, fun _ hold => ?_⟩
    exact (hleads (hold.congr rfl rfl rfl)).congr rfl rfl rfl
  | openMapping other =>
    exact ⟨start, h.openMapping other, fun _ hold => hold.congr rfl rfl rfl⟩
  | closeMapping handle =>
    exact ⟨start, h.closeMapping hop, fun _ hold => hold.congr rfl rfl rfl⟩
  | indent | dedent | mark | markTemplate =>
    exact ⟨start, h.apply _ (fun _ _ => rfl) fun _ => rfl, fun _ hold => hold.congr rfl rfl rfl⟩
  | insert offset t =>
    have hclamp : w.clamp offset = d.clamp offset := by rw [clamp, h.text_eq, clamp]
    rw [Step.run, Step.run, Chunk.insert, Chunk.insert, hclamp]
    exact ⟨_, h.splice _ _ t, False.elim⟩
  | update a b t =>
    have hclamp : ∀ offset, w.clamp offset = d.clamp offset := by
      intro offset
      rw [clamp, h.text_eq, clamp]
    rw [Step.run, Step.run, Chunk.update, Chunk.update, hclamp, hclamp]
    exact ⟨_, h.splice _ _ t, False.elim⟩
  | add other =>
    obtain ⟨start', hadd, hleads⟩ := h.add other
    exact ⟨start', hadd, fun _ => hleads⟩

/-- A body does the same to both chunks, but for the mapping that is open. -/
theorem run {d w : Chunk} (h : Around n origin start d w) (hend : c.options.lineEnd ≠ [])
    {body : Passage} (hbody : body.RefersBelow n) :
    ∃ start', Around n origin start' (body.run n d) (body.run (n + 1) w) ∧
      (body.Appends → Leads c start d → Leads c start' (body.run n d)) := by
  induction body generalizing start d w with
  | done => exact ⟨start, h, fun _ => id⟩
  | step op rest ih =>
    obtain ⟨start', hstep, hleads⟩ := h.step hend hbody.1
    obtain ⟨start'', hrest, hleads'⟩ := ih hstep hbody.2
    exact ⟨start'', hrest, fun happends hold => hleads' happends.2 (hleads happends.1 hold)⟩
  | mapped other inner rest ihinner ihrest =>
    obtain ⟨start', hinner, hleads⟩ := ihinner (h.openMapping other) hbody.1
    obtain ⟨start'', hrest, hleads'⟩ := ihrest (h.closeLast hinner) hbody.2
    refine ⟨start'', hrest, fun happends hold => hleads' happends.2 ?_⟩
    exact (hleads happends.1 (hold.congr rfl rfl rfl)).congr rfl rfl rfl
  | locating name inner rest ihinner ihrest =>
    obtain ⟨start', hinner, hleads⟩ := ihinner h hbody.1
    have hnamed : Around n origin start' (Id.run (d.locating name (inner.run n)))
        (Id.run (w.locating name (inner.run (n + 1)))) := by
      have happly := hinner.apply
        (fun c => { c with located := c.located ++ [(name, ⟨d.size, c.size⟩)] })
        (fun _ _ => rfl) fun _ => rfl
      have hsize : w.size = d.size := by rw [size, h.text_eq, size]
      have hw : Id.run (w.locating name (inner.run (n + 1))) =
          { inner.run (n + 1) w with
            located := (inner.run (n + 1) w).located ++
              [(name, ⟨d.size, (inner.run (n + 1) w).size⟩)] } := by
        rw [← hsize]
        rfl
      rw [hw]
      exact happly
    obtain ⟨start'', hrest, hleads'⟩ := ihrest hnamed hbody.2
    refine ⟨start'', hrest, fun happends hold => hleads' happends.2 ?_⟩
    exact (hleads happends.1 hold).congr rfl rfl rfl

end Around

end Chunk

/-- What is recorded of a located text and of a mapped one with the same body: the texts are the
same, and both spans go to the end. The first starts at the size in front of the body; the second
starts, if the body puts text only at the end, behind the indentation that is written there first,
and so at the same place in a line that has begun. -/
theorem Passage.spans_run (c : Chunk) (name : Text) (origin : Origin) {body : Passage}
    (hbody : body.RefersBelow c.mappings.length) (hend : c.options.lineEnd ≠ []) :
    let located : Chunk := Id.run (c.locating name (body.run c.mappings.length))
    let mapped : Chunk := Id.run (c.mapped origin (body.run (c.mappings.length + 1)))
    mapped.text = located.text ∧
      located.located.getLast? = some (name, ⟨c.size, located.size⟩) ∧
      ∃ start, mapped.mappings[c.mappings.length]? =
          some ⟨origin, .closed ⟨start, max located.size start⟩⟩ ∧
        (body.Appends → ∃ levels, start = c.size + (c.indentText levels).size ∧
          c.text ++ c.indentText levels <+: located.text ∧
            (c.atLineStart = false → levels = 0)) := by
  intro located mapped
  have hopened : Chunk.Around c.mappings.length origin c.size c (c.openMapping origin) :=
    ⟨c.mappings, [], (List.append_nil _).symm, rfl, rfl⟩
  obtain ⟨start, hrun, hleads⟩ := hopened.run hend hbody
  have htext : mapped.text = located.text := hrun.text_eq
  refine ⟨htext, List.getLast?_concat .., start, ?_, fun happends => ?_⟩
  · exact hrun.getElem?_closeMapping
  · obtain ⟨levels, hprefix, hstart, hlevels⟩ := (hleads happends (.refl c)).exists_levels
    exact ⟨levels, hstart, hprefix, hlevels⟩

/-- In a line that has begun, a call is written with its argument on a new line; an earlier mapping
ends in between. -/
theorem Passage.spans_run_of_call :
    let origin : Origin := { span := ⟨0, 5⟩ }
    let c := (({} : Chunk).openMapping origin).append ['=']
    let body := step (.append ['f', '(', '\n']) (step (.closeMapping (.earlier 0))
      (step (.indent 1) (step (.append ['x', ')']) done)))
    let located : Chunk := Id.run (c.locating ['v'] (body.run c.mappings.length))
    let mapped : Chunk := Id.run (c.mapped origin (body.run (c.mappings.length + 1)))
    mapped.text = located.text ∧ located.located.getLast? = some (['v'], ⟨1, 8⟩) ∧
      mapped.mappings[1]? = some ⟨origin, .closed ⟨1, 8⟩⟩ := by
  intro origin c body located mapped
  have hbody : body.RefersBelow c.mappings.length :=
    ⟨trivial, (by decide : 0 < 1), trivial, trivial, trivial⟩
  obtain ⟨htext, hlocated, start, hmapped, hstart⟩ :=
    Passage.spans_run c ['v'] origin hbody (by decide)
  obtain ⟨levels, hstart, -, hlevels⟩ := hstart ⟨trivial, trivial, trivial, trivial, trivial⟩
  have hsize : located.size = 8 := by decide
  have hstart : start = 1 := by
    rw [hlevels (by decide)] at hstart
    exact hstart
  rw [hsize, hstart] at hmapped
  rw [hsize] at hlocated
  exact ⟨htext, hlocated, hmapped⟩

/-- A value is written on a new line that is indented. The located span starts in front of the
indentation, the mapped one behind it. -/
theorem Passage.spans_run_ne :
    let origin : Origin := { span := ⟨0, 5⟩ }
    let c := (({} : Chunk).append ['{', '\n']).indent 1
    let body := step (.append ['v', 'a', 'l', 'u', 'e']) done
    let located : Chunk := Id.run (c.locating ['v'] (body.run c.mappings.length))
    let mapped : Chunk := Id.run (c.mapped origin (body.run (c.mappings.length + 1)))
    c.Reachable ∧ located.text = mapped.text ∧ located.located = [(['v'], ⟨2, 9⟩)] ∧
      mapped.mappings = [⟨origin, .closed ⟨4, 9⟩⟩] := by
  intro origin c body located mapped
  have hc : c.Reachable := ⟨{}, ((Chunk.Run.refl _).append _).indent 1⟩
  exact ⟨hc, by decide, by decide, by decide⟩

end BoundTemplate.Output
