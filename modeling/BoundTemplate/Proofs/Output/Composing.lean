import BoundTemplate.Proofs.Output.Following
import BoundTemplate.Proofs.Output.Passage

/-!
# Composition and direct writing

A passage can be performed at the end of a chunk, or on an empty chunk that is added
afterwards. Both make the same text, and mappings and markers go to the same sides of the
indentation.
-/

namespace BoundTemplate.Output

namespace Chunk

variable {c s d : Chunk}

/-- Mappings can be ended one after the other. -/
theorem closeAll_eq (c : Chunk) :
    c.closeAll =
      (List.range c.mappings.length).foldl (fun d index => d.closeMapping index) c := by
  have hfirst : ∀ n, n ≤ c.mappings.length →
      (List.range n).foldl (fun d index => d.closeMapping index) c =
        { c with
          mappings := (c.mappings.take n).map (Mapping.close c.size) ++ c.mappings.drop n } := by
    intro n
    induction n with
    | zero => exact fun _ => rfl
    | succ n ih =>
      intro hle
      have hlength : ((c.mappings.take n).map (Mapping.close c.size)).length = n := by
        rw [List.length_map, List.length_take, Nat.min_eq_left (Nat.le_of_succ_le hle)]
      have hmodify := List.modifyTailIdx_add (List.modifyHead (Mapping.close c.size)) 0
        ((c.mappings.take n).map (Mapping.close c.size)) (c.mappings.drop n)
      rw [hlength, Nat.add_zero, List.drop_eq_getElem_cons hle] at hmodify
      rw [List.range_succ, List.foldl_append, ih (Nat.le_of_succ_le hle), List.foldl_cons,
        List.foldl_nil, closeMapping, List.drop_eq_getElem_cons hle]
      refine congrArg (fun ms => { c with mappings := ms }) (hmodify.trans ?_)
      rw [List.take_succ_eq_append_getElem hle, List.map_append, List.append_assoc]
      rfl
  rw [hfirst _ (Nat.le_refl _), List.take_length, List.drop_length, List.append_nil]
  rfl

namespace Follows

variable (h : Follows c s d)
include h

theorem length_eq : d.mappings.length = c.mappings.length + s.mappings.length := by
  rw [h.mappings_eq, List.length_append, List.length_map]

theorem appendMapped (hc : c.Inside) {t : Text} (origin : Origin) (hreturn : '\r' ∉ t) :
    Follows c (s.appendMapped t origin) (d.appendMapped t origin) := by
  rw [Chunk.appendMapped, Chunk.appendMapped, h.length_eq]
  exact ((h.openMapping origin).append hc hreturn).closeMapping s.mappings.length

/-- An operation of a passage does the same on both chunks, and its level is known. -/
theorem step (hc : c.Inside) {op : Step} {level : Nat} (hop : op.Writes)
    (hlevel : op.levelAfter? s.indentation = some level) :
    Follows c (op.run 0 s) (op.run c.mappings.length d) ∧ (op.run 0 s).indentation = level := by
  cases op with
  | append t => exact ⟨h.append hc hop, (indentation_append t s).trans (Option.some.inj hlevel)⟩
  | appendMapped t origin =>
    exact ⟨h.appendMapped hc origin hop,
      (indentation_append t (s.openMapping origin)).trans (Option.some.inj hlevel)⟩
  | openMapping origin => exact ⟨h.openMapping origin, Option.some.inj hlevel⟩
  | closeMapping handle =>
    cases handle with
    | earlier index => exact hop.elim
    | own order =>
      refine ⟨?_, Option.some.inj hlevel⟩
      rw [Step.run, Step.run, Handle.index, Handle.index, Nat.zero_add]
      exact h.closeMapping order
  | indent levels => exact ⟨h.indent levels, Option.some.inj hlevel⟩
  | dedent levels =>
    rw [Step.levelAfter?] at hlevel
    split at hlevel
    · next hle => exact ⟨h.dedent hle, Option.some.inj hlevel⟩
    · cases hlevel
  | mark name => exact ⟨h.mark name, Option.some.inj hlevel⟩
  | markTemplate name offset => exact ⟨h.markTemplate name offset, Option.some.inj hlevel⟩
  | insert | update | add => exact hop.elim

omit h in
/-- A passage does the same on both chunks. -/
theorem run (hc : c.Inside) {p : Passage} {level : Nat} {s d : Chunk} (h : Follows c s d)
    (hp : p.Writes) (hlevel : p.levelAfter? s.indentation = some level) :
    Follows c (p.run 0 s) (p.run c.mappings.length d) ∧ (p.run 0 s).indentation = level := by
  induction p generalizing s d level with
  | done => exact ⟨h, Option.some.inj hlevel⟩
  | step op rest ih =>
    obtain ⟨between, hop, hrest⟩ := Option.bind_eq_some_iff.1 hlevel
    obtain ⟨hstep, rfl⟩ := h.step hc hp.1 hop
    exact ih hstep hp.2 hrest
  | mapped origin body rest ihbody ihrest =>
    obtain ⟨between, hbody, hrest⟩ := Option.bind_eq_some_iff.1 hlevel
    obtain ⟨hwritten, rfl⟩ := ihbody (h.openMapping origin) hp.1 hbody
    have hclosed := hwritten.closeMapping s.mappings.length
    rw [← h.length_eq] at hclosed
    exact ihrest hclosed hp.2 hrest
  | locating => exact hp.elim

theorem foldl_closeMapping (indices : List Nat) :
    Follows c (indices.foldl (fun s index => s.closeMapping index) s)
      ((indices.map (c.mappings.length + ·)).foldl (fun d index => d.closeMapping index) d) := by
  induction indices generalizing s d with
  | nil => exact h
  | cons index indices ih => exact ih (h.closeMapping index)

/-- What is still open ends at the end of both chunks. -/
theorem closeFrom : Follows c s.closeAll (d.closeFrom c.mappings.length) := by
  rw [closeAll_eq, Chunk.closeFrom, h.length_eq, Nat.add_sub_cancel_left, List.range'_eq_map_range]
  exact h.foldl_closeMapping _

end Follows

/-- Taking over how a line is to be indented leaves all that is written. -/
theorem recorded_inheritLine (c other : Chunk) :
    (c.inheritLine other).text = c.text ∧ (c.inheritLine other).mappings = c.mappings ∧
      (c.inheritLine other).markers = c.markers := by
  unfold inheritLine
  split <;> exact ⟨rfl, rfl, rfl⟩

/-- Composition makes what direct writing makes. -/
theorem Follows.add (hc : c.Inside) (h : Follows c s.closeAll d) :
    (c.add s).text = d.text ∧ (c.add s).mappings = d.mappings ∧
      ∀ name, (c.add s).marker? name = d.marker? name := by
  let sub := s.closeAll.indentLines c.outer
  have hforward : s.closeAll.Forward := by
    refine ⟨fun m hm => (h.bounded m hm).forward, fun l hl => ?_⟩
    rw [h.located_eq] at hl
    cases hl
  obtain ⟨hmappings, -, hmarkers⟩ := recorded_indentLines c.outer hforward
  have hadd : c.add s = (c.join sub).inheritLine sub := by
    unfold Chunk.add
    rw [hc.inside]
    rfl
  obtain ⟨htext, hmappings', hmarkers'⟩ := recorded_inheritLine (c.join sub) sub
  refine ⟨?_, ?_, fun name => ?_⟩
  · rw [hadd, htext, h.text_eq, ← text_indentLines]
    rfl
  · rw [hadd, hmappings', join, h.mappings_eq]
    dsimp only
    rw [hmappings, List.map_map]
    rfl
  · have hname : ∀ m, (Marker.spread (c.gaps s.closeAll) m).name = m.name := by
      intro m
      unfold Marker.spread
      split <;> rfl
    have hshift : ∀ m, (shiftMarker c.size m).name = m.name := by
      intro m
      unfold shiftMarker
      split <;> rfl
    have hsorted : MarkersSorted sub.markers := by
      rw [hmarkers]
      refine List.pairwise_map.2 (h.tidy.sorted.imp fun {m k} hlt => ?_)
      exact (hname m).symm ▸ (hname k).symm ▸ hlt
    have hfound := Marker.find?_foldl_insert c.markers name hshift hsorted
    have hsub : sub.markers.find? (·.name == name) =
        (s.closeAll.marker? name).map (Marker.spread (c.gaps s.closeAll)) := by
      rw [hmarkers]
      exact Marker.find?_map hname
    rw [hadd, marker?, hmarkers', h.marker_eq]
    refine hfound.trans ?_
    rw [hsub, Option.map_map]
    rfl

end Chunk

/-- A passage that only writes, and does not go below the level at which it starts, makes the same
text, mappings and markers at the end of a line that has begun, whether it is performed there or on
an empty chunk that is added. -/
theorem Passage.add_run {c : Chunk} {p : Passage} {level : Nat} (hc : c.Reachable)
    (hinside : c.atLineStart = false) (hend : c.options.lineEnd = ['\n'])
    (hunit : '\n' ∉ c.options.indentUnit ∧ '\r' ∉ c.options.indentUnit) (hp : p.Writes)
    (hlevel : p.levelAfter? 0 = some level) :
    let composed := c.add (p.run 0 { options := c.options })
    let direct := (p.run c.mappings.length c).closeFrom c.mappings.length
    composed.text = direct.text ∧ composed.mappings = direct.mappings ∧
      ∀ name, composed.markerOffset? name = direct.markerOffset? name := by
  have hbase : c.Inside := ⟨hc.bounded, hc.tidy, hinside, hend, hunit.1, hunit.2⟩
  obtain ⟨hfollows, -⟩ := (Chunk.Follows.start hbase).run hbase hp hlevel
  obtain ⟨htext, hmappings, hmarkers⟩ := hfollows.closeFrom.add hbase
  refine ⟨htext, hmappings, fun name => ?_⟩
  exact congrArg (fun m : Option Marker => (m.filter (·.side == .generated)).map (·.offset))
    (hmarkers name)

/-- A block with an indented line is put behind a bracket on an indented line; one of its mappings
is still open at the end. -/
theorem Passage.add_run_of_block :
    let origin : Origin := { span := ⟨0, 1⟩ }
    let c := ((({} : Chunk).append ['a', '\n']).indent 1).append ['(']
    let line := step (.mark ['m']) (step (.append ['x', '\n']) done)
    let p := step (.append ['{', '\n']) (step (.indent 1)
      (mapped origin line
        (step (.dedent 1) (step (.openMapping origin) (step (.append ['}']) done)))))
    let composed := c.add (p.run 0 { options := c.options })
    let direct := (p.run c.mappings.length c).closeFrom c.mappings.length
    p.Writes ∧ composed.text = "a\n  (\x7b\n    x\n  \x7d".toList ∧ composed.text = direct.text ∧
      composed.mappings = direct.mappings ∧
        composed.markerOffset? ['m'] = direct.markerOffset? ['m'] := by
  intro origin c line p composed direct
  have hc : c.Reachable := ⟨{}, (((Chunk.Run.refl _).append _).indent 1).append _⟩
  have hp : p.Writes := by decide
  obtain ⟨htext, hmappings, hmarkers⟩ :=
    Passage.add_run hc (by decide) (by decide) (by decide) hp
      (show p.levelAfter? 0 = some 0 by decide)
  exact ⟨hp, by decide, htext, hmappings, hmarkers ['m']⟩

end BoundTemplate.Output
