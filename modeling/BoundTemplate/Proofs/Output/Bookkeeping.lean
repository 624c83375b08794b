import BoundTemplate.Proofs.Output.Run

/-!
# Bookkeeping

All that a chunk refers to lies in its text, and a mapping that is recorded keeps its
index and its origin and never opens again, whatever is written and edited. Only where a
located span lies depends on its writer: it is a span of the text if the writer leaves the
text at least as long as it was.
-/

namespace BoundTemplate.Output

/-! ### Runs whose writers keep a promise -/

namespace Chunk

/-- What an operation that runs no other operations does. -/
inductive Operation : Chunk → Chunk → Prop
  | append (c : Chunk) (t : Text) : Operation c (c.append t)
  | openMapping (c : Chunk) (origin : Origin) : Operation c (c.openMapping origin)
  | closeMapping (c : Chunk) (index : Nat) : Operation c (c.closeMapping index)
  | insert (c : Chunk) (offset : Nat) (t : Text) : Operation c (c.insert offset t)
  | update (c : Chunk) (a b : Nat) (t : Text) : Operation c (c.update a b t)
  | indent (c : Chunk) (levels : Nat) : Operation c (c.indent levels)
  | dedent (c : Chunk) (levels : Nat) : Operation c (c.dedent levels)
  | mark (c : Chunk) (name : Text) : Operation c (c.mark name)
  | markTemplate (c : Chunk) (name : Text) (offset : Nat) :
      Operation c (c.markTemplate name offset)

/-- The chunk to which some operations take a chunk, if every writer of a located text keeps a
promise about the chunk in front of it and behind it. -/
inductive KeepingRun (promise : Chunk → Chunk → Prop) : Chunk → Chunk → Prop
  | refl (c : Chunk) : KeepingRun promise c c
  | operate {c d e : Chunk} (h : KeepingRun promise c d) (op : Operation d e) :
      KeepingRun promise c e
  | add {c d other : Chunk} {options : ChunkOptions} (h : KeepingRun promise c d)
      (written : KeepingRun promise { options } other) : KeepingRun promise c (d.add other)
  | locating {c d : Chunk} (name : Text) (write : Chunk → Id Chunk) (h : KeepingRun promise c d)
      (written : KeepingRun promise d (write d)) (kept : promise d (write d)) :
      KeepingRun promise c (d.locating name write)

variable {promise : Chunk → Chunk → Prop} {c d e : Chunk}

/-- A single operation is a run. -/
theorem Operation.run (op : Operation c d) : Run c d := by
  cases op with
  | append t => exact (Run.refl c).append t
  | openMapping origin => exact (Run.refl c).openMapping origin
  | closeMapping index => exact (Run.refl c).closeMapping index
  | insert offset t => exact (Run.refl c).insert offset t
  | update a b t => exact (Run.refl c).update a b t
  | indent levels => exact (Run.refl c).indent levels
  | dedent levels => exact (Run.refl c).dedent levels
  | mark name => exact (Run.refl c).mark name
  | markTemplate name offset => exact (Run.refl c).markTemplate name offset

/-- A run whose writers keep a promise is a run. -/
theorem KeepingRun.run (h : KeepingRun promise c d) : Run c d := by
  induction h with
  | refl c => exact .refl c
  | operate _ op ih => exact ih.trans op.run
  | add _ _ ih written => exact ih.add written
  | locating name write _ _ _ ih written => exact .locating name write ih written

/-- The writers of every run keep the promise of nothing. -/
theorem Run.keeping (h : Run c d) : KeepingRun (fun _ _ => True) c d := by
  induction h with
  | refl c => exact .refl c
  | append _ t ih => exact ih.operate (.append _ t)
  | openMapping _ origin ih => exact ih.operate (.openMapping _ origin)
  | closeMapping _ index ih => exact ih.operate (.closeMapping _ index)
  | insert _ offset t ih => exact ih.operate (.insert _ offset t)
  | update _ a b t ih => exact ih.operate (.update _ a b t)
  | add _ _ ih written => exact ih.add written
  | indent _ levels ih => exact ih.operate (.indent _ levels)
  | dedent _ levels ih => exact ih.operate (.dedent _ levels)
  | mark _ name ih => exact ih.operate (.mark _ name)
  | markTemplate _ name offset ih => exact ih.operate (.markTemplate _ name offset)
  | locating name write _ _ ih written => exact .locating name write ih written trivial

end Chunk

/-! ### Mappings that are recorded -/

/-- A mapping in a later state of its chunk: its origin is the same, and it has not opened again. -/
structure Mapping.Continues (m m' : Mapping) : Prop where
  origin : m'.origin = m.origin
  ended : ∀ s, m.extent = .closed s → ∃ s', m'.extent = .closed s'

namespace Mapping.Continues

theorem refl (m : Mapping) : Continues m m := ⟨rfl, fun s h => ⟨s, h⟩⟩

theorem trans {m m' m'' : Mapping} (h : Continues m m') (h' : Continues m' m'') :
    Continues m m'' := by
  refine ⟨h'.origin.trans h.origin, fun s hs => ?_⟩
  obtain ⟨s', hs'⟩ := h.ended s hs
  exact h'.ended s' hs'

/-- A mapping that moves with an edit continues. -/
theorem move (e : Edit) (empty : Bias) (m : Mapping) : Continues m (m.move e empty) := by
  refine ⟨rfl, fun s hs => ⟨e.moveSpan empty s, ?_⟩⟩
  simp only [Mapping.move, hs, Extent.move]

/-- A mapping that ends continues. -/
theorem close (stop : Nat) (m : Mapping) : Continues m (m.close stop) :=
  ⟨rfl, fun _ _ => ⟨_, rfl⟩⟩

end Mapping.Continues

namespace Chunk

variable {c d : Chunk}

/-- Every mapping of a chunk continues at its index in a later state. -/
def MappingsContinue (c d : Chunk) : Prop :=
  ∀ (index : Nat) (m : Mapping), c.mappings[index]? = some m →
    ∃ m' : Mapping, d.mappings[index]? = some m' ∧ m.Continues m'

/-- Mappings that are put behind others leave these at their indices. -/
theorem MappingsContinue.append {more : List Mapping} (h : d.mappings = c.mappings ++ more) :
    MappingsContinue c d := by
  intro index m hm
  have hlt := (List.getElem?_eq_some_iff.1 hm).1
  refine ⟨m, ?_, .refl m⟩
  rw [h, List.getElem?_append_left hlt, hm]

/-- No change gives an index to another mapping or opens a mapping again. -/
theorem Change.mappingsContinue (h : Change c d) : MappingsContinue c d := by
  cases h with
  | grow _ mappings_eq =>
    intro index m hm
    exact ⟨m, by rw [mappings_eq, hm], .refl m⟩
  | edit e empty _ _ mappings_eq =>
    intro index m hm
    refine ⟨m.move e empty, ?_, .move e empty m⟩
    rw [mappings_eq, List.getElem?_map, hm]
    rfl
  | openMapping _ _ mappings_eq => exact .append mappings_eq
  | closeMapping closed _ mappings_eq =>
    intro index m hm
    rw [mappings_eq, List.getElem?_modify, hm]
    by_cases heq : closed = index
    · exact ⟨m.close c.size, by simp [heq], .close c.size m⟩
    · exact ⟨m, by simp [heq], .refl m⟩
  | join _ _ mappings_eq _ => exact .append mappings_eq

theorem Changes.mappingsContinue (h : Changes c d) : MappingsContinue c d := by
  induction h with
  | refl => exact fun index m hm => ⟨m, hm, .refl m⟩
  | step _ change ih =>
    intro index m hm
    obtain ⟨m', hm', hcontinues⟩ := ih index m hm
    obtain ⟨m'', hm'', hcontinues'⟩ := change.mappingsContinue index m' hm'
    exact ⟨m'', hm'', hcontinues.trans hcontinues'⟩

end Chunk

/-! ### Located spans and markers -/

/-- A way in which spans lie in a text of some size is kept by edits, as the text grows, and when it
is put behind another. -/
structure Stable (lies : Nat → Span → Prop) : Prop where
  mono : ∀ {size size' s}, lies size s → size ≤ size' → lies size' s
  move : ∀ {size s} {e : Edit} (empty : Bias), lies size s → e.stop ≤ size →
    lies (size - e.removed + e.inserted) (e.moveSpan empty s)
  shift : ∀ {size s} (delta : Nat), lies size s → lies (delta + size) (s.shift delta)

/-- A span of a text of some size. -/
def SpanWithin (size : Nat) (s : Span) : Prop := (Extent.closed s).Within size

/-- A span without bytes, wherever it is, or one that stops in a text of some size. -/
def StopsWithin (size : Nat) (s : Span) : Prop := s.start = s.stop ∨ s.stop ≤ size

theorem stable_spanWithin : Stable SpanWithin where
  mono h hle := Extent.Within.mono h hle
  move empty h hstop := Extent.Within.move empty h hstop
  shift delta h := ⟨Nat.add_le_add_right h.1 delta, by
    rw [Nat.add_comm delta]
    exact Nat.add_le_add_right h.2 delta⟩

theorem stable_stopsWithin : Stable StopsWithin where
  mono h hle := h.imp_right fun h => Nat.le_trans h hle
  move {size s e} empty h hstop := by
    rcases Nat.lt_trichotomy s.start s.stop with hlt | heq | hgt
    · have hs : s.stop ≤ size := h.resolve_left (Nat.ne_of_lt hlt)
      exact .inr (Edit.stop_moveSpan_le empty hstop (Nat.le_of_lt hlt) hs)
    · rw [Edit.moveSpan_of_eq empty heq]
      exact .inl rfl
    · exact .inl (Edit.isEmpty_moveSpan_of_gt empty hgt)
  shift delta h := by
    simp only [StopsWithin, Span.start_shift, Span.stop_shift] at h ⊢
    omega

/-- A marker of a text of some size, or one of the template. -/
def Marker.Within (size : Nat) (m : Marker) : Prop := m.side = .generated → m.offset ≤ size

/-- Markers are in the order of their names, so each name is there once. -/
def MarkersSorted (ms : List Marker) : Prop := ms.Pairwise fun m k => m.name < k.name

namespace Marker

variable {m k : Marker} {ms : List Marker}

theorem mem_insert (h : k ∈ m.insert ms) : k = m ∨ k ∈ ms := by
  induction ms with
  | nil => exact .inl (List.mem_singleton.1 h)
  | cons other rest ih =>
    unfold insert at h
    split at h
    · exact (List.mem_cons.1 h).imp_right (List.mem_cons_of_mem _)
    · split at h
      · exact List.mem_cons.1 h
      · rcases List.mem_cons.1 h with rfl | h
        · exact .inr List.mem_cons_self
        · exact (ih h).imp_right (List.mem_cons_of_mem _)

/-- A marker is inserted where its name belongs. -/
theorem sorted_insert (m : Marker) (h : MarkersSorted ms) : MarkersSorted (m.insert ms) := by
  induction ms with
  | nil => exact List.pairwise_singleton _ _
  | cons other rest ih =>
    obtain ⟨hother, hrest⟩ := List.pairwise_cons.1 h
    unfold insert
    split
    · next heq => exact .cons (fun k hk => heq ▸ hother k hk) hrest
    · next hne =>
      split
      · next hlt =>
        refine .cons (fun k hk => ?_) h
        rcases List.mem_cons.1 hk with rfl | hk
        · exact hlt
        · exact List.lt_trans hlt (hother k hk)
      · next hge =>
        have hlt : other.name < m.name := Decidable.byContradiction fun hle =>
          hne (List.le_antisymm (List.not_lt.1 hle) (List.not_lt.1 hge))
        refine .cons (fun k hk => ?_) (ih hrest)
        rcases mem_insert hk with rfl | hk
        · exact hlt
        · exact hother k hk

variable {others : List Marker} {f : Marker → Marker} {name : Text}

/-- What is said of all markers is still said when others of which it is said are put in. -/
theorem forall_mem_foldl_insert {p : Marker → Prop} (hms : ∀ k ∈ ms, p k)
    (hothers : ∀ k ∈ others, p (f k)) :
    ∀ k ∈ others.foldl (fun ms m => (f m).insert ms) ms, p k := by
  induction others generalizing ms with
  | nil => exact hms
  | cons other others ih =>
    refine ih (fun k hk => ?_) fun k hk => hothers k (List.mem_cons_of_mem _ hk)
    rcases mem_insert hk with rfl | hk
    · exact hothers other List.mem_cons_self
    · exact hms k hk

theorem sorted_foldl_insert (h : MarkersSorted ms) :
    MarkersSorted (others.foldl (fun ms m => (f m).insert ms) ms) := by
  induction others generalizing ms with
  | nil => exact h
  | cons other others ih => exact ih (sorted_insert _ h)

/-- A marker that is put among others changes nothing under other names. -/
theorem find?_insert_of_ne (h : m.name ≠ name) :
    (m.insert ms).find? (·.name == name) = ms.find? (·.name == name) := by
  have hm : (m.name == name) = false := beq_eq_false_iff_ne.2 h
  induction ms with
  | nil => rw [insert, List.find?_cons, hm]
  | cons other rest ih =>
    unfold insert
    split
    · next heq =>
      have hother : (other.name == name) = false := heq ▸ hm
      rw [List.find?_cons, hm, List.find?_cons, hother]
    · split
      · rw [List.find?_cons, hm]
      · rw [List.find?_cons, List.find?_cons, ih]

/-- Moving markers does not change under which names they are found. -/
theorem find?_map (hf : ∀ m, (f m).name = m.name) :
    (ms.map f).find? (·.name == name) = (ms.find? (·.name == name)).map f := by
  rw [List.find?_map]
  refine congrArg (Option.map f) (congrArg (List.find? · ms) ?_)
  funext m
  rw [Function.comp_apply, hf]

/-- Among markers of different names that are put among others, the one of a name is found, or else
the one that was there. -/
theorem find?_foldl_insert (ms : List Marker) (name : Text) (hf : ∀ m, (f m).name = m.name)
    (h : MarkersSorted others) :
    (others.foldl (fun ms m => (f m).insert ms) ms).find? (·.name == name) =
      ((others.find? (·.name == name)).map f).or (ms.find? (·.name == name)) := by
  induction others generalizing ms with
  | nil => rfl
  | cons other others ih =>
    obtain ⟨hother, hothers⟩ := List.pairwise_cons.1 h
    rw [List.foldl_cons, ih _ hothers, List.find?_cons]
    by_cases heq : other.name = name
    · have hnone : others.find? (·.name == name) = none := by
        rw [List.find?_eq_none]
        intro k hk hname
        have hlt := hother k hk
        rw [heq, beq_iff_eq.1 hname] at hlt
        exact List.lt_irrefl _ hlt
      have hfound := Marker.find?_insert (f other) ms
      rw [hf, heq] at hfound
      rw [hnone, hfound, beq_iff_eq.2 heq]
      rfl
    · rw [find?_insert_of_ne (by rwa [hf]), beq_eq_false_iff_ne.2 heq]

end Marker

namespace Chunk

/-- Located spans, markers and what is owed to the last line are in order. -/
structure Tidy (lies : Nat → Span → Prop) (c : Chunk) : Prop where
  located : ∀ l ∈ c.located, lies c.size l.2
  markers : ∀ m ∈ c.markers, m.Within c.size
  sorted : MarkersSorted c.markers
  carried : c.atLineStart = false → c.carried = 0

/-- A marker keeps its name with an edit. -/
theorem name_moveMarker (e : Edit) (m : Marker) : (moveMarker e m).name = m.name := by
  unfold moveMarker
  split <;> rfl

namespace Tidy

variable {lies : Nat → Span → Prop} {c d other : Chunk}

theorem empty (options : ChunkOptions) : Tidy lies { options } :=
  ⟨by simp, by simp, .nil, fun _ => rfl⟩

/-- Text that is put at the end leaves all that is recorded. -/
theorem grow (hl : Stable lies) (h : c.Tidy lies) (size_le : c.size ≤ d.size)
    (located_eq : d.located = c.located) (markers_eq : d.markers = c.markers)
    (hcarried : d.atLineStart = false → d.carried = 0) : d.Tidy lies := by
  refine ⟨?_, ?_, ?_, hcarried⟩
  · rw [located_eq]
    exact fun l hl' => hl.mono (h.located l hl') size_le
  · rw [markers_eq]
    exact fun m hm hside => Nat.le_trans (h.markers m hm hside) size_le
  · rw [markers_eq]
    exact h.sorted

theorem move_marker {size : Nat} {e : Edit} {m : Marker} (h : m.Within size)
    (hstop : e.stop ≤ size) : (moveMarker e m).Within (size - e.removed + e.inserted) := by
  obtain ⟨name, offset, side⟩ := m
  cases side with
  | template => exact fun hside => by cases hside
  | generated => exact fun _ => Edit.move_le .after hstop (h rfl)

/-- An edit moves all that is recorded. -/
theorem splice (hl : Stable lies) (h : c.Tidy lies) {start stop : Nat} (t : Text)
    (hstart : c.text.isBoundary start = true) (hstop : c.text.isBoundary stop = true)
    (le : start ≤ stop) : (c.splice start stop t).Tidy lies := by
  have hsize := size_splice t hstart hstop le
  have hle : stop ≤ c.size := Text.le_size_of_isBoundary hstop
  let e : Edit := ⟨start, stop - start, t.size⟩
  have hedit : e.stop ≤ c.size := by
    simp only [Edit.stop, e]
    omega
  by_cases he : e.isEmpty = true
  · have heq : c.splice start stop t =
        { c with text := c.text.takeBytes start ++ t ++ c.text.dropBytes stop } := by
      rw [Chunk.splice, move, if_pos he]
    refine h.grow hl ?_ ?_ ?_ ?_
    · simp only [Edit.isEmpty, Bool.and_eq_true, beq_iff_eq, e] at he
      omega
    all_goals rw [heq]
    exact h.carried
  · have heq : c.splice start stop t =
        { c with
          text := c.text.takeBytes start ++ t ++ c.text.dropBytes stop
          mappings := (c.splice start stop t).mappings
          located := c.located.map fun l => (l.1, e.moveSpan (c.emptyBias e) l.2)
          markers := c.markers.map (moveMarker e) } := by
      rw [Chunk.splice, move, if_neg he]
      rfl
    refine ⟨?_, ?_, ?_, ?_⟩
    · rw [hsize, heq]
      intro l hmem
      obtain ⟨l', hmem', rfl⟩ := List.mem_map.1 hmem
      exact hl.move _ (h.located l' hmem') hedit
    · rw [hsize, heq]
      intro m hm
      obtain ⟨m', hm', rfl⟩ := List.mem_map.1 hm
      exact move_marker (h.markers m' hm') hedit
    · rw [heq]
      refine List.pairwise_map.2 (h.sorted.imp fun {m k} hlt => ?_)
      rwa [name_moveMarker, name_moveMarker]
    · rw [heq]
      exact h.carried

theorem writeIndent (hl : Stable lies) (h : c.Tidy lies) : c.writeIndent.Tidy lies := by
  have hflags : Tidy lies { c with atLineStart := false, carried := 0 } :=
    ⟨h.located, h.markers, h.sorted, fun _ => rfl⟩
  have hend := Text.isBoundary_size c.text
  exact hflags.splice hl _ hend hend (Nat.le_refl _)

theorem writeLine (hl : Stable lies) (h : c.Tidy lies) (line : Text) :
    (c.writeLine line).Tidy lies := by
  have hwrite : ∀ d : Chunk, d.Tidy lies → Tidy lies { d with text := d.text ++ line } := by
    intro d hd
    refine hd.grow hl ?_ rfl rfl hd.carried
    simp only [size, Text.size_append]
    exact Nat.le_add_right _ _
  unfold Chunk.writeLine
  split
  · exact h
  · dsimp only
    split
    · exact hwrite _ (h.writeIndent hl)
    · exact hwrite _ h

theorem breakLine (hl : Stable lies) (h : c.Tidy lies) : c.breakLine.Tidy lies := by
  refine h.grow hl ?_ rfl rfl fun _ => rfl
  simp only [size, Chunk.breakLine, Text.size_append]
  exact Nat.le_add_right _ _

theorem append (hl : Stable lies) (h : c.Tidy lies) (t : Text) : (c.append t).Tidy lies :=
  append_induction t h (fun _ line hd => hd.writeLine hl line) fun _ hd => hd.breakLine hl

theorem insert (hl : Stable lies) (h : c.Tidy lies) (offset : Nat) (t : Text) :
    (c.insert offset t).Tidy lies :=
  h.splice hl t (c.isBoundary_clamp offset) (c.isBoundary_clamp offset) (Nat.le_refl _)

theorem update (hl : Stable lies) (h : c.Tidy lies) (a b : Nat) (t : Text) :
    (c.update a b t).Tidy lies := by
  have ha := c.isBoundary_clamp a
  have hb := c.isBoundary_clamp b
  exact h.splice hl t (Text.isBoundary_min ha hb) (Text.isBoundary_max ha hb) (by omega)

/-- A marker goes in where the text ends, or anywhere in the template. -/
theorem insertMarker (h : c.Tidy lies) {m : Marker} (hm : m.Within c.size) :
    Tidy lies { c with markers := m.insert c.markers } := by
  refine ⟨h.located, fun k hk => ?_, Marker.sorted_insert m h.sorted, h.carried⟩
  rcases Marker.mem_insert hk with rfl | hk
  · exact hm
  · exact h.markers k hk

/-- An operation leaves a chunk tidy. -/
theorem operate (hl : Stable lies) (h : c.Tidy lies) (op : Operation c d) : d.Tidy lies := by
  cases op with
  | append t => exact h.append hl t
  | openMapping | closeMapping | indent | dedent =>
    exact ⟨h.located, h.markers, h.sorted, h.carried⟩
  | insert offset t => exact h.insert hl offset t
  | update a b t => exact h.update hl a b t
  | mark name => exact h.insertMarker fun _ => Nat.le_refl _
  | markTemplate name offset => exact h.insertMarker fun hside => by cases hside

/-! ### Composition -/

/-- The text of a chunk is put behind that of another with all that is recorded of it. -/
theorem join (hl : Stable lies) (h : c.Tidy lies) (hother : other.Tidy lies) :
    (c.join other).Tidy lies := by
  have hsize : (c.join other).size = c.size + other.size := Text.size_append ..
  have hle : c.size ≤ (c.join other).size := by omega
  have hshift : ∀ m ∈ other.markers, (shiftMarker c.size m).Within (c.join other).size := by
    intro m hm
    have hm := hother.markers m hm
    obtain ⟨name, offset, side⟩ := m
    cases side with
    | template => exact fun hside => by cases hside
    | generated =>
      intro _
      have hoffset : offset ≤ other.size := hm rfl
      simp only [shiftMarker]
      omega
  have hmarkers : ∀ m ∈ c.markers, m.Within (c.join other).size := fun m hm hside =>
    Nat.le_trans (h.markers m hm hside) hle
  refine ⟨fun l hmem => ?_, Marker.forall_mem_foldl_insert hmarkers hshift,
    Marker.sorted_foldl_insert h.sorted, h.carried⟩
  rcases List.mem_append.1 hmem with hmem | hmem
  · exact hl.mono (h.located l hmem) hle
  · obtain ⟨l', hmem', rfl⟩ := List.mem_map.1 hmem
    rw [hsize]
    exact hl.shift c.size (hother.located l' hmem')

theorem inheritLine (h : c.Tidy lies) (other : Chunk) : (c.inheritLine other).Tidy lies := by
  unfold Chunk.inheritLine
  split
  · exact h
  · refine ⟨h.located, h.markers, h.sorted, fun hline => ?_⟩
    simp only at hline ⊢
    rw [hline]
    rfl

/-- Adding a tidy chunk leaves a chunk tidy. -/
theorem add (hl : Stable lies) (h : c.Tidy lies) (hother : other.Tidy lies) :
    (c.add other).Tidy lies := by
  have hclosed : other.closeAll.Tidy lies :=
    ⟨hother.located, hother.markers, hother.sorted, hother.carried⟩
  have hsub := indentLines_induction (c.indentText c.indentation) hclosed
    fun d place hb hd => hd.splice hl (c.indentText c.indentation) hb hb (Nat.le_refl _)
  unfold Chunk.add
  dsimp only
  split
  · exact ((h.writeIndent hl).join hl hsub).inheritLine _
  · exact (h.join hl hsub).inheritLine _

end Tidy

/-! ### Runs -/

variable {promise : Chunk → Chunk → Prop} {c d : Chunk}

/-- Every run leaves a chunk tidy, if the promise of its writers says where located spans lie. -/
theorem KeepingRun.tidy {lies : Nat → Span → Prop} (hl : Stable lies)
    (hpromise : ∀ d e, promise d e → lies e.size ⟨d.size, e.size⟩)
    (h : KeepingRun promise c d) (hc : c.Tidy lies) : d.Tidy lies := by
  induction h with
  | refl => exact hc
  | operate _ op ih => exact (ih hc).operate hl op
  | add _ _ ih written => exact (ih hc).add hl (written (.empty _))
  | @locating c d name write _ _ kept ih written =>
    have hwritten := written (ih hc)
    refine ⟨fun l hmem => ?_, hwritten.markers, hwritten.sorted, hwritten.carried⟩
    rcases List.mem_append.1 hmem with hmem | hmem
    · exact hwritten.located l hmem
    · rw [List.mem_singleton.1 hmem]
      exact hpromise d (write d) kept

/-- What is written from the start is tidy; nothing is said of where its located spans start. -/
theorem Reachable.tidy (h : c.Reachable) : c.Tidy StopsWithin := by
  obtain ⟨options, hrun⟩ := h
  exact hrun.keeping.tidy stable_stopsWithin (fun _ _ _ => .inr (Nat.le_refl _)) (.empty options)

/-- If no writer of a located text makes the text shorter, then in every state that is reached all
mappings, located spans and markers lie in the text, nothing is owed to a line that has begun, and
every mapping recorded before has kept its index and its origin and has not opened again. -/
theorem KeepingRun.bookkeeping {options : ChunkOptions}
    (h : KeepingRun (fun c d => c.size ≤ d.size) { options } c)
    (h' : KeepingRun (fun c d => c.size ≤ d.size) c d) :
    (∀ m ∈ d.mappings, m.extent.Within d.size) ∧
      (∀ l ∈ d.located, l.2.start ≤ l.2.stop ∧ l.2.stop ≤ d.size) ∧
      (∀ m ∈ d.markers, m.side = .generated → m.offset ≤ d.size) ∧
      (d.atLineStart = false → d.carried = 0) ∧
      ∀ (index : Nat) (m : Mapping), c.mappings[index]? = some m →
        ∃ m' : Mapping, d.mappings[index]? = some m' ∧ m'.origin = m.origin ∧
          ((∃ s, m.extent = .closed s) → ∃ s, m'.extent = .closed s) := by
  have hbounded : d.Bounded := (h.run.trans h'.run).changes.bounded (bounded_empty options)
  have hpromise : ∀ d e : Chunk, d.size ≤ e.size →
      SpanWithin e.size ⟨d.size, e.size⟩ := fun d e hle => ⟨hle, Nat.le_refl _⟩
  have hstart := h.tidy stable_spanWithin hpromise (.empty options)
  have htidy := h'.tidy stable_spanWithin hpromise hstart
  refine ⟨hbounded, htidy.located, htidy.markers, htidy.carried, fun index m hm => ?_⟩
  obtain ⟨m', hm', hcontinues⟩ := h'.run.changes.mappingsContinue index m hm
  exact ⟨m', hm', hcontinues.origin, fun ⟨s, hs⟩ => hcontinues.ended s hs⟩

/-- A mapping is begun around a located text that is put on an indented line, and a character is
inserted in front of all. -/
theorem KeepingRun.bookkeeping_of_insert :
    let origin : Origin := { span := ⟨0, 1⟩ }
    let opened := ((({} : Chunk).append ['a', '\n']).indent 1).openMapping origin
    let located : Chunk := Id.run (opened.locating ['n'] (Chunk.append ['b']))
    let edited := (located.mark ['m']).insert 0 ['x']
    (∀ l ∈ edited.located, l.2.start ≤ l.2.stop ∧ l.2.stop ≤ edited.size) ∧
      edited.located ≠ [] ∧ ∃ m, edited.mappings[0]? = some m ∧ m.origin = origin := by
  intro origin opened located edited
  have hopened : KeepingRun (fun c d => c.size ≤ d.size) {} opened :=
    (((KeepingRun.refl _).operate (.append _ _)).operate (.indent _ 1)).operate (.openMapping _ _)
  have hedited : KeepingRun (fun c d => c.size ≤ d.size) opened edited :=
    ((KeepingRun.locating ['n'] (Chunk.append ['b']) (.refl opened)
      ((KeepingRun.refl opened).operate (.append _ _)) (by decide)).operate (.mark _ _)).operate
      (.insert _ 0 _)
  obtain ⟨-, hlocated, -, -, hindex⟩ := KeepingRun.bookkeeping hopened hedited
  obtain ⟨m, hm, horigin, -⟩ := hindex 0 ⟨origin, .running 2⟩ (by decide)
  exact ⟨hlocated, by decide, m, hm, horigin⟩

end Chunk

end BoundTemplate.Output
