import BoundTemplate.Output.Checker
import BoundTemplate.Proofs.Output.Writing

/-!
# What a checker holds

A checker has one mapping that is copied word for word for each binding, in the order of
the bindings. The copies lie one behind the other with a byte at least between them, and
a parameter without line feeds stands in its copy as it is.
-/

namespace BoundTemplate.Output

/-- The parameter of a binding, and where it is copied to. -/
structure Copy where
  binding : Binding
  span : Span

/-- The mapping of a copy. -/
def Copy.mapping (k : Copy) : Mapping :=
  ⟨{ span := k.binding.param.range.span, verbatim := true }, .closed k.span⟩

theorem Mapping.eq_mk {m : Mapping} {origin : Origin} {x : Extent} (ho : m.origin = origin)
    (hx : m.extent = x) : m = ⟨origin, x⟩ := by
  rw [← ho, ← hx]

/-- The mapping of a copy is the same as long as what it covers is. -/
theorem Mapping.Kept.eq_of_closed {t u : Text} {gap : Nat} {m m' : Mapping} {s : Span} {part : Text}
    (h : Kept t u gap m m') (hs : m.extent = .closed s) (holds : t.Holds s part)
    (hlt : s.stop < t.size) : m' = m := by
  obtain ⟨s', hs', -, -, -, hsame⟩ := h.closed s part hs holds
  rw [hsame hlt, ← hs] at hs'
  exact eq_mk h.origin hs'

/-- Some copies lie in a text one behind the other and in front of its end, and what is copied
stands there if it is a part of a line. -/
structure CopiesIn (t : Text) (copies : List Copy) : Prop where
  holds : ∀ k ∈ copies, ∃ part, t.Holds k.span part ∧
    ('\n' ∉ k.binding.param.text → part = k.binding.param.text)
  apart : copies.Pairwise fun k k' => k.span.stop < k'.span.start
  ended : ∀ k ∈ copies, k.span.stop < t.size

namespace CopiesIn

variable {t u : Text} {copies : List Copy}

theorem nil (t : Text) : CopiesIn t [] := ⟨by simp, .nil, by simp⟩

theorem mono (h : CopiesIn t copies) (hbegin : t <+: u) : CopiesIn u copies := by
  obtain ⟨more, rfl⟩ := hbegin
  refine ⟨fun k hk => ?_, h.apart, fun k hk => ?_⟩
  · obtain ⟨part, holds, hpart⟩ := h.holds k hk
    exact ⟨part, holds.extend more, hpart⟩
  · rw [Text.size_append]
    exact Nat.lt_of_lt_of_le (h.ended k hk) (Nat.le_add_right _ _)

/-- Writing leaves the mappings of copies. -/
theorem map_mapping_eq (h : CopiesIn t copies) {gap : Nat} {f : Mapping → Mapping}
    (hf : ∀ m, Mapping.Kept t u gap m (f m)) :
    (copies.map Copy.mapping).map f = copies.map Copy.mapping := by
  rw [List.map_map]
  refine List.map_congr_left fun k hk => ?_
  obtain ⟨part, holds, -⟩ := h.holds k hk
  exact (hf k.mapping).eq_of_closed rfl holds (h.ended k hk)

/-- One more copy lies behind the text in which the others lie. -/
theorem concat (h : CopiesIn t copies) (hbegin : t <+: u) {k : Copy} {part : Text}
    (holds : u.Holds k.span part)
    (hpart : '\n' ∉ k.binding.param.text → part = k.binding.param.text)
    (hstart : t.size ≤ k.span.start) (hstop : k.span.stop < u.size) :
    CopiesIn u (copies ++ [k]) := by
  have hold := h.mono hbegin
  refine ⟨fun k' hk' => ?_, List.pairwise_append.2 ⟨h.apart, List.pairwise_singleton _ _, ?_⟩,
    fun k' hk' => ?_⟩
  · rcases List.mem_append.1 hk' with hk' | hk'
    · exact hold.holds k' hk'
    · cases List.mem_singleton.1 hk'
      exact ⟨part, holds, hpart⟩
  · intro k' hk' last hlast
    cases List.mem_singleton.1 hlast
    exact Nat.lt_of_lt_of_le (h.ended k' hk') hstart
  · rcases List.mem_append.1 hk' with hk' | hk'
    · exact hold.ended k' hk'
    · cases List.mem_singleton.1 hk'
      exact hstop

end CopiesIn

/-- The mappings that are copied word for word. -/
def verbatimOf (mappings : List Mapping) : List Mapping := mappings.filter (·.origin.verbatim)

theorem verbatimOf_append (a b : List Mapping) :
    verbatimOf (a ++ b) = verbatimOf a ++ verbatimOf b :=
  List.filter_append _ _

/-- What moves mappings moves those that are copied. -/
theorem verbatimOf_map {f : Mapping → Mapping} (hf : ∀ m, (f m).origin = m.origin)
    (mappings : List Mapping) : verbatimOf (mappings.map f) = (verbatimOf mappings).map f := by
  rw [verbatimOf, List.filter_map, verbatimOf]
  congr 2
  funext m
  simp only [Function.comp, hf m]

namespace Chunk

/-- The mappings of a chunk that are copied word for word are those of some copies in its text. -/
structure Copied (c : Chunk) (copies : List Copy) : Prop where
  mappings_eq : verbatimOf c.mappings = copies.map Copy.mapping
  copiesIn : CopiesIn c.text copies

/-- Writing leaves all copies. -/
theorem Copied.extend {gap : Nat} {c d : Chunk} {copies : List Copy} (h : c.Copied copies)
    (hext : Extends gap c d) : d.Copied copies := by
  obtain ⟨f, hf, hd⟩ := hext.mappings
  refine ⟨?_, h.copiesIn.mono hext.text_begins⟩
  rw [hd, verbatimOf_map fun m => (hf m).origin, h.mappings_eq, h.copiesIn.map_mapping_eq hf]

/-! ### Mapped texts -/

theorem modify_concat {α : Type} (l : List α) (x : α) (f : α → α) :
    (l ++ [x]).modify l.length f = l ++ [f x] := by
  have h := List.modifyTailIdx_add (List.modifyHead f) 0 l [x]
  rwa [Nat.add_zero] at h

/-- A text that is mapped inside of a line and has no line feeds is put at the end. -/
theorem appendMapped_of_inside {c : Chunk} {t : Text} (origin : Origin)
    (hinside : c.atLineStart = false) (ht : '\n' ∉ t) :
    c.appendMapped t origin = { c with
      text := c.text ++ t
      mappings := c.mappings ++ [⟨origin, .closed ⟨c.size, c.size + t.size⟩⟩] } := by
  have hopened : (c.openMapping origin).append t =
      { c.openMapping origin with text := c.text ++ t } := by
    rw [append_of_not_mem _ ht]
    exact writeLine_of_inside (c := c.openMapping origin) t hinside
  have hsize : (c.text ++ t).size = c.size + t.size := Text.size_append ..
  rw [appendMapped, hopened, closeMapping]
  simp only [openMapping, modify_concat, Extent.close, Extent.span, size, Text.size_append,
    Nat.max_eq_left (Nat.le_add_right _ _)]

/-- A text that is mapped is covered by a mapping that ends with it. -/
theorem exists_of_appendMapped (c : Chunk) (t : Text) (origin : Origin) :
    let d := c.appendMapped t origin
    c.text <+: d.text ∧ ∃ (f : Mapping → Mapping) (s : Span) (part : Text),
      (∀ m, Mapping.Kept c.text d.text 0 m (f m)) ∧
      d.mappings = c.mappings.map f ++ [⟨origin, .closed s⟩] ∧ d.text.Holds s part ∧
      c.size ≤ s.start ∧ (c.atLineStart = false → '\n' ∉ t → part = t) := by
  intro d
  have hext := extends_append (c.openMapping origin) t
  have hbegin : c.text <+: d.text := hext.text_begins
  refine ⟨hbegin, ?_⟩
  by_cases hline : c.atLineStart = false ∧ '\n' ∉ t
  · have hd : d = _ := appendMapped_of_inside origin hline.1 hline.2
    have htext : d.text = c.text ++ t := congrArg Chunk.text hd
    refine ⟨id, ⟨c.size, c.size + t.size⟩, t, fun m => ?_, ?_, ?_, Nat.le_refl _, fun _ _ => rfl⟩
    · rw [htext]
      exact (Mapping.Kept.append c.text t m).mono (Nat.zero_le _)
    · rw [List.map_id]
      exact congrArg Chunk.mappings hd
    · rw [htext]
      exact ⟨c.text, [], (List.append_nil _).symm, rfl⟩
  · obtain ⟨f, hf, hmappings⟩ := hext.mappings
    have hstart : c.text.isBoundary c.size = true := Text.isBoundary_size c.text
    obtain ⟨start, hs, hle, hb⟩ := (hf ⟨origin, .running c.size⟩).running c.size rfl hstart
    have horigin := (hf ⟨origin, .running c.size⟩).origin
    have hlast : f ⟨origin, .running c.size⟩ = ⟨origin, .running start⟩ := Mapping.eq_mk horigin hs
    have hstop := Text.le_size_of_isBoundary hb
    obtain ⟨part, holds⟩ := Text.exists_holds hb (Text.isBoundary_size _) hstop
    refine ⟨f, ⟨start, d.size⟩, part, hf, ?_, holds, hle, fun h ht => absurd ⟨h, ht⟩ hline⟩
    have hopened : ((c.openMapping origin).append t).mappings =
        c.mappings.map f ++ [⟨origin, .running start⟩] := by
      rw [hmappings, openMapping, List.map_append, List.map_singleton, hlast]
    have hlength : c.mappings.length = (c.mappings.map f).length := List.length_map f |>.symm
    have hclose : d.mappings = ((c.openMapping origin).append t).mappings.modify c.mappings.length
        (Mapping.close ((c.openMapping origin).append t).size) := rfl
    rw [hclose, hopened, hlength, modify_concat]
    have hsize : max ((c.openMapping origin).append t).size start = d.size := Nat.max_eq_left hstop
    simp only [Mapping.close, Extent.close, Extent.span, hsize]

namespace Copied

variable {c d : Chunk} {copies : List Copy}

/-- A mapping that is not copied word for word is none of the copies. -/
theorem appendMapped_plain (h : c.Copied copies) (t : Text) {origin : Origin}
    (hplain : origin.verbatim = false) : (c.appendMapped t origin).Copied copies := by
  obtain ⟨hbegin, f, s, part, hf, hmappings, -⟩ := exists_of_appendMapped c t origin
  refine ⟨?_, h.copiesIn.mono hbegin⟩
  have hlast : verbatimOf [⟨origin, .closed s⟩] = [] := by simp [verbatimOf, hplain]
  rw [hmappings, verbatimOf_append, hlast, List.append_nil, verbatimOf_map fun m => (hf m).origin,
    h.mappings_eq, h.copiesIn.map_mapping_eq hf]

/-- A parameter is copied behind all others, and the text behind it leaves it there. -/
theorem appendMapped_verbatim (h : c.Copied copies) (b : Binding) (hinside : c.atLineStart = false)
    {gap : Nat} (hgap : 0 < gap) (hd : Extends gap (c.appendMapped b.param.text
      { span := b.param.range.span, verbatim := true }) d) :
    ∃ s, d.Copied (copies ++ [⟨b, s⟩]) := by
  let origin : Origin := { span := b.param.range.span, verbatim := true }
  obtain ⟨hbegin, f, s, part, hf, hmappings, holds, hstart, hpart⟩ :=
    exists_of_appendMapped c b.param.text origin
  obtain ⟨g, hg, hgmappings⟩ := hd.mappings
  obtain ⟨s', hs', holds', hle, hgap', -⟩ := (hg ⟨origin, .closed s⟩).closed s part rfl holds
  have horigin := (hg ⟨origin, .closed s⟩).origin
  have hlast : g ⟨origin, .closed s⟩ = ⟨origin, .closed s'⟩ := Mapping.eq_mk horigin hs'
  refine ⟨s', ?_, ?_⟩
  · have hold := h.copiesIn.mono hbegin
    have hcopied : verbatimOf [⟨origin, .closed s⟩] = [⟨origin, .closed s⟩] := rfl
    rw [hgmappings, verbatimOf_map fun m => (hg m).origin, hmappings, verbatimOf_append, hcopied,
      verbatimOf_map fun m => (hf m).origin, h.mappings_eq, h.copiesIn.map_mapping_eq hf,
      List.map_append, hold.map_mapping_eq hg, List.map_singleton, hlast, List.map_append]
    rfl
  · refine h.copiesIn.concat (hbegin.trans hd.text_begins) holds' (hpart hinside) ?_ ?_
    · exact Nat.le_trans hstart hle
    · exact Nat.lt_of_lt_of_le (Nat.lt_add_of_pos_right hgap) hgap'

/-- The call for a binding copies its parameter behind all others. -/
theorem appendCall (h : c.Copied copies) (b : Binding) :
    ∃ s, (c.appendCall b).Copied (copies ++ [⟨b, s⟩]) := by
  let named := (c.append "check_".toList).appendMapped b.name.text { span := b.name.range.span }
  have hnamed : named.Copied copies :=
    (h.extend (extends_append c _)).appendMapped_plain b.name.text rfl
  have hopen : (named.append ['(']).Copied copies := hnamed.extend (extends_append named _)
  have hinside : (named.append ['(']).atLineStart = false := by
    rw [append_of_not_mem named (by decide)]
    exact atLineStart_writeLine named (List.cons_ne_nil _ _)
  let argued := (named.append ['(']).appendMapped b.param.text
    { span := b.param.range.span, verbatim := true }
  have hgap : 0 < Text.size ");".toList := by decide
  have hclosed := extends_writeLine argued ");".toList
  have hbroken := hclosed.trans_left (extends_breakLine _) hgap
  exact hopen.appendMapped_verbatim b hinside hgap
    (hbroken.trans_left (extends_writeLine _ []) hgap)

/-- The calls for some bindings copy their parameters in their order. -/
theorem foldl_appendCall (h : c.Copied copies) (bindings : List Binding) :
    ∃ more : List Copy, more.map Copy.binding = bindings ∧
      (bindings.foldl (fun c b => c.appendCall b) c).Copied (copies ++ more) := by
  induction bindings generalizing c copies with
  | nil => exact ⟨[], rfl, by rwa [List.append_nil]⟩
  | cons b bindings ih =>
    obtain ⟨s, hs⟩ := h.appendCall b
    obtain ⟨more, hmore, hrest⟩ := ih hs
    refine ⟨⟨b, s⟩ :: more, by rw [List.map_cons, hmore], ?_⟩
    rw [List.append_assoc] at hrest
    exact hrest

end Copied

/-- A checker copies the parameters of its bindings in their order. -/
theorem exists_copied_checker (options : ChunkOptions) (bindings : List Binding) :
    ∃ copies : List Copy, copies.map Copy.binding = bindings ∧
      (checker options bindings).Copied copies := by
  have hempty : Copied { options } [] := ⟨rfl, .nil _⟩
  have hhead := hempty.extend (extends_append _ "function view() \x7b\n".toList)
  let start := (Chunk.append "function view() \x7b\n".toList { options }).indent 1
  have hstart : start.Copied [] := ⟨hhead.mappings_eq, hhead.copiesIn⟩
  obtain ⟨copies, hcopies, hcalls⟩ := hstart.foldl_appendCall bindings
  have hdedent : ((bindings.foldl (fun c b => c.appendCall b) start).dedent 1).Copied copies :=
    ⟨hcalls.mappings_eq, hcalls.copiesIn⟩
  exact ⟨copies, hcopies, hdedent.extend (extends_append _ ['}'])⟩

end Chunk

end BoundTemplate.Output
