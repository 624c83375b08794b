import BoundTemplate.Proofs.Output.Checker
import BoundTemplate.Proofs.Output.Lookup
import BoundTemplate.Proofs.Template.Bindings

/-!
# Checkers of templates

The parameters of a template and their copies in its checker lie apart on both sides, also
where reading goes wrong and where a parameter is missing. So an offset in a parameter
that is a part of a line and the same place in its copy are the counterparts of each
other.
-/

namespace BoundTemplate.Output

/-- The link of a copy. -/
def Copy.link (template generated : Source) (k : Copy) : Link :=
  ⟨Snapshot.resolve template k.binding.param.range.span, Snapshot.resolve generated k.span, true,
    none⟩

namespace Snapshot

/-- The links of a chunk that are copied word for word are those of its copies. -/
theorem verbatimLinks_ofChunk {c : Chunk} {copies : List Copy} (h : c.Copied copies) (t : Text) :
    (ofChunk c t).verbatimLinks = copies.map (Copy.link (.ofText t) (.ofText c.text)) := by
  have hmap : (ofChunk c t).verbatimLinks = (verbatimOf c.mappings).map fun m =>
      ⟨resolve (.ofText t) m.origin.span, resolve (.ofText c.text) (m.extent.span c.size),
        m.origin.verbatim, m.origin.name⟩ := List.filter_map
  rw [hmap, h.mappings_eq, List.map_map]
  rfl

/-- The copies of parameters that are spread over a template are separate on both sides. -/
theorem separate_ofChunk {c : Chunk} {copies : List Copy} (h : c.Copied copies) {t : Text}
    {start stop : Nat} (spread : Binding.Spread (.ofText t) start stop (copies.map Copy.binding)) :
    ∀ side, (ofChunk c t).Separate side := by
  intro side
  rw [Separate, verbatimLinks_ofChunk h, List.pairwise_map]
  cases side with
  | template =>
    refine (List.pairwise_map.1 spread.apart).imp fun {k k'} hlt => ?_
    simp only [Link.range, Copy.link, span_resolve]
    exact hlt
  | generated =>
    refine h.copiesIn.apart.imp_of_mem fun {k k'} hk hk' hlt => ?_
    obtain ⟨part, holds, -⟩ := h.copiesIn.holds k hk
    obtain ⟨part', holds', -⟩ := h.copiesIn.holds k' hk'
    have hspan : (Source.ofText c.text).stretch k.span = k.span := Source.stretch_eq_of_holds holds
    have hspan' : (Source.ofText c.text).stretch k'.span = k'.span :=
      Source.stretch_eq_of_holds holds'
    simp only [Link.range, Copy.link, span_resolve, hspan, hspan']
    exact hlt

/-- The link of a copy has the spans of the parameter and of the copy. -/
theorem spans_link (template generated : Source) {k : Copy} {part : Text}
    (htemplate : template.text.Holds k.binding.param.range.span part)
    (hgenerated : generated.text.Holds k.span part) :
    (k.link template generated).template.span = k.binding.param.range.span ∧
      (k.link template generated).generated.span = k.span :=
  ⟨(span_resolve _ _).trans (Source.stretch_eq_of_holds htemplate),
    (span_resolve _ _).trans (Source.stretch_eq_of_holds hgenerated)⟩

/-- The offsets in a parameter and those in its copy are the counterparts of each other, if both
have the same text. -/
theorem mirrors_of_copied {c : Chunk} {copies : List Copy} (h : c.Copied copies) {t part : Text}
    {start stop n : Nat} {k : Copy}
    (spread : Binding.Spread (.ofText t) start stop (copies.map Copy.binding)) (hk : k ∈ copies)
    (htemplate : t.Holds k.binding.param.range.span part) (hgenerated : c.text.Holds k.span part)
    (hn : part.isBoundary n = true) :
    (ofChunk c t).Mirrors (k.binding.param.range.span.start + n) (k.span.start + n) := by
  obtain ⟨hspan, hspan'⟩ := spans_link (.ofText t) (.ofText c.text) htemplate hgenerated
  have hlink : k.link (.ofText t) (.ofText c.text) ∈ (ofChunk c t).verbatimLinks := by
    rw [verbatimLinks_ofChunk h]
    exact List.mem_map_of_mem hk
  rw [← hspan, ← hspan']
  refine mirrors_of_holds (separate_ofChunk h spread) hlink (fun side => ?_) hn
  cases side with
  | template =>
    change t.Holds (k.link _ _).template.span part
    rwa [hspan]
  | generated =>
    change c.text.Holds (k.link _ _).generated.span part
    rwa [hspan']

/-- In the checker of a template, the offsets in a parameter that is a part of a line and those in
its copy are the counterparts of each other, whatever the tokenizer is. Of the parser it is relied
on that what it reports of the parts of the template is in its place. -/
theorem mirrors_checker_of_read {t : Text} {options : ReadOptions} {tokenizer : Markup.Tokenizer}
    {parser : Script.Parser} {tree : SyntaxTree} {errors : List ParseError} (layout : ChunkOptions)
    (mark : Markup.byteOrderMark ∉ t) (placed : parser.Placed t)
    (h : Template.read t options tokenizer parser = .ok ⟨some tree, errors⟩) :
    let s := Snapshot.checker layout t tree
    ∀ b ∈ tree.bindings, b.param.text ≠ [] → '\n' ∉ b.param.text →
      ∀ k, b.param.text.isBoundary k = true →
        ∃ g, k ≤ g ∧ s.generated.text.isBoundary (g - k) = true ∧
          b.param.text <+: s.generated.text.dropBytes (g - k) ∧
          s.Mirrors (b.param.range.start.offset + k) g := by
  intro s b hb hne hline k hk
  have spread := Template.spread_of_read mark placed h
  obtain ⟨copies, hcopies, hcopied⟩ := Chunk.exists_copied_checker layout tree.bindings
  rw [← hcopies] at spread hb
  obtain ⟨copy, hcopy, rfl⟩ := List.mem_map.1 hb
  have htemplate := (spread.lies copy.binding hb).holds hne
  obtain ⟨part, hgenerated, hpart⟩ := hcopied.copiesIn.holds copy hcopy
  rw [hpart hline] at hgenerated
  refine ⟨copy.span.start + k, Nat.le_add_left _ _, ?_, ?_,
    mirrors_of_copied hcopied spread hcopy htemplate hgenerated hk⟩
  · rw [Nat.add_sub_cancel]
    exact hgenerated.isBoundary_start
  · rw [Nat.add_sub_cancel]
    exact hgenerated.prefix_dropBytes

/-- One of two parameters is missing, so the list is not in order, and the other is mirrored. -/
theorem mirrors_checker_of_read_missing :
    let t := "<p b=a:c,d:>".toList
    let options : ReadOptions := { bindingAttributes := [['b']] }
    ∃ tree errors, Template.read t options = .ok ⟨some tree, errors⟩ ∧ errors ≠ [] ∧
      ∃ b ∈ tree.bindings, b.param.text = ['c'] ∧
        ∃ g, 1 ≤ g ∧ ['c'] <+: (Snapshot.checker {} t tree).generated.text.dropBytes (g - 1) ∧
          (Snapshot.checker {} t tree).Mirrors (b.param.range.start.offset + 1) g := by
  intro t options
  have hread : (Template.read t options).toOption.map (fun template =>
      (template.errors.isEmpty, template.tree.any fun tree =>
        tree.bindings.any fun b => b.param.text == ['c'])) =
      some (false, true) := by decide +kernel
  rcases h : Template.read t options with e | ⟨_ | tree, errors⟩
  · rw [h] at hread
    cases hread
  · rw [h] at hread
    exact absurd (congrArg Prod.snd (Option.some.inj hread)) Bool.false_ne_true
  · rw [h] at hread
    have herrors : errors.isEmpty = false := congrArg Prod.fst (Option.some.inj hread)
    have hany : tree.bindings.any (fun b => b.param.text == ['c']) = true :=
      congrArg Prod.snd (Option.some.inj hread)
    obtain ⟨b, hb, hc⟩ := List.any_eq_true.1 hany
    have hc : b.param.text = ['c'] := beq_iff_eq.1 hc
    have placed : Script.Parser.standard.Placed t := by decide +kernel
    obtain ⟨g, hle, -, hbegin, hmirrors⟩ := mirrors_checker_of_read {} (by decide) placed h b hb
      (by rw [hc]; decide) (by rw [hc]; decide) 1 (by rw [hc]; decide)
    rw [hc] at hbegin
    exact ⟨tree, errors, rfl, by simpa using herrors, b, hb, hc, g, hle, hbegin, hmirrors⟩

end Snapshot

end BoundTemplate.Output
