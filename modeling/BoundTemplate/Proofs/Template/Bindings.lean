import BoundTemplate.Proofs.Binding.List
import BoundTemplate.Proofs.Markup.Attribute
import BoundTemplate.Proofs.Template.Tiling

/-!
# The bindings of a template

Every element of a tree is read from a start tag and every virtual element from a comment,
so its bindings lie there: in front of its children. Hence the bindings of a whole tree
are spread over its text, in the order in which its items name them.
-/

namespace BoundTemplate

/-! ### What items are read from -/

/-- The start of a virtual element is read from a comment. -/
def Setting.Begins (c : Setting) (comment : Span) (meaning : Meaning) : Prop :=
  ∃ id content start, c.source.text.Holds comment (Markup.Token.comment content).lexeme ∧
    Delimiter.Start.ofContent? (c.source.excerpt (Delimiter.contentSpan comment)) = some start ∧
    meaning = (c.meaningOf id start).1

/-- An element is read from a start tag, and a virtual element from a comment. -/
def Setting.Reads (c : Setting) : Item → Prop
  | .element e => ∃ id range name attributes inner,
      e = c.elementOf id range name attributes inner ∧
        Markup.StartTag.IsRead c.source.text ⟨⟨range.start, inner.start⟩, name, attributes⟩
  | .virtual v => ∃ comment, v.startComment = c.source.range comment ∧ c.Begins comment v.meaning
  | _ => True

/-- The siblings met so far are read from what the text has, and so is what is open among them. -/
structure Siblings.Read (c : Setting) (s : Siblings) : Prop where
  nodes : ∀ item ∈ itemsOf s.nodes, c.Reads item
  regions : ∀ r ∈ s.regions, c.Begins r.comment r.meaning ∧
    ∀ item ∈ itemsOf r.children, c.Reads item

namespace Setting

variable {c : Setting}

/-- What an element carries is read with it. -/
theorem reads_of_mem_element {e : Element} {children : List Node} (h : c.Reads (.element e))
    (hchildren : ∀ item ∈ itemsOf children, c.Reads item) :
    ∀ item ∈ (Node.element e children).items, c.Reads item :=
  forall_items_element h (fun _ _ => trivial) (fun _ _ => trivial) hchildren

/-- What a virtual element carries is read with it. -/
theorem reads_of_mem_virtual {v : VirtualElement} {children : List Node} (h : c.Reads (.virtual v))
    (hchildren : ∀ item ∈ itemsOf children, c.Reads item) :
    ∀ item ∈ (Node.virtual v children).items, c.Reads item :=
  forall_items_virtual h (fun _ _ _ _ => trivial) (fun _ _ _ _ => trivial) hchildren

end Setting

/-- A node that is read goes into the innermost open virtual element. -/
theorem Siblings.Read.push {c : Setting} {s : Siblings} {node : Node} (h : s.Read c)
    (hnode : ∀ item ∈ node.items, c.Reads item) : (s.push node).Read c := by
  obtain ⟨regions, nodes⟩ := s
  obtain ⟨hn, hr⟩ := h
  cases regions with
  | nil => exact ⟨forall_itemsOf_cons hnode hn, hr⟩
  | cons r regions =>
    refine ⟨hn, fun r' hr' => ?_⟩
    rcases List.mem_cons.1 hr' with rfl | hr'
    · obtain ⟨hbegins, hchildren⟩ := hr r List.mem_cons_self
      exact ⟨hbegins, forall_itemsOf_cons hnode hchildren⟩
    · exact hr r' (List.mem_cons_of_mem _ hr')

namespace Setting

variable {c : Setting} {start : Nat}

/-- What is read of some siblings is read from what the text has. -/
theorem Yields.read {raws : List Markup.Node} {strays : List Span} {stop : Nat} {s : Siblings}
    (h : c.Yields start raws strays stop s) : s.Read c := by
  induction h with
  | nil start => exact ⟨by simp [Siblings.none, itemsOf], by simp [Siblings.none]⟩
  | stray elders holds ih => exact ih
  | text elders holds ne apart ih | comment elders holds ih =>
    refine ih.push fun item hi => ?_
    rw [List.mem_singleton.1 hi]
    exact trivial
  | @leave start raws strays span content s region regions elders holds regions_eq ih =>
    have hmem : region ∈ s.regions := by
      rw [regions_eq]
      exact List.mem_cons_self
    obtain ⟨hbegins, hchildren⟩ := ih.regions region hmem
    have hrest : Siblings.Read c { s with regions := regions } := by
      refine ⟨ih.nodes, fun r hr => ih.regions r ?_⟩
      rw [regions_eq]
      exact List.mem_cons_of_mem _ hr
    refine hrest.push (reads_of_mem_virtual ⟨region.comment, rfl, hbegins⟩ fun item hi => ?_)
    exact hchildren item (mem_itemsOf_reverse.1 hi)
  | @enter start raws strays span content s head id elders holds begins ih =>
    refine ⟨ih.nodes, fun r hr => ?_⟩
    rcases List.mem_cons.1 hr with rfl | hr
    · exact ⟨⟨id, content, head, holds, begins, rfl⟩, by simp [regionOf, itemsOf]⟩
    · exact ih.regions r hr
  | @element start raws children strays inside range name inner attributes s u id elders tag content
      regions_eq le ends ih ihc =>
    refine ih.push (reads_of_mem_element ⟨id, range, name, attributes, inner, rfl, tag⟩ ?_)
    intro item hi
    exact ihc.nodes item (mem_itemsOf_reverse.1 hi)

end Setting

/-! ### Where bindings lie -/

namespace Delimiter

/-- What a comment says stands between its delimiters. -/
theorem holds_content {source : Text} {comment : Span} {content : Text}
    (h : source.Holds comment (Markup.Token.comment content).lexeme) :
    source.Holds (contentSpan comment) content ∧ comment.start < (contentSpan comment).start ∧
      (contentSpan comment).stop < comment.stop := by
  have hopen : Text.size "<!--".toList = 4 := rfl
  have hclose : Text.size "-->".toList = 3 := rfl
  have hstop := h.stop_eq
  have hlexeme : (Markup.Token.comment content).lexeme =
      "<!--".toList ++ (content ++ "-->".toList) := List.append_assoc ..
  rw [hlexeme] at h
  rw [hlexeme, Text.size_append, Text.size_append, hopen, hclose] at hstop
  have hcontent := h.split.2.split.1
  rw [hopen] at hcontent
  have hspan : contentSpan comment = ⟨comment.start + 4, comment.start + 4 + content.size⟩ := by
    simp only [contentSpan, Span.mk.injEq]
    omega
  rw [hspan]
  refine ⟨hcontent, ?_, ?_⟩
  · simp only
    omega
  · simp only
    omega

/-- The namespace and the expression of a virtual element are parts of what its comment says. -/
theorem contains_of_ofContent? {content : Excerpt} {start : Start}
    (h : Start.ofContent? content = some start) :
    ∃ space expression, content.Contains space ∧ content.Contains expression ∧
      start.spaceSpan = space.span ∧ start.expression = expression.span := by
  unfold Start.ofContent? at h
  dsimp only at h
  repeat' split at h
  · cases h
    refine ⟨_, _, content.contains_trimStart.trans (Excerpt.contains_take _ 2), ?_, rfl, rfl⟩
    exact (content.contains_trimStart.trans
      (content.trimStart.contains_drop 2)).trans (Excerpt.contains_trim _)
  · cases h
  · cases h

/-- The expression of a virtual element stands in what its comment says. -/
theorem exists_holds_expression {source : Text} {content : Excerpt} {start : Start}
    (holds : source.Holds content.span content.text) (h : Start.ofContent? content = some start) :
    (∃ part, source.Holds start.expression part) ∧ content.offset ≤ start.expression.start ∧
      start.expression.stop ≤ content.stop := by
  obtain ⟨-, expression, -, hcontains, -, hspan⟩ := contains_of_ofContent? h
  obtain ⟨hstart, hstop⟩ := hcontains.bounds
  rw [hspan]
  exact ⟨⟨_, hcontains.holds holds⟩, hstart, hstop⟩

end Delimiter

namespace Setting

variable {c : Setting}

/-- The bindings of an element lie in its start tag. -/
theorem spread_element {e : Element} (h : c.Reads (.element e))
    (placed : c.parser.Placed c.source.text) :
    Binding.Spread c.source e.range.span.start e.inner.span.start e.bindings := by
  obtain ⟨id, range, name, attributes, inner, rfl, tag⟩ := h
  obtain ⟨hattributes, hsorted⟩ := tag.attributes_spec
  have hlt := tag.start_lt_stop
  have hsize := Text.le_size_of_isBoundary tag.isBoundary_stop
  simp only at hattributes hlt hsize
  have hstart : (c.source.range range).span.start = range.start := Nat.min_eq_left (by omega)
  have hinner : (c.source.range inner).span.start = inner.start := Nat.min_eq_left hsize
  simp only [elementOf, hstart, hinner]
  refine Binding.Spread.flatMap (fun a => a.range.start + 1) (fun a => a.range.stop + 1) ?_ ?_ ?_
  · intro a ha
    obtain ⟨-, -, hvalues⟩ := hattributes a ha
    simp only [attributeOf, attributeOutcomes]
    split
    · next value quote hvalue =>
      obtain ⟨⟨part, holds⟩, hstart, hstop⟩ := hvalues value quote hvalue
      split
      · exact (Binding.spread_readList id holds placed).mono hstart (Nat.succ_le_succ hstop)
      · exact .nil _ _ _
    · exact .nil _ _ _
  · intro a ha
    obtain ⟨hstart, hstop, -⟩ := hattributes a ha
    omega
  · exact hsorted.imp fun hle => Nat.succ_le_succ hle

/-- The bindings of a virtual element lie in its start comment. -/
theorem spread_virtual {v : VirtualElement} (h : c.Reads (.virtual v))
    (placed : c.parser.Placed c.source.text) :
    Binding.Spread c.source v.startComment.span.start v.startComment.span.stop v.bindings := by
  obtain ⟨comment, hcomment, id, content, start, holds, hstart, hmeaning⟩ := h
  obtain ⟨hcontent, hlt, hlt'⟩ := Delimiter.holds_content holds
  have hexcerpt : c.source.excerpt (Delimiter.contentSpan comment) =
      ⟨(Delimiter.contentSpan comment).start, content⟩ := by
    rw [Source.excerpt, hcontent.slice_eq]
  have hspan := hcontent.span_mk
  have hwithin : c.source.text.Holds
      (Excerpt.span ⟨(Delimiter.contentSpan comment).start, content⟩) content := by
    rw [hspan]
    exact hcontent
  rw [hexcerpt] at hstart
  obtain ⟨⟨part, hpart⟩, hle, hle'⟩ := Delimiter.exists_holds_expression hwithin hstart
  have hstop : Excerpt.stop ⟨(Delimiter.contentSpan comment).start, content⟩ =
      (Delimiter.contentSpan comment).stop := congrArg Span.stop hspan
  rw [hstop] at hle'
  simp only at hle
  rw [hcomment, Source.span_range_of_holds holds, VirtualElement.bindings, hmeaning]
  unfold meaningOf
  rcases start.space with _ | _
  · exact (Binding.spread_readList id hpart placed).mono (by omega) (by omega)
  · unfold Directive.read
    split
    · next list hlist =>
      exfalso
      dsimp only at hlist
      split at hlist <;> cases hlist
    · exact .nil _ _ _

end Setting

/-- The bindings of some nodes, in the order of the text. -/
def bindingsIn (nodes : List Node) : List Binding :=
  (itemsOf nodes).filterMap fun
    | .binding b => some b
    | _ => none

theorem itemsOf_append (a b : List Node) : itemsOf (a ++ b) = itemsOf a ++ itemsOf b := by
  induction a with
  | nil => rfl
  | cons node a ih => simp only [List.cons_append, itemsOf, ih, List.append_assoc]

theorem bindingsIn_append (a b : List Node) :
    bindingsIn (a ++ b) = bindingsIn a ++ bindingsIn b := by
  rw [bindingsIn, itemsOf_append, List.filterMap_append]
  rfl

/-- The bindings of an element come before those of its children. -/
theorem bindingsIn_element (e : Element) (children : List Node) :
    bindingsIn [.element e children] = e.bindings ++ bindingsIn children := by
  simp [bindingsIn, itemsOf, Node.items, Element.items, List.filterMap_append]

/-- The bindings of a virtual element come before those of its children. -/
theorem bindingsIn_virtual (v : VirtualElement) (children : List Node) :
    bindingsIn [.virtual v children] = v.bindings ++ bindingsIn children := by
  unfold bindingsIn
  cases hmeaning : v.meaning with
  | bindings list =>
    simp [itemsOf, Node.items, VirtualElement.items, VirtualElement.bindings, hmeaning]
  | directive d =>
    simp [itemsOf, Node.items, VirtualElement.items, VirtualElement.bindings, hmeaning]
  | unknown =>
    simp [itemsOf, Node.items, VirtualElement.items, VirtualElement.bindings, hmeaning]

/-- The bindings of nodes that are laid out and read are spread over their stretch. -/
theorem Layout.spread {c : Setting} {start stop : Nat} {nodes : List Node} {strays : List Span}
    (h : Layout start nodes strays stop) (placed : c.parser.Placed c.source.text)
    (hitems : ∀ item ∈ itemsOf nodes, c.Reads item) :
    Binding.Spread c.source start stop (bindingsIn nodes.reverse) := by
  induction h with
  | nil start => exact .nil _ _ _
  | text elders lt _ ih | comment elders lt ih =>
    rw [List.reverse_cons, bindingsIn_append]
    have hrest := ih fun item hi => hitems item (List.mem_append_right _ hi)
    exact hrest.append (.nil _ _ _) elders.start_le_stop (Nat.le_of_lt lt)
  | stray elders lt ih => exact (ih hitems).mono (Nat.le_refl _) (Nat.le_of_lt lt)
  | @element start nodes children strays inside e elders framed content ih ihc =>
    rw [List.reverse_cons, bindingsIn_append, bindingsIn_element]
    obtain ⟨hlt, hle, hstop⟩ := framed.bounds
    have hrest := ih fun item hi => hitems item (List.mem_append_right _ hi)
    have hown := Setting.spread_element
      (hitems (.element e) (List.mem_append_left _ List.mem_cons_self)) placed
    have hinner := ihc fun item hi => hitems item <| List.mem_append_left _ <|
      List.mem_cons_of_mem _ <| List.mem_append_right _ (mem_itemsOf_reverse.1 hi)
    rw [List.reverse_reverse] at hinner
    have hnode := (hown.append hinner (Nat.le_of_lt hlt) hle).mono (Nat.le_refl _) hstop
    exact hrest.append hnode elders.start_le_stop (by omega)
  | @virtual start nodes children strays inside v elders tiled content ih ihc =>
    rw [List.reverse_cons, bindingsIn_append, bindingsIn_virtual]
    obtain ⟨hlt, hle, hstop⟩ := tiled.bounds
    have hrest := ih fun item hi => hitems item (List.mem_append_right _ hi)
    have hown := Setting.spread_virtual
      (hitems (.virtual v) (List.mem_append_left _ List.mem_cons_self)) placed
    rw [tiled.start_eq, tiled.inner_start] at hown
    have hinner := ihc fun item hi => hitems item <| List.mem_append_left _ <|
      List.mem_cons_of_mem _ <| List.mem_append_right _ (mem_itemsOf_reverse.1 hi)
    rw [List.reverse_reverse] at hinner
    have hnode := (hown.append hinner (Nat.le_of_lt hlt) hle).mono (Nat.le_refl _) hstop
    exact hrest.append hnode elders.start_le_stop (by omega)

/-- The items of a tree are read from what its text has. -/
theorem Template.reads_of_read {t : Text} {options : ReadOptions} {tokenizer : Markup.Tokenizer}
    {parser : Script.Parser} {tree : SyntaxTree} {errors : List ParseError}
    (mark : Markup.byteOrderMark ∉ t)
    (h : Template.read t options tokenizer parser = .ok ⟨some tree, errors⟩) :
    ∀ item ∈ tree.items, Setting.Reads ⟨.ofText t, options, parser⟩ item := by
  obtain ⟨document, more, s, hyields, -, hnodes, -⟩ := exists_yields_of_read mark h
  intro item hi
  rw [SyntaxTree.items, hnodes] at hi
  exact hyields.read.nodes item (mem_itemsOf_reverse.1 hi)

/-- The bindings of a tree are spread over its text. -/
theorem Template.spread_of_read {t : Text} {options : ReadOptions} {tokenizer : Markup.Tokenizer}
    {parser : Script.Parser} {tree : SyntaxTree} {errors : List ParseError}
    (mark : Markup.byteOrderMark ∉ t) (placed : parser.Placed t)
    (h : Template.read t options tokenizer parser = .ok ⟨some tree, errors⟩) :
    Binding.Spread (.ofText t) 0 t.size tree.bindings := by
  obtain ⟨-, layout⟩ := layout_of_read mark h
  have hreads := reads_of_read mark h
  have hspread := layout.spread (c := ⟨.ofText t, options, parser⟩) placed fun item hi =>
    hreads item (mem_itemsOf_reverse.1 hi)
  rw [List.reverse_reverse] at hspread
  exact hspread

end BoundTemplate
