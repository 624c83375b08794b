import BoundTemplate.Proofs.Script.Standard
import BoundTemplate.Proofs.Template.Bindings
import BoundTemplate.Proofs.Template.Slicing

/-!
# Templates word for word

In a template without byte order marks, reading never slices where there is no part. So
every text in the tree is what stands in the template at its range, every comment what
stands between its delimiters, and every position has the line and column of its offset.
-/

namespace BoundTemplate

/-! ### Markup -/

namespace Markup

/-- A node of markup stands in a text: a text as a part of it, a comment with its delimiters, an
element behind its start tag, and with it the nodes between its tags. -/
inductive Node.Stands (source : Text) : Node → Prop
  | text {span : Span} {part : Text} (holds : source.Holds span part) : Stands source (.text span)
  | comment {span : Span} {content : Text}
      (holds : source.Holds span (Token.comment content).lexeme) : Stands source (.comment span)
  | element {range name inner : Span} {attributes : List Attribute} {children : List Node}
      (tag : StartTag.IsRead source ⟨⟨range.start, inner.start⟩, name, attributes⟩)
      (content : ∀ node ∈ children, Stands source node) :
      Stands source (.element range name attributes inner children)

/-- What is laid out stands in the text. -/
theorem Layout.stands {source : Text} {start stop : Nat} {nodes : List Node} {strays : List Span}
    (h : Layout source start nodes strays stop) : ∀ node ∈ nodes, node.Stands source := by
  induction h with
  | nil start => simp
  | stray elders holds ih => exact ih
  | text elders holds ne apart ih => exact List.forall_mem_cons.2 ⟨.text holds, ih⟩
  | comment elders holds ih => exact List.forall_mem_cons.2 ⟨.comment holds, ih⟩
  | element elders tag content le ends ih ihc =>
    refine List.forall_mem_cons.2 ⟨.element tag fun node hn => ?_, ih⟩
    exact ihc node (List.mem_reverse.2 hn)

end Markup

/-! ### Trees -/

/-- A comment stands at its range with four bytes in front of what it says and three behind. -/
structure Source.HasComment (s : Source) (comment : Piece) : Prop where
  holds : ∃ front back : Text, front.size = 4 ∧ back.size = 3 ∧
    s.text.Holds comment.range.span (front ++ (comment.text ++ back))
  locates : s.Locates comment.range

/-- The name and the value of an attribute stand where the attribute says. -/
structure Attribute.Verbatim (source : Source) (a : Attribute) : Prop where
  name : source.Has a.name
  value : ∀ l, a.value = some l → source.Has l.piece
  range : source.Locates a.range

/-- The name of an element stands where the element says. -/
structure Element.Verbatim (source : Source) (e : Element) : Prop where
  name : source.Has e.name
  range : source.Locates e.range
  inner : source.Locates e.inner

/-- The bindings or the directive that an expression means stand where they say. -/
def Meaning.Verbatim (source : Source) : Meaning → Prop
  | .bindings list => ∀ b ∈ list, b.Verbatim source
  | .directive d => d.Verbatim source
  | .unknown => True

/-- The namespace and the expression of a virtual element, and what the expression means, stand
where the virtual element says. -/
structure VirtualElement.Verbatim (source : Source) (v : VirtualElement) : Prop where
  space : source.Has v.space
  expression : source.Has v.expression
  meaning : v.meaning.Verbatim source
  range : source.Locates v.range
  startComment : source.Locates v.startComment
  endComment : source.Locates v.endComment
  inner : source.Locates v.inner

/-- The texts of an item stand where it says. -/
def Item.Verbatim (source : Source) : Item → Prop
  | .text p => source.Has p
  | .comment p => source.HasComment p
  | .element e => e.Verbatim source
  | .attribute a => a.Verbatim source
  | .binding b => b.Verbatim source
  | .virtual v => v.Verbatim source
  | .clause i => i.Verbatim source

/-! ### Reading -/

namespace Setting

variable {c : Setting}

open SlicedReading

/-- What a comment says is given, and as a node it stands at its range. -/
theorem comment?_spec {span : Span} {content : Text}
    (holds : c.source.text.Holds span (Markup.Token.comment content).lexeme) :
    c.comment? span = some (c.comment span) ∧
      ∀ item ∈ (c.comment span).items, item.Verbatim c.source := by
  obtain ⟨hcontent, -, -⟩ := Delimiter.holds_content holds
  constructor
  · rw [comment?, Text.part?_eq_some_iff.2 hcontent, comment, hcontent.slice_eq]
    rfl
  · intro item hi
    rw [List.mem_singleton.1 hi]
    refine ⟨⟨"<!--".toList, "-->".toList, rfl, rfl, ?_⟩, c.source.locates_range span⟩
    have hspan := Source.span_range_of_holds holds
    simp only [hspan, hcontent.slice_eq]
    have hlexeme : (Markup.Token.comment content).lexeme =
        "<!--".toList ++ (content ++ "-->".toList) := List.append_assoc ..
    rw [← hlexeme]
    exact holds

theorem agrees_report (errors : List ParseError) :
    Agrees (Reading.report errors).sliced (Reading.report errors) fun _ => True :=
  .sliced fun _ _ _ => trivial

theorem agrees_readBindings {body : Span} {list : Text} (owner : Nat)
    (hbody : c.source.text.Holds body list) (reports : c.parser.Reports c.source.text)
    (quotes : c.parser.QuotesKeys) :
    Agrees (c.readBindings? owner body) (c.readBindings owner body)
      fun bindings => ∀ b ∈ bindings, b.Verbatim c.source := by
  obtain ⟨hread, hverbatim⟩ := Binding.readList_spec owner hbody reports quotes
  unfold readBindings? readBindings
  refine .part hread ?_
  exact .bind (agrees_report _) fun _ _ => .pure hverbatim

theorem agrees_readMeaning {start : Delimiter.Start} {part : Text} (owner : Nat)
    (hexpression : c.source.text.Holds start.expression part)
    (reports : c.parser.Reports c.source.text)
    (quotes : c.parser.QuotesKeys) :
    Agrees (c.readMeaning? owner start) (c.readMeaning owner start)
      fun meaning => meaning.Verbatim c.source := by
  unfold readMeaning? readMeaning
  rcases start.space with _ | _
  · exact .bind (agrees_readBindings owner hexpression reports quotes) fun bindings h => .pure h
  · obtain ⟨hread, hverbatim⟩ := Directive.read_spec hexpression
    have hmeaning : (Directive.read c.source start.expression).1.Verbatim c.source := by
      rcases hread : (Directive.read c.source start.expression).1 with list | d | _
      · exact absurd hread (Directive.read_ne_bindings _ _ list)
      · exact hverbatim d hread
      · exact trivial
    refine .part hread ?_
    exact .bind (agrees_report _) fun _ _ => .pure hmeaning

/-- The parts of the start of a virtual element that a comment says are in the text. -/
theorem exists_holds_of_startOf? {span : Span} {content : Text} {start : Delimiter.Start}
    (holds : c.source.text.Holds span (Markup.Token.comment content).lexeme)
    (h : c.startOf? span = some start) :
    (∃ space, c.source.text.Holds start.spaceSpan space) ∧
      ∃ expression, c.source.text.Holds start.expression expression := by
  obtain ⟨hcontent, -, -⟩ := Delimiter.holds_content holds
  rw [startOf?_eq, Source.excerpt_eq hcontent] at h
  obtain ⟨space, expression, hspace, hexpression, hspaceSpan, hexpressionSpan⟩ :=
    Delimiter.contains_of_ofContent? h
  rw [hspaceSpan, hexpressionSpan]
  exact ⟨⟨_, hspace.holds hcontent.excerpt⟩, _, hexpression.holds hcontent.excerpt⟩

/-- What a comment begins is told without a failing slice. -/
theorem start?_eq_some {span : Span} {content : Text}
    (holds : c.source.text.Holds span (Markup.Token.comment content).lexeme) :
    c.start? span = some (c.startOf? span) := by
  obtain ⟨hcontent, -, -⟩ := Delimiter.holds_content holds
  rw [start?, Source.excerpt?_eq_some hcontent, startOf?_eq, Source.excerpt_eq hcontent]
  rfl

/-- What a node ends is told without a failing slice. -/
theorem end?_eq_some {node : Markup.Node} (space : Namespace)
    (stands : node.Stands c.source.text) :
    c.end? space node = some (c.endComment? space node) := by
  cases stands with
  | text | element => rfl
  | comment holds =>
    obtain ⟨hcontent, -, -⟩ := Delimiter.holds_content holds
    rw [end?, endComment?_eq, content, Text.part?_eq_some_iff.2 hcontent, hcontent.slice_eq]
    rfl

/-- A virtual element is made without a failing slice, and stands where it says with what is in
it. -/
theorem virtual?_spec {id : Nat} {comment endComment : Span} {start : Delimiter.Start}
    {meaning : Meaning} {children : List Node} {space expression : Text}
    (hspace : c.source.text.Holds start.spaceSpan space)
    (hexpression : c.source.text.Holds start.expression expression)
    (hmeaning : meaning.Verbatim c.source)
    (hchildren : ∀ item ∈ itemsOf children, item.Verbatim c.source) :
    c.virtual? id comment start meaning children endComment =
        some (c.virtual id comment start meaning children endComment) ∧
      ∀ item ∈ (c.virtual id comment start meaning children endComment).items,
        item.Verbatim c.source := by
  constructor
  · rw [virtual?, Source.piece?_eq_some hspace, Source.piece?_eq_some hexpression]
    rfl
  · refine forall_items_virtual ?_ ?_ ?_ hchildren
    · exact ⟨Source.has_piece hspace, Source.has_piece hexpression, hmeaning,
        c.source.locates_range _, c.source.locates_range _, c.source.locates_range _,
        c.source.locates_range _⟩
    · intro list (hlist : meaning = .bindings list) b hb
      rw [hlist] at hmeaning
      exact hmeaning b hb
    · intro d i (hd : meaning = .directive d) hi
      rw [hd] at hmeaning
      exact hmeaning.clause i hi

/-- An attribute is read without a failing slice if its name and its value stand in the text. -/
theorem agrees_readAttribute {a : Markup.Attribute} {name : Text} (owner : Nat)
    (hname : c.source.text.Holds a.name name)
    (hvalue : ∀ value quote, a.value = some (value, quote) → ∃ part, c.source.text.Holds value part)
    (reports : c.parser.Reports c.source.text)
    (quotes : c.parser.QuotesKeys) :
    Agrees (c.readAttribute? owner a) (c.readAttribute owner a)
      fun r => r.1.Verbatim c.source ∧ ∀ b ∈ r.2, b.Verbatim c.source := by
  have hrest {value : Option Literal} (hl : ∀ l, value = some l → c.source.Has l.piece)
      (bindings : List Binding) (h : ∀ b ∈ bindings, b.Verbatim c.source) :
      Agrees (pure (⟨c.source.range a.range, c.source.piece a.name, value, owner⟩, bindings))
        (pure (⟨c.source.range a.range, c.source.piece a.name, value, owner⟩, bindings))
        fun r : Attribute × List Binding =>
          r.1.Verbatim c.source ∧ ∀ b ∈ r.2, b.Verbatim c.source :=
    .pure ⟨⟨Source.has_piece hname, hl, c.source.locates_range _⟩, h⟩
  unfold readAttribute? readAttribute
  refine .part (Source.piece?_eq_some hname) ?_
  rcases hv : a.value with _ | ⟨value, quote⟩
  · exact .bind (.pure (by simp)) (hrest (by simp))
  · obtain ⟨part, hpart⟩ := hvalue value quote hv
    let l : Literal := ⟨c.source.text.slice value, c.source.range value, quote⟩
    have hliteral : c.literal? (value, quote) = some l := by
      simp only [literal?, Text.part?_eq_some_iff.2 hpart, l, hpart.slice_eq]
      rfl
    have hl : ∀ l', some l = some l' → c.source.Has l'.piece := by
      rintro l' ⟨⟩
      exact Source.has_piece hpart
    refine .part (a := some l) (by rw [Option.mapM_some, hliteral]; rfl) ?_
    dsimp only
    split
    · exact .bind (agrees_readBindings owner hpart reports quotes) (hrest hl)
    · exact .bind (.pure (by simp)) (hrest hl)

/-- An element is read without a failing slice behind its start tag. -/
theorem agrees_readElement {range name inner : Span} {attributes : List Markup.Attribute}
    (tag : Markup.StartTag.IsRead c.source.text ⟨⟨range.start, inner.start⟩, name, attributes⟩)
    (reports : c.parser.Reports c.source.text)
    (quotes : c.parser.QuotesKeys) :
    Agrees (c.readElement? range name attributes inner) (c.readElement range name attributes inner)
      fun e => e.Verbatim c.source ∧ (∀ a ∈ e.attributes, a.Verbatim c.source) ∧
        ∀ b ∈ e.bindings, b.Verbatim c.source := by
  obtain ⟨nameText, hname⟩ := Markup.Builder.exists_holds_name tag
  obtain ⟨hvalues, -⟩ := tag.attributes_spec
  unfold readElement? readElement
  refine .bind (.sliced fun _ _ _ => trivial) fun id (_ : True) => ?_
  have hattributes : ∀ a ∈ attributes, Agrees (c.readAttribute? id a) (c.readAttribute id a)
      fun r => r.1.Verbatim c.source ∧ ∀ b ∈ r.2, b.Verbatim c.source := by
    intro a ha
    obtain ⟨attributeName, hattributeName⟩ := tag.exists_holds_attributeName a ha
    exact agrees_readAttribute id hattributeName
      (fun value quote hv => ((hvalues a ha).2.2 value quote hv).1) reports quotes
  refine .bind (.mapM hattributes) fun parts hparts => ?_
  refine .part (Source.piece?_eq_some hname) (.pure ⟨?_, ?_, ?_⟩)
  · exact ⟨Source.has_piece hname, c.source.locates_range _, c.source.locates_range _⟩
  · intro a ha
    obtain ⟨r, hr, rfl⟩ := List.mem_map.1 ha
    exact (hparts r hr).1
  · intro b hb
    obtain ⟨r, hr, hb⟩ := List.mem_flatMap.1 hb
    exact (hparts r hr).2 b hb

mutual

/-- Siblings that stand in the text are read without a failing slice. -/
theorem agrees_readAll (reports : c.parser.Reports c.source.text) (quotes : c.parser.QuotesKeys) :
    (nodes : List Markup.Node) → (∀ node ∈ nodes, node.Stands c.source.text) →
      Agrees (c.readAll? nodes) (c.readAll nodes)
        fun nodes => ∀ item ∈ itemsOf nodes, item.Verbatim c.source
  | [], _ => by
    rw [readAll?, readAll]
    exact .pure (by simp [itemsOf])
  | node :: siblings, stands => by
    obtain ⟨hnode, hsiblings⟩ := List.forall_mem_cons.1 stands
    rw [readAll?, readAll]
    refine .bind (agrees_readNode reports quotes node siblings hnode hsiblings)
      fun left hfirst => ?_
    have := sizeOf_le_of_suffix left.suffix
    have hrest : ∀ node ∈ left.rest, node.Stands c.source.text := fun node hn =>
      hsiblings node (left.suffix.subset hn)
    exact .bind (agrees_readAll reports quotes left.rest hrest) fun nodes hnodes =>
      .pure (forall_itemsOf_cons hfirst hnodes)
termination_by nodes => 3 * sizeOf nodes + 1

/-- A node that stands in the text is read without a failing slice. -/
theorem agrees_readNode (reports : c.parser.Reports c.source.text) (quotes : c.parser.QuotesKeys) :
    (node : Markup.Node) → (siblings : List Markup.Node) → node.Stands c.source.text →
      (∀ node ∈ siblings, node.Stands c.source.text) →
      Agrees (c.readNode? node siblings) (c.readNode node siblings)
        fun left => ∀ item ∈ left.made.items, item.Verbatim c.source
  | .text span, siblings, .text holds, _ => by
    simp only [readNode?, readNode]
    refine .part (Source.piece?_eq_some holds) (.pure fun item hi => ?_)
    rw [List.mem_singleton.1 hi]
    exact Source.has_piece holds
  | .comment span, siblings, .comment holds, stands => by
    simp only [readNode?, readNode]
    refine .part (start?_eq_some holds) ?_
    cases hstart : c.startOf? span with
    | none =>
      obtain ⟨hcomment, hitems⟩ := comment?_spec holds
      exact .part hcomment (.pure hitems)
    | some start =>
      obtain ⟨⟨space, hspace⟩, expression, hexpression⟩ := exists_holds_of_startOf? holds hstart
      exact agrees_readVirtual reports quotes span start siblings hspace hexpression stands
  | .element range name attributes inner children, siblings, .element tag content, _ => by
    simp only [readNode?, readNode]
    refine .bind (agrees_readElement tag reports quotes) fun e he => ?_
    obtain ⟨helement, hattributes, hbindings⟩ := he
    refine .bind (agrees_readAll reports quotes children content) fun nodes hnodes => .pure ?_
    exact forall_items_element helement hattributes hbindings hnodes
termination_by node siblings => 3 * sizeOf (node :: siblings)

/-- A virtual element is read without a failing slice if the parts of its start are in the text. -/
theorem agrees_readVirtual (reports : c.parser.Reports c.source.text)
    (quotes : c.parser.QuotesKeys) (comment : Span) (start : Delimiter.Start)
    (siblings : List Markup.Node) {space expression : Text}
    (hspace : c.source.text.Holds start.spaceSpan space)
    (hexpression : c.source.text.Holds start.expression expression)
    (stands : ∀ node ∈ siblings, node.Stands c.source.text) :
    Agrees (c.readVirtual? comment start siblings) (c.readVirtual comment start siblings)
      fun left => ∀ item ∈ left.made.items, item.Verbatim c.source := by
  rw [readVirtual?, readVirtual]
  refine .bind (.sliced fun _ _ _ => trivial) fun id (_ : True) => ?_
  refine .part (Source.piece?_eq_some hspace) ?_
  refine .bind (agrees_readMeaning id hexpression reports quotes) fun meaning hmeaning => ?_
  refine .bind (agrees_readChildren reports quotes comment start.space siblings stands)
    fun left hc => ?_
  obtain ⟨hvirtual, hitems⟩ := virtual?_spec hspace hexpression hmeaning hc
  exact .part hvirtual (.pure hitems)
termination_by 3 * sizeOf siblings + 2

/-- The children of a virtual element are read without a failing slice. -/
theorem agrees_readChildren (reports : c.parser.Reports c.source.text)
    (quotes : c.parser.QuotesKeys) (comment : Span) (space : Namespace) :
    (siblings : List Markup.Node) → (∀ node ∈ siblings, node.Stands c.source.text) →
      Agrees (c.readChildren? comment space siblings) (c.readChildren comment space siblings)
        fun left => ∀ item ∈ itemsOf left.made.1, item.Verbatim c.source
  | [], _ => by
    rw [readChildren?, readChildren]
    exact .throw _
  | node :: siblings, stands => by
    obtain ⟨hnode, hsiblings⟩ := List.forall_mem_cons.1 stands
    rw [readChildren?, readChildren]
    refine .part (end?_eq_some space hnode) ?_
    cases c.endComment? space node with
    | some endComment => exact .pure (by simp [itemsOf])
    | none =>
      refine .bind (agrees_readNode reports quotes node siblings hnode hsiblings)
        fun left hfirst => ?_
      have := sizeOf_le_of_suffix left.suffix
      have hrest : ∀ node ∈ left.rest, node.Stands c.source.text := fun node hn =>
        hsiblings node (left.suffix.subset hn)
      exact .bind (agrees_readChildren reports quotes comment space left.rest hrest)
        fun more hmore => .pure (forall_itemsOf_cons hfirst hmore)
termination_by siblings => 3 * sizeOf siblings + 1

end

end Setting

/-! ### Templates -/

end BoundTemplate
