import BoundTemplate.Proofs.Template.Layout

/-!
# Tilings of templates

Each list of siblings tiles the stretch of the template in which it lies: the nodes are
in the order of the text, and what none of them covers are the stray end tags that lie
between them. That holds for every tree that is read, since every list of siblings is
laid out and the stray end tags of its layout are those that lie in its stretch.
-/

namespace BoundTemplate

/-- Whether the byte at an offset belongs to a span. -/
def Span.Covers (s : Span) (offset : Nat) : Prop := s.start ≤ offset ∧ offset < s.stop

/-- A list of siblings, and the span in which it lies. -/
structure Family where
  span : Span
  nodes : List Node

mutual

/-- The lists of siblings inside of a node. -/
def Node.families : Node → List Family
  | .text _ | .comment _ => []
  | .element e children => ⟨e.inner.span, children⟩ :: familiesOf children
  | .virtual v children => ⟨v.inner.span, children⟩ :: familiesOf children

/-- The lists of siblings inside of some nodes. -/
def familiesOf : List Node → List Family
  | [] => []
  | node :: nodes => node.families ++ familiesOf nodes

end

/-- The lists of siblings of a tree. -/
def SyntaxTree.families (tree : SyntaxTree) : List Family :=
  ⟨tree.range.span, tree.nodes⟩ :: familiesOf tree.nodes

/-- The span of an error about an end tag that ends no element. -/
def ParseError.strayTag? (e : ParseError) : Option Span :=
  match e.problem with
  | .markup (.strayEndTag _) => some e.range.span
  | _ => none

namespace Family

/-- The stray end tags that lie in a family, but in none of its nodes. -/
def directStrays (f : Family) (strays : List Span) : List Span :=
  strays.filter fun s =>
    f.span.containsSpan s && f.nodes.all fun node => !node.range.span.containsSpan s

/-- The nodes of a family follow one another in its span, and the bytes that they leave are those of
the stray end tags between them. -/
structure Tiled (f : Family) (strays : List Span) : Prop where
  filled : ∀ node ∈ f.nodes, node.range.span.start < node.range.span.stop
  inside : ∀ node ∈ f.nodes, f.span.containsSpan node.range.span = true
  ordered : f.nodes.Pairwise fun a b => a.range.span.stop ≤ b.range.span.start
  apart : ∀ a b, [Node.text a, Node.text b] <:+: f.nodes → a.range.span.stop ≠ b.range.span.start
  disjoint : (f.directStrays strays).Pairwise fun a b => a.stop ≤ b.start
  gaps : ∀ offset, f.span.Covers offset →
    ((∀ node ∈ f.nodes, ¬node.range.span.Covers offset) ↔
      ∃ s ∈ f.directStrays strays, s.Covers offset)

end Family

/-- An item is made up of its parts: the comments of a virtual element and what is between them are
all of it, and an element has its tags around what is in it. -/
def Item.WellFormed : Item → Prop
  | .element e => e.Framed
  | .virtual v => v.Tiled
  | _ => True

/-- The families of some nodes are those of the single nodes. -/
theorem mem_familiesOf {f : Family} {nodes : List Node} :
    f ∈ familiesOf nodes ↔ ∃ node ∈ nodes, f ∈ node.families := by
  induction nodes with
  | nil => simp [familiesOf]
  | cons node nodes ih => simp [familiesOf, ih]

theorem mem_familiesOf_reverse {f : Family} {nodes : List Node} :
    f ∈ familiesOf nodes.reverse ↔ f ∈ familiesOf nodes := by
  simp only [mem_familiesOf, List.mem_reverse]

/-- The items of some nodes are those of the single nodes. -/
theorem mem_itemsOf {item : Item} {nodes : List Node} :
    item ∈ itemsOf nodes ↔ ∃ node ∈ nodes, item ∈ node.items := by
  induction nodes with
  | nil => simp [itemsOf]
  | cons node nodes ih => simp [itemsOf, ih]

theorem mem_itemsOf_reverse {item : Item} {nodes : List Node} :
    item ∈ itemsOf nodes.reverse ↔ item ∈ itemsOf nodes := by
  simp only [mem_itemsOf, List.mem_reverse]

section

variable {P : Item → Prop} {node : Node} {nodes children : List Node}

/-- What holds of the items of a node and of those of its siblings holds of all. -/
theorem forall_itemsOf_cons (hnode : ∀ item ∈ node.items, P item)
    (hnodes : ∀ item ∈ itemsOf nodes, P item) : ∀ item ∈ itemsOf (node :: nodes), P item := by
  intro item hi
  rcases List.mem_append.1 hi with hi | hi
  · exact hnode item hi
  · exact hnodes item hi

/-- What holds of an element, of what it carries and of the items of its children holds of all. -/
theorem forall_items_element {e : Element} (h : P (.element e))
    (hattributes : ∀ a ∈ e.attributes, P (.attribute a))
    (hbindings : ∀ b ∈ e.bindings, P (.binding b)) (hchildren : ∀ item ∈ itemsOf children, P item) :
    ∀ item ∈ (Node.element e children).items, P item := by
  intro item hi
  simp only [Node.items, Element.items, List.mem_cons, List.mem_append, List.mem_map] at hi
  rcases hi with rfl | (⟨a, ha, rfl⟩ | ⟨b, hb, rfl⟩) | hi
  · exact h
  · exact hattributes a ha
  · exact hbindings b hb
  · exact hchildren item hi

/-- What holds of a virtual element, of what it carries and of the items of its children holds of
all. -/
theorem forall_items_virtual {v : VirtualElement} (h : P (.virtual v))
    (hbindings : ∀ list, v.meaning = .bindings list → ∀ b ∈ list, P (.binding b))
    (hclause : ∀ d i, v.meaning = .directive d → d.clause = some i → P (.clause i))
    (hchildren : ∀ item ∈ itemsOf children, P item) :
    ∀ item ∈ (Node.virtual v children).items, P item := by
  intro item hi
  simp only [Node.items, List.mem_cons, List.mem_append] at hi
  rcases hi with rfl | hi | hi
  · exact h
  · unfold VirtualElement.items at hi
    split at hi
    · next list hmeaning =>
      obtain ⟨b, hb, rfl⟩ := List.mem_map.1 hi
      exact hbindings list hmeaning b hb
    · next d hmeaning =>
      obtain ⟨i, hclauses, rfl⟩ := List.mem_map.1 hi
      exact hclause d i hmeaning (Option.mem_toList.1 hclauses)
    · cases hi
  · exact hchildren item hi

end

namespace Layout

variable {start stop : Nat} {nodes : List Node} {strays : List Span}

/-! ### The nodes and the stray end tags of a layout -/

/-- The nodes of a layout have bytes and lie in it. -/
theorem bounds_of_mem (h : Layout start nodes strays stop) :
    ∀ node ∈ nodes, start ≤ node.range.span.start ∧ node.range.span.start < node.range.span.stop ∧
      node.range.span.stop ≤ stop := by
  induction h with
  | nil start => simp
  | text elders lt _ ih | comment elders lt ih =>
    have hle := elders.start_le_stop
    intro node hn
    rcases List.mem_cons.1 hn with rfl | hn
    · exact ⟨hle, lt, Nat.le_refl _⟩
    · have h := ih node hn
      omega
  | stray elders lt ih =>
    intro node hn
    have h := ih node hn
    omega
  | element elders around _ ih _ | virtual elders around _ ih _ =>
    have hle := elders.start_le_stop
    have hb := around.bounds
    intro node hn
    rcases List.mem_cons.1 hn with rfl | hn
    · exact ⟨hle, by simp only [Node.range]; omega, Nat.le_refl _⟩
    · have h := ih node hn
      omega

/-- The stray end tags of a layout have bytes and lie in it. -/
theorem bounds_of_mem_strays (h : Layout start nodes strays stop) :
    ∀ s ∈ strays, start ≤ s.start ∧ s.start < s.stop ∧ s.stop ≤ stop := by
  induction h with
  | nil start => simp
  | text elders lt _ ih | comment elders lt ih =>
    intro s hs
    have h := ih s hs
    omega
  | stray elders lt ih =>
    have hle := elders.start_le_stop
    intro s hs
    rcases List.mem_cons.1 hs with rfl | hs
    · exact ⟨hle, lt, Nat.le_refl _⟩
    · have h := ih s hs
      omega
  | element elders around _ ih ihc | virtual elders around _ ih ihc =>
    have hle := elders.start_le_stop
    have hb := around.bounds
    intro s hs
    rcases List.mem_append.1 hs with hs | hs
    · have h := ihc s hs
      omega
    · have h := ih s hs
      omega

/-- The nodes of a layout do not overlap. -/
theorem pairwise_nodes (h : Layout start nodes strays stop) :
    nodes.Pairwise fun a b => b.range.span.stop ≤ a.range.span.start := by
  induction h with
  | nil start => exact .nil
  | text elders _ _ ih | comment elders _ ih | element elders _ _ ih _ | virtual elders _ _ ih _ =>
    exact .cons (fun node hn => (elders.bounds_of_mem node hn).2.2) ih
  | stray _ _ ih => exact ih

/-- The stray end tags of a layout do not overlap. -/
theorem pairwise_strays (h : Layout start nodes strays stop) :
    strays.Pairwise fun a b => b.stop ≤ a.start := by
  induction h with
  | nil start => exact .nil
  | text _ _ _ ih | comment _ _ ih => exact ih
  | stray elders _ ih => exact .cons (fun s hs => (elders.bounds_of_mem_strays s hs).2.2) ih
  | element elders around content ih ihc | virtual elders around content ih ihc =>
    refine List.pairwise_append.2 ⟨ihc, ih, fun s hs s' hs' => ?_⟩
    have h₁ := content.bounds_of_mem_strays s hs
    have h₂ := elders.bounds_of_mem_strays s' hs'
    have h₃ := around.bounds
    omega

/-- Two texts that are next to each other in a layout do not touch. -/
theorem apart_of_infix (h : Layout start nodes strays stop) (a b : Piece)
    (hab : [Node.text b, Node.text a] <:+: nodes) : a.range.span.stop ≠ b.range.span.start := by
  induction h with
  | nil start => simp at hab
  | text _ _ apart ih =>
    rcases List.infix_cons_iff.1 hab with hab | hab
    · obtain ⟨heq, back, rfl⟩ := List.cons_prefix_cons.1 hab
      cases heq
      exact apart a rfl
    · exact ih hab
  | comment _ _ ih | element _ _ _ ih _ | virtual _ _ _ ih _ =>
    rcases List.infix_cons_iff.1 hab with hab | hab
    · cases (List.cons_prefix_cons.1 hab).1
    · exact ih hab
  | stray _ _ ih => exact ih hab

/-- A stray end tag of a layout lies in a node, or behind it, or in front of it. -/
theorem contains_or_of_mem_strays (h : Layout start nodes strays stop) :
    ∀ s ∈ strays, ∀ node ∈ nodes, node.range.span.containsSpan s = true ∨
      s.stop ≤ node.range.span.start ∨ node.range.span.stop ≤ s.start := by
  induction h with
  | nil start => simp
  | text elders _ _ ih | comment elders _ ih =>
    intro s hs node hn
    rcases List.mem_cons.1 hn with rfl | hn
    · exact .inr (.inl (elders.bounds_of_mem_strays s hs).2.2)
    · exact ih s hs node hn
  | stray elders _ ih =>
    intro s hs node hn
    rcases List.mem_cons.1 hs with rfl | hs
    · exact .inr (.inr (elders.bounds_of_mem node hn).2.2)
    · exact ih s hs node hn
  | element elders around content ih _ | virtual elders around content ih _ =>
    have hb := around.bounds
    intro s hs node hn
    rcases List.mem_append.1 hs with hs | hs
    · have hs := content.bounds_of_mem_strays s hs
      rcases List.mem_cons.1 hn with rfl | hn
      · refine .inl (Span.containsSpan_iff.2 ?_)
        simp only [Node.range]
        omega
      · have hn := elders.bounds_of_mem node hn
        exact .inr (.inr (by omega))
    · rcases List.mem_cons.1 hn with rfl | hn
      · exact .inr (.inl (elders.bounds_of_mem_strays s hs).2.2)
      · exact ih s hs node hn

/-- An offset is taken up if a node of a family covers it, or a stray end tag in none of them. -/
def Fills (nodes : List Node) (strays : List Span) (offset : Nat) : Prop :=
  (∃ node ∈ nodes, node.range.span.Covers offset) ∨
    ∃ s ∈ strays, s.Covers offset ∧ ∀ node ∈ nodes, node.range.span.containsSpan s = false

/-- A node behind a layout takes up the offsets in it, and leaves what is taken up in front. -/
theorem fills_cons (h : Layout start nodes strays stop) {node : Node}
    (hnode : node.range.span.start = stop) (more : List Span) {offset : Nat}
    (hfills : offset < stop → Fills nodes strays offset) (hlt : offset < node.range.span.stop) :
    Fills (node :: nodes) (more ++ strays) offset := by
  by_cases hstop : offset < stop
  · rcases hfills hstop with ⟨other, hn, hc⟩ | ⟨s, hs, hc, hout⟩
    · exact .inl ⟨other, List.mem_cons_of_mem _ hn, hc⟩
    · refine .inr ⟨s, List.mem_append_right _ hs, hc, fun other hn => ?_⟩
      rcases List.mem_cons.1 hn with rfl | hn
      · have hb := h.bounds_of_mem_strays s hs
        refine Bool.eq_false_iff.2 fun hc => ?_
        have hc := Span.containsSpan_iff.1 hc
        omega
      · exact hout other hn
  · exact .inl ⟨node, List.mem_cons_self, by omega, hlt⟩

/-- Every offset of a layout is taken up. -/
theorem fills (h : Layout start nodes strays stop) {offset : Nat} (hstart : start ≤ offset)
    (hstop : offset < stop) : Fills nodes strays offset := by
  induction h with
  | nil start => omega
  | text elders _ _ ih | comment elders _ ih =>
    exact elders.fills_cons (by rfl) [] (ih hstart) hstop
  | element elders _ _ ih _ | virtual elders _ _ ih _ =>
    exact elders.fills_cons (by rfl) _ (ih hstart) hstop
  | @stray start nodes strays span elders lt ih =>
    by_cases hlt : offset < span.start
    · rcases ih hstart hlt with hn | ⟨s, hs, hc, hout⟩
      · exact .inl hn
      · exact .inr ⟨s, List.mem_cons_of_mem _ hs, hc, hout⟩
    · refine .inr ⟨span, List.mem_cons_self, ⟨Nat.le_of_not_lt hlt, hstop⟩, fun node hn => ?_⟩
      have hb := elders.bounds_of_mem node hn
      refine Bool.eq_false_iff.2 fun hc => ?_
      have hc := Span.containsSpan_iff.1 hc
      omega

/-- A layout tiles its stretch, among stray end tags of which the others lie in front of it or
behind it. -/
theorem tiled (h : Layout start nodes.reverse strays stop) {all : List Span}
    (hall : all.Pairwise fun a b => a.stop ≤ b.start) (hlt : ∀ s ∈ all, s.start < s.stop)
    (hsub : ∀ s ∈ strays, s ∈ all)
    (hout : ∀ s ∈ all, s ∈ strays ∨ s.stop ≤ start ∨ stop ≤ s.start) :
    Family.Tiled ⟨⟨start, stop⟩, nodes⟩ all := by
  have hmem : ∀ node ∈ nodes, node ∈ nodes.reverse := fun node => List.mem_reverse.2
  have hdirect : ∀ s, s ∈ Family.directStrays ⟨⟨start, stop⟩, nodes⟩ all ↔
      s ∈ strays ∧ ∀ node ∈ nodes, node.range.span.containsSpan s = false := by
    intro s
    simp only [Family.directStrays, List.mem_filter, Bool.and_eq_true, List.all_eq_true,
      Bool.not_eq_true', Span.containsSpan_iff]
    constructor
    · rintro ⟨hs, ⟨h₁, h₂⟩, hn⟩
      refine ⟨?_, hn⟩
      have h₃ := hlt s hs
      rcases hout s hs with hs | h | h
      · exact hs
      · omega
      · omega
    · rintro ⟨hs, hn⟩
      have hb := h.bounds_of_mem_strays s hs
      exact ⟨hsub s hs, ⟨hb.1, hb.2.2⟩, hn⟩
  refine ⟨?_, ?_, ?_, ?_, ?_, ?_⟩
  · intro node hn
    exact (h.bounds_of_mem node (hmem node hn)).2.1
  · intro node hn
    have hb := h.bounds_of_mem node (hmem node hn)
    exact Span.containsSpan_iff.2 ⟨hb.1, hb.2.2⟩
  · exact List.pairwise_reverse.1 h.pairwise_nodes
  · intro a b hab
    refine h.apart_of_infix a b ?_
    exact List.reverse_infix.2 hab
  · exact hall.sublist List.filter_sublist
  · intro offset hoffset
    constructor
    · intro hn
      rcases h.fills hoffset.1 hoffset.2 with ⟨node, hm, hc⟩ | ⟨s, hs, hc, hno⟩
      · exact absurd hc (hn node (List.mem_reverse.1 hm))
      · exact ⟨s, (hdirect s).2 ⟨hs, fun node hm => hno node (hmem node hm)⟩, hc⟩
    · rintro ⟨s, hs, hc⟩ node hm hcn
      obtain ⟨hs, hno⟩ := (hdirect s).1 hs
      obtain ⟨h₁, h₂⟩ := hc
      obtain ⟨h₃, h₄⟩ := hcn
      rcases h.contains_or_of_mem_strays s hs node (hmem node hm) with h | h | h
      · rw [hno node hm] at h
        cases h
      · omega
      · omega

/-! ### What is inside of a layout -/

/-- A family inside of a layout is laid out, and the stray end tags of the layout that are not among
its own lie in front of it or behind it. -/
def Encloses (start stop : Nat) (strays : List Span) (f : Family) : Prop :=
  start ≤ f.span.start ∧ f.span.stop ≤ stop ∧
    ∃ inside, Layout f.span.start f.nodes.reverse inside f.span.stop ∧
      (∀ s ∈ inside, s ∈ strays) ∧
      ∀ s ∈ strays, s ∈ inside ∨ s.stop ≤ f.span.start ∨ f.span.stop ≤ s.start

/-- A layout encloses what one does that it goes on with. -/
theorem Encloses.extend {start stop stop' : Nat} {strays : List Span} {f : Family}
    (h : Encloses start stop strays f) (more : List Span) (hle : stop ≤ stop')
    (hmore : ∀ s ∈ more, stop ≤ s.start) : Encloses start stop' (more ++ strays) f := by
  obtain ⟨h₁, h₂, inside, layout, hsub, hout⟩ := h
  refine ⟨h₁, Nat.le_trans h₂ hle, inside, layout, ?_, fun s hs => ?_⟩
  · exact fun s hs => List.mem_append_right _ (hsub s hs)
  · rcases List.mem_append.1 hs with hs | hs
    · exact .inr (.inr (Nat.le_trans h₂ (hmore s hs)))
    · exact hout s hs

/-- A layout encloses what the layout inside of its last node does. -/
theorem Encloses.enter {start stop innerStart innerStop : Nat} {strays inside : List Span}
    {f : Family} (h : Encloses innerStart innerStop inside f) (hstart : start ≤ innerStart)
    (hstop : innerStop ≤ stop) (hbefore : ∀ s ∈ strays, s.stop ≤ innerStart) :
    Encloses start stop (inside ++ strays) f := by
  obtain ⟨h₁, h₂, within, layout, hsub, hout⟩ := h
  refine ⟨Nat.le_trans hstart h₁, Nat.le_trans h₂ hstop, within, layout, ?_, fun s hs => ?_⟩
  · exact fun s hs => List.mem_append_left _ (hsub s hs)
  · rcases List.mem_append.1 hs with hs | hs
    · exact hout s hs
    · exact .inr (.inl (Nat.le_trans (hbefore s hs) h₁))

/-- A layout encloses its own family. -/
theorem encloses_self (span : Span) (h : Layout span.start nodes.reverse strays span.stop) :
    Encloses span.start span.stop strays ⟨span, nodes⟩ :=
  ⟨Nat.le_refl _, Nat.le_refl _, strays, h, fun _ hs => hs, fun _ hs => .inl hs⟩

/-- The families inside of a layout are enclosed by it. -/
theorem encloses (h : Layout start nodes strays stop) :
    ∀ f ∈ familiesOf nodes, Encloses start stop strays f := by
  induction h with
  | nil start => simp [familiesOf]
  | text _ lt _ ih | comment _ lt ih =>
    intro f hf
    exact (ih f hf).extend [] (Nat.le_of_lt lt) (by simp)
  | @stray start nodes strays span _ lt ih =>
    intro f hf
    exact (ih f hf).extend [span] (Nat.le_of_lt lt) (by simp)
  | element elders around content ih ihc | virtual elders around content ih ihc =>
    have hle := elders.start_le_stop
    have hb := around.bounds
    intro f hf
    simp only [familiesOf, Node.families, List.mem_append, List.mem_cons] at hf
    rcases hf with (rfl | hf) | hf
    · refine (content.encloses_self _).enter (by omega) (by omega) fun s hs => ?_
      have hs := elders.bounds_of_mem_strays s hs
      omega
    · refine (ihc f (mem_familiesOf_reverse.2 hf)).enter (by omega) (by omega) fun s hs => ?_
      have hs := elders.bounds_of_mem_strays s hs
      omega
    · refine (ih f hf).extend _ (by omega) fun s hs => ?_
      have hs := content.bounds_of_mem_strays s hs
      omega

/-- The items of a layout are made up of their parts. -/
theorem wellFormed_of_mem_itemsOf (h : Layout start nodes strays stop) :
    ∀ item ∈ itemsOf nodes, item.WellFormed := by
  induction h with
  | nil start => simp [itemsOf]
  | text _ _ _ ih | comment _ _ ih =>
    refine forall_itemsOf_cons ?_ ih
    intro item hi
    rw [List.mem_singleton.1 hi]
    exact trivial
  | stray _ _ ih => exact ih
  | element elders framed content ih ihc =>
    refine forall_itemsOf_cons (forall_items_element framed ?_ ?_ ?_) ih
    · exact fun _ _ => trivial
    · exact fun _ _ => trivial
    · exact fun item hi => ihc item (mem_itemsOf_reverse.2 hi)
  | virtual elders tiled content ih ihc =>
    refine forall_itemsOf_cons (forall_items_virtual tiled ?_ ?_ ?_) ih
    · exact fun _ _ _ _ => trivial
    · exact fun _ _ _ _ => trivial
    · exact fun item hi => ihc item (mem_itemsOf_reverse.2 hi)

end Layout

/-! ### Templates that are read -/

/-- The stray end tags of some markup lie in its text. -/
theorem Markup.Layout.exists_holds_of_mem_strays {source : Text} {start stop : Nat}
    {nodes : List Markup.Node} {strays : List Span}
    (h : Markup.Layout source start nodes strays stop) :
    ∀ s ∈ strays, ∃ part, source.Holds s part := by
  induction h with
  | nil start => simp
  | text _ _ _ _ ih | comment _ _ ih => exact ih
  | element _ _ _ _ _ ih ihc =>
    intro s hs
    rcases List.mem_append.1 hs with hs | hs
    · exact ihc s hs
    · exact ih s hs
  | stray _ holds ih =>
    intro s hs
    rcases List.mem_cons.1 hs with rfl | hs
    · exact ⟨_, holds⟩
    · exact ih s hs

/-- The errors of the markup tell where its stray end tags are. -/
theorem Markup.Document.filterMap_errors {t : Text} {document : Markup.Document}
    (hstrays : ∀ s ∈ Markup.strayTags document.problems, ∃ part, t.Holds s part) :
    (document.errors (.ofText t)).filterMap ParseError.strayTag? =
      Markup.strayTags document.problems := by
  unfold errors
  rw [List.filterMap_map]
  generalize document.problems = problems at hstrays
  induction problems with
  | nil => rfl
  | cons entry problems ih =>
    obtain ⟨span, problem⟩ := entry
    cases problem with
    | strayEndTag name =>
      obtain ⟨part, holds⟩ := hstrays span List.mem_cons_self
      have hspan : ((Source.ofText t).range span).span = span := Source.span_range_of_holds holds
      have htail := ih fun s hs => hstrays s (List.mem_cons_of_mem _ hs)
      change ((Source.ofText t).range span).span :: _ = span :: Markup.strayTags problems
      rw [hspan, htail]
    | _ => exact ih hstrays

/-- A template that is read is laid out over all of its text, with the stray end tags of its
errors. -/
theorem Template.layout_of_read {t : Text} {options : ReadOptions}
    {tokenizer : Markup.Tokenizer} {parser : Script.Parser} {tree : SyntaxTree}
    {errors : List ParseError} (mark : Markup.byteOrderMark ∉ t)
    (h : Template.read t options tokenizer parser = .ok ⟨some tree, errors⟩) :
    tree.range.span = ⟨0, t.size⟩ ∧
      Layout 0 tree.nodes.reverse (errors.filterMap ParseError.strayTag?).reverse t.size := by
  obtain ⟨document, more, s, hyields, hregions, hnodes, hrange, rfl, hm⟩ :=
    exists_yields_of_read mark h
  have hstrays : (document.errors (.ofText t) ++ more).filterMap ParseError.strayTag? =
      Markup.strayTags document.problems := by
    have hmore : more.filterMap ParseError.strayTag? = [] := by
      refine List.filterMap_eq_nil_iff.2 fun e he => ?_
      have he := hm e he
      obtain ⟨range, problem⟩ := e
      cases problem with
      | markup => cases he
      | _ => rfl
    have hin : ∀ s ∈ Markup.strayTags document.problems, ∃ part, t.Holds s part := fun s hs =>
      hyields.layout.exists_holds_of_mem_strays s (List.mem_reverse.2 hs)
    rw [List.filterMap_append, hmore, List.append_nil, Markup.Document.filterMap_errors hin]
  have hspan : tree.range.span = ⟨0, t.size⟩ := by
    rw [hrange]
    exact Source.span_range (Nat.zero_le _) (Nat.le_refl _)
  obtain ⟨hlayout, -⟩ := hyields.regionLayout
  rw [hregions] at hlayout
  rw [hstrays, hnodes, List.reverse_reverse]
  exact ⟨hspan, hlayout⟩

/-- Every list of siblings of a template without byte order marks tiles its stretch, and the
elements and virtual elements are made up of their parts. That holds whatever the tokenizer and the
parser are. -/
theorem Template.tiled_of_read {t : Text} {options : ReadOptions}
    {tokenizer : Markup.Tokenizer} {parser : Script.Parser} {tree : SyntaxTree}
    {errors : List ParseError} (mark : Markup.byteOrderMark ∉ t)
    (h : Template.read t options tokenizer parser = .ok ⟨some tree, errors⟩) :
    tree.range.span = ⟨0, t.size⟩ ∧
      (∀ f ∈ tree.families, f.Tiled (errors.filterMap ParseError.strayTag?)) ∧
      ∀ item ∈ tree.items, item.WellFormed := by
  obtain ⟨hrange, layout⟩ := layout_of_read mark h
  have hitems := layout.wellFormed_of_mem_itemsOf
  refine ⟨hrange, fun f hf => ?_, fun item hi => hitems item (mem_itemsOf_reverse.2 hi)⟩
  have henclosed : Layout.Encloses 0 t.size (errors.filterMap ParseError.strayTag?).reverse f := by
    rcases List.mem_cons.1 hf with rfl | hf
    · rw [hrange]
      exact Layout.encloses_self ⟨0, t.size⟩ layout
    · exact layout.encloses f (mem_familiesOf_reverse.2 hf)
  obtain ⟨-, -, inside, hlayout, hsub, hout⟩ := henclosed
  simp only [List.mem_reverse] at hsub hout
  have hlt : ∀ s ∈ errors.filterMap ParseError.strayTag?, s.start < s.stop := fun s hs =>
    (layout.bounds_of_mem_strays s (List.mem_reverse.2 hs)).2.1
  exact hlayout.tiled (List.pairwise_reverse.1 layout.pairwise_strays) hlt hsub hout

/-- A stray end tag lies in a paragraph, in front of its text, and the paragraph in a virtual
element. -/
theorem Template.tiled_of_read_paragraph :
    ∃ tree errors, Template.read "<!--ko x--><p></b>a</p><!--/ko-->".toList {} =
        .ok ⟨some tree, errors⟩ ∧
      errors.filterMap ParseError.strayTag? = [⟨14, 18⟩] ∧
      (∀ f ∈ tree.families, f.Tiled [⟨14, 18⟩]) ∧ ∀ item ∈ tree.items, item.WellFormed := by
  have hread : (Template.read "<!--ko x--><p></b>a</p><!--/ko-->".toList {}).toOption.map
      (fun template =>
        (template.tree.isSome, template.errors.filterMap ParseError.strayTag?)) =
      some (true, [⟨14, 18⟩]) := by decide +kernel
  rcases h : Template.read "<!--ko x--><p></b>a</p><!--/ko-->".toList {}
    with e | ⟨_ | tree, errors⟩
  · rw [h] at hread
    cases hread
  · rw [h] at hread
    cases hread
  · rw [h] at hread
    have hstrays : errors.filterMap ParseError.strayTag? = [⟨14, 18⟩] :=
      congrArg Prod.snd (Option.some.inj hread)
    have htiled := Template.tiled_of_read (by decide) h
    rw [hstrays] at htiled
    exact ⟨tree, errors, rfl, hstrays, htiled.2⟩

end BoundTemplate
