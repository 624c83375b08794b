import BoundTemplate.Proofs.Template.Bindings
import BoundTemplate.Template.Query
import Mathlib.Data.List.Pairwise

/-!
# Numbers and owners

Elements and virtual elements take their numbers as they begin, and an item in the order of
the text comes before all that is inside of it. So the numbers of a tree are those from zero
on, each once, in the order of its items, and a number that is handed down to an attribute or
to a binding finds the item that carries it.
-/

namespace BoundTemplate

/-! ### Bindings name their owner -/

namespace Binding

variable {parser : Script.Parser} {source : Source} {owner : Nat} {b : Binding}

theorem owner_of_outcome {base : Nat} {property : Script.Outline.Property}
    (h : Object.outcome source owner base property = .ok b) : b.owner = owner := by
  unfold Object.outcome refuse at h
  cases property with
  | spread => cases h
  | entry span key form value =>
    dsimp only at h
    repeat' split at h
    all_goals cases h
    all_goals rfl

theorem owner_of_salvage {entry : Excerpt}
    (h : Salvage.read parser source owner entry = .ok b) : b.owner = owner := by
  unfold Salvage.read refuse at h
  dsimp only at h
  repeat' split at h
  all_goals cases h
  all_goals rfl

/-- A binding names the owner for which its list is read, also if the list is not in order. -/
theorem owner_of_readList {body : Span}
    (hb : b ∈ bindingsOf (readList parser source owner body)) : b.owner = owner := by
  obtain ⟨part, -, -, ⟨e, p, -, -, ho⟩ | hsaved⟩ := exists_of_mem_readList hb
  · exact owner_of_outcome ho
  · exact owner_of_salvage hsaved

end Binding

/-! ### Numbered items -/

namespace Item

/-- The number of the owner that an attribute or a binding names. -/
def owner? : Item → Option Nat
  | .attribute a => some a.owner
  | binding b => some b.owner
  | _ => none

/-- The items in the lists of an item: the attributes and the bindings of an element, the bindings
or the clause of a virtual element. -/
def carried : Item → List Item
  | element e => e.items
  | virtual v => v.items
  | _ => []

/-- All that an item carries names its number, if it names an owner. -/
def Owns (item : Item) : Prop :=
  ∀ inner ∈ item.carried, ∀ id, inner.owner? = some id → item.id? = some id

/-- A virtual element owns what it carries if its bindings name it. -/
theorem Owns.of_virtual {v : VirtualElement}
    (h : ∀ list, v.meaning = .bindings list → ∀ b ∈ list, b.owner = v.id) :
    (Item.virtual v).Owns := by
  intro item hi owner ho
  simp only [carried, VirtualElement.items] at hi
  split at hi
  · next list hmeaning =>
    obtain ⟨b, hb, rfl⟩ := List.mem_map.1 hi
    rw [← ho, id?, ← h list hmeaning b hb]
    rfl
  · obtain ⟨i, -, rfl⟩ := List.mem_map.1 hi
    cases ho
  · cases hi

end Item

/-- Some items have the numbers from one up to another, in their order, and own what they carry. -/
structure Numbered (first next : Nat) (items : List Item) : Prop where
  le : first ≤ next
  ids_eq : items.filterMap Item.id? = List.range' first (next - first)
  owns : ∀ item ∈ items, item.Owns

namespace Numbered

variable {first middle next : Nat} {items items' : List Item}

theorem nil (first : Nat) : Numbered first first [] :=
  ⟨Nat.le_refl _, by rw [Nat.sub_self]; rfl, by simp⟩

/-- Items without a number that carry nothing do not count. -/
theorem cons_plain (h : Numbered first next items) {item : Item} (hid : item.id? = none)
    (hcarried : item.carried = []) : Numbered first next (item :: items) := by
  refine ⟨h.le, ?_, List.forall_mem_cons.2 ⟨?_, h.owns⟩⟩
  · rw [List.filterMap_cons_none hid, h.ids_eq]
  · intro inner hi
    rw [hcarried] at hi
    cases hi

/-- Numbers go on behind others. -/
theorem append (h : Numbered first middle items) (h' : Numbered middle next items') :
    Numbered first next (items ++ items') := by
  refine ⟨Nat.le_trans h.le h'.le, ?_, List.forall_mem_append.2 ⟨h.owns, h'.owns⟩⟩
  obtain ⟨m, rfl⟩ := Nat.exists_eq_add_of_le h.le
  obtain ⟨n, rfl⟩ := Nat.exists_eq_add_of_le h'.le
  have hlength : first + m + n - first = m + n := by omega
  rw [List.filterMap_append, h.ids_eq, h'.ids_eq, hlength, Nat.add_sub_cancel_left,
    Nat.add_sub_cancel_left, List.range'_append_1]

/-- An item takes a number in front of those of the items inside of it. -/
theorem cons_owner {item : Item} (hid : item.id? = some first) (hitem : item.Owns)
    (h : Numbered (first + 1) next items) : Numbered first next (item :: items) := by
  have hle := h.le
  refine ⟨by omega, ?_, List.forall_mem_cons.2 ⟨hitem, h.owns⟩⟩
  have hlength : next - first = next - (first + 1) + 1 := by omega
  rw [List.filterMap_cons_some hid, h.ids_eq, hlength, List.range'_succ]

theorem of_plain (first : Nat) (h : ∀ item ∈ items, item.id? = none ∧ item.carried = []) :
    Numbered first first items := by
  induction items with
  | nil => exact .nil first
  | cons item items ih =>
    obtain ⟨hitem, hitems⟩ := List.forall_mem_cons.1 h
    exact (ih hitems).cons_plain hitem.1 hitem.2

/-- What an item carries has no number of its own. -/
theorem of_carried (item : Item) (first : Nat) : Numbered first first item.carried := by
  apply of_plain
  intro i hi
  cases item with
  | element e =>
    rcases List.mem_append.1 hi with hi | hi
    · obtain ⟨a, -, rfl⟩ := List.mem_map.1 hi
      exact ⟨rfl, rfl⟩
    · obtain ⟨b, -, rfl⟩ := List.mem_map.1 hi
      exact ⟨rfl, rfl⟩
  | virtual v =>
    simp only [Item.carried, VirtualElement.items] at hi
    split at hi
    · obtain ⟨b, -, rfl⟩ := List.mem_map.1 hi
      exact ⟨rfl, rfl⟩
    · obtain ⟨i, -, rfl⟩ := List.mem_map.1 hi
      exact ⟨rfl, rfl⟩
    · cases hi
  | _ => cases hi

theorem element {e : Element} {children : List Node} (hid : e.id = first)
    (howns : (Item.element e).Owns) (h : Numbered (first + 1) next (itemsOf children)) :
    Numbered first next (Node.element e children).items := by
  have hcarried : Numbered (first + 1) (first + 1) e.items := of_carried (.element e) _
  rw [Node.items]
  exact cons_owner (congrArg some hid) howns (hcarried.append h)

theorem virtual {v : VirtualElement} {children : List Node} (hid : v.id = first)
    (howns : (Item.virtual v).Owns) (h : Numbered (first + 1) next (itemsOf children)) :
    Numbered first next (Node.virtual v children).items := by
  have hcarried : Numbered (first + 1) (first + 1) v.items := of_carried (.virtual v) _
  rw [Node.items]
  exact cons_owner (congrArg some hid) howns (hcarried.append h)

/-- A node is numbered behind its elder siblings. -/
theorem concat {nodes : List Node} {node : Node} (h : Numbered first middle (itemsOf nodes))
    (hnode : Numbered middle next node.items) :
    Numbered first next (itemsOf (nodes ++ [node])) := by
  rw [itemsOf_append, itemsOf, itemsOf, List.append_nil]
  exact h.append hnode

end Numbered

/-! ### Siblings -/

/-- Some siblings, latest first, have the numbers from one up to another, and so have the virtual
elements that are open among them: each has the number behind those of its elders, and its children
have the numbers behind that. -/
inductive Siblings.Numbered (first : Nat) : Nat → Siblings → Prop
  | outside {next : Nat} {nodes : List Node}
      (numbered : BoundTemplate.Numbered first next (itemsOf nodes.reverse)) :
      Numbered first next ⟨[], nodes⟩
  | inside {next : Nat} {r : OpenVirtual} {regions : List OpenVirtual} {nodes : List Node}
      (outer : Numbered first r.id ⟨regions, nodes⟩)
      (owns : ∀ list, r.meaning = .bindings list → ∀ b ∈ list, b.owner = r.id)
      (children : BoundTemplate.Numbered (r.id + 1) next (itemsOf r.children.reverse)) :
      Numbered first next ⟨r :: regions, nodes⟩

namespace Siblings.Numbered

variable {first middle next : Nat} {s : Siblings}

theorem none (first : Nat) : Siblings.none.Numbered first first := .outside (.nil first)

/-- A node goes in behind all that have a number. -/
theorem push {node : Node} (h : s.Numbered first middle)
    (hnode : BoundTemplate.Numbered middle next node.items) :
    (s.push node).Numbered first next := by
  cases h with
  | outside numbered =>
    refine .outside ?_
    rw [List.reverse_cons]
    exact numbered.concat hnode
  | inside outer owns children =>
    refine .inside outer owns ?_
    rw [List.reverse_cons]
    exact children.concat hnode

/-- Siblings among which nothing is open are numbered as a list. -/
theorem closed (h : s.Numbered first next) (hregions : s.regions = []) :
    BoundTemplate.Numbered first next (itemsOf s.nodes.reverse) := by
  cases h with
  | outside numbered => exact numbered
  | inside => cases hregions

end Siblings.Numbered

namespace Setting

variable {c : Setting}

/-- An element owns what is read with it. -/
theorem owns_elementOf (id : Nat) (range name : Span) (attributes : List Markup.Attribute)
    (inner : Span) : (Item.element (c.elementOf id range name attributes inner)).Owns := by
  intro item hi owner ho
  rcases List.mem_append.1 hi with hi | hi
  · obtain ⟨a, ha, rfl⟩ := List.mem_map.1 hi
    obtain ⟨raw, -, rfl⟩ := List.mem_map.1 ha
    exact ho
  · obtain ⟨b, hb, rfl⟩ := List.mem_map.1 hi
    obtain ⟨raw, -, hb⟩ := List.mem_flatMap.1 hb
    have howner : b.owner = id := by
      simp only [attributeOf, attributeOutcomes] at hb
      repeat' split at hb
      · exact Binding.owner_of_readList hb
      · cases hb
      · cases hb
    rw [← ho, ← howner]
    rfl

/-- A virtual element owns what its expression means. -/
theorem owner_of_meaningOf {id : Nat} {start : Delimiter.Start} {list : List Binding}
    (h : (c.meaningOf id start).1 = .bindings list) : ∀ b ∈ list, b.owner = id := by
  unfold meaningOf at h
  split at h
  · cases h
    exact fun b hb => Binding.owner_of_readList hb
  · exfalso
    dsimp only at h
    unfold Directive.read at h
    split at h <;> cases h

/-- The innermost open virtual element is left with its number, which comes before those of its
children. -/
theorem numbered_leave {first next : Nat} {s : Siblings} {region : OpenVirtual}
    {regions : List OpenVirtual} (hr : s.regions = region :: regions) (comment : Span)
    (h : s.Numbered first next) :
    (({ s with regions := regions } : Siblings).push (c.leave region comment)).Numbered first
      next := by
  cases h with
  | outside => cases hr
  | @inside _ r _ nodes outer owns children =>
    cases hr
    refine outer.push ?_
    rw [leave, Setting.virtual]
    exact .virtual rfl (.of_virtual owns) children

mutual

/-- Reading a node gives the next numbers to what is in it. -/
theorem numbered_addNode {first : Nat} {s s' : Siblings} (node : Markup.Node) {p q : Progress}
    (h : s.Numbered first p.nextId) (hs : (c.addNode s node).run.run p = (.ok s', q)) :
    s'.Numbered first q.nextId := by
  cases node with
  | text span =>
    rw [c.run_addNode_text] at hs
    cases hs
    exact h.push ((Numbered.nil _).cons_plain rfl rfl)
  | comment span =>
    by_cases he : c.Ends s.regions span
    · obtain ⟨region, regions, hr, he⟩ := he
      rw [c.run_addNode_leave hr he] at hs
      cases hs
      exact numbered_leave hr span h
    · rcases hstart : Delimiter.Start.ofContent? (c.source.excerpt (Delimiter.contentSpan span))
        with _ | start
      · rw [c.run_addNode_comment he hstart] at hs
        cases hs
        exact h.push ((Numbered.nil _).cons_plain rfl rfl)
      · rw [c.run_addNode_enter he hstart] at hs
        cases hs
        exact .inside h (fun _ hmeaning => owner_of_meaningOf hmeaning) (.nil _)
  | element range name attributes inner children =>
    rw [c.run_addNode_element] at hs
    rcases hc : (c.readAll children).run.run
        (p.numbered.found (c.attributeErrors p.nextId attributes)) with ⟨e | nodes, r⟩
    · rw [hc] at hs
      cases hs
    · rw [hc] at hs
      cases hs
      obtain ⟨t, ht, hregions, rfl⟩ := exists_of_run_readAll hc
      have hchildren := (numbered_addNodes children (.none _) ht).closed hregions
      exact h.push (.element rfl (owns_elementOf _ _ _ _ _) hchildren)

theorem numbered_addNodes {first : Nat} {s s' : Siblings} (nodes : List Markup.Node)
    {p q : Progress} (h : s.Numbered first p.nextId)
    (hs : (c.addNodes s nodes).run.run p = (.ok s', q)) : s'.Numbered first q.nextId := by
  cases nodes with
  | nil =>
    cases hs
    exact h
  | cons node nodes =>
    rw [addNodes] at hs
    obtain ⟨t, r, ht, hs⟩ := Reading.exists_of_run_bind hs
    exact numbered_addNodes nodes (numbered_addNode node h ht) hs

end

/-- Nodes that are read get the numbers from the next on. -/
theorem numbered_readAll {result : List Node} {nodes : List Markup.Node} {p q : Progress}
    (hs : (c.readAll nodes).run.run p = (.ok result, q)) :
    Numbered p.nextId q.nextId (itemsOf result) := by
  obtain ⟨s, hs', hregions, rfl⟩ := exists_of_run_readAll hs
  exact (numbered_addNodes nodes (.none _) hs').closed hregions

end Setting

/-! ### Carriers -/

/-- An item in the lists of a node's own item, or in those of the items inside of the node. -/
theorem exists_carrier_cons (carrier : Item) {item : Item} {id : Nat} {inner : List Item}
    (howner : item.owner? = some id) (hcarrier : carrier.owner? = none)
    (hinner : item ∈ inner → ∃ holder ∈ inner, item ∈ holder.carried)
    (h : item ∈ carrier :: (carrier.carried ++ inner)) :
    ∃ holder ∈ carrier :: (carrier.carried ++ inner), item ∈ holder.carried := by
  rcases List.mem_cons.1 h with rfl | h
  · rw [hcarrier] at howner
    cases howner
  · rcases List.mem_append.1 h with h | h
    · exact ⟨carrier, List.mem_cons_self, h⟩
    · obtain ⟨holder, hholder, hitem⟩ := hinner h
      exact ⟨holder, List.mem_cons_of_mem _ (List.mem_append_right _ hholder), hitem⟩

mutual

/-- An attribute or a binding in a node stands in the lists of an item of it. -/
theorem Node.exists_carrier {item : Item} {id : Nat} (howner : item.owner? = some id) (node : Node)
    (h : item ∈ node.items) : ∃ holder ∈ node.items, item ∈ holder.carried := by
  cases node with
  | text p | comment p =>
    rw [Node.items, List.mem_singleton] at h
    rw [h] at howner
    cases howner
  | element e children =>
    rw [Node.items] at h ⊢
    exact exists_carrier_cons (.element e) howner rfl
      (exists_carrier_of_mem_itemsOf howner children) h
  | virtual v children =>
    rw [Node.items] at h ⊢
    exact exists_carrier_cons (.virtual v) howner rfl
      (exists_carrier_of_mem_itemsOf howner children) h

theorem exists_carrier_of_mem_itemsOf {item : Item} {id : Nat} (howner : item.owner? = some id)
    (nodes : List Node) (h : item ∈ itemsOf nodes) :
    ∃ holder ∈ itemsOf nodes, item ∈ holder.carried := by
  cases nodes with
  | nil => cases h
  | cons node nodes =>
    rw [itemsOf] at h ⊢
    rcases List.mem_append.1 h with h | h
    · obtain ⟨holder, hholder, hitem⟩ := Node.exists_carrier howner node h
      exact ⟨holder, List.mem_append_left _ hholder, hitem⟩
    · obtain ⟨holder, hholder, hitem⟩ := exists_carrier_of_mem_itemsOf howner nodes h
      exact ⟨holder, List.mem_append_right _ hholder, hitem⟩

end

namespace SyntaxTree

variable {tree : SyntaxTree} {first next id : Nat}

/-- The item of a number is found, for no other has this number. -/
theorem owner?_of_mem (h : Numbered first next tree.items) {item : Item} (hitem : item ∈ tree.items)
    (hid : item.id? = some id) : tree.owner? id = some item := by
  have hnodup : (tree.items.filterMap Item.id?).Nodup := by
    rw [h.ids_eq]
    exact List.nodup_range'
  let Distinct (i j : Item) : Prop := ∀ m, i.id? = some m → ∀ n, j.id? = some n → m ≠ n
  have hdistinct : tree.items.Pairwise Distinct := List.pairwise_filterMap.1 hnodup
  have : Std.Symm Distinct := ⟨fun i j hij m hm n hn hmn => hij n hn m hm hmn.symm⟩
  have hmem : item ∈ tree.items.filter fun i => i.id? == some id :=
    List.mem_filter.2 ⟨hitem, beq_iff_eq.2 hid⟩
  rcases hlast : tree.owner? id with _ | last
  · rw [List.getLast?_eq_none_iff.1 hlast] at hmem
    cases hmem
  · obtain ⟨hl, hlid⟩ := List.mem_filter.1 (List.mem_of_getLast? hlast)
    by_contra hne
    have hne : last ≠ item := fun he => hne (congrArg some he)
    exact hdistinct.forall hl hitem hne id (beq_iff_eq.1 hlid) id hid rfl

/-- Exactly the numbers of the items are found. -/
theorem owner?_eq_none_iff (h : Numbered 0 next tree.items) :
    tree.owner? id = none ↔ next ≤ id := by
  have hids : id ∈ tree.items.filterMap Item.id? ↔ id < next := by
    rw [h.ids_eq, Nat.sub_zero, ← List.range_eq_range', List.mem_range]
  rw [← Nat.not_lt, ← hids, List.mem_filterMap, owner?, List.getLast?_eq_none_iff,
    List.filter_eq_nil_iff]
  simp only [beq_iff_eq, not_exists, not_and]

end SyntaxTree

/-! ### Owners -/

namespace Template

/-- The elements and the virtual elements of a tree have the numbers from zero on, in the order of
the text. The owner that an attribute or a binding names is found and is the one item that carries
it, and behind the last number nothing is found. -/
theorem owners_of_read {t : Text} {options : ReadOptions} {tokenizer : Markup.Tokenizer}
    {parser : Script.Parser} {tree : SyntaxTree} {errors : List ParseError}
    (h : Template.read t options tokenizer parser = .ok ⟨some tree, errors⟩) :
    ∃ n, tree.items.filterMap Item.id? = List.range n ∧
      (∀ item ∈ tree.items, ∀ id, item.owner? = some id →
        ∃ holder ∈ tree.items, tree.owner? id = some holder ∧
          ∀ other ∈ tree.items, item ∈ other.carried ↔ other = holder) ∧
      ∀ id, tree.owner? id = none ↔ n ≤ id := by
  obtain ⟨document, more, e | nodes, q, -, hread, -, htemplate⟩ := exists_of_read h
  · cases htemplate
  have htree : tree.nodes = nodes := by
    cases htemplate
    rfl
  subst htree
  have hnumbered : Numbered 0 q.nextId tree.items := Setting.numbered_readAll hread
  refine ⟨q.nextId, ?_, ?_, fun id => SyntaxTree.owner?_eq_none_iff hnumbered⟩
  · rw [List.range_eq_range']
    exact hnumbered.ids_eq
  · intro item hitem id howner
    have hfound (holder : Item) (hholder : holder ∈ tree.items) (hi : item ∈ holder.carried) :=
      SyntaxTree.owner?_of_mem hnumbered hholder (hnumbered.owns holder hholder item hi id howner)
    obtain ⟨holder, hholder, hi⟩ := exists_carrier_of_mem_itemsOf howner tree.nodes hitem
    refine ⟨holder, hholder, hfound holder hholder hi, fun other hother => ⟨fun ho => ?_, ?_⟩⟩
    · exact Option.some.inj ((hfound other hother ho).symm.trans (hfound holder hholder hi))
    · rintro rfl
      exact hi

/-- An element is inside of a virtual element, and each has a binding. -/
theorem owners_of_read_nested :
    let t := "<!--ko a:b--><p c=d:e></p><!--/ko-->".toList
    let options : ReadOptions := { bindingAttributes := [['c']] }
    ∃ tree errors, Template.read t options = .ok ⟨some tree, errors⟩ ∧
      tree.items.filterMap Item.id? = [0, 1] ∧ tree.owner? 2 = none ∧
      ∀ id < 2, ∃ b ∈ tree.bindings, b.owner = id ∧
        ∃ holder, tree.owner? id = some holder ∧ .binding b ∈ holder.carried := by
  intro t options
  have hread : (Template.read t options).toOption.map (fun template =>
      template.tree.map fun tree => (tree.items.filterMap Item.id?, tree.bindings.map (·.owner))) =
      some (some ([0, 1], [0, 1])) := by decide +kernel
  rcases h : Template.read t options with e | ⟨_ | tree, errors⟩
  · rw [h] at hread
    cases hread
  · rw [h] at hread
    cases hread
  · rw [h] at hread
    have hids : tree.items.filterMap Item.id? = [0, 1] :=
      congrArg Prod.fst (Option.some.inj (Option.some.inj hread))
    have howners : tree.bindings.map (·.owner) = [0, 1] :=
      congrArg Prod.snd (Option.some.inj (Option.some.inj hread))
    obtain ⟨n, hrange, howner, hnone⟩ := owners_of_read h
    have hn : n = 2 := by
      rw [hids] at hrange
      simpa using (congrArg List.length hrange).symm
    refine ⟨tree, errors, rfl, hids, (hnone 2).2 (Nat.le_of_eq hn), fun id hid => ?_⟩
    have hmem : id ∈ tree.bindings.map (·.owner) := by
      rw [howners, List.mem_cons, List.mem_singleton]
      omega
    obtain ⟨b, hb, rfl⟩ := List.mem_map.1 hmem
    obtain ⟨item, hitem, hitemb⟩ := List.mem_filterMap.1 hb
    have hitemb : item = .binding b := by
      cases item <;> cases hitemb
      rfl
    subst hitemb
    obtain ⟨holder, hholder, hfound, hcarried⟩ := howner _ hitem _ rfl
    exact ⟨b, hb, rfl, holder, hfound, (hcarried holder hholder).2 rfl⟩

end Template

end BoundTemplate
