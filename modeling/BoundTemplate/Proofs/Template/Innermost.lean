import BoundTemplate.Proofs.Choosing
import BoundTemplate.Template.Query
import BoundTemplate.Template.Read

/-!
# The innermost item

The items around an offset are met in the order of the text, and the smallest so far is
kept; of items of one size the later replaces the earlier. What is inside of an item comes
directly behind it. So the item that is kept at the end is the last one of the smallest,
and nothing inside of it has its range.
-/

namespace BoundTemplate

/-! ### Walks -/

/-- An item that is met on the walk through a tree, and the items inside of it: those in its lists
and those of its children. -/
structure Visit where
  item : Item
  inside : List Item

/-- The visit of an item without lists and children. -/
def Visit.leaf (item : Item) : Visit := ⟨item, []⟩

mutual

/-- The walk through a node. -/
def Node.visits : Node → List Visit
  | .text p => [.leaf (.text p)]
  | .comment p => [.leaf (.comment p)]
  | .element e children =>
    ⟨.element e, e.items ++ itemsOf children⟩ :: (e.items.map .leaf ++ visitsOf children)
  | .virtual v children =>
    ⟨.virtual v, v.items ++ itemsOf children⟩ :: (v.items.map .leaf ++ visitsOf children)

/-- The walk through some nodes. -/
def visitsOf : List Node → List Visit
  | [] => []
  | node :: nodes => node.visits ++ visitsOf nodes

end

/-- The walk through a tree. -/
def SyntaxTree.visits (tree : SyntaxTree) : List Visit := visitsOf tree.nodes

namespace Visit

theorem map_item_leaves (items : List Item) : (items.map leaf).map item = items := by
  rw [List.map_map]
  exact List.map_id items

mutual

/-- The walk meets the items of a node in their order. -/
theorem map_item_visits (node : Node) : node.visits.map item = node.items := by
  cases node with
  | text p | comment p => rfl
  | element e children | «virtual» e children =>
    rw [Node.visits, Node.items, List.map_cons, List.map_append, map_item_leaves,
      map_item_visitsOf]

theorem map_item_visitsOf (nodes : List Node) : (visitsOf nodes).map item = itemsOf nodes := by
  cases nodes with
  | nil => rfl
  | cons node nodes =>
    rw [visitsOf, itemsOf, List.map_append, map_item_visits, map_item_visitsOf]

end

/-- On a walk, the items inside of an item are met directly behind it. -/
inductive Nested : List Visit → Prop
  | nil : Nested []
  | cons {v : Visit} {visits : List Visit} (inside : v.inside <+: visits.map item)
      (rest : Nested visits) : Nested (v :: visits)

namespace Nested

variable {visits visits' : List Visit}

theorem leaves (items : List Item) : Nested (items.map leaf) := by
  induction items with
  | nil => exact .nil
  | cons i items ih => exact .cons List.nil_prefix ih

/-- One walk goes on behind another. -/
theorem append (h : Nested visits) (h' : Nested visits') : Nested (visits ++ visits') := by
  induction h with
  | nil => exact h'
  | cons inside _ ih =>
    refine .cons (inside.trans ?_) ih
    exact (List.prefix_append _ visits').map item

/-- What is inside of the item that is met at an index is met from the next index on. -/
theorem prefix_drop (h : Nested visits) {index : Nat} {v : Visit}
    (hv : visits[index]? = some v) : v.inside <+: (visits.map item).drop (index + 1) := by
  induction h generalizing index with
  | nil => cases hv
  | cons inside _ ih =>
    cases index with
    | zero =>
      cases hv
      exact inside
    | succ index => exact ih hv

end Nested

mutual

theorem nested_visits (node : Node) : Nested node.visits := by
  cases node with
  | text p | comment p => exact .cons List.nil_prefix .nil
  | element e children | «virtual» e children =>
    have hwalk (items : List Item) :
        (items.map leaf ++ visitsOf children).map item = items ++ itemsOf children := by
      rw [List.map_append, map_item_leaves, map_item_visitsOf]
    rw [Node.visits]
    exact .cons (hwalk _ ▸ List.prefix_rfl) ((Nested.leaves _).append (nested_visitsOf children))

theorem nested_visitsOf (nodes : List Node) : Nested (visitsOf nodes) := by
  cases nodes with
  | nil => exact .nil
  | cons node nodes =>
    rw [visitsOf]
    exact (nested_visits node).append (nested_visitsOf nodes)

end

end Visit

/-! ### The last of the smallest items -/

/-- An item is the innermost of some at an offset: it contains the offset, and of all that do, it is
the last one of the smallest. -/
structure Innermost (items : List Item) (offset index : Nat) (item : Item) : Prop where
  found : items[index]? = some item
  contains : item.range.contains offset = true
  last : ∀ (j : Nat) (other : Item), items[j]? = some other →
    other.range.contains offset = true →
      item.range.size < other.range.size ∨ item.range.size = other.range.size ∧ j ≤ index

/-- A lookup keeps an item only if the next one is larger. -/
theorem Item.picks_smaller :
    Picks (fun i j : Item => i.range.size < j.range.size) Item.smaller where
  trans _ _ _ := Nat.lt_trans
  trans_not _ _ _ h h' := by omega
  first _ := rfl
  next _ _ := rfl

/-- To be innermost is to be chosen as the last of the smallest. -/
theorem chosen_iff_innermost {items : List Item} {offset index : Nat} {item : Item} :
    Chosen (fun i j : Item => i.range.size < j.range.size) (fun i => i.range.contains offset) items
      index item ↔ Innermost items offset index item := by
  constructor
  · intro h
    refine ⟨h.found, h.wanted, fun j other hj hother => ?_⟩
    rcases Nat.lt_trichotomy j index with hlt | rfl | hgt
    · have := h.front j other hlt hj hother
      omega
    · obtain rfl := Option.some.inj (h.found.symm.trans hj)
      exact .inr ⟨rfl, Nat.le_refl j⟩
    · exact .inl (h.behind j other hgt hj hother)
  · intro h
    refine ⟨h.found, h.contains, fun j other hlt hj hother => ?_, fun j other _ hj hother => ?_⟩
    · have := h.last j other hj hother
      omega
    · have := h.last j other hj hother
      omega

namespace SyntaxTree

variable {tree : SyntaxTree} {offset : Nat} {item : Item}

theorem itemAt?_eq_none_iff :
    tree.itemAt? offset = none ↔ ∀ i ∈ tree.items, i.range.contains offset = false :=
  Item.picks_smaller.foldl_eq_none_iff

/-- The item at an offset is the innermost. -/
theorem itemAt?_eq_some_iff :
    tree.itemAt? offset = some item ↔ ∃ index, Innermost tree.items offset index item :=
  Item.picks_smaller.foldl_eq_some_iff.trans (exists_congr fun _ => chosen_iff_innermost)

/-- The item at an offset, in any tree: there is none exactly if no item on the walk contains the
offset. Else it is the innermost, the last one of the smallest that contain the offset; and at the
place where the walk meets it, nothing inside of it has its range. -/
theorem itemAt?_is_innermost (tree : SyntaxTree) (offset : Nat) :
    tree.visits.map Visit.item = tree.items ∧
      (tree.itemAt? offset = none ↔
        ∀ item ∈ tree.items, item.range.contains offset = false) ∧
      (∀ item, tree.itemAt? offset = some item ↔
        ∃ index, Innermost tree.items offset index item) ∧
      ∀ index item, Innermost tree.items offset index item →
        ∃ inside, tree.visits[index]? = some ⟨item, inside⟩ ∧
          ∀ inner ∈ inside, inner.range ≠ item.range := by
  have hwalk : tree.visits.map Visit.item = tree.items := Visit.map_item_visitsOf tree.nodes
  refine ⟨hwalk, itemAt?_eq_none_iff, fun item => itemAt?_eq_some_iff, fun index item h => ?_⟩
  have hfound := h.found
  rw [← hwalk, List.getElem?_map] at hfound
  obtain ⟨⟨_, inside⟩, hvisit, rfl⟩ := Option.map_eq_some_iff.1 hfound
  refine ⟨inside, hvisit, fun inner hinner heq => ?_⟩
  -- An item inside stands behind the item, so it would have replaced it.
  have hbehind := (Visit.nested_visitsOf tree.nodes).prefix_drop hvisit
  rw [Visit.map_item_visitsOf] at hbehind
  obtain ⟨j, hj⟩ := List.mem_iff_getElem?.1 (hbehind.subset hinner)
  rw [List.getElem?_drop] at hj
  have hcontains : inner.range.contains offset = true := heq ▸ h.contains
  have hlast := h.last (index + 1 + j) inner hj hcontains
  rw [heq] at hlast
  omega

/-- At an offset between two elements of one size, of which each has the same attribute, the second
element is found: it is smaller than the one around it, and nothing inside of it has its range. -/
theorem itemAt?_is_innermost_of_siblings :
    let t := "<b><i k></i><i k></i></b>".toList
    ∃ tree errors, Template.read t {} = .ok ⟨some tree, errors⟩ ∧
      (tree.items.map fun item => (item.kind, item.range.span)) =
        [(.element, ⟨0, 25⟩), (.element, ⟨3, 12⟩), (.attribute, ⟨6, 7⟩), (.element, ⟨12, 21⟩),
          (.attribute, ⟨15, 16⟩)] ∧
      ∃ item, tree.itemAt? 12 = some item ∧ item.range.span = ⟨12, 21⟩ ∧
        ∃ inside, tree.visits[3]? = some ⟨item, inside⟩ ∧ inside.length = 1 ∧
          ∀ inner ∈ inside, inner.range ≠ item.range := by
  intro t
  have hread : (Template.read t {}).toOption.map (fun template => template.tree.map fun tree =>
      (tree.items.map (fun item => (item.kind, item.range.span)),
        tree.visits.map (fun visit => visit.inside.length),
        (tree.itemAt? 12).map (·.range.span))) =
      some (some ([(.element, ⟨0, 25⟩), (.element, ⟨3, 12⟩), (.attribute, ⟨6, 7⟩),
        (.element, ⟨12, 21⟩), (.attribute, ⟨15, 16⟩)], [4, 1, 0, 1, 0], some ⟨12, 21⟩)) := by
    decide +kernel
  rcases h : Template.read t {} with e | ⟨_ | tree, errors⟩
  · rw [h] at hread
    cases hread
  · rw [h] at hread
    cases hread
  · rw [h] at hread
    have hread := Option.some.inj (Option.some.inj hread)
    obtain ⟨hitems, hrest⟩ := Prod.mk.inj hread
    obtain ⟨hsizes, hat⟩ := Prod.mk.inj hrest
    refine ⟨tree, errors, rfl, hitems, ?_⟩
    obtain ⟨item, hitem, hspan⟩ := Option.map_eq_some_iff.1 hat
    obtain ⟨-, -, hfound, hinside⟩ := itemAt?_is_innermost tree 12
    obtain ⟨index, hinnermost⟩ := (hfound item).1 hitem
    have hindex : index = 3 := by
      have hentry := List.getElem?_map (f := fun item : Item => (item.kind, item.range.span))
        (l := tree.items) (i := index)
      rw [hitems, hinnermost.found, Option.map_some, hspan] at hentry
      match index with
      | 0 | 1 | 2 | 4 => simp at hentry
      | 3 => rfl
      | n + 5 => simp at hentry
    subst hindex
    obtain ⟨inside, hvisit, hranges⟩ := hinside 3 item hinnermost
    refine ⟨item, hitem, hspan, inside, hvisit, ?_, hranges⟩
    have hsize := List.getElem?_map (f := fun visit : Visit => visit.inside.length)
      (l := tree.visits) (i := 3)
    rw [hsizes, hvisit] at hsize
    exact (Option.some.inj hsize).symm

end SyntaxTree

end BoundTemplate
