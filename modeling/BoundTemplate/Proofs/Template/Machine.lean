import BoundTemplate.Template.Reading

/-!
# Reading siblings with a stack

Siblings may also be read one after the other with the stack of the virtual elements that are open:
a comment ends the innermost one if it names its namespace, else it may open another, and every
other node goes into the innermost one. A list that ends with an open virtual element ends reading.
That is how the recursion over what is left of the siblings reads them.
-/

namespace BoundTemplate

/-- A virtual element whose end comment has not been met. -/
structure OpenVirtual where
  id : Nat
  /-- The comment that starts it. -/
  comment : Span
  start : Delimiter.Start
  meaning : Meaning
  /-- The nodes met in it, latest first. -/
  children : List Node

/-- The virtual elements that are open in a list of siblings, innermost first, and the nodes outside
of them, latest first. -/
structure Siblings where
  regions : List OpenVirtual
  nodes : List Node

namespace Siblings

/-- No sibling has been met. -/
def none : Siblings := ⟨[], []⟩

/-- Puts a node into the innermost open virtual element. -/
def push (node : Node) (s : Siblings) : Siblings :=
  match s.regions with
  | [] => { s with nodes := node :: s.nodes }
  | r :: regions => { s with regions := { r with children := node :: r.children } :: regions }

/-- Opens a virtual element. -/
def enter (region : OpenVirtual) (s : Siblings) : Siblings :=
  { s with regions := region :: s.regions }

end Siblings

namespace Setting

variable (c : Setting)

/-- Begins a virtual element. -/
def enter (comment : Span) (start : Delimiter.Start) : Reading OpenVirtual := do
  let id ← Reading.newId
  let meaning ← c.readMeaning id start
  return ⟨id, comment, start, meaning, []⟩

/-- The virtual element that a comment ends. -/
def leave (region : OpenVirtual) (comment : Span) : Node :=
  c.virtual region.id region.comment region.start region.meaning region.children.reverse comment

/-- Adds a node that ends no virtual element behind its elder siblings. -/
def beginNode (s : Siblings) : Markup.Node → Reading Siblings
  | .text span => return s.push (.text (c.source.piece span))
  | .comment span =>
    match c.startOf? span with
    | some start => return s.enter (← c.enter span start)
    | none => return s.push (c.comment span)
  | .element range name attributes inner children => do
    let element ← c.readElement range name attributes inner
    return s.push (.element element (← c.readAll children))

/-- Adds a node behind its elder siblings. -/
def addNode (s : Siblings) (node : Markup.Node) : Reading Siblings :=
  match s.regions with
  | region :: regions =>
    match c.endComment? region.start.space node with
    | some comment => return { s with regions := regions }.push (c.leave region comment)
    | none => c.beginNode s node
  | [] => c.beginNode s node

/-- Adds some nodes behind their elder siblings. -/
def addNodes (c : Setting) (s : Siblings) : List Markup.Node → Reading Siblings
  | [] => return s
  | node :: siblings => do c.addNodes (← c.addNode s node) siblings

/-- Ends a list of siblings: no virtual element may be open. -/
def finish (s : Siblings) : Reading (List Node) :=
  match s.regions with
  | [] => return s.nodes.reverse
  | region :: _ => throw ⟨c.source.range region.comment, .endCommentExpected⟩

/-- Adds some nodes behind their elder siblings, and ends the list. -/
def complete (s : Siblings) (nodes : List Markup.Node) : Reading (List Node) := do
  c.finish (← c.addNodes s nodes)

variable {c : Setting} {s : Siblings} {siblings : List Markup.Node}

theorem complete_cons (node : Markup.Node) : c.complete s (node :: siblings) =
    c.addNode s node >>= fun s' => c.complete s' siblings := by
  simp only [complete, addNodes, bind_assoc]

/-- What is left of some siblings is added behind the open virtual element when its children have
been read. -/
def EndsRegion (c : Setting) (siblings : List Markup.Node) : Prop :=
  ∀ (region : OpenVirtual) (regions : List OpenVirtual) (nodes : List Node),
    c.complete ⟨region :: regions, nodes⟩ siblings =
      c.readChildren region.comment region.start.space siblings >>= fun left =>
        let children := left.made.1.reverse ++ region.children
        c.complete (Siblings.push (c.leave { region with children } left.made.2) ⟨regions, nodes⟩)
          left.rest

theorem addNode_of_ends {region : OpenVirtual} {regions : List OpenVirtual} {nodes : List Node}
    {node : Markup.Node} {comment : Span}
    (h : c.endComment? region.start.space node = some comment) :
    c.addNode ⟨region :: regions, nodes⟩ node =
      pure (Siblings.push (c.leave region comment) ⟨regions, nodes⟩) := by
  simp only [addNode, h]

theorem addNode_of_goes_on {region : OpenVirtual} {regions : List OpenVirtual} {nodes : List Node}
    {node : Markup.Node} (h : c.endComment? region.start.space node = none) :
    c.addNode ⟨region :: regions, nodes⟩ node = c.beginNode ⟨region :: regions, nodes⟩ node := by
  simp only [addNode, h]

/-- A node that ends nothing is added as it is read, with the younger siblings that belong to it. -/
theorem beginNode_bind (node : Markup.Node) (h : c.EndsRegion siblings) :
    (c.beginNode s node >>= fun s' => c.complete s' siblings) =
      c.readNode node siblings >>= fun left => c.complete (s.push left.made) left.rest := by
  cases node with
  | text span => simp only [beginNode, readNode, pure_bind]
  | element range name attributes inner children =>
    simp only [beginNode, readNode, bind_assoc, pure_bind]
  | comment span =>
    simp only [beginNode, readNode]
    cases c.startOf? span with
    | none => simp only [pure_bind]
    | some start =>
      simp only [readVirtual, enter, bind_assoc, pure_bind]
      refine bind_congr fun id => bind_congr fun meaning => ?_
      rw [Siblings.enter, h]
      simp only [leave, List.append_nil, List.reverse_reverse]

/-- A node goes behind its elders as the recursion over the siblings reads it. -/
theorem complete_spec (siblings : List Markup.Node) :
    (∀ nodes, c.complete ⟨[], nodes⟩ siblings =
      c.readAll siblings >>= fun rest => pure (nodes.reverse ++ rest)) ∧
      c.EndsRegion siblings := by
  -- What is left behind a node is shorter than the siblings that begin with it.
  induction hn : siblings.length using Nat.strongRecOn generalizing siblings with
  | ind n ih =>
    subst hn
    cases siblings with
    | nil =>
      constructor
      · intro nodes
        simp only [complete, addNodes, finish, readAll, pure_bind, List.append_nil]
      · intro region regions nodes
        simp only [complete, addNodes, finish, readChildren, pure_bind]
        rfl
    | cons node siblings =>
      have hrest (rest : List Markup.Node) (h : rest <:+ siblings) :=
        ih rest.length (Nat.lt_succ_of_le h.length_le) rest rfl
      have hbegin (s : Siblings) := beginNode_bind (s := s) node (hrest siblings List.suffix_rfl).2
      constructor
      · intro nodes
        rw [complete_cons, readAll]
        show (c.beginNode ⟨[], nodes⟩ node >>= fun s' => c.complete s' siblings) = _
        rw [hbegin, bind_assoc]
        refine bind_congr fun left => ?_
        rw [Siblings.push, (hrest left.rest left.suffix).1]
        simp only [bind_assoc, pure_bind, List.reverse_cons, List.append_assoc,
          List.singleton_append]
      · intro region regions nodes
        rw [complete_cons, readChildren]
        cases hend : c.endComment? region.start.space node with
        | some comment =>
          rw [addNode_of_ends hend, pure_bind, pure_bind]
          rfl
        | none =>
          rw [addNode_of_goes_on hend, hbegin]
          simp only [bind_assoc, pure_bind]
          refine bind_congr fun left => ?_
          rw [Siblings.push, (hrest left.rest left.suffix).2]
          simp only [List.reverse_cons, List.append_assoc, List.singleton_append]

/-- The recursion over what is left of the siblings reads them as the stack does. -/
theorem readAll_eq (c : Setting) (siblings : List Markup.Node) :
    c.readAll siblings = c.addNodes .none siblings >>= c.finish := by
  have h := (complete_spec (c := c) siblings).1 []
  simp only [List.reverse_nil, List.nil_append, bind_pure] at h
  exact h.symm

end Setting

end BoundTemplate
