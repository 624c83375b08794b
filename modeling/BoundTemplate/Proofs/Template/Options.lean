import BoundTemplate.Proofs.Template.Reading

/-!
# What the options decide

The options say which attributes are read as binding lists, and nothing else depends on them: not
the numbers of elements, not where reading ends, not what is found outside of the values of
attributes. To say so, reading is recorded with the origin of each error. What is left of a
record without the bindings of elements and without the errors in values of attributes is what
is read if no attribute is a binding list.
-/

namespace BoundTemplate

/-! ### Records -/

/-- Where reading finds an error. -/
inductive Origin where
  /-- In the value of an attribute, which is read as a binding list. -/
  | attributeValue
  | elsewhere
  deriving DecidableEq, Repr

/-- An error and where it is found. -/
structure Entry where
  origin : Origin
  error : ParseError

/-- What reading has found out so far, and where. -/
structure Ledger where
  /-- The number of the next element. -/
  nextId : Nat
  /-- The errors and their origins, latest first. -/
  entries : List Entry

/-- A step of reading that is recorded. -/
abbrev Recording := ExceptT ParseError (StateM Ledger)

/-- Records a step of reading, all of whose errors have one origin. -/
def Reading.noted {α : Type} (origin : Origin) (m : Reading α) : Recording α :=
  ExceptT.mk fun l =>
    let (result, q) := m.run.run ⟨l.nextId, []⟩
    (result, ⟨q.nextId, q.errors.map (Entry.mk origin) ++ l.entries⟩)

namespace Setting

mutual

/-- Records how a node is read: the errors of an element itself are those in the values of its
attributes. -/
def recordNode (c : Setting) (s : Siblings) : Markup.Node → Recording Siblings
  | .text span => (c.addNode s (.text span)).noted .elsewhere
  | .comment span => (c.addNode s (.comment span)).noted .elsewhere
  | .element range name attributes inner children => do
    let id ← Reading.newId.noted .elsewhere
    (Reading.report (c.attributeErrors id attributes)).noted .attributeValue
    let t ← c.recordSiblings .none children
    let nodes ← (c.finish t).noted .elsewhere
    return s.push (.element (c.elementOf id range name attributes inner) nodes)
termination_by structural node => node

/-- Records how some nodes are read. -/
def recordSiblings (c : Setting) (s : Siblings) : List Markup.Node → Recording Siblings
  | [] => return s
  | node :: rest => do c.recordSiblings (← c.recordNode s node) rest
termination_by structural nodes => nodes

end

/-- Records how all nodes of a template are read. -/
def recordAll (c : Setting) (nodes : List Markup.Node) : Recording (List Node) := do
  (c.finish (← c.recordSiblings .none nodes)).noted .elsewhere

end Setting

mutual

/-- A node with each element in it changed. -/
def Node.mapElements (f : Element → Element) : Node → Node
  | .text p => .text p
  | .comment p => .comment p
  | .element e children => .element (f e) (mapElementsOf f children)
  | .virtual v children => .virtual v (mapElementsOf f children)

/-- Some nodes with each element in them changed. -/
def mapElementsOf (f : Element → Element) : List Node → List Node
  | [] => []
  | node :: nodes => node.mapElements f :: mapElementsOf f nodes

end

/-- An element without its bindings. -/
def Element.unbound (e : Element) : Element := { e with bindings := [] }

/-- A tree with each element in it changed. -/
def SyntaxTree.mapElements (f : Element → Element) (tree : SyntaxTree) : SyntaxTree :=
  { tree with nodes := mapElementsOf f tree.nodes }

/-- A template that has been read, with the origins of its errors. -/
structure Recorded where
  tree : Option SyntaxTree
  entries : List Entry

namespace Recorded

/-- What has been read. -/
def template (r : Recorded) : Template := ⟨r.tree, r.entries.map Entry.error⟩

/-- What has been read, with the errors of some origins only and with each element changed. -/
def seen (sees : Origin → Bool) (f : Element → Element) (r : Recorded) : Template :=
  ⟨r.tree.map (SyntaxTree.mapElements f),
    (r.entries.filter fun entry => sees entry.origin).map Entry.error⟩

/-- What has been read, but for the bindings of elements and the errors in values of attributes. -/
def outline (r : Recorded) : Template := r.seen (· == .elsewhere) Element.unbound

end Recorded

/-- Records how a template is read. -/
def Template.record (t : Text) (options : ReadOptions)
    (tokenizer : Markup.Tokenizer := .standard) (parser : Script.Parser := .standard) :
    Except LocationError Recorded := do
  let document ← Markup.Document.ofText tokenizer t
  let source := Source.ofText t
  let start : Ledger := ⟨0, ((document.errors source).map (Entry.mk .elsewhere)).reverse⟩
  let (result, ledger) :=
    ((Setting.mk source options parser).recordAll document.nodes).run.run start
  match result with
  | .ok nodes =>
    return ⟨some ⟨nodes, source.range ⟨0, t.size⟩, source.table.style⟩, ledger.entries.reverse⟩
  | .error fatal => return ⟨none, (⟨.elsewhere, fatal⟩ :: ledger.entries).reverse⟩

/-! ### Elements that change -/

theorem mapElementsOf_eq_map (f : Element → Element) (nodes : List Node) :
    mapElementsOf f nodes = nodes.map (Node.mapElements f) := by
  induction nodes with
  | nil => rfl
  | cons node nodes ih => rw [mapElementsOf, ih, List.map_cons]

mutual

@[simp] theorem Node.mapElements_id (node : Node) : node.mapElements id = node := by
  cases node with
  | text | comment => rfl
  | element e children => rw [Node.mapElements, mapElementsOf_id children, id]
  | virtual v children => rw [Node.mapElements, mapElementsOf_id children]

@[simp] theorem mapElementsOf_id (nodes : List Node) : mapElementsOf id nodes = nodes := by
  cases nodes with
  | nil => rfl
  | cons node nodes => rw [mapElementsOf, Node.mapElements_id node, mapElementsOf_id nodes]

end

/-- An open virtual element with each element in it changed. -/
def OpenVirtual.mapElements (f : Element → Element) (r : OpenVirtual) : OpenVirtual :=
  { r with children := r.children.map (Node.mapElements f) }

/-- Siblings with each element in them changed. -/
def Siblings.mapElements (f : Element → Element) (s : Siblings) : Siblings :=
  ⟨s.regions.map (OpenVirtual.mapElements f), s.nodes.map (Node.mapElements f)⟩

theorem Siblings.mapElements_push (f : Element → Element) (node : Node) (s : Siblings) :
    (s.push node).mapElements f = (s.mapElements f).push (node.mapElements f) := by
  obtain ⟨_ | ⟨r, regions⟩, nodes⟩ := s <;> rfl

theorem Setting.mapElements_leave {c c' : Setting} (hsource : c'.source = c.source)
    (f : Element → Element) (r : OpenVirtual) (comment : Span) :
    (c.leave r comment).mapElements f = c'.leave (r.mapElements f) comment := by
  rw [leave, leave, virtual, virtual, Node.mapElements, mapElementsOf_eq_map, List.map_reverse,
    hsource]
  rfl

/-! ### What is seen of a record -/

/-- Progress as it is seen if only the errors of some origins are. -/
def Ledger.seen (sees : Origin → Bool) (l : Ledger) : Progress :=
  ⟨l.nextId, (l.entries.filter fun entry => sees entry.origin).map Entry.error⟩

/-- Of errors with one origin, all are seen or none. -/
theorem Ledger.seen_append (sees : Origin → Bool) (next : Nat) (origin : Origin)
    (errors : List ParseError) (entries : List Entry) :
    seen sees ⟨next, errors.map (Entry.mk origin) ++ entries⟩ =
      ⟨next, (if sees origin then errors else []) ++ (seen sees ⟨next, entries⟩).errors⟩ := by
  have hsees : ((fun entry => sees entry.origin) ∘ Entry.mk origin) = fun _ => sees origin := rfl
  have herror : Entry.error ∘ Entry.mk origin = id := rfl
  simp only [seen, List.filter_append, List.map_append, List.filter_map, hsees, List.map_map,
    herror, List.map_id]
  cases sees origin <;> simp

/-- A recorded step shows another, which gives what is seen of its outcome. -/
def Recording.Shows {α β : Type} (sees : Origin → Bool) (f : α → β) (m : Recording α)
    (n : Reading β) : Prop :=
  ∀ l, n.run.run (l.seen sees) = ((m.run.run l).1.map f, (m.run.run l).2.seen sees)

/-- A step adds errors to those before it, on which it does not depend. -/
def Reading.Adds {α : Type} (m : Reading α) : Prop :=
  ∀ p : Progress, m.run.run p =
    ((m.run.run ⟨p.nextId, []⟩).1,
      ⟨(m.run.run ⟨p.nextId, []⟩).2.nextId, (m.run.run ⟨p.nextId, []⟩).2.errors ++ p.errors⟩)

namespace Recording

variable {α β γ δ : Type} {sees : Origin → Bool}

theorem run_bind (m : Recording α) (f : α → Recording β) (l : Ledger) :
    (m >>= f).run.run l =
      match m.run.run l with
      | (.ok a, l') => (f a).run.run l'
      | (.error e, l') => (.error e, l') := by
  change (match m.run.run l with
    | (r, l') => (ExceptT.bindCont f r).run l') = _
  rcases m.run.run l with ⟨e | a, l'⟩ <;> rfl

namespace Shows

theorem pure (f : α → β) (a : α) :
    Shows sees f (Pure.pure a : Recording α) (Pure.pure (f a) : Reading β) :=
  fun _ => rfl

/-- Steps one after the other show others one after the other. -/
theorem bind {f : α → β} {g : γ → δ} {m : Recording α} {n : Reading β} {k : α → Recording γ}
    {k' : β → Reading δ} (h : Shows sees f m n) (hk : ∀ a, Shows sees g (k a) (k' (f a))) :
    Shows sees g (m >>= k) (n >>= k') := by
  intro l
  rw [Reading.run_bind, h l, run_bind]
  rcases m.run.run l with ⟨e | a, l'⟩
  · rfl
  · exact hk a l'

/-- A step that is noted with an origin that is seen. -/
theorem noted {f : α → β} {m : Reading α} {n : Reading β} {origin : Origin}
    (hsees : sees origin = true) (hm : m.Adds)
    (h : ∀ p, n.run.run p = ((m.run.run p).1.map f, (m.run.run p).2)) :
    Shows sees f (m.noted origin) n := by
  intro l
  rw [h, hm]
  refine Prod.ext rfl ?_
  change _ = Ledger.seen sees ⟨_, _ ++ l.entries⟩
  rw [Ledger.seen_append, if_pos hsees]
  rfl

/-- Errors whose origin is not seen are not there. -/
theorem report {origin : Origin} {errors errors' : List ParseError}
    (h : errors' = if sees origin then errors else []) :
    Shows sees id ((Reading.report errors).noted origin) (Reading.report errors') := by
  intro l
  refine Prod.ext rfl ?_
  change (⟨l.nextId, errors'.reverse ++ (l.seen sees).errors⟩ : Progress) =
    Ledger.seen sees ⟨l.nextId, (errors.reverse ++ []).map (Entry.mk origin) ++ l.entries⟩
  rw [Ledger.seen_append, h, List.append_nil]
  cases sees origin <;> rfl

end Shows

end Recording

/-! ### Steps of reading -/

namespace Reading

theorem adds_newId : newId.Adds := fun _ => rfl

end Reading

namespace Setting

theorem adds_finish (c : Setting) (s : Siblings) : (c.finish s).Adds := by
  intro p
  rcases hr : s.regions with _ | ⟨region, regions⟩
  · simp only [c.run_finish_nil hr, List.nil_append]
  · simp only [c.run_finish_cons hr, List.nil_append]

theorem adds_addNode_text (c : Setting) (s : Siblings) (span : Span) :
    (c.addNode s (.text span)).Adds := by
  intro p
  simp only [c.run_addNode_text, List.nil_append]

theorem adds_addNode_comment (c : Setting) (s : Siblings) (span : Span) :
    (c.addNode s (.comment span)).Adds := by
  intro p
  by_cases h : c.Ends s.regions span
  · obtain ⟨region, regions, hr, he⟩ := h
    simp only [c.run_addNode_leave hr he, List.nil_append]
  · rcases hs : Delimiter.Start.ofContent? (c.source.excerpt (Delimiter.contentSpan span))
      with _ | start
    · simp only [c.run_addNode_comment h hs, List.nil_append]
    · simp only [c.run_addNode_enter h hs, Progress.found, Progress.numbered, List.append_nil]

/-- An element takes its number, and its attributes are read, before its children are. -/
theorem addNode_element (c : Setting) (s : Siblings) (range name : Span)
    (attributes : List Markup.Attribute) (inner : Span) (children : List Markup.Node) :
    c.addNode s (.element range name attributes inner children) = do
      let id ← Reading.newId
      Reading.report (c.attributeErrors id attributes)
      let t ← c.addNodes .none children
      let nodes ← c.finish t
      return s.push (.element (c.elementOf id range name attributes inner) nodes) := by
  have helement : c.readElement range name attributes inner = do
      let id ← Reading.newId
      Reading.report (c.attributeErrors id attributes)
      return c.elementOf id range name attributes inner :=
    funext fun p => c.run_readElement range name attributes inner p
  rw [c.addNode_of_not_comment (by simp), beginNode, helement, readAll_eq]
  simp only [bind_assoc, pure_bind]

/-- A setting of the same source, in which elements are read as they are seen. -/
structure Seen (sees : Origin → Bool) (f : Element → Element) (c c' : Setting) : Prop where
  source_eq : c'.source = c.source
  parser_eq : c'.parser = c.parser
  elsewhere : sees .elsewhere = true
  elementOf_eq : ∀ id range name attributes inner,
    c'.elementOf id range name attributes inner = f (c.elementOf id range name attributes inner)
  errors_eq : ∀ id attributes, c'.attributeErrors id attributes =
    if sees .attributeValue then c.attributeErrors id attributes else []

namespace Seen

variable {sees : Origin → Bool} {f : Element → Element} {c c' : Setting}

theorem finish (h : Seen sees f c c') (s : Siblings) :
    Recording.Shows sees (mapElementsOf f) ((c.finish s).noted .elsewhere)
      (c'.finish (s.mapElements f)) := by
  refine .noted h.elsewhere (adds_finish c s) fun p => ?_
  obtain ⟨_ | ⟨region, regions⟩, nodes⟩ := s
  · rw [c.run_finish_nil rfl, c'.run_finish_nil rfl, Siblings.mapElements, ← List.map_reverse,
      ← mapElementsOf_eq_map]
    rfl
  · rw [c.run_finish_cons rfl, c'.run_finish_cons rfl, h.source_eq]
    rfl

theorem content_eq (h : Seen sees f c c') (span : Span) : c'.content span = c.content span := by
  rw [content, h.source_eq, content]

/-- What a comment ends does not depend on elements. -/
theorem ends (h : Seen sees f c c') {regions : List OpenVirtual} {span : Span}
    (he : c'.Ends (regions.map (OpenVirtual.mapElements f)) span) : c.Ends regions span := by
  obtain ⟨r, rest, hr, he⟩ := he
  obtain ⟨region, regions', rfl, rfl, -⟩ := List.map_eq_cons_iff.1 hr
  rw [h.content_eq] at he
  exact ⟨region, regions', rfl, he⟩

theorem regionOf_eq (h : Seen sees f c c') (id : Nat) (comment : Span) (start : Delimiter.Start) :
    c'.regionOf id comment start = (c.regionOf id comment start).mapElements f := by
  rw [regionOf, regionOf, meaningOf, meaningOf, h.source_eq, h.parser_eq]
  rfl

theorem addNode_comment (h : Seen sees f c c') (s : Siblings) (span : Span) :
    Recording.Shows sees (Siblings.mapElements f) ((c.addNode s (.comment span)).noted .elsewhere)
      (c'.addNode (s.mapElements f) (.comment span)) := by
  refine .noted h.elsewhere (adds_addNode_comment c s span) fun p => ?_
  by_cases he : c.Ends s.regions span
  · obtain ⟨region, regions, hr, he⟩ := he
    have hr' : (s.mapElements f).regions =
        region.mapElements f :: regions.map (OpenVirtual.mapElements f) := by
      rw [Siblings.mapElements, hr, List.map_cons]
    have he' := he
    rw [← h.content_eq] at he'
    rw [c.run_addNode_leave hr he, c'.run_addNode_leave hr' he', Except.map,
      Siblings.mapElements_push, mapElements_leave h.source_eq]
    rfl
  · have he' : ¬c'.Ends (s.mapElements f).regions span := fun he' => he (h.ends he')
    rcases hs : Delimiter.Start.ofContent? (c.source.excerpt (Delimiter.contentSpan span))
      with _ | start
    · have hs' := hs
      rw [← h.source_eq] at hs'
      rw [c.run_addNode_comment he hs, c'.run_addNode_comment he' hs', Except.map,
        Siblings.mapElements_push, comment, h.source_eq]
      rfl
    · have hs' := hs
      rw [← h.source_eq] at hs'
      rw [c.run_addNode_enter he hs, c'.run_addNode_enter he' hs', h.regionOf_eq, meaningOf,
        meaningOf, h.source_eq, h.parser_eq]
      rfl

mutual

/-- A node is recorded as it is read in a setting in which elements are read as they are seen. -/
theorem recordNode (h : Seen sees f c c') (s : Siblings) (node : Markup.Node) :
    Recording.Shows sees (Siblings.mapElements f) (c.recordNode s node)
      (c'.addNode (s.mapElements f) node) := by
  cases node with
  | text span =>
    rw [Setting.recordNode]
    refine .noted h.elsewhere (adds_addNode_text c s span) fun p => ?_
    rw [c.run_addNode_text, c'.run_addNode_text, h.source_eq, Except.map,
      Siblings.mapElements_push]
    rfl
  | comment span => exact h.addNode_comment s span
  | element range name attributes inner children =>
    rw [addNode_element, Setting.recordNode]
    have hid : Recording.Shows sees id (Reading.newId.noted .elsewhere) Reading.newId :=
      .noted h.elsewhere Reading.adds_newId fun _ => rfl
    refine hid.bind fun n => ?_
    refine .bind (.report (h.errors_eq n attributes)) fun _ => ?_
    refine .bind (h.recordSiblings .none children) fun t => ?_
    refine .bind (h.finish t) fun nodes => ?_
    have hpush := Siblings.mapElements_push f
      (.element (c.elementOf n range name attributes inner) nodes) s
    rw [Node.mapElements, ← h.elementOf_eq] at hpush
    rw [id, ← hpush]
    exact .pure _ _

theorem recordSiblings (h : Seen sees f c c') (s : Siblings) (nodes : List Markup.Node) :
    Recording.Shows sees (Siblings.mapElements f) (c.recordSiblings s nodes)
      (c'.addNodes (s.mapElements f) nodes) := by
  cases nodes with
  | nil => exact .pure _ _
  | cons node nodes =>
    rw [addNodes, Setting.recordSiblings]
    exact .bind (h.recordNode s node) fun t => h.recordSiblings t nodes

end

/-- All nodes of a template are recorded as they are read in such a setting. -/
theorem recordAll (h : Seen sees f c c') (nodes : List Markup.Node) :
    Recording.Shows sees (mapElementsOf f) (c.recordAll nodes) (c'.readAll nodes) := by
  rw [readAll_eq]
  exact .bind (h.recordSiblings .none nodes) h.finish

end Seen

/-- In a setting, everything is seen as it is read. -/
theorem seen_all (c : Setting) : Seen (fun _ => true) id c c where
  source_eq := rfl
  parser_eq := rfl
  elsewhere := rfl
  elementOf_eq _ _ _ _ _ := rfl
  errors_eq _ _ := rfl

/-- If no attribute is a binding list, no element has bindings, and no errors are found in values
of attributes. -/
theorem seen_unbound (source : Source) (options : ReadOptions) (parser : Script.Parser) :
    Seen (· == .elsewhere) Element.unbound ⟨source, options, parser⟩ ⟨source, ⟨[]⟩, parser⟩ := by
  have hnone (id : Nat) (a : Markup.Attribute) :
      attributeOutcomes ⟨source, ⟨[]⟩, parser⟩ id a = [] := by
    unfold attributeOutcomes
    split <;> rfl
  refine ⟨rfl, rfl, rfl, fun id range name attributes inner => ?_, fun id attributes => ?_⟩
  · have hbindings : attributes.flatMap (fun a =>
        (attributeOf ⟨source, ⟨[]⟩, parser⟩ id a).2) = [] := by
      simp [attributeOf, hnone, Binding.bindingsOf]
    rw [elementOf, hbindings]
    rfl
  · simp [attributeErrors, hnone, Binding.errorsOf]

end Setting

/-! ### Templates -/

@[simp] theorem SyntaxTree.mapElements_id (tree : SyntaxTree) : tree.mapElements id = tree := by
  rw [mapElements, mapElementsOf_id]

theorem Recorded.seen_all (r : Recorded) : r.seen (fun _ => true) id = r.template := by
  have hid : SyntaxTree.mapElements id = id := funext SyntaxTree.mapElements_id
  rw [seen, hid, Option.map_id, List.filter_eq_self.2 fun _ _ => rfl]
  rfl

namespace Template

/-- What is seen of a recorded template is what is read in a setting in which elements are read
as they are seen. -/
theorem read_eq_map_seen {sees : Origin → Bool} {f : Element → Element} {t : Text}
    {options options' : ReadOptions} (tokenizer : Markup.Tokenizer) {parser : Script.Parser}
    (h : Setting.Seen sees f ⟨.ofText t, options, parser⟩ ⟨.ofText t, options', parser⟩) :
    read t options' tokenizer parser =
      (record t options tokenizer parser).map (Recorded.seen sees f) := by
  unfold read record
  rcases Markup.Document.ofText tokenizer t with e | document
  · rfl
  · have hstart : Ledger.seen sees
        ⟨0, ((document.errors (.ofText t)).map (Entry.mk .elsewhere)).reverse⟩ =
        ⟨0, (document.errors (.ofText t)).reverse⟩ := by
      have hseen := Ledger.seen_append sees 0 .elsewhere (document.errors (.ofText t)).reverse []
      rw [if_pos h.elsewhere, List.append_nil, List.map_reverse] at hseen
      rw [hseen]
      exact congrArg (Progress.mk 0) (List.append_nil _)
    have hshow := h.recordAll document.nodes
      ⟨0, ((document.errors (.ofText t)).map (Entry.mk .elsewhere)).reverse⟩
    rw [hstart] at hshow
    simp only [bind, Except.bind, hshow]
    rcases (Setting.recordAll ⟨.ofText t, options, parser⟩ document.nodes).run.run _
      with ⟨e | nodes, l⟩
    · have hfatal : ((⟨.elsewhere, e⟩ :: l.entries).filter fun entry => sees entry.origin) =
          ⟨.elsewhere, e⟩ :: l.entries.filter fun entry => sees entry.origin :=
        List.filter_cons_of_pos h.elsewhere
      simp only [pure, Except.pure, Except.map, Recorded.seen, List.filter_reverse, hfatal,
        List.map_reverse]
      rfl
    · simp only [pure, Except.pure, Except.map, Recorded.seen, List.filter_reverse,
        List.map_reverse]
      rfl

/-- The options decide about nothing but the bindings of elements and the errors in the values of
attributes: all else that is read is the same for any two, whatever the tokenizer and the parser
are. -/
theorem outline_record (t : Text) (tokenizer : Markup.Tokenizer) (parser : Script.Parser) :
    (∀ options, read t options tokenizer parser =
        (record t options tokenizer parser).map Recorded.template) ∧
      ∀ options options', (record t options tokenizer parser).map Recorded.outline =
        (record t options' tokenizer parser).map Recorded.outline := by
  refine ⟨fun options => ?_, fun options options' => ?_⟩
  · rw [read_eq_map_seen tokenizer (Setting.seen_all ⟨.ofText t, options, parser⟩)]
    exact congrFun (congrArg Except.map (funext Recorded.seen_all)) _
  · have hunbound (options : ReadOptions) : read t ⟨[]⟩ tokenizer parser =
        (record t options tokenizer parser).map Recorded.outline :=
      read_eq_map_seen tokenizer (Setting.seen_unbound (.ofText t) options parser)
    rw [← hunbound, ← hunbound]

/-- A missing parameter is reported if its attribute is a binding list, a stray end tag always. -/
example :
    let origins (options : ReadOptions) :=
      (record "<p b=a:></p></q>".toList options).toOption.map (·.entries.map Entry.origin)
    origins { bindingAttributes := [['b']] } = some [.elsewhere, .attributeValue] ∧
      origins { bindingAttributes := [['c']] } = some [.elsewhere] := by
  decide +kernel

end Template

end BoundTemplate
