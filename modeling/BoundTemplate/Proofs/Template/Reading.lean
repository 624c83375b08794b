import BoundTemplate.Proofs.Markup.Completion
import BoundTemplate.Proofs.Template.Machine
import BoundTemplate.Template.Read

/-!
# What reading gives

Reading an element, a comment or an attribute never ends reading: each gives a value
and some errors, which are said here without the state of reading. Only the end of a
list of siblings can end reading. The errors that are found on the way are about
expressions, so they are neither errors of markup nor about comments that are missing.
-/

namespace BoundTemplate

namespace Reading

variable {α β : Type}

/-- A step behind another goes on with its result and its progress, or ends with it. -/
theorem run_bind (m : Reading α) (f : α → Reading β) (p : Progress) :
    (m >>= f).run.run p =
      match m.run.run p with
      | (.ok a, q) => (f a).run.run q
      | (.error e, q) => (.error e, q) := by
  change (match m.run.run p with
    | (r, q) => (ExceptT.bindCont f r).run q) = _
  rcases m.run.run p with ⟨e | a, q⟩ <;> rfl

@[simp] theorem run_pure (a : α) (p : Progress) : (pure a : Reading α).run.run p = (.ok a, p) := rfl

@[simp] theorem run_throw (e : ParseError) (p : Progress) :
    (throw e : Reading α).run.run p = (.error e, p) := rfl

@[simp] theorem run_newId (p : Progress) :
    newId.run.run p = (.ok p.nextId, { p with nextId := p.nextId + 1 }) := rfl

/-- A step that follows a step that succeeds. -/
theorem run_bind_ok {m : Reading α} {a : α} {p q : Progress} (f : α → Reading β)
    (h : m.run.run p = (.ok a, q)) : (m >>= f).run.run p = (f a).run.run q := by
  rw [run_bind, h]

/-- Two steps that succeed one after the other. -/
theorem exists_of_run_bind {m : Reading α} {f : α → Reading β} {b : β} {p r : Progress}
    (h : (m >>= f).run.run p = (.ok b, r)) :
    ∃ a q, m.run.run p = (.ok a, q) ∧ (f a).run.run q = (.ok b, r) := by
  rw [run_bind] at h
  rcases hm : m.run.run p with ⟨e | a, q⟩
  · rw [hm] at h
    cases h
  · rw [hm] at h
    exact ⟨a, q, rfl, h⟩

end Reading

/-- Progress with more errors. -/
def Progress.found (errors : List ParseError) (p : Progress) : Progress :=
  { p with errors := errors.reverse ++ p.errors }

/-- Progress past an element. -/
def Progress.numbered (p : Progress) : Progress := { p with nextId := p.nextId + 1 }

/-- Errors are found one after the other. -/
theorem Progress.found_append (a b : List ParseError) (p : Progress) :
    p.found (a ++ b) = (p.found a).found b := by
  simp only [found, List.reverse_append, List.append_assoc]

namespace Setting

variable (c : Setting)

/-! ### Attributes and elements -/

/-- What the value of an attribute gives as a binding list, if it is one. -/
def attributeOutcomes (owner : Nat) (a : Markup.Attribute) : List Binding.Outcome :=
  match a.value with
  | some (value, _) =>
    if c.options.isBindingAttribute (c.source.text.slice a.name) then
      Binding.readList c.parser c.source owner value
    else []
  | none => []

/-- The attribute that is read, and its bindings. -/
def attributeOf (owner : Nat) (a : Markup.Attribute) : Attribute × List Binding :=
  (⟨c.source.range a.range, c.source.piece a.name,
      a.value.map fun (span, quote) => ⟨c.source.text.slice span, c.source.range span, quote⟩,
      owner⟩,
    Binding.bindingsOf (c.attributeOutcomes owner a))

/-- The errors in the values of some attributes. -/
def attributeErrors (owner : Nat) (attributes : List Markup.Attribute) : List ParseError :=
  attributes.flatMap fun a => Binding.errorsOf (c.attributeOutcomes owner a)

theorem run_readAttribute (owner : Nat) (a : Markup.Attribute) (p : Progress) :
    (c.readAttribute owner a).run.run p =
      (.ok (c.attributeOf owner a), p.found (Binding.errorsOf (c.attributeOutcomes owner a))) := by
  obtain ⟨range, name, value⟩ := a
  rcases value with _ | ⟨value, quote⟩
  · rfl
  · by_cases h : c.options.isBindingAttribute (c.source.text.slice name)
    · simp only [readAttribute, attributeOf, attributeOutcomes, Source.piece, h, if_true]
      rfl
    · simp only [readAttribute, attributeOf, attributeOutcomes, Source.piece, h]
      rfl

theorem run_mapM_readAttribute (owner : Nat) (attributes : List Markup.Attribute) (p : Progress) :
    (attributes.mapM (c.readAttribute owner)).run.run p =
      (.ok (attributes.map (c.attributeOf owner)),
        p.found (c.attributeErrors owner attributes)) := by
  induction attributes generalizing p with
  | nil => rfl
  | cons a attributes ih =>
    rw [List.mapM_cons, Reading.run_bind_ok _ (c.run_readAttribute owner a p),
      Reading.run_bind_ok _ (ih _), Reading.run_pure, ← Progress.found_append]
    rfl

/-- The element that is read, its children apart. -/
def elementOf (id : Nat) (range name : Span) (attributes : List Markup.Attribute) (inner : Span) :
    Element :=
  { id
    range := c.source.range range
    name := c.source.piece name
    attributes := attributes.map fun a => (c.attributeOf id a).1
    bindings := attributes.flatMap fun a => (c.attributeOf id a).2
    inner := c.source.range inner }

theorem run_readElement (range name : Span) (attributes : List Markup.Attribute) (inner : Span)
    (p : Progress) :
    (c.readElement range name attributes inner).run.run p =
      (.ok (c.elementOf p.nextId range name attributes inner),
        p.numbered.found (c.attributeErrors p.nextId attributes)) := by
  rw [readElement, Reading.run_bind_ok _ (Reading.run_newId p),
    Reading.run_bind_ok _ (c.run_mapM_readAttribute _ _ _), Reading.run_pure]
  simp only [elementOf, List.map_map, List.flatMap_map]
  rfl

/-! ### Virtual elements -/

/-- What the expression of a virtual element means, and what is wrong with it. -/
def meaningOf (owner : Nat) (start : Delimiter.Start) : Meaning × List ParseError :=
  match start.space with
  | .ko =>
    let outcomes := Binding.readList c.parser c.source owner start.expression
    (.bindings (Binding.bindingsOf outcomes), Binding.errorsOf outcomes)
  | .ok =>
    let (meaning, error?) := Directive.read c.source start.expression
    (meaning, error?.toList)

/-- The virtual element that a comment begins. -/
def regionOf (id : Nat) (comment : Span) (start : Delimiter.Start) : OpenVirtual :=
  ⟨id, comment, start, (c.meaningOf id start).1, []⟩

theorem run_readMeaning (owner : Nat) (start : Delimiter.Start) (p : Progress) :
    (c.readMeaning owner start).run.run p =
      (.ok (c.meaningOf owner start).1, p.found (c.meaningOf owner start).2) := by
  unfold readMeaning meaningOf
  cases start.space <;> rfl

theorem run_enter (comment : Span) (start : Delimiter.Start) (p : Progress) :
    (c.enter comment start).run.run p =
      (.ok (c.regionOf p.nextId comment start),
        p.numbered.found (c.meaningOf p.nextId start).2) := by
  rw [enter, Reading.run_bind_ok _ (Reading.run_newId p),
    Reading.run_bind_ok _ (c.run_readMeaning _ _ _)]
  rfl

/-! ### Siblings -/

/-- What a comment says. -/
def content (span : Span) : Text := c.source.text.slice (Delimiter.contentSpan span)

/-- Whether what a comment says ends the innermost of some open virtual elements. -/
def Ends (regions : List OpenVirtual) (span : Span) : Prop :=
  ∃ region rest, regions = region :: rest ∧
    Delimiter.endOf? (c.content span) = some region.start.space

theorem startOf?_eq (span : Span) :
    c.startOf? span = Delimiter.Start.ofContent? (c.source.excerpt (Delimiter.contentSpan span)) :=
  rfl

theorem endComment?_eq (space : Namespace) (span : Span) :
    c.endComment? space (.comment span) =
      if Delimiter.endOf? (c.content span) = some space then some span else none :=
  rfl

/-- A comment that says the namespace of the innermost open virtual element ends it. -/
theorem run_addNode_leave {s : Siblings} {span : Span} {region : OpenVirtual}
    {regions : List OpenVirtual} (hr : s.regions = region :: regions)
    (he : Delimiter.endOf? (c.content span) = some region.start.space) (p : Progress) :
    (c.addNode s (.comment span)).run.run p =
      (.ok (({ s with regions := regions } : Siblings).push (c.leave region span)), p) := by
  obtain ⟨_, nodes⟩ := s
  cases hr
  rw [addNode_of_ends ((c.endComment?_eq _ span).trans (if_pos he)), Reading.run_pure]

/-- A comment that ends nothing is read for what it begins. -/
theorem addNode_of_not_ends {s : Siblings} {span : Span} (h : ¬c.Ends s.regions span) :
    c.addNode s (.comment span) = c.beginNode s (.comment span) := by
  obtain ⟨_ | ⟨region, regions⟩, nodes⟩ := s
  · rfl
  · refine addNode_of_goes_on ((c.endComment?_eq _ span).trans (if_neg fun he => ?_))
    exact h ⟨region, regions, rfl, he⟩

/-- A comment that ends nothing begins a virtual element if it says so. -/
theorem run_addNode_enter {s : Siblings} {span : Span} {start : Delimiter.Start}
    (h : ¬c.Ends s.regions span)
    (hs : Delimiter.Start.ofContent? (c.source.excerpt (Delimiter.contentSpan span)) = some start)
    (p : Progress) :
    (c.addNode s (.comment span)).run.run p =
      (.ok (s.enter (c.regionOf p.nextId span start)),
        p.numbered.found (c.meaningOf p.nextId start).2) := by
  rw [c.addNode_of_not_ends h, beginNode, startOf?_eq, hs]
  rw [Reading.run_bind_ok _ (c.run_enter span start p), Reading.run_pure]

/-- Any other comment is a node. -/
theorem run_addNode_comment {s : Siblings} {span : Span} (h : ¬c.Ends s.regions span)
    (hs : Delimiter.Start.ofContent? (c.source.excerpt (Delimiter.contentSpan span)) = none)
    (p : Progress) :
    (c.addNode s (.comment span)).run.run p = (.ok (s.push (c.comment span)), p) := by
  rw [c.addNode_of_not_ends h, beginNode, startOf?_eq, hs, Reading.run_pure]

/-- Only a comment ends a virtual element. -/
theorem addNode_of_not_comment {s : Siblings} {node : Markup.Node}
    (h : ∀ span, node ≠ .comment span) : c.addNode s node = c.beginNode s node := by
  obtain ⟨_ | ⟨region, regions⟩, nodes⟩ := s
  · rfl
  · cases node with
    | comment span => exact absurd rfl (h span)
    | text | element => rfl

theorem run_addNode_text (s : Siblings) (span : Span) (p : Progress) :
    (c.addNode s (.text span)).run.run p = (.ok (s.push (.text (c.source.piece span))), p) := by
  rw [c.addNode_of_not_comment (by simp), beginNode, Reading.run_pure]

/-- A list of siblings in which nothing is open gives its nodes. -/
theorem run_finish_nil {s : Siblings} (h : s.regions = []) (p : Progress) :
    (c.finish s).run.run p = (.ok s.nodes.reverse, p) := by
  simp only [finish, h, Reading.run_pure]

/-- A list of siblings in which a virtual element is open ends reading. -/
theorem run_finish_cons {s : Siblings} {region : OpenVirtual} {regions : List OpenVirtual}
    (h : s.regions = region :: regions) (p : Progress) :
    (c.finish s).run.run p = (.error ⟨c.source.range region.comment, .endCommentExpected⟩, p) := by
  simp only [finish, h, Reading.run_throw]

/-- An element is read behind its elders when its children are read. -/
theorem run_addNode_element (s : Siblings) (range name : Span) (attributes : List Markup.Attribute)
    (inner : Span) (children : List Markup.Node) (p : Progress) :
    (c.addNode s (.element range name attributes inner children)).run.run p =
      match (c.readAll children).run.run
          (p.numbered.found (c.attributeErrors p.nextId attributes)) with
      | (.ok nodes, q) =>
        (.ok (s.push (.element (c.elementOf p.nextId range name attributes inner) nodes)), q)
      | (.error e, q) => (.error e, q) := by
  rw [c.addNode_of_not_comment (by simp), beginNode,
    Reading.run_bind_ok _ (c.run_readElement range name attributes inner p), Reading.run_bind]
  rcases (c.readAll children).run.run _ with ⟨e | nodes, q⟩ <;> rfl

/-- Siblings are read one after the other. -/
theorem addNodes_append (s : Siblings) (a b : List Markup.Node) (p : Progress) :
    (c.addNodes s (a ++ b)).run.run p =
      (c.addNodes s a >>= fun s => c.addNodes s b).run.run p := by
  induction a generalizing s p with
  | nil => rfl
  | cons node a ih =>
    simp only [List.cons_append, addNodes, Reading.run_bind]
    rcases (c.addNode s node).run.run p with ⟨e | s', q⟩
    · rfl
    · simp only [ih, Reading.run_bind]

/-- The last of some siblings is read behind the others. -/
theorem exists_of_run_addNodes_concat {s s' : Siblings} {nodes : List Markup.Node}
    {node : Markup.Node} {p r : Progress}
    (h : (c.addNodes s (nodes ++ [node])).run.run p = (.ok s', r)) :
    ∃ t q, (c.addNodes s nodes).run.run p = (.ok t, q) ∧
      (c.addNode t node).run.run q = (.ok s', r) := by
  rw [addNodes_append] at h
  obtain ⟨t, q, ht, h⟩ := Reading.exists_of_run_bind h
  obtain ⟨u, v, hu, h⟩ := Reading.exists_of_run_bind h
  cases h
  exact ⟨t, q, ht, hu⟩

end Setting

/-! ### Siblings that are read -/

/-- What is read of some siblings of markup, latest first, that lie between two offsets with stray
end tags between them: how each of them goes behind its elders. -/
inductive Setting.Yields (c : Setting) :
    Nat → List Markup.Node → List Span → Nat → Siblings → Prop
  | nil (start : Nat) : Yields c start [] [] start .none
  | stray {start : Nat} {raws : List Markup.Node} {strays : List Span} {span : Span}
      {name others : Text} {s : Siblings} (elders : Yields c start raws strays span.start s)
      (holds : c.source.text.Holds span (Markup.Token.endTag name others).lexeme) :
      Yields c start raws (span :: strays) span.stop s
  | text {start : Nat} {raws : List Markup.Node} {strays : List Span} {span : Span} {part : Text}
      {s : Siblings} (elders : Yields c start raws strays span.start s)
      (holds : c.source.text.Holds span part) (ne : part ≠ [])
      (apart : ∀ last, raws.head? = some (.text last) → last.stop ≠ span.start) :
      Yields c start (.text span :: raws) strays span.stop (s.push (.text (c.source.piece span)))
  /-- A comment that ends the innermost open virtual element. -/
  | leave {start : Nat} {raws : List Markup.Node} {strays : List Span} {span : Span}
      {content : Text} {s : Siblings} {region : OpenVirtual} {regions : List OpenVirtual}
      (elders : Yields c start raws strays span.start s)
      (holds : c.source.text.Holds span (Markup.Token.comment content).lexeme)
      (regions_eq : s.regions = region :: regions) :
      Yields c start (.comment span :: raws) strays span.stop
        (({ s with regions := regions } : Siblings).push (c.leave region span))
  /-- A comment that begins a virtual element. -/
  | enter {start : Nat} {raws : List Markup.Node} {strays : List Span} {span : Span}
      {content : Text} {s : Siblings} {head : Delimiter.Start} (id : Nat)
      (elders : Yields c start raws strays span.start s)
      (holds : c.source.text.Holds span (Markup.Token.comment content).lexeme)
      (begins : Delimiter.Start.ofContent? (c.source.excerpt (Delimiter.contentSpan span)) =
        some head) :
      Yields c start (.comment span :: raws) strays span.stop (s.enter (c.regionOf id span head))
  /-- Any other comment. -/
  | comment {start : Nat} {raws : List Markup.Node} {strays : List Span} {span : Span}
      {content : Text} {s : Siblings} (elders : Yields c start raws strays span.start s)
      (holds : c.source.text.Holds span (Markup.Token.comment content).lexeme) :
      Yields c start (.comment span :: raws) strays span.stop (s.push (c.comment span))
  | element {start : Nat} {raws children : List Markup.Node} {strays inside : List Span}
      {range name inner : Span} {attributes : List Markup.Attribute} {s u : Siblings} (id : Nat)
      (elders : Yields c start raws strays range.start s)
      (tag : Markup.StartTag.IsRead c.source.text ⟨⟨range.start, inner.start⟩, name, attributes⟩)
      (content : Yields c inner.start children.reverse inside inner.stop u)
      (regions_eq : u.regions = []) (le : inner.stop ≤ range.stop)
      (ends : c.source.text.isBoundary range.stop = true) :
      Yields c start (.element range name attributes inner children :: raws) (inside ++ strays)
        range.stop (s.push (.element (c.elementOf id range name attributes inner) u.nodes.reverse))

namespace Setting

variable {c : Setting} {start stop : Nat} {raws : List Markup.Node} {strays : List Span}
  {s : Siblings}

/-- What is read has been laid out. -/
theorem Yields.layout (h : c.Yields start raws strays stop s) :
    Markup.Layout c.source.text start raws strays stop := by
  induction h with
  | nil start => exact .nil start
  | stray _ holds ih => exact .stray ih holds
  | text _ holds ne apart ih => exact .text ih holds ne apart
  | leave _ holds _ ih | enter _ _ holds _ ih | comment _ holds ih => exact .comment ih holds
  | element _ _ tag _ _ le ends ih ihc => exact .element ih tag ihc le ends

/-- A list of siblings in which nothing is open has been read to its end. -/
theorem exists_of_run_readAll {nodes : List Markup.Node} {result : List Node} {p q : Progress}
    (h : (c.readAll nodes).run.run p = (.ok result, q)) :
    ∃ s, (c.addNodes .none nodes).run.run p = (.ok s, q) ∧ s.regions = [] ∧
      result = s.nodes.reverse := by
  rw [readAll_eq] at h
  obtain ⟨s, r, hs, hf⟩ := Reading.exists_of_run_bind h
  rcases hregions : s.regions with _ | ⟨region, regions⟩
  · rw [c.run_finish_nil hregions] at hf
    cases hf
    exact ⟨s, hs, hregions, rfl⟩
  · rw [c.run_finish_cons hregions] at hf
    cases hf

/-- What reading gives for siblings that are laid out. -/
theorem yields_of_run (h : Markup.Layout c.source.text start raws strays stop) (p : Progress)
    {q : Progress} (hs : (c.addNodes .none raws.reverse).run.run p = (.ok s, q)) :
    c.Yields start raws strays stop s := by
  induction h generalizing p q s with
  | nil start =>
    cases hs
    exact .nil start
  | stray elders holds ih => exact .stray (ih p hs) holds
  | @text start raws strays span part elders holds ne apart ih =>
    rw [List.reverse_cons] at hs
    obtain ⟨t, r, ht, hs⟩ := c.exists_of_run_addNodes_concat hs
    rw [c.run_addNode_text] at hs
    cases hs
    exact .text (ih p ht) holds ne apart
  | @comment start raws strays span content elders holds ih =>
    rw [List.reverse_cons] at hs
    obtain ⟨t, r, ht, hs⟩ := c.exists_of_run_addNodes_concat hs
    have helders := ih p ht
    by_cases he : c.Ends t.regions span
    · obtain ⟨region, regions, hr, he⟩ := he
      rw [c.run_addNode_leave hr he] at hs
      cases hs
      exact .leave helders holds hr
    · rcases hstart : Delimiter.Start.ofContent? (c.source.excerpt (Delimiter.contentSpan span))
        with _ | head
      · rw [c.run_addNode_comment he hstart] at hs
        cases hs
        exact .comment helders holds
      · rw [c.run_addNode_enter he hstart] at hs
        cases hs
        exact .enter _ helders holds hstart
  | @element start raws children strays inside range name inner attributes elders tag content le
      ends ih ihc =>
    rw [List.reverse_cons] at hs
    obtain ⟨t, r, ht, hs⟩ := c.exists_of_run_addNodes_concat hs
    rw [c.run_addNode_element] at hs
    rcases hc : (c.readAll children).run.run
        (r.numbered.found (c.attributeErrors r.nextId attributes)) with ⟨e | nodes, r'⟩
    · rw [hc] at hs
      cases hs
    · rw [hc] at hs
      cases hs
      obtain ⟨u, hu, hregions, rfl⟩ := exists_of_run_readAll hc
      rw [← List.reverse_reverse children] at hu
      exact .element r.nextId (ih p ht) tag (ihc _ hu) hregions le ends

end Setting

/-! ### Errors on the way -/

/-- Whether a problem is one of an expression: a binding list or a directive. -/
def Problem.isOfExpression : Problem → Bool
  | markup _ | endCommentExpected => false
  | _ => true

namespace Binding

variable {parser : Script.Parser} {source : Source} {owner : Nat} {e : ParseError}

theorem isOfExpression_of_outcome {base : Nat} {property : Script.Outline.Property}
    (h : Object.outcome source owner base property = .error e) :
    e.problem.isOfExpression = true := by
  unfold Object.outcome refuse at h
  cases property with
  | spread span =>
    cases h
    rfl
  | entry span key form value =>
    dsimp only at h
    repeat' split at h
    all_goals cases h
    all_goals rfl

theorem isOfExpression_of_salvage {entry : Excerpt}
    (h : Salvage.read parser source owner entry = .error e) : e.problem.isOfExpression = true := by
  unfold Salvage.read refuse at h
  dsimp only at h
  repeat' split at h
  all_goals cases h
  all_goals rfl

theorem isOfExpression_of_failure {t : Text} {failure : Object.Failure}
    (h : Object.properties parser t = .error failure) : failure.problem.isOfExpression = true := by
  unfold Object.properties at h
  split at h
  · next diagnostics hread =>
    cases h
    cases diagnostics <;> rfl
  · split at h
    · cases h
    · cases h
      rfl

/-- A list that is not read as an object literal is none. -/
theorem Object.properties_of_read_eq_error {list : Excerpt} {failure : Failure}
    (h : read parser source owner list = .error failure) :
    properties parser list.text = .error failure := by
  unfold read at h
  rcases hps : properties parser list.text with failure' | ps
  · rw [hps] at h
    cases h
    rfl
  · rw [hps] at h
    cases h

theorem isOfExpression_of_read {list : Excerpt} {outcomes : List Outcome}
    (h : Object.read parser source owner list = .ok outcomes) (he : .error e ∈ outcomes) :
    e.problem.isOfExpression = true := by
  unfold Object.read at h
  rcases hp : Object.properties parser list.text with failure | properties
  · simp [hp, Except.map] at h
  · simp only [hp, Except.map, Except.ok.injEq] at h
    subst h
    obtain ⟨property, -, hq⟩ := List.mem_map.1 he
    exact isOfExpression_of_outcome hq

/-- What is wrong with a binding list is wrong with an expression. -/
theorem isOfExpression_of_readList {body : Span}
    (he : e ∈ errorsOf (readList parser source owner body)) : e.problem.isOfExpression = true := by
  have he : .error e ∈ readList parser source owner body := by
    obtain ⟨outcome, ho, heq⟩ := List.mem_filterMap.1 he
    cases outcome with
    | ok b => simp at heq
    | error e' =>
      cases heq
      exact ho
  unfold readList at he
  dsimp only at he
  split at he
  · simp at he
  · split at he
    · next outcomes h => exact isOfExpression_of_read h he
    · next failure h =>
      rcases List.mem_cons.1 he with heq | he
      · cases heq
        exact isOfExpression_of_failure (Object.properties_of_read_eq_error h)
      · obtain ⟨entry, -, he⟩ := List.mem_flatMap.1 he
        unfold readEntry at he
        split at he
        · next outcomes h => exact isOfExpression_of_read h he
        · exact isOfExpression_of_salvage (List.mem_singleton.1 he).symm

end Binding

/-- What is wrong with a directive is wrong with an expression. -/
theorem Directive.isOfExpression_of_read {source : Source} {expression : Span} {e : ParseError}
    (he : e ∈ (Directive.read source expression).2) : e.problem.isOfExpression = true := by
  unfold Directive.read at he
  split at he
  · cases he
    rfl
  · obtain ⟨failure, -, rfl⟩ := Option.map_eq_some_iff.1 he
    rfl

namespace Setting

variable (c : Setting)

theorem isOfExpression_of_attributeErrors {owner : Nat} {attributes : List Markup.Attribute}
    {e : ParseError} (he : e ∈ c.attributeErrors owner attributes) :
    e.problem.isOfExpression = true := by
  obtain ⟨a, -, he⟩ := List.mem_flatMap.1 he
  unfold attributeOutcomes at he
  repeat' split at he
  · exact Binding.isOfExpression_of_readList he
  · simp [Binding.errorsOf] at he
  · simp [Binding.errorsOf] at he

theorem isOfExpression_of_meaningOf {owner : Nat} {start : Delimiter.Start} {e : ParseError}
    (he : e ∈ (c.meaningOf owner start).2) : e.problem.isOfExpression = true := by
  unfold meaningOf at he
  split at he
  · exact Binding.isOfExpression_of_readList he
  · exact Directive.isOfExpression_of_read (Option.mem_toList.1 he)

/-- Progress that differs from another by errors of expressions only. -/
def Found (p q : Progress) : Prop :=
  ∃ more, q.errors = more ++ p.errors ∧ ∀ e ∈ more, e.problem.isOfExpression = true

theorem Found.refl (p : Progress) : Found p p := ⟨[], rfl, by simp⟩

theorem Found.trans {p q r : Progress} (h : Found p q) (h' : Found q r) : Found p r := by
  obtain ⟨more, hq, hm⟩ := h
  obtain ⟨more', hr, hm'⟩ := h'
  refine ⟨more' ++ more, by rw [hr, hq, List.append_assoc], ?_⟩
  intro e he
  rcases List.mem_append.1 he with he | he
  · exact hm' e he
  · exact hm e he

theorem Found.of_errors {errors : List ParseError} (p : Progress)
    (h : ∀ e ∈ errors, e.problem.isOfExpression = true) : Found p (p.numbered.found errors) :=
  ⟨errors.reverse, rfl, fun e he => h e (List.mem_reverse.1 he)⟩

mutual

/-- A node is read with errors of expressions only, and if reading ends in it, then for a comment
that is missing. -/
theorem found_addNode (s : Siblings) (node : Markup.Node) (p : Progress) :
    Found p ((c.addNode s node).run.run p).2 ∧
      ∀ e, ((c.addNode s node).run.run p).1 = .error e → e.problem = .endCommentExpected := by
  cases node with
  | text span =>
    rw [c.run_addNode_text]
    exact ⟨.refl p, by simp⟩
  | comment span =>
    by_cases h : c.Ends s.regions span
    · obtain ⟨region, regions, hr, he⟩ := h
      rw [c.run_addNode_leave hr he]
      exact ⟨.refl p, by simp⟩
    · rcases hs : Delimiter.Start.ofContent? (c.source.excerpt (Delimiter.contentSpan span))
        with _ | start
      · rw [c.run_addNode_comment h hs]
        exact ⟨.refl p, by simp⟩
      · rw [c.run_addNode_enter h hs]
        exact ⟨.of_errors p fun e he => c.isOfExpression_of_meaningOf he, by simp⟩
  | element range name attributes inner children =>
    rw [c.run_addNode_element]
    have hp : Found p (p.numbered.found (c.attributeErrors p.nextId attributes)) :=
      .of_errors p fun e he => c.isOfExpression_of_attributeErrors he
    obtain ⟨hq, he⟩ := found_readAll children
      (p.numbered.found (c.attributeErrors p.nextId attributes))
    revert hq he
    rcases (c.readAll children).run.run _ with ⟨e | nodes, q⟩
    · exact fun hq he => ⟨hp.trans hq, fun e' h => he e' (by cases h; rfl)⟩
    · exact fun hq _ => ⟨hp.trans hq, by simp⟩

theorem found_addNodes (s : Siblings) (nodes : List Markup.Node) (p : Progress) :
    Found p ((c.addNodes s nodes).run.run p).2 ∧
      ∀ e, ((c.addNodes s nodes).run.run p).1 = .error e → e.problem = .endCommentExpected := by
  cases nodes with
  | nil => exact ⟨.refl p, by rintro e ⟨⟩⟩
  | cons node nodes =>
    obtain ⟨hq, he⟩ := found_addNode s node p
    rw [addNodes, Reading.run_bind]
    revert hq he
    rcases (c.addNode s node).run.run p with ⟨e | s', q⟩
    · exact fun hq he => ⟨hq, he⟩
    · intro hq _
      obtain ⟨hr, he⟩ := found_addNodes s' nodes q
      exact ⟨hq.trans hr, he⟩

theorem found_readAll (nodes : List Markup.Node) (p : Progress) :
    Found p ((c.readAll nodes).run.run p).2 ∧
      ∀ e, ((c.readAll nodes).run.run p).1 = .error e → e.problem = .endCommentExpected := by
  obtain ⟨hq, he⟩ := found_addNodes .none nodes p
  rw [readAll_eq, Reading.run_bind]
  revert hq he
  rcases (c.addNodes .none nodes).run.run p with ⟨e | s', q⟩
  · exact fun hq he => ⟨hq, fun e' h => he e' (by cases h; rfl)⟩
  · intro hq _
    rcases hr : s'.regions with _ | ⟨region, regions⟩
    · simp only [c.run_finish_nil hr]
      exact ⟨hq, by simp⟩
    · simp only [c.run_finish_cons hr]
      exact ⟨hq, by rintro e ⟨⟩; rfl⟩

end

end Setting

/-! ### Templates -/

namespace Template

variable {tokenizer : Markup.Tokenizer} {parser : Script.Parser} {t : Text} {options : ReadOptions}

/-- A template without byte order marks is read. -/
theorem exists_read (tokenizer : Markup.Tokenizer) (parser : Script.Parser)
    (mark : Markup.byteOrderMark ∉ t) (options : ReadOptions) :
    ∃ template, Template.read t options tokenizer parser = .ok template := by
  obtain ⟨document, hd⟩ := Markup.Document.exists_ofText tokenizer mark
  simp only [read, hd, bind, Except.bind]
  rcases ((Setting.mk (.ofText t) options parser).readAll document.nodes).run.run
    ⟨0, (document.errors (.ofText t)).reverse⟩ with ⟨e | nodes, q⟩
  · exact ⟨_, rfl⟩
  · exact ⟨_, rfl⟩

/-- What is read of a template: the errors of its markup, behind them errors of expressions, and a
tree unless reading ends with one more error. -/
theorem exists_of_read {template : Template}
    (h : Template.read t options tokenizer parser = .ok template) :
    ∃ document more result q, Markup.Document.ofText tokenizer t = .ok document ∧
      ((Setting.mk (.ofText t) options parser).readAll document.nodes).run.run
        ⟨0, (document.errors (.ofText t)).reverse⟩ = (result, q) ∧
      (∀ e ∈ more, e.problem.isOfExpression = true) ∧
      match result with
      | .ok nodes => template = ⟨some ⟨nodes, (Source.ofText t).range ⟨0, t.size⟩,
          (Source.ofText t).table.style⟩, document.errors (.ofText t) ++ more⟩
      | .error e => template = ⟨none, document.errors (.ofText t) ++ more ++ [e]⟩ := by
  unfold read at h
  obtain ⟨document, hd, h⟩ := exists_of_bind_eq_ok h
  let start : Progress := ⟨0, (document.errors (.ofText t)).reverse⟩
  obtain ⟨⟨more, hq, hm⟩, -⟩ :=
    (Setting.mk (.ofText t) options parser).found_readAll document.nodes start
  have hmore : ∀ e ∈ more.reverse, e.problem.isOfExpression = true :=
    fun e he => hm e (List.mem_reverse.1 he)
  dsimp only at h
  rcases hr : ((Setting.mk (.ofText t) options parser).readAll document.nodes).run.run start
    with ⟨e | nodes, q⟩
  · rw [hr] at h hq
    cases h
    refine ⟨document, more.reverse, _, q, hd, hr, hmore, ?_⟩
    rw [hq, List.reverse_cons, List.reverse_append, List.reverse_reverse]
  · rw [hr] at h hq
    cases h
    refine ⟨document, more.reverse, _, q, hd, hr, hmore, ?_⟩
    rw [hq, List.reverse_append, List.reverse_reverse]

/-- What is read of a template without byte order marks that has a tree: siblings that are laid out
over all of the text give its nodes. -/
theorem exists_yields_of_read {tree : SyntaxTree} {errors : List ParseError}
    (mark : Markup.byteOrderMark ∉ t)
    (h : Template.read t options tokenizer parser = .ok ⟨some tree, errors⟩) :
    ∃ (document : Markup.Document) (more : List ParseError) (s : Siblings),
      Setting.Yields ⟨.ofText t, options, parser⟩ 0 document.nodes.reverse
        (Markup.strayTags document.problems).reverse t.size s ∧
      s.regions = [] ∧ tree.nodes = s.nodes.reverse ∧
      tree.range = (Source.ofText t).range ⟨0, t.size⟩ ∧
      errors = document.errors (.ofText t) ++ more ∧
      ∀ e ∈ more, e.problem.isOfExpression = true := by
  obtain ⟨document, more, result, q, hd, hq, hm, htemplate⟩ := exists_of_read h
  rcases result with e | nodes
  · cases htemplate
  · simp only [Template.mk.injEq, Option.some.injEq] at htemplate
    obtain ⟨rfl, rfl⟩ := htemplate
    obtain ⟨s, hs, hregions, rfl⟩ := Setting.exists_of_run_readAll hq
    rw [← List.reverse_reverse document.nodes] at hs
    have hyields := Setting.yields_of_run (c := ⟨.ofText t, options, parser⟩)
      (Markup.Document.layout mark hd) _ hs
    exact ⟨document, more, s, hyields, hregions, rfl, rfl, rfl, hm⟩

end Template

end BoundTemplate
