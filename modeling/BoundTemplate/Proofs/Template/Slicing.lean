import BoundTemplate.Proofs.Binding.Verbatim
import BoundTemplate.Proofs.Directive.Verbatim
import BoundTemplate.Proofs.Template.Reading

/-!
# Reading with slices that may fail

A template is read once more, in the same steps, but a slice that has no part to give ends
reading instead of giving the empty text. A step of this reading agrees with one of the
other if it never ends in this way and has its result and its progress.
-/

namespace BoundTemplate

/-- A step of reading that a slice without a part ends. -/
abbrev SlicedReading := ExceptT ParseError (StateT Progress Option)

/-- A step of reading that slices nothing. -/
def Reading.sliced {α : Type} (m : Reading α) : SlicedReading α :=
  ExceptT.mk fun p => some (m.run.run p)

namespace Setting

/-- The comment of a span as a node, if what it says is in the text. -/
def comment? (c : Setting) (span : Span) : Option Node := do
  return .comment
    ⟨← c.source.text.part? (Delimiter.contentSpan span), c.source.range span⟩

/-- Reads a binding list. -/
def readBindings? (c : Setting) (owner : Nat) (body : Span) : SlicedReading (List Binding) := do
  let outcomes ← Binding.readList? c.parser c.source owner body
  (Reading.report (Binding.errorsOf outcomes)).sliced
  return Binding.bindingsOf outcomes

/-- Reads the expression of a virtual element. -/
def readMeaning? (c : Setting) (owner : Nat) (start : Delimiter.Start) : SlicedReading Meaning :=
  match start.space with
  | .ko => return .bindings (← c.readBindings? owner start.expression)
  | .ok => do
    let (meaning, error?) ← Directive.read? c.source start.expression
    (Reading.report error?.toList).sliced
    return meaning

/-- The start of a virtual element, if a comment says one; what the comment says is in the text. -/
def start? (c : Setting) (comment : Span) : Option (Option Delimiter.Start) := do
  return Delimiter.Start.ofContent? (← c.source.excerpt? (Delimiter.contentSpan comment))

/-- The comment that a node is, if it ends a virtual element of a namespace; what the comment says
is in the text. -/
def end? (c : Setting) (space : Namespace) : Markup.Node → Option (Option Span)
  | .comment span => do
    let content ← c.source.text.part? (Delimiter.contentSpan span)
    return if Delimiter.endOf? content = some space then some span else none
  | _ => return none

/-- The virtual element between two comments, if its parts are in the text. -/
def virtual? (c : Setting) (id : Nat) (comment : Span) (start : Delimiter.Start)
    (meaning : Meaning) (children : List Node) (endComment : Span) : Option Node := do
  return .virtual
    { id
      range := c.source.range ⟨comment.start, endComment.stop⟩
      startComment := c.source.range comment
      endComment := c.source.range endComment
      space := ← c.source.piece? start.spaceSpan
      expression := ← c.source.piece? start.expression
      inner := c.source.range ⟨comment.stop, endComment.start⟩
      meaning }
    children

/-- The value of an attribute, if it is in the text. -/
def literal? (c : Setting) (value : Span × Quote) : Option Literal := do
  return ⟨← c.source.text.part? value.1, c.source.range value.1, value.2⟩

/-- Reads an attribute, and its bindings if it has any. -/
def readAttribute? (c : Setting) (owner : Nat) (a : Markup.Attribute) :
    SlicedReading (Attribute × List Binding) := do
  let name ← c.source.piece? a.name
  let value ← (a.value.mapM c.literal? : Option (Option Literal))
  let bindings ← match a.value with
    | some (value, _) =>
      if c.options.isBindingAttribute name.text then c.readBindings? owner value else pure []
    | none => pure []
  return (⟨c.source.range a.range, name, value, owner⟩, bindings)

/-- Reads an element, its children apart. -/
def readElement? (c : Setting) (range name : Span) (attributes : List Markup.Attribute)
    (inner : Span) : SlicedReading Element := do
  let id ← Reading.newId.sliced
  let parts ← attributes.mapM (c.readAttribute? id)
  return {
    id
    range := c.source.range range
    name := ← c.source.piece? name
    attributes := parts.map (·.1)
    bindings := parts.flatMap (·.2)
    inner := c.source.range inner }

mutual

/-- Reads some siblings. -/
def readAll? (c : Setting) : List Markup.Node → SlicedReading (List Node)
  | [] => return []
  | node :: siblings => do
    let ⟨first, rest, suffix⟩ ← c.readNode? node siblings
    have := sizeOf_le_of_suffix suffix
    return first :: (← c.readAll? rest)
termination_by nodes => 3 * sizeOf nodes + 1

/-- Reads a node and, if a virtual element starts there, those of its younger siblings that belong
to it. -/
def readNode? (c : Setting) (node : Markup.Node) (siblings : List Markup.Node) :
    SlicedReading (Left siblings Node) :=
  match node with
  | .text span => return ⟨.text (← c.source.piece? span), siblings, List.suffix_rfl⟩
  | .comment span => do
    match ← c.start? span with
    | some start => c.readVirtual? span start siblings
    | none => return ⟨← c.comment? span, siblings, List.suffix_rfl⟩
  | .element range name attributes inner children => do
    let element ← c.readElement? range name attributes inner
    let nodes ← c.readAll? children
    return ⟨.element element nodes, siblings, List.suffix_rfl⟩
termination_by 3 * sizeOf (node :: siblings)

/-- Reads the virtual element that starts with a comment in front of some siblings. -/
def readVirtual? (c : Setting) (comment : Span) (start : Delimiter.Start)
    (siblings : List Markup.Node) : SlicedReading (Left siblings Node) := do
  let id ← Reading.newId.sliced
  let _ ← c.source.piece? start.spaceSpan
  let meaning ← c.readMeaning? id start
  let ⟨(children, endComment), rest, suffix⟩ ← c.readChildren? comment start.space siblings
  return ⟨← c.virtual? id comment start meaning children endComment, rest, suffix⟩
termination_by 3 * sizeOf siblings + 2

/-- Reads the children of the virtual element of a namespace that starts with a comment, up to the
comment that ends it. -/
def readChildren? (c : Setting) (comment : Span) (space : Namespace) :
    (siblings : List Markup.Node) → SlicedReading (Left siblings (List Node × Span))
  | [] => throw ⟨c.source.range comment, .endCommentExpected⟩
  | node :: siblings => do
    match ← c.end? space node with
    | some endComment => return ⟨([], endComment), siblings, List.suffix_cons node siblings⟩
    | none => do
      let ⟨first, rest, suffix⟩ ← c.readNode? node siblings
      have := sizeOf_le_of_suffix suffix
      let ⟨(children, endComment), rest', suffix'⟩ ← c.readChildren? comment space rest
      return ⟨(first :: children, endComment), rest',
        (suffix'.trans suffix).trans (List.suffix_cons node siblings)⟩
termination_by siblings => 3 * sizeOf siblings + 1

end

end Setting

/-- Reads a template; there is none if a slice has no part to give. -/
def Template.read? (t : Text) (options : ReadOptions)
    (tokenizer : Markup.Tokenizer := .standard) (parser : Script.Parser := .standard) :
    Except LocationError (Option Template) := do
  let document ← Markup.Document.ofText tokenizer t
  let source := Source.ofText t
  let start : Progress := ⟨0, (document.errors source).reverse⟩
  return ((Setting.mk source options parser).readAll? document.nodes).run.run start |>.map fun
    | (.ok nodes, progress) =>
      ⟨some ⟨nodes, source.range ⟨0, t.size⟩, source.table.style⟩, progress.errors.reverse⟩
    | (.error fatal, progress) => ⟨none, (fatal :: progress.errors).reverse⟩

/-! ### Steps that agree -/

/-- A step that slices may end has the result and the progress of another, and what it gives has a
property. -/
def SlicedReading.Agrees {α : Type} (m? : SlicedReading α) (m : Reading α) (P : α → Prop) : Prop :=
  ∀ p, m?.run.run p = some (m.run.run p) ∧ ∀ a, (m.run.run p).1 = .ok a → P a

namespace SlicedReading.Agrees

variable {α β : Type} {m? : SlicedReading α} {m : Reading α} {P : α → Prop} {Q : β → Prop}

/-- Steps one after the other agree with steps one after the other. -/
theorem bind {f? : α → SlicedReading β} {f : α → Reading β} (h : Agrees m? m P)
    (hf : ∀ a, P a → Agrees (f? a) (f a) Q) : Agrees (m? >>= f?) (m >>= f) Q := by
  intro p
  obtain ⟨hm, hP⟩ := h p
  have hrun : (m? >>= f?).run.run p =
      (m?.run.run p).bind fun r => (ExceptT.bindCont f? r.1).run r.2 := rfl
  rw [hrun, hm, Reading.run_bind]
  rcases hr : m.run.run p with ⟨e | a, q⟩
  · exact ⟨rfl, by rintro b ⟨⟩⟩
  · exact hf a (hP a (by rw [hr])) q

theorem pure {a : α} (h : P a) : Agrees (Pure.pure a) (Pure.pure a) P :=
  fun p => ⟨rfl, by rintro b ⟨⟩; exact h⟩

/-- A part that is in the text is given. -/
theorem part {o? : Option α} {a : α} {f? : α → SlicedReading β} {f : Reading β}
    (ho : o? = some a) (h : Agrees (f? a) f Q) :
    Agrees ((liftM o? : SlicedReading α) >>= f?) f Q := by
  rw [ho]
  exact h

theorem throw (e : ParseError) : Agrees (throw e) (throw e) P :=
  fun p => ⟨rfl, by rintro a ⟨⟩⟩

/-- A step that slices nothing agrees with itself. -/
theorem sliced (h : ∀ p a, (m.run.run p).1 = .ok a → P a) : Agrees m.sliced m P :=
  fun p => ⟨rfl, h p⟩

/-- Steps for the items of a list agree if those for each item do. -/
theorem mapM {γ : Type} {f? : γ → SlicedReading α} {f : γ → Reading α} {items : List γ}
    (h : ∀ x ∈ items, Agrees (f? x) (f x) P) :
    Agrees (items.mapM f?) (items.mapM f) fun as => ∀ a ∈ as, P a := by
  induction items with
  | nil => exact pure (by simp)
  | cons x items ih =>
    rw [List.mapM_cons, List.mapM_cons]
    refine bind (h x List.mem_cons_self) fun a ha => ?_
    refine bind (ih fun y hy => h y (List.mem_cons_of_mem _ hy)) fun as has => ?_
    refine pure fun b hb => ?_
    rcases List.mem_cons.1 hb with rfl | hb
    · exact ha
    · exact has b hb

end SlicedReading.Agrees

end BoundTemplate
